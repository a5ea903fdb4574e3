/- Paths relative to a base directory, and the way back from them. -/

import Mathlib.Data.List.DropRight
import RetroArch.File.Pathname

namespace RetroArch.File.RelativePath

open Config Path Pathname

/-- What is left of a path and of a base behind the characters that they start with in common. -/
def trimCommon : Str → Str → Str × Str
  | c :: path, d :: base => if c = d then trimCommon path base else (c :: path, d :: base)
  | path, base => (path, base)

/-- `../` -/
def parent : Str := [dot, dot, slash]

/-- The loop that appends one `../` for each slash. -/
def climb (size : ℕ) (out trimmedBase : Str) : Str :=
  trimmedBase.foldl (fun out c => if c = slash then strlcat out parent size else out) out

def pathRelativeTo (path base : Str) (size : ℕ) : Str :=
  let trimmed := trimCommon path base
  strlcat (climb size [] trimmed.2) trimmed.1 size

def pathIsAbsolute (path : Str) : Bool := path.head? = some slash

def pathBasedir (path : Str) : Str :=
  if path.length < 2 then path
  else
    match findLastSlash path with
    | some last => path.take (path.length - last.length + 1)
    | none => [dot, slash]

def fillPathnameBasedir (inPath : Str) (size : ℕ) : Str := pathBasedir (strlcpy inPath size)

/-- `tmp` without its last segment. -/
def deleteSegment (tmp : Str) : Str := tmp.dropLast.rdropWhile (· ≠ slash)

/-- One round of the loop: `tmp` after a segment that ends in `next`, a slash or nothing. -/
def resolveSegment (tmp segment next : Str) : Option Str :=
  if segment = [dot, dot] then
    -- fail for illegal /.., //.. etc
    if tmp.length = 1 ∨ tmp.dropLast.getLast? = some slash then none else some (deleteSegment tmp)
  else if segment = [dot] then some tmp
  else if segment = [] then some tmp
  -- fail when truncating
  else if tmp.length + segment.length + 1 > pathMaxLength - 1 then none
  else some (tmp ++ segment ++ next)

def resolveLoop (tmp rest : Str) : Option Str :=
  match _h : rest.dropWhile (· ≠ slash) with
  | [] => resolveSegment tmp rest []
  | _ :: more =>
    (resolveSegment tmp (rest.takeWhile (· ≠ slash)) [slash]).bind fun tmp => resolveLoop tmp more
termination_by rest.length
decreasing_by
  have hlen := (List.dropWhile_suffix (l := rest) (· ≠ slash)).length_le
  rw [_h, List.length_cons] at hlen
  omega

/-- With `resolve_symlinks` off. Without a result the buffer is as it was; `cwd` is what `getcwd`
gives. -/
def pathResolveRealpath (cwd : Option Str) (buf : Str) (size : ℕ) : Option Str :=
  if pathIsAbsolute buf then
    (resolveLoop (buf.takeWhile (· = slash)) (buf.dropWhile (· = slash))).map (strlcpy · size)
  else
    cwd.bind fun cwd =>
      let tmp := if cwd.getLast? = some slash then cwd else cwd ++ [slash]
      if buf = [] then some (strlcpy tmp size) else (resolveLoop tmp buf).map (strlcpy · size)

def fillPathnameResolveRelative (cwd : Option Str) (inRefpath inPath : Str) (size : ℕ) : Str :=
  if pathIsAbsolute inPath then strlcpy inPath size
  else
    let outPath := strlcat (fillPathnameBasedir inRefpath size) inPath size
    (pathResolveRealpath cwd outPath size).getD outPath

/-- A segment that stands for itself. -/
structure Segment where
  text : Str
  unbroken : slash ∉ text
  nonempty : text ≠ []
  not_here : text ≠ [dot]
  not_parent : text ≠ [dot, dot]

/-- The segments, each with a slash behind it. -/
def joined (segments : List Segment) : Str := segments.flatMap fun s => s.text ++ [slash]

/-- An absolute path that ends in a slash. -/
structure Directory where
  segments : List Segment

def Directory.text (d : Directory) : Str := slash :: joined d.segments

/-- An absolute path, with or without a slash at its end. -/
structure AbsolutePath where
  directory : Directory
  name : Option Segment

def nameText (name : Option Segment) : Str := name.elim [] Segment.text

def AbsolutePath.text (p : AbsolutePath) : Str := p.directory.text ++ nameText p.name

/-- The characters that two strings start with in common. -/
def commonPart (path base : Str) : Str := path.take (path.length - (trimCommon path base).1.length)

/-- The first difference is at the start of a segment. -/
def OnBoundary (p : AbsolutePath) (b : Directory) : Prop :=
  (commonPart p.text b.text).getLast? = some slash

instance (p : AbsolutePath) (b : Directory) : Decidable (OnBoundary p b) :=
  inferInstanceAs (Decidable (_ = _))

section Trimming

variable {path base : Str} {size : ℕ}

theorem trimCommon_spec (path base : Str) :
    path = commonPart path base ++ (trimCommon path base).1 ∧
      base = commonPart path base ++ (trimCommon path base).2 := by
  have hcommon : ∃ c, path = c ++ (trimCommon path base).1 ∧
      base = c ++ (trimCommon path base).2 := by
    induction path, base using trimCommon.induct with
    | case1 path c base ih =>
      obtain ⟨front, hpath, hbase⟩ := ih
      refine ⟨c :: front, ?_, ?_⟩
      · rw [trimCommon, if_pos rfl, List.cons_append, ← hpath]
      · rw [trimCommon, if_pos rfl, List.cons_append, ← hbase]
    | case2 c path d base hne => exact ⟨[], by rw [trimCommon, if_neg hne]; exact ⟨rfl, rfl⟩⟩
    | case3 path base hend =>
      refine ⟨[], ?_⟩
      rw [trimCommon.eq_2 path base hend]
      exact ⟨rfl, rfl⟩
  obtain ⟨c, hpath, hbase⟩ := hcommon
  have hc : commonPart path base = c := by
    rw [commonPart]
    have hlen := congrArg List.length hpath
    rw [List.length_append] at hlen
    rw [hlen, Nat.add_sub_cancel]
    nth_rewrite 1 [hpath]
    exact List.take_left
  rw [hc]
  exact ⟨hpath, hbase⟩

theorem strlcat_fits {dst src : Str} (h : dst.length + src.length < size) :
    strlcat dst src size = dst ++ src := by
  rw [strlcat, List.take_of_length_le]
  omega

theorem strlcpy_fits {src : Str} (h : src.length < size) : strlcpy src size = src := by
  rw [strlcpy, List.take_of_length_le]
  omega

/-- `../` so many times. -/
def parents (n : ℕ) : Str := (List.replicate n parent).flatten

theorem length_parents (n : ℕ) : (parents n).length = 3 * n := by
  rw [parents, List.length_flatten, List.map_replicate, List.sum_replicate_nat]
  exact Nat.mul_comm _ _

theorem climb_fits (out : Str) (h : out.length + 3 * base.count slash < size) :
    climb size out base = out ++ parents (base.count slash) := by
  induction base generalizing out with
  | nil => simp [climb, parents]
  | cons c base ih =>
    rw [climb, List.foldl_cons]
    by_cases hc : c = slash
    · rw [if_pos hc]
      rw [hc, List.count_cons_self] at h ⊢
      rw [strlcat_fits (by simp only [parent, List.length_cons, List.length_nil]; omega)]
      rw [← climb, ih (out ++ parent) (by simp only [List.length_append, parent,
        List.length_cons, List.length_nil]; omega), List.append_assoc]
      simp [parents, List.replicate_succ]
    · rw [if_neg hc]
      rw [List.count_cons_of_ne hc] at h ⊢
      exact ih out h

theorem pathRelativeTo_fits (h : 3 * (trimCommon path base).2.count slash +
    (trimCommon path base).1.length < size) :
    pathRelativeTo path base size =
      parents ((trimCommon path base).2.count slash) ++ (trimCommon path base).1 := by
  rw [pathRelativeTo, climb_fits [] (by simp only [List.length_nil]; omega), List.nil_append]
  exact strlcat_fits (by rw [length_parents]; exact h)

end Trimming

section Segments

variable {tmp tmp' rest : Str}

theorem resolveLoop_slash {text : Str} (tmp rest : Str) (htext : slash ∉ text) :
    resolveLoop tmp (text ++ slash :: rest) =
      (resolveSegment tmp text [slash]).bind fun tmp => resolveLoop tmp rest := by
  have hall : ∀ c ∈ text, decide (c ≠ slash) = true := by
    intro c hc
    exact decide_eq_true (ne_of_mem_of_not_mem hc htext)
  have hdrop : (text ++ slash :: rest).dropWhile (· ≠ slash) = slash :: rest := by
    rw [List.dropWhile_append_of_pos hall, List.dropWhile_cons_of_neg (by simp)]
  have htake : (text ++ slash :: rest).takeWhile (· ≠ slash) = text := by
    rw [List.takeWhile_append_of_pos hall, List.takeWhile_cons_of_neg (by simp), List.append_nil]
  rw [resolveLoop]
  split
  · next h =>
      rw [hdrop] at h
      exact nomatch h
  · next h =>
      rw [hdrop] at h
      obtain ⟨-, rfl⟩ := List.cons.inj h
      rw [htake]

theorem resolveLoop_end {text : Str} (tmp : Str) (htext : slash ∉ text) :
    resolveLoop tmp text = resolveSegment tmp text [] := by
  have hdrop : text.dropWhile (· ≠ slash) = [] := by
    rw [List.dropWhile_eq_nil_iff]
    intro c hc
    exact decide_eq_true (ne_of_mem_of_not_mem hc htext)
  rw [resolveLoop]
  split
  · rfl
  · next h =>
      rw [hdrop] at h
      exact nomatch h

theorem resolveSegment_plain (s : Segment) (next : Str)
    (h : tmp.length + s.text.length + 1 < pathMaxLength) :
    resolveSegment tmp s.text next = some (tmp ++ s.text ++ next) := by
  rw [resolveSegment, if_neg s.not_parent, if_neg s.not_here, if_neg s.nonempty, if_neg]
  omega

theorem joined_cons (s : Segment) (segments : List Segment) :
    joined (s :: segments) = s.text ++ slash :: joined segments := by
  simp [joined]

theorem joined_append (segments more : List Segment) :
    joined (segments ++ more) = joined segments ++ joined more := List.flatMap_append

theorem resolveLoop_joined (segments : List Segment) (rest : Str)
    (h : tmp.length + (joined segments).length < pathMaxLength) :
    resolveLoop tmp (joined segments ++ rest) = resolveLoop (tmp ++ joined segments) rest := by
  induction segments generalizing tmp with
  | nil => simp [joined]
  | cons s segments ih =>
    rw [joined_cons] at h ⊢
    rw [List.length_append, List.length_cons] at h
    rw [List.append_assoc, List.cons_append, resolveLoop_slash _ _ s.unbroken,
      resolveSegment_plain s _ (by omega), Option.bind_some,
      ih (by simp only [List.length_append, List.length_singleton]; omega)]
    simp

theorem resolveLoop_name (name : Option Segment)
    (h : tmp.length + (nameText name).length + 1 < pathMaxLength) :
    resolveLoop tmp (nameText name) = some (tmp ++ nameText name) := by
  cases name with
  | none =>
    rw [nameText, Option.elim_none, resolveLoop_end _ List.not_mem_nil]
    simp [resolveSegment]
  | some s =>
    rw [nameText, Option.elim_some, resolveLoop_end _ s.unbroken]
    rw [resolveSegment_plain s [] h, List.append_nil]

theorem deleteSegment_spec (front : Str) (s : Segment) (hfront : front.getLast? = some slash) :
    deleteSegment (front ++ s.text ++ [slash]) = front := by
  obtain ⟨front, rfl⟩ := List.getLast?_eq_some_iff.mp hfront
  have hall : ∀ c ∈ s.text, decide (c ≠ slash) = true := by
    intro c hc
    exact decide_eq_true (ne_of_mem_of_not_mem hc s.unbroken)
  rw [deleteSegment, List.dropLast_concat, List.rdropWhile, List.reverse_append,
    List.dropWhile_append_of_pos (by simpa using hall), List.reverse_append,
    List.reverse_singleton, List.singleton_append, List.dropWhile_cons_of_neg (by simp)]
  simp

theorem length_deleteSegment_le (tmp : Str) : (deleteSegment tmp).length ≤ tmp.length := by
  have hcut := (List.rdropWhile_prefix (· ≠ slash) tmp.dropLast).length_le
  rw [List.length_dropLast] at hcut
  exact Nat.le_trans hcut (Nat.sub_le _ _)

theorem length_resolveSegment_le {segment next : Str}
    (h : resolveSegment tmp segment next = some tmp') :
    tmp'.length ≤ tmp.length + segment.length + next.length := by
  rw [resolveSegment] at h
  split_ifs at h
  · have hle := length_deleteSegment_le tmp
    rw [← Option.some.inj h]
    omega
  · rw [← Option.some.inj h]
    omega
  · rw [← Option.some.inj h]
    omega
  · rw [← Option.some.inj h, List.length_append, List.length_append]

theorem length_resolveLoop_le (tmp rest out : Str) (h : resolveLoop tmp rest = some out) :
    out.length ≤ tmp.length + rest.length := by
  fun_induction resolveLoop tmp rest with
  | case1 tmp rest hdrop => exact length_resolveSegment_le h
  | case2 tmp rest c more hdrop ih =>
    obtain ⟨middle, hsegment, hrest⟩ := Option.bind_eq_some_iff.mp h
    have hfirst := length_resolveSegment_le hsegment
    have hsecond := ih middle hrest
    have hlen := congrArg List.length
      (List.takeWhile_append_dropWhile (p := (· ≠ slash)) (l := rest))
    rw [List.length_append, hdrop, List.length_cons] at hlen
    rw [List.length_singleton] at hfirst
    omega

theorem count_joined (segments : List Segment) :
    (joined segments).count slash = segments.length := by
  induction segments with
  | nil => rfl
  | cons s segments ih =>
    rw [joined_cons, List.count_append, List.count_eq_zero_of_not_mem s.unbroken,
      List.count_cons_self, ih, List.length_cons, Nat.zero_add]

theorem count_text (d : Directory) : d.text.count slash = d.segments.length + 1 := by
  rw [Directory.text, List.count_cons_self, count_joined]

theorem getLast?_text (d : Directory) : d.text.getLast? = some slash := by
  rw [Directory.text]
  rcases List.eq_nil_or_concat' d.segments with hnil | ⟨init, s, hconcat⟩
  · rw [hnil]
    rfl
  · have hlast : joined [s] = s.text ++ [slash] := by simp [joined]
    rw [hconcat, joined_append, hlast, ← List.append_assoc, ← List.cons_append]
    exact List.getLast?_concat

/-- The directory so many segments below the root. -/
def Directory.upTo (d : Directory) (k : ℕ) : Directory := ⟨d.segments.take k⟩

theorem text_upTo (d : Directory) (k : ℕ) :
    d.text = (d.upTo k).text ++ joined (d.segments.drop k) := by
  rw [Directory.text, Directory.text, Directory.upTo, List.cons_append, ← joined_append,
    List.take_append_drop]

theorem text_concat (init : List Segment) (s : Segment) :
    (Directory.mk (init ++ [s])).text = (Directory.mk init).text ++ s.text ++ [slash] := by
  simp [Directory.text, joined]

theorem resolveSegment_parent (init : List Segment) (s : Segment) (next : Str) :
    resolveSegment (Directory.mk (init ++ [s])).text [dot, dot] next =
      some (Directory.mk init).text := by
  obtain ⟨start, c, hc⟩ := (List.eq_nil_or_concat' s.text).resolve_left s.nonempty
  have hplain : c ≠ slash := by
    rintro rfl
    exact s.unbroken (by rw [hc]; simp)
  have hlength : (Directory.mk init).text.length + s.text.length + 1 ≠ 1 := by
    have hpos := List.length_pos_iff.mpr s.nonempty
    omega
  rw [resolveSegment, if_pos rfl, text_concat, if_neg]
  · rw [deleteSegment_spec _ _ (getLast?_text _)]
  · rw [List.dropLast_concat, List.length_append, List.length_append, List.length_singleton]
    rintro (hone | hlast)
    · exact hlength hone
    · rw [hc, ← List.append_assoc, List.getLast?_concat] at hlast
      exact hplain (Option.some.inj hlast)

theorem resolveLoop_parents (n : ℕ) (segments : List Segment) (rest : Str)
    (h : n ≤ segments.length) :
    resolveLoop (Directory.mk segments).text (parents n ++ rest) =
      resolveLoop (Directory.mk (segments.take (segments.length - n))).text rest := by
  induction n generalizing segments with
  | zero => simp [parents]
  | succ n ih =>
    have hne : segments ≠ [] := List.ne_nil_of_length_pos (by omega)
    obtain ⟨init, s, rfl⟩ := (List.eq_nil_or_concat' segments).resolve_left hne
    rw [List.length_append, List.length_singleton] at h ⊢
    have hparents : parents (n + 1) ++ rest = [dot, dot] ++ slash :: (parents n ++ rest) := by
      simp [parents, List.replicate_succ, parent]
    rw [hparents, resolveLoop_slash _ _ (by decide), resolveSegment_parent, Option.bind_some,
      ih init (by omega), List.take_append_of_le_length (by omega)]
    congr 4
    omega

end Segments

theorem isPrefix_of_count {short long whole : Str} (hshort : short <+: whole)
    (hlong : long <+: whole) (hcount : short.count slash = long.count slash)
    (hend : short.getLast? = some slash) :
    ∃ tail, long = short ++ tail ∧ slash ∉ tail := by
  rcases List.prefix_or_prefix_of_prefix hshort hlong with ⟨tail, rfl⟩ | ⟨tail, rfl⟩
  · refine ⟨tail, rfl, ?_⟩
    rw [List.count_append] at hcount
    exact List.count_eq_zero.mp (by omega)
  · rw [List.count_append] at hcount
    have hnone : slash ∉ tail := List.count_eq_zero.mp (by omega)
    have htail : tail = [] := by
      by_contra hne
      rw [List.getLast?_append_of_ne_nil _ hne] at hend
      exact hnone (List.mem_of_getLast? hend)
    exact ⟨[], by rw [htail, List.append_nil, List.append_nil], List.not_mem_nil⟩

/-- A start of a path is the directory that its slashes count, and the start of one more segment. -/
theorem cut_at_directory {d : Directory} {name c rest : Str} (hname : slash ∉ name)
    (hcut : d.text ++ name = c ++ rest) (hne : c ≠ []) :
    ∃ k ≤ d.segments.length, c.count slash = k + 1 ∧
      ∃ tail, c = (d.upTo k).text ++ tail ∧ slash ∉ tail := by
  have hfirst : slash ∈ c := by
    obtain ⟨x, xs, rfl⟩ := List.exists_cons_of_ne_nil hne
    rw [Directory.text, List.cons_append, List.cons_append] at hcut
    rw [← (List.cons.inj hcut).1]
    exact List.mem_cons_self
  have hpos : 0 < c.count slash := List.count_pos_iff.mpr hfirst
  have htotal := congrArg (List.count slash) hcut
  rw [List.count_append, List.count_append, List.count_eq_zero_of_not_mem hname,
    count_text] at htotal
  refine ⟨c.count slash - 1, by omega, by omega, isPrefix_of_count ?_
    (hcut ▸ List.prefix_append c rest) ?_ (getLast?_text _)⟩
  · rw [text_upTo d (c.count slash - 1), List.append_assoc]
    exact List.prefix_append _ _
  · rw [count_text, Directory.upTo, List.length_take]
    omega

theorem eq_nil_of_boundary {d : Directory} {tail : Str} (htail : slash ∉ tail)
    (hend : (d.text ++ tail).getLast? = some slash) : tail = [] := by
  by_contra hne
  rw [List.getLast?_append_of_ne_nil _ hne] at hend
  exact htail (List.mem_of_getLast? hend)

theorem head?_joined (segments : List Segment) (rest : Str) (hrest : rest.head? ≠ some slash) :
    (joined segments ++ rest).head? ≠ some slash := by
  cases segments with
  | nil => exact hrest
  | cons s segments =>
    obtain ⟨c, cs, hc⟩ := List.exists_cons_of_ne_nil s.nonempty
    rw [joined_cons, hc, List.cons_append, List.cons_append, List.head?_cons]
    intro heq
    apply s.unbroken
    rw [hc, Option.some.inj heq]
    exact List.mem_cons_self

section Back

/-- The relative path joined with its base and normalised. -/
def wayBack (cwd : Option Str) (p : AbsolutePath) (b : Directory) (outSize size : ℕ) : Str :=
  fillPathnameResolveRelative cwd b.text (pathRelativeTo p.text b.text outSize) size

/-- The buffers are large enough: those for the relative path and for the joined one, and the one
on the stack. -/
structure Room (p : AbsolutePath) (b : Directory) (outSize size : ℕ) : Prop where
  relative : 3 * b.text.count slash + p.text.length < outSize
  joined : b.text.length + 3 * b.text.count slash + p.text.length < size
  base : b.text.length < pathMaxLength
  path : p.text.length + 1 < pathMaxLength

variable {cwd : Option Str} {p : AbsolutePath} {b : Directory} {outSize size : ℕ}

theorem slash_not_mem_name (p : AbsolutePath) : slash ∉ nameText p.name := by
  cases p.name with
  | none => exact List.not_mem_nil
  | some s => exact s.unbroken

theorem commonPart_ne_nil (p : AbsolutePath) (b : Directory) : commonPart p.text b.text ≠ [] := by
  intro hnil
  have hpath := (trimCommon_spec p.text b.text).1
  have hrest : (trimCommon (joined p.directory.segments ++ nameText p.name)
      (joined b.segments)).1 <:+ joined p.directory.segments ++ nameText p.name :=
    ⟨_, (trimCommon_spec _ _).1.symm⟩
  have hstep : trimCommon p.text b.text =
      trimCommon (joined p.directory.segments ++ nameText p.name) (joined b.segments) := by
    rw [AbsolutePath.text, Directory.text, Directory.text, List.cons_append, trimCommon, if_pos rfl]
  rw [hnil, List.nil_append, hstep] at hpath
  have hwhole := congrArg List.length hpath
  rw [AbsolutePath.text, Directory.text, List.cons_append, List.length_cons] at hwhole
  exact absurd hrest.length_le (by omega)

theorem strrchr_concat (c : UInt8) (front : Str) : strrchr c (front ++ [c]) = some [c] := by
  induction front with
  | nil => simp [strrchr]
  | cons d front ih => rw [List.cons_append, strrchr, ih]

theorem pathBasedir_text (b : Directory) : pathBasedir b.text = b.text := by
  rw [pathBasedir]
  split_ifs with hshort
  · rfl
  · obtain ⟨front, hfront⟩ := List.getLast?_eq_some_iff.mp (getLast?_text b)
    rw [findLastSlash, hfront, strrchr_concat]
    exact List.take_of_length_le (by simp)

theorem resolve_absolute (rest : Str) (hrest : rest.head? ≠ some slash) :
    pathResolveRealpath cwd (slash :: rest) size =
      (resolveLoop [slash] rest).map (strlcpy · size) := by
  have htake : (slash :: rest).takeWhile (· = slash) = [slash] := by
    rw [List.takeWhile_cons_of_pos (by simp)]
    cases rest with
    | nil => rfl
    | cons c rest => rw [List.takeWhile_cons_of_neg (by simpa using hrest)]
  have hdrop : (slash :: rest).dropWhile (· = slash) = rest := by
    rw [List.dropWhile_cons_of_pos (by simp)]
    cases rest with
    | nil => rfl
    | cons c rest => rw [List.dropWhile_cons_of_neg (by simpa using hrest)]
  rw [pathResolveRealpath, if_pos (by simp [pathIsAbsolute]), htake, hdrop]

/-- How the path and the base stand to what they have in common: the last directory of it is
reached by as many `../` as there are slashes in the rest of the base. -/
structure Split (p : AbsolutePath) (b : Directory) (k : ℕ) (front rest baseRest : Str) : Prop where
  path : p.text = front ++ rest
  base : b.text = front ++ baseRest
  inPath : ∃ tail, front = (p.directory.upTo k).text ++ tail ∧ slash ∉ tail
  inBase : ∃ tail, front = (b.upTo k).text ++ tail ∧ slash ∉ tail
  slashes : baseRest.count slash + k = b.segments.length

theorem split_exists (p : AbsolutePath) (b : Directory) :
    ∃ k, Split p b k (commonPart p.text b.text) (trimCommon p.text b.text).1
      (trimCommon p.text b.text).2 := by
  obtain ⟨hpath, hbase⟩ := trimCommon_spec p.text b.text
  have hne := commonPart_ne_nil p b
  obtain ⟨k, -, hk, hinPath⟩ := cut_at_directory (slash_not_mem_name p) hpath hne
  obtain ⟨k', -, hk', hinBase⟩ := cut_at_directory List.not_mem_nil
    ((List.append_nil _).trans hbase) hne
  obtain rfl : k = k' := Nat.succ.inj (hk.symm.trans hk')
  refine ⟨k, hpath, hbase, hinPath, hinBase, ?_⟩
  have htotal := congrArg (List.count slash) hbase
  rw [List.count_append, count_text] at htotal
  omega

variable {k : ℕ} {front rest baseRest : Str}

theorem Split.rest_eq (h : Split p b k front rest baseRest) (hend : front.getLast? = some slash) :
    front = (p.directory.upTo k).text ∧ front = (b.upTo k).text ∧
      rest = joined (p.directory.segments.drop k) ++ nameText p.name := by
  obtain ⟨tail, htail, hnone⟩ := h.inPath
  obtain ⟨tail', htail', hnone'⟩ := h.inBase
  have hnil := eq_nil_of_boundary hnone (htail ▸ hend)
  have hnil' := eq_nil_of_boundary hnone' (htail' ▸ hend)
  rw [hnil, List.append_nil] at htail
  rw [hnil', List.append_nil] at htail'
  refine ⟨htail, htail', ?_⟩
  have hpath := h.path
  rw [AbsolutePath.text, text_upTo p.directory k, ← htail, List.append_assoc] at hpath
  exact (List.append_cancel_left hpath).symm

theorem head?_name (p : AbsolutePath) : (nameText p.name).head? ≠ some slash := by
  intro hhead
  exact slash_not_mem_name p (List.mem_of_mem_head? hhead)

theorem Split.head? (h : Split p b k front rest baseRest) :
    (parents (baseRest.count slash) ++ rest).head? ≠ some slash := by
  cases hn : baseRest.count slash with
  | succ n => simp [parents, List.replicate_succ, parent, dot, slash]
  | zero =>
    have hbase : baseRest = [] := by
      by_contra hne
      have hlast := getLast?_text b
      rw [h.base, List.getLast?_append_of_ne_nil _ hne] at hlast
      exact List.count_eq_zero.mp hn (List.mem_of_getLast? hlast)
    have hend : front.getLast? = some slash := by
      rw [← getLast?_text b, h.base, hbase, List.append_nil]
    rw [(h.rest_eq hend).2.2]
    exact head?_joined _ _ (head?_name p)

theorem wayBack_eq (h : Split p b k (commonPart p.text b.text) (trimCommon p.text b.text).1
    (trimCommon p.text b.text).2) (hroom : Room p b outSize size) :
    wayBack cwd p b outSize size =
      ((resolveLoop (b.upTo k).text (trimCommon p.text b.text).1).map (strlcpy · size)).getD
        (b.text ++ (parents ((trimCommon p.text b.text).2.count slash) ++
          (trimCommon p.text b.text).1)) := by
  have hslashes : (trimCommon p.text b.text).2.count slash ≤ b.text.count slash :=
    (List.IsSuffix.sublist ⟨_, h.base.symm⟩).count_le slash
  have hrest : (trimCommon p.text b.text).1.length ≤ p.text.length :=
    (List.IsSuffix.sublist ⟨_, h.path.symm⟩).length_le
  have hrelative : pathRelativeTo p.text b.text outSize =
      parents ((trimCommon p.text b.text).2.count slash) ++ (trimCommon p.text b.text).1 := by
    have hfits := hroom.relative
    exact pathRelativeTo_fits (by omega)
  have hhead := h.head?
  generalize hrel : parents ((trimCommon p.text b.text).2.count slash) ++
    (trimCommon p.text b.text).1 = rel at hrelative hhead ⊢
  have hlength : rel.length ≤ 3 * b.text.count slash + p.text.length := by
    rw [← hrel, List.length_append, length_parents]
    omega
  have hfits := hroom.joined
  have hbasedir : fillPathnameBasedir b.text size = b.text := by
    rw [fillPathnameBasedir, strlcpy_fits (by omega), pathBasedir_text]
  have hresolve : resolveLoop [slash] (joined b.segments ++ rel) =
      resolveLoop (b.upTo k).text (trimCommon p.text b.text).1 := by
    have hbase := hroom.base
    rw [Directory.text, List.length_cons] at hbase
    have hdown : resolveLoop [slash] (joined b.segments ++ rel) =
        resolveLoop ([slash] ++ joined b.segments) rel :=
      resolveLoop_joined b.segments rel (by rw [List.length_singleton]; omega)
    have hup := resolveLoop_parents ((trimCommon p.text b.text).2.count slash) b.segments
      (trimCommon p.text b.text).1 (by have := h.slashes; omega)
    rw [hdown, ← hrel, List.singleton_append, ← Directory.text, hup, Directory.upTo]
    congr 4
    have := h.slashes
    omega
  rw [wayBack, hrelative, fillPathnameResolveRelative,
    if_neg (by simpa [pathIsAbsolute] using hhead), hbasedir, strlcat_fits (by omega)]
  have habsolute : pathResolveRealpath cwd (b.text ++ rel) size =
      (resolveLoop (b.upTo k).text (trimCommon p.text b.text).1).map (strlcpy · size) := by
    rw [← hresolve]
    exact resolve_absolute _ (head?_joined _ _ hhead)
  dsimp only
  rw [habsolute]

theorem leads_back (h : OnBoundary p b) (hroom : Room p b outSize size) :
    wayBack cwd p b outSize size = p.text := by
  obtain ⟨k, hsplit⟩ := split_exists p b
  obtain ⟨hfront, hfront', hrest⟩ := hsplit.rest_eq h
  have hpath := hsplit.path
  have hfits := hroom.path
  have hbuffer := hroom.joined
  rw [wayBack_eq hsplit hroom, ← hfront', hrest]
  rw [hrest] at hpath
  have hlength := congrArg List.length hpath
  rw [List.length_append, List.length_append] at hlength
  rw [resolveLoop_joined _ _ (by omega),
    resolveLoop_name _ (by rw [List.length_append]; omega), List.append_assoc, ← hpath,
    Option.map_some, Option.getD_some, strlcpy_fits (by omega)]

/-- What is found behind a boundary inside a segment is too short, and what is not found is too
long. -/
theorem not_leads_back (h : ¬ OnBoundary p b) (hroom : Room p b outSize size) :
    wayBack cwd p b outSize size ≠ p.text := by
  obtain ⟨k, hsplit⟩ := split_exists p b
  obtain ⟨tail, htail, -⟩ := hsplit.inBase
  have hne : tail ≠ [] := by
    rintro rfl
    apply h
    rw [OnBoundary, htail, List.append_nil]
    exact getLast?_text _
  have hpos := List.length_pos_iff.mpr hne
  have hfront := congrArg List.length htail
  have hpath := congrArg List.length hsplit.path
  have hbase := congrArg List.length hsplit.base
  rw [List.length_append] at hfront hpath hbase
  rw [wayBack_eq hsplit hroom]
  intro heq
  have hlength := congrArg List.length heq
  cases hloop : resolveLoop (b.upTo k).text (trimCommon p.text b.text).1 with
  | some out =>
    have hle := length_resolveLoop_le _ _ _ hloop
    have hcopy : (strlcpy out size).length ≤ out.length := by
      rw [strlcpy, List.length_take]
      exact Nat.min_le_right _ _
    rw [hloop, Option.map_some, Option.getD_some] at hlength
    omega
  | none =>
    have hbaseRest : (trimCommon p.text b.text).2 ≠ [] := by
      intro hnil
      apply h
      have hlast := getLast?_text b
      rw [hsplit.base, hnil, List.append_nil] at hlast
      exact hlast
    have hrestPos := List.length_pos_iff.mpr hbaseRest
    rw [hloop, Option.map_none, Option.getD_none, List.length_append, List.length_append]
      at hlength
    omega

theorem leads_back_iff (cwd : Option Str) (p : AbsolutePath) (b : Directory) (outSize size : ℕ)
    (hroom : Room p b outSize size) :
    wayBack cwd p b outSize size = p.text ↔ OnBoundary p b := by
  constructor
  · intro heq
    by_contra hne
    exact not_leads_back hne hroom heq
  · intro h
    exact leads_back h hroom

def segmentA : Segment := ⟨[97], by decide, by decide, by decide, by decide⟩

def segmentBX : Segment := ⟨[98, 120], by decide, by decide, by decide, by decide⟩

def segmentBCD : Segment := ⟨[98, 99, 100], by decide, by decide, by decide, by decide⟩

theorem sibling_leads_back :
    wayBack none ⟨⟨[segmentA]⟩, some segmentBCD⟩ ⟨[segmentA, segmentA]⟩ 100 100 =
      [47, 97, 47, 98, 99, 100] :=
  (leads_back_iff none ⟨⟨[segmentA]⟩, some segmentBCD⟩ ⟨[segmentA, segmentA]⟩ 100 100
    ⟨by decide, by decide, by decide, by decide⟩).mpr (by decide)

/-- `/a/bcd` relative to `/a/bx/` is `../cd`, and that leads to `/a/cd`. -/
theorem shared_letter_lost :
    ¬ ∀ (p : AbsolutePath) (b : Directory), Room p b 100 100 →
      wayBack none p b 100 100 = p.text := by
  intro h
  have hback := h ⟨⟨[segmentA]⟩, some segmentBCD⟩ ⟨[segmentA, segmentBX]⟩
    ⟨by decide, by decide, by decide, by decide⟩
  exact absurd hback (by decide +kernel)

end Back

end RetroArch.File.RelativePath
