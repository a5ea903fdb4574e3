/- Absolute paths resolved in a buffer: the loop over its segments, and the stack that it keeps. -/

import RetroArch.File.RelativePath
import RetroArch.Library.Memory

namespace RetroArch.File.RealPath

open Config Path Pathname RelativePath Library.Memory

/-- `while (tmp[t] != '/') t--` -/
def scanBack (tmp : List UInt8) : (t : ℕ) → Option ℕ
  | 0 => tmp[0]?.bind fun b => if b = slash then some 0 else none
  | t + 1 => tmp[t + 1]?.bind fun b => if b = slash then some (t + 1) else scanBack tmp t

/-- One round of the loop for a segment that `next` ends, a slash or the terminator. There is no
result where it leaves `tmp`, and `none` inside where `NULL` is returned. -/
def resolveRound (tmp : List UInt8) (t : ℕ) (segment : Str) (next : UInt8) :
    Option (Option (List UInt8 × ℕ)) :=
  if segment = [dot, dot] then
    if t = 1 then some none
    else if t = 0 then none
    else
      tmp[t - 2]?.bind fun b =>
        if b = slash then some none
        else (scanBack tmp (t - 2)).map fun t => some (tmp, t + 1)
  else if segment = [dot] then some (some (tmp, t))
  else if segment = [] then some (some (tmp, t))
  else if t + segment.length + 1 > pathMaxLength - 1 then some none
  else (pokes tmp t (segment ++ [next])).map fun tmp => some (tmp, t + segment.length + 1)

/-- `rest` is what lies from `p` on. -/
def resolveRounds (tmp : List UInt8) (t : ℕ) (rest : Str) : Option (Option (List UInt8 × ℕ)) :=
  match _h : rest.dropWhile (· ≠ slash) with
  | [] => resolveRound tmp t rest 0
  | _ :: more =>
    (resolveRound tmp t (rest.takeWhile (· ≠ slash)) slash).bind fun answer =>
      match answer with
      | none => some none
      | some (tmp, t) => resolveRounds tmp t more
termination_by rest.length
decreasing_by
  have hlen := (List.dropWhile_suffix (l := rest) (· ≠ slash)).length_le
  rw [_h, List.length_cons] at hlen
  omega

/-- For an absolute path, with the local buffer `tmp`; without a path the buffer is as it was. -/
def resolveRealpathIn (tmp : List UInt8) (buf : Str) (size : ℕ) : Option (Option Str) :=
  let root := buf.takeWhile (· = slash)
  (pokes tmp 0 root).bind fun tmp =>
    (resolveRounds tmp root.length (buf.dropWhile (· = slash))).bind fun answer =>
      match answer with
      | none => some none
      | some (tmp, t) => (poke tmp t 0).map fun tmp => some (strlcpy (cstr tmp) size)

/-- A segment that is kept. -/
def isPlain (piece : Str) : Bool := piece ≠ [] && piece ≠ [dot] && piece ≠ [dot, dot]

/-- The stack of segments after one more; there is none above the root. -/
def walk (stack : List Str) (piece : Str) : Option (List Str) :=
  if piece = [dot, dot] then if stack = [] then none else some stack.dropLast
  else if isPlain piece then some (stack ++ [piece])
  else some stack

/-- The segments, each with a slash behind it. -/
def asDirectory (stack : List Str) : Str := stack.flatMap fun piece => piece ++ [slash]

/-- The last slash is left out where the path ends in a segment that is kept. -/
def textOf (stack : List Str) (last : Str) : Str :=
  if isPlain last then (asDirectory stack).dropLast else asDirectory stack

/-- The segments of the path on a stack, behind the slashes that it starts with. -/
def resolved (path : Str) : Option Str :=
  let pieces := (path.dropWhile (· = slash)).splitOn slash
  (pieces.foldlM walk []).map fun stack =>
    path.takeWhile (· = slash) ++ textOf stack (pieces.getLast?.getD [])

/-- The last segment with the terminator, which is copied like a slash, does not fit. -/
def TooLong (text : Str) : Prop := text.getLast? ≠ some slash ∧ pathMaxLength ≤ text.length + 1

instance (text : Str) : Decidable (TooLong text) := inferInstanceAs (Decidable (_ ∧ _))

/-- Nothing outside `tmp` is accessed; without a path a segment leads above the root or the path is
too long, and otherwise the path is what is on the stack, and resolving it again changes nothing. -/
def Exact (tmp : List UInt8) (path : Str) : Prop :=
  ∃ answer, resolveRealpathIn tmp path pathMaxLength = some answer ∧
    (answer = none ↔ ∀ text, resolved path = some text → TooLong text) ∧
      ∀ text, answer = some text → resolved path = some text ∧
        resolveRealpathIn tmp text pathMaxLength = some (some text)

section Buffer

variable {tmp : List UInt8} {out text segment rest : Str} {next : UInt8}

/-- What the buffer holds from its start is `out`, an absolute path. -/
structure Holds (tmp : List UInt8) (out : Str) : Prop where
  stored : out <+: tmp
  length : tmp.length = pathMaxLength
  absolute : out.head? = some slash
  fits : out.length < pathMaxLength

theorem pokes_stored (h : out <+: tmp) (xs : Str) (hfits : out.length + xs.length ≤ tmp.length) :
    ∃ tmp', pokes tmp out.length xs = some tmp' ∧ out ++ xs <+: tmp' := by
  obtain ⟨tail, rfl⟩ := h
  refine ⟨out ++ xs ++ (out ++ tail).drop (out.length + xs.length), ?_, List.prefix_append _ _⟩
  rw [pokes, if_pos hfits, List.take_left]

theorem head?_rdropWhile (h : text.head? = some slash) :
    (text.rdropWhile (· ≠ slash)).head? = some slash := by
  induction text using List.reverseRecOn with
  | nil => exact h
  | append_singleton init c ih =>
    by_cases hc : c = slash
    · rw [List.rdropWhile_concat_neg _ _ _ (by simpa using hc)]
      exact h
    · rw [List.rdropWhile_concat_pos _ _ _ (by simpa using hc)]
      apply ih
      cases init with
      | nil => exact absurd (Option.some.inj h) hc
      | cons d init => exact h

theorem scanBack_stored (h : text <+: tmp) (hhead : text.head? = some slash) :
    scanBack tmp (text.length - 1) = some ((text.rdropWhile (· ≠ slash)).length - 1) := by
  induction text using List.reverseRecOn with
  | nil => exact nomatch hhead
  | append_singleton init c ih =>
    have hget : tmp[init.length]? = some c := by
      obtain ⟨tail, rfl⟩ := h
      rw [List.append_assoc, List.getElem?_append_right (Nat.le_refl _), Nat.sub_self]
      rfl
    rw [List.length_append, List.length_singleton, Nat.add_sub_cancel]
    by_cases hc : c = slash
    · rw [List.rdropWhile_concat_neg _ _ _ (by simpa using hc), List.length_append,
        List.length_singleton, Nat.add_sub_cancel]
      rcases hlen : init.length with _ | k
      · rw [scanBack, ← hlen, hget, Option.bind_some, if_pos hc, hlen]
      · rw [scanBack, ← hlen, hget, Option.bind_some, if_pos hc]
    · rw [List.rdropWhile_concat_pos _ _ _ (by simpa using hc)]
      cases init with
      | nil => exact absurd (Option.some.inj hhead) hc
      | cons d init =>
        have hinit := ih ((List.prefix_append _ _).trans h) hhead
        rw [List.length_cons, scanBack, ← List.length_cons (a := d), hget, Option.bind_some,
          if_neg hc]
        exact hinit

/-- The loop answers what the path becomes, which the buffer then holds. -/
def Follows (answer : Option (Option (List UInt8 × ℕ))) : Option Str → Prop
  | none => answer = some none
  | some out => ∃ tmp, answer = some (some (tmp, out.length)) ∧ Holds tmp out

theorem resolveRound_climb (h : Holds tmp out) (next : UInt8) :
    Follows (resolveRound tmp out.length [dot, dot] next)
      (resolveSegment out [dot, dot] [next]) := by
  have hpos : out.length ≠ 0 := by
    rcases out with _ | ⟨c, out⟩
    · exact nomatch h.absolute
    · exact Nat.succ_ne_zero _
  rw [resolveSegment, if_pos rfl, resolveRound, if_pos rfl]
  by_cases hone : out.length = 1
  · rw [if_pos (Or.inl hone), if_pos hone]
    rfl
  have hget : tmp[out.length - 2]? = out.dropLast.getLast? := by
    rw [List.getLast?_eq_getElem?, List.length_dropLast, List.getElem?_dropLast,
      if_pos (by omega), Nat.sub_sub]
    obtain ⟨tail, rfl⟩ := h.stored
    exact List.getElem?_append_left (by omega)
  have hcut : out.dropLast.head? = some slash := by
    rw [← h.absolute, List.head?_eq_getElem?, List.head?_eq_getElem?, List.getElem?_dropLast,
      if_pos (by omega)]
  obtain ⟨b, hb⟩ : ∃ b, out.dropLast.getLast? = some b := by
    rcases List.eq_nil_or_concat' out.dropLast with hnil | ⟨init, b, hinit⟩
    · rw [hnil] at hcut
      exact nomatch hcut
    · exact ⟨b, by rw [hinit, List.getLast?_concat]⟩
  rw [if_neg hone, if_neg hpos, hget, hb, Option.bind_some]
  by_cases hslash : b = slash
  · rw [if_pos (Or.inr (congrArg some hslash)), if_pos hslash]
    rfl
  · have hkeep : ¬(out.length = 1 ∨ some b = some slash) := by
      rintro (hlen | hend)
      · exact hone hlen
      · exact hslash (Option.some.inj hend)
    have hhead := head?_rdropWhile hcut
    have hleft : 0 < (deleteSegment out).length :=
      List.length_pos_of_mem (List.mem_of_head? hhead)
    have hscan := scanBack_stored ((List.dropLast_prefix out).trans h.stored) hcut
    rw [List.length_dropLast, Nat.sub_sub] at hscan
    rw [if_neg hkeep, if_neg hslash, hscan, Option.map_some, ← deleteSegment,
      Nat.sub_add_cancel hleft]
    have hstored : deleteSegment out <+: tmp :=
      ((List.rdropWhile_prefix _ _).trans (List.dropLast_prefix out)).trans h.stored
    exact ⟨tmp, rfl, hstored, h.length, hhead,
      Nat.lt_of_le_of_lt (length_deleteSegment_le out) h.fits⟩

theorem resolveRound_follows (h : Holds tmp out) (segment : Str) (next : UInt8) :
    Follows (resolveRound tmp out.length segment next) (resolveSegment out segment [next]) := by
  by_cases hparent : segment = [dot, dot]
  · rw [hparent]
    exact resolveRound_climb h next
  rw [resolveSegment, if_neg hparent, resolveRound, if_neg hparent]
  by_cases hhere : segment = [dot]
  · rw [if_pos hhere, if_pos hhere]
    exact ⟨tmp, rfl, h⟩
  by_cases hempty : segment = []
  · rw [if_neg hhere, if_neg hhere, if_pos hempty, if_pos hempty]
    exact ⟨tmp, rfl, h⟩
  rw [if_neg hhere, if_neg hhere, if_neg hempty, if_neg hempty]
  by_cases hlong : out.length + segment.length + 1 > pathMaxLength - 1
  · rw [if_pos hlong, if_pos hlong]
    rfl
  · have hadded : (segment ++ [next]).length = segment.length + 1 := by
      rw [List.length_append, List.length_singleton]
    obtain ⟨tmp', hpokes, hstored⟩ := pokes_stored h.stored (segment ++ [next])
      (by rw [h.length, hadded]; omega)
    rw [if_neg hlong, if_neg hlong, hpokes, Option.map_some, List.append_assoc]
    refine ⟨tmp', ?_, hstored, (length_pokes hpokes).trans h.length, ?_, ?_⟩
    · rw [List.length_append, hadded, Nat.add_assoc]
    · rw [List.head?_append, h.absolute, Option.some_or]
    · rw [List.length_append, hadded]
      omega

/-- The loop answers the path that the buffer is once it is terminated. -/
def Ends (answer : Option (Option (List UInt8 × ℕ))) : Option Str → Prop
  | none => answer = some none
  | some text => ∃ tmp t tmp', answer = some (some (tmp, t)) ∧ poke tmp t 0 = some tmp' ∧
      cstr tmp' = cstr text

theorem cstr_terminated (text tail : Str) : cstr (text ++ 0 :: tail) = cstr text := by
  rw [cstr, cstr, List.takeWhile_append, List.takeWhile_cons_of_neg (by simp), List.append_nil]
  split_ifs with hlen
  · exact ((List.takeWhile_prefix _).eq_of_length hlen).symm
  · rfl

theorem ends_of_follows {answer : Option (Option (List UInt8 × ℕ))} {text : Option Str}
    (h : Follows answer text) : Ends answer text := by
  cases text with
  | none => exact h
  | some out =>
    obtain ⟨tmp, hanswer, hholds⟩ := h
    have hlt : out.length < tmp.length := by
      rw [hholds.length]
      exact hholds.fits
    obtain ⟨tail, rfl⟩ := hholds.stored
    refine ⟨out ++ tail, out.length, _, hanswer, poke_of_lt hlt 0, ?_⟩
    rcases tail with _ | ⟨b, tail⟩
    · rw [List.append_nil] at hlt
      exact absurd hlt (Nat.lt_irrefl _)
    · rw [List.set_append_right _ _ (Nat.le_refl _), Nat.sub_self, List.set_cons_zero]
      exact cstr_terminated out tail

theorem ends_congr {answer : Option (Option (List UInt8 × ℕ))} {a b : Option Str}
    (h : Ends answer a) (hab : a.map cstr = b.map cstr) : Ends answer b := by
  cases a with
  | none =>
    cases b with
    | none => exact h
    | some b => exact nomatch hab
  | some a =>
    cases b with
    | none => exact nomatch hab
    | some b =>
      obtain ⟨tmp, t, tmp', hanswer, hpoke, hcstr⟩ := h
      exact ⟨tmp, t, tmp', hanswer, hpoke, hcstr.trans (Option.some.inj hab)⟩

theorem resolveRound_ends (h : Holds tmp out) (segment : Str) :
    Ends (resolveRound tmp out.length segment 0) (resolveSegment out segment []) := by
  apply ends_congr (ends_of_follows (resolveRound_follows h segment 0))
  rw [resolveSegment, resolveSegment]
  split_ifs
  · rfl
  · rfl
  · rfl
  · rfl
  · rfl
  · rw [List.append_nil, Option.map_some, Option.map_some, cstr_terminated]

theorem resolveRounds_ends (h : Holds tmp out) :
    Ends (resolveRounds tmp out.length rest) (resolveLoop out rest) := by
  fun_induction resolveLoop out rest generalizing tmp with
  | case1 out rest hdrop =>
    rw [resolveRounds]
    split
    · exact resolveRound_ends h rest
    · next hmore =>
        rw [hdrop] at hmore
        cases hmore
  | case2 out rest c more hdrop ih =>
    rw [resolveRounds]
    split
    · next hend =>
        rw [hdrop] at hend
        cases hend
    · next hmore =>
        rw [hdrop] at hmore
        obtain ⟨-, rfl⟩ := List.cons.inj hmore
        have hround := resolveRound_follows h (rest.takeWhile (· ≠ slash)) slash
        cases hsegment : resolveSegment out (rest.takeWhile (· ≠ slash)) [slash] with
        | none =>
          rw [hsegment] at hround
          rw [show resolveRound tmp out.length _ slash = some none from hround]
          rfl
        | some out' =>
          rw [hsegment] at hround
          obtain ⟨tmp', hanswer, hholds⟩ := hround
          rw [hanswer]
          exact ih out' hholds

theorem not_mem_resolveSegment {out' segment next : Str} (hout : 0 ∉ out) (hsegment : 0 ∉ segment)
    (hnext : 0 ∉ next) (h : resolveSegment out segment next = some out') : 0 ∉ out' := by
  rw [resolveSegment] at h
  split_ifs at h
  · obtain rfl := Option.some.inj h
    intro hmem
    exact hout (List.dropLast_subset out ((List.rdropWhile_prefix _ _).subset hmem))
  · exact Option.some.inj h ▸ hout
  · exact Option.some.inj h ▸ hout
  · obtain rfl := Option.some.inj h
    simp [hout, hsegment, hnext]

theorem not_mem_resolveLoop (hout : 0 ∉ out) (hrest : 0 ∉ rest)
    (h : resolveLoop out rest = some text) : 0 ∉ text := by
  fun_induction resolveLoop out rest with
  | case1 out rest hdrop => exact not_mem_resolveSegment hout hrest List.not_mem_nil h
  | case2 out rest c more hdrop ih =>
    obtain ⟨out', hsegment, hloop⟩ := Option.bind_eq_some_iff.mp h
    apply ih out' _ _ hloop
    · apply not_mem_resolveSegment hout _ _ hsegment
      · exact fun hmem => hrest (List.takeWhile_subset _ hmem)
      · exact fun hmem => absurd (List.mem_singleton.mp hmem) (by decide)
    · intro hmem
      apply hrest (List.dropWhile_subset (· ≠ slash) _)
      rw [hdrop]
      exact List.mem_cons_of_mem c hmem

theorem resolveRealpathIn_loop {path : Str} (htmp : tmp.length = pathMaxLength)
    (habsolute : path.head? = some slash) (hpath : 0 ∉ path)
    (hshort : path.length < pathMaxLength) :
    resolveRealpathIn tmp path pathMaxLength =
      some (resolveLoop (path.takeWhile (· = slash)) (path.dropWhile (· = slash))) := by
  have hroot : (path.takeWhile (· = slash)).length ≤ path.length :=
    (List.takeWhile_prefix _).length_le
  have hhead : (path.takeWhile (· = slash)).head? = some slash := by
    rcases path with _ | ⟨c, path⟩
    · exact nomatch habsolute
    · obtain rfl := Option.some.inj habsolute
      rw [List.takeWhile_cons_of_pos (by simp)]
      rfl
  obtain ⟨tmp', hpokes, hstored⟩ := pokes_stored (List.nil_prefix (l := tmp))
    (path.takeWhile (· = slash)) (by rw [List.length_nil]; omega)
  have hholds : Holds tmp' (path.takeWhile (· = slash)) :=
    ⟨hstored, (length_pokes hpokes).trans htmp, hhead, by omega⟩
  have hends : Ends (resolveRounds tmp' _ (path.dropWhile (· = slash))) _ :=
    resolveRounds_ends hholds
  rw [List.length_nil] at hpokes
  rw [resolveRealpathIn, hpokes, Option.bind_some]
  cases hloop : resolveLoop (path.takeWhile (· = slash)) (path.dropWhile (· = slash)) with
  | none =>
    rw [hloop] at hends
    rw [show resolveRounds _ _ _ = some none from hends]
    rfl
  | some text =>
    rw [hloop] at hends
    obtain ⟨tmp₁, t, tmp₂, hanswer, hpoke, hcstr⟩ := hends
    have hclean : 0 ∉ text := by
      apply not_mem_resolveLoop _ _ hloop
      · exact fun hmem => hpath (List.takeWhile_subset _ hmem)
      · exact fun hmem => hpath (List.dropWhile_subset _ hmem)
    have hlen := length_resolveLoop_le _ _ _ hloop
    have hwhole := congrArg List.length
      (List.takeWhile_append_dropWhile (p := (· = slash)) (l := path))
    rw [List.length_append] at hwhole
    have hwithout : cstr text = text := by
      rw [cstr, List.takeWhile_eq_self_iff]
      exact fun c hc => decide_eq_true (ne_of_mem_of_not_mem hc hclean)
    rw [hanswer, Option.bind_some]
    change (poke tmp₁ t 0).map _ = _
    rw [hpoke, Option.map_some, hcstr, hwithout, strlcpy_fits (by omega)]

end Buffer

section Stack

variable {root text : Str} {stack : List Str} {piece : Str}

/-- Every segment on the stack is one that is kept. -/
def Kept (stack : List Str) : Prop := ∀ piece ∈ stack, isPlain piece ∧ slash ∉ piece

theorem isPlain_iff : isPlain piece ↔ piece ≠ [] ∧ piece ≠ [dot] ∧ piece ≠ [dot, dot] := by
  simp [isPlain, and_assoc]

theorem walk_kept {stack' : List Str} (h : Kept stack) (hpiece : slash ∉ piece)
    (hwalk : walk stack piece = some stack') : Kept stack' := by
  rw [walk] at hwalk
  split_ifs at hwalk with hparent hempty hplain
  · obtain rfl := Option.some.inj hwalk
    intro other hother
    exact h other (List.dropLast_subset stack hother)
  · obtain rfl := Option.some.inj hwalk
    intro other hother
    rcases List.mem_append.mp hother with hold | hnew
    · exact h other hold
    · rw [List.mem_singleton.mp hnew]
      exact ⟨hplain, hpiece⟩
  · obtain rfl := Option.some.inj hwalk
    exact h

theorem getLast?_segment (front : Str) (hempty : piece ≠ []) (hpiece : slash ∉ piece) :
    (front ++ piece).getLast? ≠ some slash := by
  obtain ⟨start, c, hc⟩ := (List.eq_nil_or_concat' piece).resolve_left hempty
  rw [hc, ← List.append_assoc, List.getLast?_concat]
  intro hslash
  apply hpiece
  rw [hc, Option.some.inj hslash]
  exact List.mem_append_right _ List.mem_cons_self

theorem asDirectory_append (stack more : List Str) :
    asDirectory (stack ++ more) = asDirectory stack ++ asDirectory more := List.flatMap_append

theorem asDirectory_single (piece : Str) : asDirectory [piece] = piece ++ [slash] := by
  simp [asDirectory]

/-- The slashes that a path starts with. -/
structure Root (root : Str) : Prop where
  nonempty : root ≠ []
  slashes : ∀ b ∈ root, b = slash

theorem getLast?_root (h : Root root) : root.getLast? = some slash := by
  rw [List.getLast?_eq_some_getLast h.nonempty, h.slashes _ (List.getLast_mem h.nonempty)]

theorem getLast?_directory (h : Root root) (stack : List Str) :
    (root ++ asDirectory stack).getLast? = some slash := by
  rcases List.eq_nil_or_concat' stack with rfl | ⟨init, piece, rfl⟩
  · rw [show asDirectory [] = [] from rfl, List.append_nil]
    exact getLast?_root h
  · rw [asDirectory_append, asDirectory_single, ← List.append_assoc, ← List.append_assoc]
    exact List.getLast?_concat

/-- A kept segment, as the paths have them. -/
def segmentOf (hplain : isPlain piece) (hpiece : slash ∉ piece) : Segment :=
  ⟨piece, hpiece, (isPlain_iff.mp hplain).1, (isPlain_iff.mp hplain).2.1,
    (isPlain_iff.mp hplain).2.2⟩

theorem resolveSegment_climb (h : Root root) (hkept : Kept stack) (next : Str) :
    resolveSegment (root ++ asDirectory stack) [dot, dot] next =
      if stack = [] then none else some (root ++ asDirectory stack.dropLast) := by
  rw [resolveSegment, if_pos rfl]
  rcases List.eq_nil_or_concat' stack with rfl | ⟨init, piece, rfl⟩
  · rw [show asDirectory [] = [] from rfl, List.append_nil, if_pos rfl, if_pos]
    obtain ⟨front, hfront⟩ := List.getLast?_eq_some_iff.mp (getLast?_root h)
    by_cases hnil : front = []
    · left
      rw [hfront, hnil]
      rfl
    · right
      rw [hfront, List.dropLast_concat, List.getLast?_eq_some_getLast hnil]
      have hmem : front.getLast hnil ∈ root := by
        rw [hfront]
        exact List.mem_append_left _ (List.getLast_mem hnil)
      rw [h.slashes _ hmem]
  · obtain ⟨hplain, hpiece⟩ := hkept piece (List.mem_append_right _ List.mem_cons_self)
    have hdelete := deleteSegment_spec (root ++ asDirectory init) (segmentOf hplain hpiece)
      (getLast?_directory h init)
    change deleteSegment (root ++ asDirectory init ++ piece ++ [slash]) = _ at hdelete
    have hsegment := List.length_pos_iff.mpr (isPlain_iff.mp hplain).1
    have htext : root ++ asDirectory (init ++ [piece]) =
        root ++ asDirectory init ++ piece ++ [slash] := by
      rw [asDirectory_append, asDirectory_single, List.append_assoc, List.append_assoc]
    have hpos := List.length_pos_iff.mpr h.nonempty
    have hlong : ¬((root ++ asDirectory init ++ piece ++ [slash]).length = 1 ∨
        (root ++ asDirectory init ++ piece ++ [slash]).dropLast.getLast? = some slash) := by
      rw [List.dropLast_concat]
      rintro (hone | hend)
      · simp only [List.length_append, List.length_singleton] at hone
        omega
      · exact getLast?_segment _ (isPlain_iff.mp hplain).1 hpiece hend
    rw [htext, if_neg hlong, hdelete, if_neg (by simp), List.dropLast_concat]

theorem not_tooLong (h : text.getLast? = some slash) : ¬TooLong text := fun hlong => hlong.1 h

theorem length_walk {stack' : List Str} (h : walk stack piece = some stack') :
    (asDirectory stack').length ≤ (asDirectory stack).length + (piece.length + 1) := by
  rw [walk] at h
  split_ifs at h with hparent hempty hplain
  · obtain rfl := Option.some.inj h
    rcases List.eq_nil_or_concat' stack with rfl | ⟨init, last, rfl⟩
    · exact absurd rfl hempty
    · rw [List.dropLast_concat, asDirectory_append, List.length_append]
      omega
  · obtain rfl := Option.some.inj h
    rw [asDirectory_append, asDirectory_single, List.length_append, List.length_append,
      List.length_singleton]
  · obtain rfl := Option.some.inj h
    omega

theorem resolveSegment_passed (h : Root root) (hkept : Kept stack) (hplain : ¬isPlain piece)
    (next : Str) :
    resolveSegment (root ++ asDirectory stack) piece next =
      (walk stack piece).map fun stack => root ++ asDirectory stack := by
  by_cases hparent : piece = [dot, dot]
  · rw [hparent, resolveSegment_climb h hkept, walk, if_pos rfl]
    split_ifs <;> rfl
  rw [walk, if_neg hparent, if_neg hplain, resolveSegment, if_neg hparent, Option.map_some]
  by_cases hhere : piece = [dot]
  · rw [if_pos hhere]
  by_cases hempty : piece = []
  · rw [if_neg hhere, if_pos hempty]
  · exact absurd (isPlain_iff.mpr ⟨hempty, hhere, hparent⟩) hplain

theorem resolveSegment_walk (h : Root root) (hkept : Kept stack)
    (hfits : root.length + (asDirectory stack).length + (piece.length + 1) < pathMaxLength) :
    resolveSegment (root ++ asDirectory stack) piece [slash] =
      (walk stack piece).map fun stack => root ++ asDirectory stack := by
  by_cases hplain : isPlain piece
  · obtain ⟨hempty, hhere, hparent⟩ := isPlain_iff.mp hplain
    rw [walk, if_neg hparent, resolveSegment, if_neg hparent, if_neg hhere, if_neg hempty, if_neg,
      if_pos hplain, Option.map_some, asDirectory_append, asDirectory_single, List.append_assoc,
      List.append_assoc]
    rw [List.length_append]
    omega
  · exact resolveSegment_passed h hkept hplain [slash]

theorem resolveSegment_last (h : Root root) (hkept : Kept stack) (hpiece : slash ∉ piece) :
    resolveSegment (root ++ asDirectory stack) piece [] =
      (walk stack piece).bind fun stack =>
        if TooLong (root ++ textOf stack piece) then none
        else some (root ++ textOf stack piece) := by
  by_cases hplain : isPlain piece
  · obtain ⟨hempty, hhere, hparent⟩ := isPlain_iff.mp hplain
    have htext : root ++ textOf (stack ++ [piece]) piece = root ++ asDirectory stack ++ piece := by
      rw [textOf, if_pos hplain, asDirectory_append, asDirectory_single, ← List.append_assoc,
        List.dropLast_concat, List.append_assoc]
    have hlast := getLast?_segment (root ++ asDirectory stack) hempty hpiece
    have hlimit : TooLong (root ++ asDirectory stack ++ piece) ↔
        (root ++ asDirectory stack).length + piece.length + 1 > pathMaxLength - 1 := by
      rw [TooLong, and_iff_right hlast, List.length_append]
      omega
    rw [walk, if_neg hparent, if_pos hplain, Option.bind_some, htext, resolveSegment,
      if_neg hparent, if_neg hhere, if_neg hempty, List.append_nil]
    simp only [hlimit]
  · rw [resolveSegment_passed h hkept hplain]
    cases walk stack piece with
    | none => rfl
    | some stack =>
      rw [Option.map_some, Option.bind_some, textOf, if_neg hplain,
        if_neg (not_tooLong (getLast?_directory h stack))]

theorem resolveLoop_walk (h : Root root) (rest : Str) (hkept : Kept stack)
    (hfits : root.length + (asDirectory stack).length + rest.length < pathMaxLength) :
    resolveLoop (root ++ asDirectory stack) rest =
      ((rest.splitOn slash).foldlM walk stack).bind fun stack =>
        let text := root ++ textOf stack ((rest.splitOn slash).getLast?.getD [])
        if TooLong text then none else some text := by
  induction hlen : rest.length using Nat.strong_induction_on generalizing rest stack with
  | _ n ih =>
    by_cases hslash : slash ∈ rest
    · obtain ⟨piece, more, rfl, hpiece⟩ := List.eq_append_cons_of_mem hslash
      rw [List.length_append, List.length_cons] at hfits hlen
      have hsplit : (more.splitOn slash) ≠ [] := List.splitOn_ne_nil slash more
      rw [List.splitOn_append_cons_self_of_not_mem hpiece, List.foldlM_cons,
        List.getLast?_cons_of_ne_nil hsplit, resolveLoop_slash _ _ hpiece,
        resolveSegment_walk h hkept (by omega)]
      cases hwalk : walk stack piece with
      | none => rfl
      | some stack' =>
        have hgrown := length_walk hwalk
        exact ih more.length (by omega) more (walk_kept hkept hpiece hwalk) (by omega) rfl
    · rw [resolveLoop_end _ hslash, List.splitOn_eq_singleton hslash,
        resolveSegment_last h hkept hslash, List.foldlM_cons, List.getLast?_singleton,
        Option.getD_some]
      cases walk stack rest with
      | none => rfl
      | some stack => rfl

theorem asDirectory_joined (hkept : Kept stack) :
    ∃ segments, asDirectory stack = joined segments := by
  induction stack with
  | nil => exact ⟨[], rfl⟩
  | cons piece stack ih =>
    obtain ⟨hplain, hpiece⟩ := hkept piece List.mem_cons_self
    obtain ⟨segments, hsegments⟩ := ih fun other hother =>
      hkept other (List.mem_cons_of_mem piece hother)
    refine ⟨segmentOf hplain hpiece :: segments, ?_⟩
    rw [← List.singleton_append, asDirectory_append, asDirectory_single, hsegments, joined_cons,
      List.append_assoc]
    rfl

theorem textOf_joined (hkept : Kept stack) (last : Str) :
    ∃ segments name, textOf stack last = joined segments ++ nameText name := by
  rw [textOf]
  split_ifs
  · rcases List.eq_nil_or_concat' stack with rfl | ⟨init, piece, rfl⟩
    · exact ⟨[], none, rfl⟩
    · obtain ⟨hplain, hpiece⟩ := hkept piece (List.mem_append_right _ List.mem_cons_self)
      obtain ⟨segments, hsegments⟩ := @asDirectory_joined init fun other hother =>
        hkept other (List.mem_append_left _ hother)
      refine ⟨segments, some (segmentOf hplain hpiece), ?_⟩
      rw [asDirectory_append, asDirectory_single, hsegments, ← List.append_assoc,
        List.dropLast_concat]
      rfl
  · obtain ⟨segments, hsegments⟩ := asDirectory_joined hkept
    exact ⟨segments, none, by rw [hsegments, nameText, Option.elim_none, List.append_nil]⟩

theorem head?_joined (segments : List Segment) (name : Option Segment) :
    (joined segments ++ nameText name).head? ≠ some slash := by
  have hsegment : ∀ (s : Segment) (tail : Str), (s.text ++ tail).head? ≠ some slash := by
    intro s tail hhead
    obtain ⟨c, text, hc⟩ := List.exists_cons_of_ne_nil s.nonempty
    apply s.unbroken
    rw [hc, List.cons_append] at hhead
    rw [hc, Option.some.inj hhead]
    exact List.mem_cons_self
  cases segments with
  | nil =>
    cases name with
    | none => exact fun hhead => nomatch hhead
    | some s =>
      have hname := hsegment s []
      rw [List.append_nil] at hname
      exact hname
  | cons s segments =>
    rw [joined_cons, List.append_assoc]
    exact hsegment s _

theorem resolveLoop_again (segments : List Segment) (name : Option Segment)
    (hfits : (root ++ (joined segments ++ nameText name)).length < pathMaxLength)
    (hlong : ¬TooLong (root ++ (joined segments ++ nameText name))) :
    resolveLoop root (joined segments ++ nameText name) =
      some (root ++ (joined segments ++ nameText name)) := by
  rw [List.length_append, List.length_append] at hfits
  rw [resolveLoop_joined segments _ (by omega), ← List.append_assoc]
  cases name with
  | none =>
    rw [nameText, Option.elim_none, resolveLoop_end _ List.not_mem_nil, List.append_nil]
    rfl
  | some s =>
    apply resolveLoop_name
    have hlast : (root ++ (joined segments ++ nameText (some s))).getLast? ≠ some slash := by
      rw [nameText, Option.elim_some, ← List.append_assoc]
      exact getLast?_segment _ s.nonempty s.unbroken
    rw [TooLong, and_iff_right hlast, List.length_append, List.length_append] at hlong
    rw [List.length_append]
    omega

theorem takeWhile_root (h : Root root) (hhead : text.head? ≠ some slash) :
    (root ++ text).takeWhile (· = slash) = root ∧ (root ++ text).dropWhile (· = slash) = text := by
  have hall : ∀ c ∈ root, decide (c = slash) = true := fun c hc => decide_eq_true (h.slashes c hc)
  rw [List.takeWhile_append_of_pos hall, List.dropWhile_append_of_pos hall]
  cases text with
  | nil => exact ⟨List.append_nil root, rfl⟩
  | cons c text =>
    have hc : c ≠ slash := fun hslash => hhead (congrArg some hslash)
    rw [List.takeWhile_cons_of_neg (by simpa using hc),
      List.dropWhile_cons_of_neg (by simpa using hc), List.append_nil]
    exact ⟨rfl, rfl⟩

theorem foldlM_kept {pieces stack' : List Str} (hpieces : ∀ piece ∈ pieces, slash ∉ piece)
    (hkept : Kept stack) (h : pieces.foldlM walk stack = some stack') : Kept stack' := by
  induction pieces generalizing stack with
  | nil => exact Option.some.inj h ▸ hkept
  | cons piece pieces ih =>
    rw [List.foldlM_cons] at h
    obtain ⟨middle, hwalk, hrest⟩ := Option.bind_eq_some_iff.mp h
    apply ih _ (walk_kept hkept (hpieces piece List.mem_cons_self) hwalk) hrest
    exact fun other hother => hpieces other (List.mem_cons_of_mem piece hother)

end Stack

section Results

variable {tmp : List UInt8} {path text : Str}

theorem root_of_absolute (habsolute : path.head? = some slash) :
    Root (path.takeWhile (· = slash)) := by
  refine ⟨?_, fun c hc => by simpa using List.mem_takeWhile_imp hc⟩
  rcases path with _ | ⟨c, path⟩
  · exact nomatch habsolute
  · rw [Option.some.inj habsolute, List.takeWhile_cons_of_pos (by simp)]
    exact List.cons_ne_nil _ _

theorem splitOn_unbroken (rest : Str) : ∀ piece ∈ rest.splitOn slash, slash ∉ piece := by
  induction hlen : rest.length using Nat.strong_induction_on generalizing rest with
  | _ n ih =>
    by_cases hslash : slash ∈ rest
    · obtain ⟨first, more, rfl, hfirst⟩ := List.eq_append_cons_of_mem hslash
      rw [List.length_append, List.length_cons] at hlen
      rw [List.splitOn_append_cons_self_of_not_mem hfirst]
      intro piece hpiece
      rcases List.mem_cons.mp hpiece with rfl | hmore
      · exact hfirst
      · exact ih more.length (by omega) more rfl piece hmore
    · rw [List.splitOn_eq_singleton hslash]
      intro piece hpiece
      rw [List.mem_singleton.mp hpiece]
      exact hslash

theorem kept_nil : Kept [] := fun _ hnone => nomatch hnone

theorem resolveRealpathIn_resolved (htmp : tmp.length = pathMaxLength)
    (habsolute : path.head? = some slash) (hpath : 0 ∉ path)
    (hshort : path.length < pathMaxLength) :
    resolveRealpathIn tmp path pathMaxLength =
      some ((resolved path).bind fun text => if TooLong text then none else some text) := by
  have hwhole := congrArg List.length
    (List.takeWhile_append_dropWhile (p := (· = slash)) (l := path))
  rw [List.length_append] at hwhole
  have hloop := resolveLoop_walk (root_of_absolute habsolute) (path.dropWhile (· = slash)) kept_nil
    (by
      rw [show asDirectory [] = [] from rfl, List.length_nil]
      omega)
  rw [show asDirectory [] = [] from rfl, List.append_nil] at hloop
  rw [resolveRealpathIn_loop htmp habsolute hpath hshort, hloop, resolved, Option.bind_map]
  rfl

theorem resolved_joined (h : resolved path = some text) :
    ∃ segments name, text = path.takeWhile (· = slash) ++ (joined segments ++ nameText name) := by
  obtain ⟨stack, hwalk, rfl⟩ := Option.map_eq_some_iff.mp h
  obtain ⟨segments, name, hjoined⟩ := textOf_joined
    (foldlM_kept (splitOn_unbroken (path.dropWhile (· = slash))) kept_nil hwalk)
    (((path.dropWhile (· = slash)).splitOn slash).getLast?.getD [])
  exact ⟨segments, name, by rw [hjoined]⟩

end Results

end RetroArch.File.RealPath
