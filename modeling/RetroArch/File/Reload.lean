/- A configuration written and read again, from a string and from a file. -/

import Mathlib.Data.List.TakeWhile
import RetroArch.File.DumpOrbis

namespace RetroArch.File.Reload

open Config ConfigKeys Dump Library.MergeSort

/-- A control character, as `iscntrl` has it. -/
def iscntrl (b : UInt8) : Bool := b < 32 || b = 127

structure PlainName (key : Str) : Prop where
  nonempty : key ≠ []
  graphic : ∀ b ∈ key, isgraph b = true
  unmarked : hash ∉ key
  unquoted : quote ∉ key

structure PlainValue (value : Str) : Prop where
  nonempty : value ≠ []
  printable : ∀ b ∈ value, iscntrl b = false
  unquoted : quote ∉ value

/-- An entry of the configuration's own, with a key and a value. -/
structure Storable (e : Entry) : Prop where
  own : e.readonly = false
  keyed : ∃ key, e.key = some key ∧ PlainName key
  valued : ∃ value, e.value = some value ∧ PlainValue value

/-- The entries are written in some order, and both readers give them back in that order. -/
def Reloads (conf : ConfigFile) (sort : Bool) : Prop :=
  ∃ list text, configFileDump conf sort = some (list, text) ∧ list.Perm conf.entries ∧
    (sort = false → list = conf.entries) ∧ ∀ disk path,
      (configFileNewFromString disk text path).entries = list ∧
        (path ≠ [] → disk.content path = some text →
          (configFileNew disk path).map ConfigFile.entries = some list)

section Lines

variable {key value : Str} {e : Entry}

theorem PlainName.unspaced (h : PlainName key) : Unspaced key := by
  intro b hb
  have hgraph := h.graphic b hb
  rw [isgraph, Bool.and_eq_true, decide_eq_true_eq, decide_eq_true_eq, UInt8.le_iff_toNat_le,
    UInt8.le_iff_toNat_le] at hgraph
  change 33 ≤ b.toNat ∧ b.toNat ≤ 126 at hgraph
  by_contra hspace
  rw [Bool.not_eq_false, isspace, Bool.or_eq_true, decide_eq_true_eq, Bool.and_eq_true,
    decide_eq_true_eq, decide_eq_true_eq, UInt8.le_iff_toNat_le, UInt8.le_iff_toNat_le] at hspace
  rcases hspace with rfl | ⟨-, hhigh⟩
  · exact absurd hgraph.1 (by decide)
  · change b.toNat ≤ 13 at hhigh
    omega

theorem PlainValue.ends_not (h : PlainValue value) : newline ∉ value := by
  intro hmem
  exact absurd (h.printable newline hmem) (by decide)

theorem PlainValue.nul_not (h : PlainValue value) : (0 : UInt8) ∉ value := by
  intro hmem
  exact absurd (h.printable 0 hmem) (by decide)

theorem PlainName.nul_not (h : PlainName key) : (0 : UInt8) ∉ key := by
  intro hmem
  exact absurd (h.graphic 0 hmem) (by decide)

theorem stripComment_quoted (hquote : quote ∉ value) :
    stripComment true (quoted value) = quoted value := by
  have hinside : ∀ text : Str, quote ∉ text →
      stripComment false (text ++ [quote]) = text ++ [quote] := by
    intro text htext
    induction text with
    | nil => rfl
    | cons b text ih =>
      rw [List.mem_cons, not_or] at htext
      rw [List.cons_append, stripComment, if_neg (Ne.symm htext.1), ih htext.2]
      rfl
  rw [quoted, List.cons_append, stripComment, if_pos rfl, Bool.not_true, hinside value hquote]

theorem stripComment_plain {front : Str} (hquote : quote ∉ front) (hhash : hash ∉ front)
    (tail : Str) : stripComment true (front ++ tail) = front ++ stripComment true tail := by
  induction front with
  | nil => rfl
  | cons b front ih =>
    rw [List.mem_cons, not_or] at hquote hhash
    have hb : ¬(true && decide (b = hash)) = true := by simpa using Ne.symm hhash.1
    rw [List.cons_append, stripComment, if_neg (Ne.symm hquote.1), if_neg hb,
      ih hquote.2 hhash.2, List.cons_append]

theorem parseEntry_line (hkey : PlainName key) (hvalue : PlainValue value) :
    parseEntry (key ++ equalsSign ++ quoted value) = some ⟨false, some key, some value⟩ := by
  have hquote : quote ∉ key ++ equalsSign := by
    rw [List.mem_append, not_or]
    exact ⟨hkey.unquoted, by decide⟩
  have hhash : hash ∉ key ++ equalsSign := by
    rw [List.mem_append, not_or]
    exact ⟨hkey.unmarked, by decide⟩
  have hstrip : stripComment true (key ++ equalsSign ++ quoted value) =
      key ++ (equalsSign ++ quoted value) := by
    rw [stripComment_plain hquote hhash, stripComment_quoted hvalue.unquoted, List.append_assoc]
  have hspaced : (key ++ (equalsSign ++ quoted value)).dropWhile isspace =
      key ++ (equalsSign ++ quoted value) := by
    obtain ⟨b, bs, rfl⟩ := List.exists_cons_of_ne_nil hkey.nonempty
    rw [List.cons_append, List.dropWhile_cons_of_neg (by simp [hkey.unspaced.head])]
  have hgraph : key.dropWhile isgraph = [] := List.dropWhile_eq_nil_iff.mpr hkey.graphic
  have htake : key.takeWhile isgraph = key := List.takeWhile_eq_self_iff.mpr hkey.graphic
  rw [parseEntry, hstrip, hspaced, extractValue_key hkey.unspaced, if_pos hgraph,
    extractToken_quoted hvalue.unquoted hvalue.nonempty, takeWhile_key, htake]
  rfl

theorem includePath_line (hkey : PlainName key) (tail : Str) :
    includePath (key ++ equalsSign ++ tail) = none := by
  rw [List.append_assoc, includePath_key hkey.unspaced, if_neg]
  intro heq
  exact hkey.unmarked (heq ▸ List.mem_cons_self)

theorem storable_line (h : Storable e) :
    ∃ line, entryLine e = some line ∧ parseEntry line = some e ∧ includePath line = none ∧
      newline ∉ line ∧ (0 : UInt8) ∉ line := by
  obtain ⟨readonly, k, v⟩ := e
  obtain ⟨hown, ⟨key, hkey, hname⟩, value, hvalue, hplain⟩ := h
  dsimp only at hown hkey hvalue
  subst hown hkey hvalue
  refine ⟨key ++ equalsSign ++ quoted value, rfl, parseEntry_line hname hplain,
    includePath_line hname _, ?_, ?_⟩
  · rw [List.mem_append, List.mem_append, quoted, List.cons_append, List.mem_cons, List.mem_append]
    rintro ((hmem | hmem) | hmem | hmem | hmem)
    · exact hname.unspaced.newline hmem
    · exact absurd hmem (by decide)
    · exact absurd hmem (by decide)
    · exact hplain.ends_not hmem
    · exact absurd hmem (by decide)
  · rw [List.mem_append, List.mem_append, quoted, List.cons_append, List.mem_cons, List.mem_append]
    rintro ((hmem | hmem) | hmem | hmem | hmem)
    · exact hname.nul_not hmem
    · exact absurd hmem (by decide)
    · exact absurd hmem (by decide)
    · exact hplain.nul_not hmem
    · exact absurd hmem (by decide)

end Lines

section Texts

variable {disk : Disk} {openAt : Str → Option ConfigFile} {conf : ConfigFile} {list : List Entry}

theorem splitOn_lines (h : ∀ e ∈ list, Storable e) :
    ∃ lines, (joinLines (list.filterMap entryLine)).splitOn newline = lines ++ [[]] ∧
      lines.map cstr = lines ∧ ∀ conf : ConfigFile,
        lines.flatMap (lineEntries disk openAt conf) = list := by
  induction list with
  | nil => exact ⟨[], rfl, rfl, fun _ => rfl⟩
  | cons e list ih =>
    obtain ⟨line, hline, hparse, hinclude, hnewline, hnul⟩ :=
      storable_line (h e List.mem_cons_self)
    obtain ⟨lines, hsplit, hcstr, hread⟩ := ih fun e' he' => h e' (List.mem_cons_of_mem e he')
    have hcut : cstr line = line := by
      rw [cstr, List.takeWhile_eq_self_iff]
      intro b hb
      exact decide_eq_true fun heq => hnul (heq ▸ hb)
    refine ⟨line :: lines, ?_, ?_, ?_⟩
    · have hjoin : joinLines ((e :: list).filterMap entryLine) =
          line ++ newline :: joinLines (list.filterMap entryLine) := by
        rw [List.filterMap_cons, hline]
        simp [joinLines]
      rw [hjoin, List.splitOn_append_cons_self, List.splitOn_eq_singleton hnewline, hsplit]
      rfl
    · rw [List.map_cons, hcstr, hcut]
    · intro conf
      have hentries : lineEntries disk openAt conf line = [e] := by
        rw [lineEntries, includedEntries, hinclude, hparse]
        rfl
      rw [List.flatMap_cons, hentries, hread conf]
      rfl

theorem fold_lines (h : ∀ e ∈ list, Storable e) (htidy : Tidy conf) (hempty : conf.entries = []) :
    (((joinLines (list.filterMap entryLine)).splitOn newline).foldl (parseLine disk openAt)
        conf).entries = list ∧
      ((((joinLines (list.filterMap entryLine)).splitOn newline).map cstr).foldl
        (parseLine disk openAt) conf).entries = list := by
  obtain ⟨lines, hsplit, hcstr, hread⟩ := @splitOn_lines disk openAt list h
  have hlast : lineEntries disk openAt conf [] = [] := rfl
  have hall : (lines ++ [[]]).flatMap (lineEntries disk openAt conf) = list := by
    rw [List.flatMap_append, hread conf, List.flatMap_singleton, hlast, List.append_nil]
  have hadds := adds_lines disk openAt htidy (lines ++ [[]])
  have hentries := hadds.entries
  rw [hall, hempty, List.nil_append] at hentries
  have hnil : (lines ++ [[]]).map cstr = lines ++ [[]] := by
    rw [List.map_append, hcstr]
    rfl
  rw [hsplit, hnil]
  exact ⟨hentries, hentries⟩

/-- What is written of storable entries is read back from a string and from a file. -/
theorem reloads (conf : ConfigFile) (sort : Bool) (hincludes : conf.includes = [])
    (hentries : ∀ e ∈ conf.entries, Storable e) : Reloads conf sort := by
  have hlist : ∃ list, configFileDump conf sort =
        some (list, joinLines (list.filterMap entryLine)) ∧ list.Perm conf.entries ∧
      (sort = false → list = conf.entries) := by
    have hkeyed : ∀ e ∈ conf.entries, Keyed e := by
      intro e he
      obtain ⟨key, hkey, -⟩ := (hentries e he).keyed
      exact Option.isSome_of_eq_some hkey
    cases sort with
    | false =>
      refine ⟨conf.entries, ?_, .refl _, fun _ => rfl⟩
      rw [dump_unsorted, hincludes]
      rfl
    | true =>
      obtain ⟨sorted, hsort, -, -⟩ := mergeSort_spec (total_of_keyed hkeyed)
      refine ⟨sorted, ?_, mergeSort_perm hsort, fun heq => nomatch heq⟩
      rw [dump_sorted hsort, hincludes]
      rfl
  obtain ⟨list, hdump, hperm, hsame⟩ := hlist
  refine ⟨list, _, hdump, hperm, hsame, ?_⟩
  intro disk path
  have hstorable : ∀ e ∈ list, Storable e := fun e he => hentries e (hperm.mem_iff.mp he)
  constructor
  · have hblank : Tidy (blank path) := rfl
    exact (fold_lines hstorable hblank rfl).1
  · intro hpath hcontent
    cases path with
    | nil => exact absurd rfl hpath
    | cons b path =>
      have hopened : Tidy { configFileNewAlloc with
          path := some (b :: path), includeDepth := maxIncludeDepth - maxIncludeDepth } := rfl
      rw [configFileNew, configFileNewInternal.eq_def]
      dsimp only
      rw [hcontent, Option.map_some, Option.map_some]
      exact congrArg some (fold_lines hstorable hopened rfl).2

theorem storable_bytes {k v : UInt8} (hgraph : isgraph k = true) (hhash : hash ≠ k)
    (hquote : quote ≠ k) (hprint : iscntrl v = false) (hvalue : quote ≠ v) :
    Storable ⟨false, some [k], some [v]⟩ where
  own := rfl
  keyed := ⟨[k], rfl, List.cons_ne_nil k [], List.forall_mem_singleton.mpr hgraph,
    fun h => hhash (List.mem_singleton.mp h), fun h => hquote (List.mem_singleton.mp h)⟩
  valued := ⟨[v], rfl, List.cons_ne_nil v [], List.forall_mem_singleton.mpr hprint,
    fun h => hvalue (List.mem_singleton.mp h)⟩

/-- `b = "#"` and `a = "1"` -/
def twoEntries : ConfigFile :=
  { configFileNewAlloc with
    entries := [⟨false, some [98], some [35]⟩, ⟨false, some [97], some [49]⟩]
    tail := some 1 }

theorem reloads_two : Reloads twoEntries true := by
  apply reloads twoEntries true rfl
  intro e he
  rcases List.mem_cons.mp he with rfl | hrest
  · exact storable_bytes (by decide) (by decide) (by decide) (by decide) (by decide)
  · rw [List.mem_singleton.mp hrest]
    exact storable_bytes (by decide) (by decide) (by decide) (by decide) (by decide)

end Texts

end RetroArch.File.Reload
