/- The writer of configuration files for one console, which leaves the quotes out. -/

import RetroArch.File.Dump

namespace RetroArch.File.Dump

open Config ConfigKeys Library.MergeSort

/-- Formatting a line into a buffer of 256 bytes, end and terminator included. -/
def sprintfLine (line : Str) : Option Str :=
  if line.length + 1 < 256 then some (line ++ [newline]) else none

def orbisIncludeLine (path : Str) : Str := includeStart ++ path

def orbisEntryLine (e : Entry) : Option Str :=
  if e.readonly then none
  else e.key.map fun key => key ++ equalsSign ++ e.value.getD nullText

/-- What `conf->entries` is afterwards, and the text of the file. There is no result where a buffer
overflows or a NULL key is compared. -/
def configFileDumpOrbis (conf : ConfigFile) : Option (List Entry × Str) :=
  ((conf.includes.map orbisIncludeLine).mapM sprintfLine).bind fun includes =>
    (mergeSortLinkedList conf.entries).bind fun list =>
      ((list.filterMap orbisEntryLine).mapM sprintfLine).map fun lines =>
        (list, includes.flatten ++ lines.flatten)

/-- The values that the writers are for: not empty, without quotes and ends of lines. -/
def Valued (conf : ConfigFile) : Prop :=
  ∀ e ∈ conf.entries, e.key.isSome →
    ∃ value, e.value = some value ∧ value ≠ [] ∧ quote ∉ value ∧ newline ∉ value

/-- The text of this writer is written within its buffers and read like those of the other. -/
def OrbisAgrees (disk : Disk) (path : Str) (conf : ConfigFile) : Prop :=
  ∃ list text, configFileDumpOrbis conf = some (list, text) ∧
    ∀ sort, ∃ list' text', configFileDump conf sort = some (list', text') ∧
      ∀ k, reload disk path text k = reload disk path text' k

/-- No white space in it. -/
def Unspaced (text : Str) : Prop := ∀ b ∈ text, isspace b = false

/-- A key that is not blank and does not itself end a line, or open a quote behind white space. -/
structure PlainKey (key : Str) : Prop where
  filled : key.dropWhile isspace ≠ []
  line : newline ∉ key
  unquoted : quote ∉ key ∨ Unspaced key

/-- An entry that may do without quotes, if it is written. -/
structure PlainEntry (e : Entry) : Prop where
  key : ∀ key ∈ e.key, PlainKey key
  value : ∀ value ∈ e.value, Unspaced value ∧ hash ∉ value
  fits : ∀ line ∈ orbisEntryLine e, line.length + 1 < 256

/-- Sorting keeps the settings, every line fits into its buffer, and what stands in it needs no
quotes. -/
structure Plain (disk : Disk) (path : Str) (conf : ConfigFile) : Prop where
  sortable : Sortable disk path conf
  includes : ∀ p ∈ conf.includes, Unspaced p ∧ quote ∉ p ∧ (orbisIncludeLine p).length + 1 < 256
  entries : ∀ e ∈ conf.entries, e.readonly = false → PlainEntry e

section Lines

variable {disk : Disk} {path key value text rest rest' : Str}

theorem Unspaced.head {b : UInt8} {bs : Str} (h : Unspaced (b :: bs)) : isspace b = false :=
  h b List.mem_cons_self

theorem unspaced_of_all (h : text.all (!isspace ·) = true) : Unspaced text := by
  intro b hb
  exact Bool.not_eq_true' _ ▸ List.all_eq_true.mp h b hb

theorem Unspaced.takeWhile (h : Unspaced text) (tail : Str)
    (htail : ∀ b ∈ tail.head?, isspace b = true) :
    (text ++ tail).takeWhile (!isspace ·) = text := by
  have hall : ∀ b ∈ text, (!isspace b) = true := fun b hb => by rw [h b hb]; rfl
  rw [List.takeWhile_append_of_pos hall]
  cases tail with
  | nil => simp
  | cons b bs =>
    rw [List.takeWhile_cons_of_neg (by simp [htail b rfl]), List.append_nil]

theorem extractToken_unquoted (h : Unspaced text) (hquote : quote ∉ text) (hne : text ≠ []) :
    extractToken text = some text := by
  obtain ⟨b, bs, rfl⟩ := List.exists_cons_of_ne_nil hne
  have hb : b ≠ quote := fun heq => hquote (heq ▸ List.mem_cons_self)
  have htake := h.takeWhile [] (by simp)
  rw [List.append_nil] at htake
  rw [extractToken, List.dropWhile_cons_of_neg (by simp [h.head])]
  dsimp only
  rw [if_neg hb, htake, token, if_neg hne]

theorem extractToken_quoted (hquote : quote ∉ text) (hne : text ≠ []) :
    extractToken (quoted text) = some text := by
  obtain ⟨b, bs, rfl⟩ := List.exists_cons_of_ne_nil hne
  have hb : b ≠ quote := fun heq => hquote (heq ▸ List.mem_cons_self)
  have hspace : isspace quote = false := by decide
  have hall : ∀ c ∈ b :: bs, decide (c ≠ quote) = true := by
    intro c hc
    exact decide_eq_true (ne_of_mem_of_not_mem hc hquote)
  rw [extractToken, quoted, List.cons_append, List.dropWhile_cons_of_neg (by simp [hspace])]
  dsimp only
  rw [if_pos rfl, List.cons_append, extractQuoted]
  rw [if_neg hb, ← List.cons_append, List.takeWhile_append_of_pos hall,
    List.takeWhile_cons_of_neg (by simp), List.append_nil, token, if_neg (List.cons_ne_nil b bs)]

theorem takeWhile_stop {p : UInt8 → Bool} (text : Str) {b : UInt8} (hb : p b = false)
    (tail : Str) : (text ++ b :: tail).takeWhile p = text.takeWhile p := by
  rw [List.takeWhile_append, List.takeWhile_cons_of_neg (by rw [hb]; exact Bool.false_ne_true),
    List.append_nil]
  split_ifs with hall
  · exact ((List.takeWhile_prefix p).eq_of_length hall).symm
  · rfl

theorem extractToken_front (hquote : quote ∉ text) (hne : text.dropWhile isspace ≠ [])
    (tail : Str) : extractToken (text ++ 32 :: tail) =
      token ((text.dropWhile isspace).takeWhile (!isspace ·)) := by
  obtain ⟨b, bs, hdrop⟩ := List.exists_cons_of_ne_nil hne
  have hb : b ≠ quote := by
    rintro rfl
    have hmem : quote ∈ text.dropWhile isspace := by rw [hdrop]; exact List.mem_cons_self
    exact hquote ((List.dropWhile_suffix isspace).subset hmem)
  have hstop := @takeWhile_stop (!isspace ·) (b :: bs) 32 (by decide) tail
  rw [List.cons_append] at hstop
  rw [extractToken, List.dropWhile_append, hdrop, List.isEmpty_cons, if_neg Bool.false_ne_true,
    List.cons_append]
  dsimp only
  rw [if_neg hb, hstop]

theorem extractToken_space (text : Str) : extractToken (32 :: text) = extractToken text := by
  have hspace : isspace 32 = true := by decide
  rw [extractToken, List.dropWhile_cons_of_pos hspace, extractToken]

theorem stripComment_append (cut : Bool) (front : Str) :
    (∃ kept, ∀ tail, stripComment cut (front ++ tail) = kept) ∨
      ∃ cut', ∀ tail, stripComment cut (front ++ tail) = front ++ stripComment cut' tail := by
  induction front generalizing cut with
  | nil => exact .inr ⟨cut, fun tail => rfl⟩
  | cons b front ih =>
    by_cases hquote : b = quote
    · rcases ih (!cut) with ⟨kept, hkept⟩ | ⟨cut', hrest⟩
      · refine .inl ⟨b :: kept, fun tail => ?_⟩
        rw [List.cons_append, stripComment, if_pos hquote, hkept]
      · refine .inr ⟨cut', fun tail => ?_⟩
        rw [List.cons_append, stripComment, if_pos hquote, hrest, List.cons_append]
    · by_cases hcut : (cut && decide (b = hash)) = true
      · refine .inl ⟨[], fun tail => ?_⟩
        rw [List.cons_append, stripComment, if_neg hquote, if_pos hcut]
      · rcases ih cut with ⟨kept, hkept⟩ | ⟨cut', hrest⟩
        · refine .inl ⟨b :: kept, fun tail => ?_⟩
          rw [List.cons_append, stripComment, if_neg hquote, if_neg hcut, hkept]
        · refine .inr ⟨cut', fun tail => ?_⟩
          rw [List.cons_append, stripComment, if_neg hquote, if_neg hcut, hrest,
            List.cons_append]

theorem stripComment_of_not_mem (cut : Bool) (h : hash ∉ text) : stripComment cut text = text := by
  induction text generalizing cut with
  | nil => rfl
  | cons b bs ih =>
    rw [List.mem_cons, not_or] at h
    rw [stripComment]
    split_ifs with hquote hcut
    · rw [ih _ h.2]
    · rw [Bool.and_eq_true, decide_eq_true_eq] at hcut
      exact absurd hcut.2 (Ne.symm h.1)
    · rw [ih _ h.2]

theorem extractValue_key (hkey : Unspaced key) (tail : Str) :
    extractValue ((key ++ (equalsSign ++ tail)).dropWhile isgraph) true =
      if key.dropWhile isgraph = [] then extractToken tail else none := by
  have hspace : isspace 32 = true := by decide
  have hgraph : isgraph 32 = false := by decide
  have hequals : isspace equals = false := by decide
  rw [List.dropWhile_append]
  cases hrest : key.dropWhile isgraph with
  | nil =>
    have hdrop : (equalsSign ++ tail).dropWhile isgraph = equalsSign ++ tail := by
      rw [equalsSign, List.cons_append, List.dropWhile_cons_of_neg (by simp [hgraph])]
    rw [List.isEmpty_nil, if_pos rfl, if_pos rfl, hdrop, extractValue, if_pos rfl, equalsSign,
      List.cons_append, List.dropWhile_cons_of_pos hspace, List.cons_append,
      List.dropWhile_cons_of_neg (by simp [hequals])]
    dsimp only
    rw [if_pos rfl]
    exact extractToken_space tail
  | cons b bs =>
    have hb : isspace b = false := by
      have hmem : b ∈ key.dropWhile isgraph := by rw [hrest]; exact List.mem_cons_self
      exact hkey b ((List.dropWhile_suffix isgraph).subset hmem)
    have hnot : isgraph b = false := by
      have hhead := List.head?_dropWhile_not isgraph key
      rw [hrest] at hhead
      simpa using hhead
    have hne : b ≠ equals := by
      rintro rfl
      exact absurd hnot (by decide)
    rw [if_neg (by simp), if_neg (List.cons_ne_nil b bs), extractValue, if_pos rfl,
      List.cons_append, List.dropWhile_cons_of_neg (by simp [hb])]
    dsimp only
    rw [if_neg hne]

theorem takeWhile_key (key tail : Str) :
    (key ++ (equalsSign ++ tail)).takeWhile isgraph = key.takeWhile isgraph :=
  takeWhile_stop key (by decide) (equals :: 32 :: tail)

theorem parseEntry_key (hne : key ≠ []) (hkey : Unspaced key) {tail tail' : Str}
    (htoken : extractToken tail = extractToken tail') (hhash : hash ∉ tail)
    (hhash' : hash ∉ tail') :
    parseEntry (key ++ (equalsSign ++ tail)) = parseEntry (key ++ (equalsSign ++ tail')) := by
  have hspaced : ∀ tail, (key ++ (equalsSign ++ tail)).dropWhile isspace =
      key ++ (equalsSign ++ tail) := by
    intro tail
    obtain ⟨b, bs, rfl⟩ := List.exists_cons_of_ne_nil hne
    rw [List.cons_append, List.dropWhile_cons_of_neg (by simp [hkey.head])]
  rw [parseEntry, parseEntry, ← List.append_assoc, ← List.append_assoc]
  rcases stripComment_append true (key ++ equalsSign) with ⟨kept, hkept⟩ | ⟨cut, hrest⟩
  · rw [hkept, hkept]
  · rw [hrest, hrest, stripComment_of_not_mem cut hhash, stripComment_of_not_mem cut hhash',
      List.append_assoc, List.append_assoc, hspaced, hspaced, extractValue_key hkey,
      extractValue_key hkey, htoken, takeWhile_key, takeWhile_key]

theorem filled_append {b : UInt8} (text : Str) (hb : isspace b = false) :
    (text ++ [b]).dropWhile isspace ≠ [] := by
  rw [List.dropWhile_append, List.dropWhile_cons_of_neg (by rw [hb]; exact Bool.false_ne_true)]
  split_ifs <;> simp

theorem extractValue_alike (hquote : quote ∉ key) {tail tail' : Str}
    (htoken : extractToken tail = extractToken tail') :
    extractValue ((key ++ (equalsSign ++ tail)).dropWhile isgraph) true =
      extractValue ((key ++ (equalsSign ++ tail')).dropWhile isgraph) true := by
  have hspace : isspace 32 = true := by decide
  have hgraph : isgraph 32 = false := by decide
  have hequals : isspace equals = false := by decide
  have hrest : ∀ tail, (key ++ (equalsSign ++ tail)).dropWhile isgraph =
      key.dropWhile isgraph ++ (equalsSign ++ tail) := by
    intro tail
    rw [List.dropWhile_append]
    cases key.dropWhile isgraph with
    | nil =>
      rw [List.isEmpty_nil, if_pos rfl, equalsSign, List.cons_append,
        List.dropWhile_cons_of_neg (by simp [hgraph]), List.nil_append]
    | cons b bs => rw [List.isEmpty_cons, if_neg Bool.false_ne_true]
  have hfront : quote ∉ key.dropWhile isgraph := fun hmem =>
    hquote ((List.dropWhile_suffix isgraph).subset hmem)
  rw [hrest, hrest]
  generalize key.dropWhile isgraph = front at hfront
  rw [extractValue, extractValue, if_pos rfl, if_pos rfl]
  cases hdrop : front.dropWhile isspace with
  | nil =>
    have hskip : ∀ tail, (front ++ (equalsSign ++ tail)).dropWhile isspace =
        equals :: 32 :: tail := by
      intro tail
      rw [List.dropWhile_append, hdrop, List.isEmpty_nil, if_pos rfl, equalsSign,
        List.cons_append, List.dropWhile_cons_of_pos hspace, List.cons_append,
        List.dropWhile_cons_of_neg (by simp [hequals])]
      rfl
    rw [hskip, hskip]
    dsimp only
    rw [if_pos rfl, if_pos rfl, extractToken_space, extractToken_space, htoken]
  | cons b bs =>
    have hbs : quote ∉ bs ++ [32] ++ [equals] := by
      have hmem : quote ∉ front.dropWhile isspace := fun h =>
        hfront ((List.dropWhile_suffix isspace).subset h)
      rw [hdrop, List.mem_cons, not_or] at hmem
      simp only [List.mem_append, List.mem_singleton, not_or]
      exact ⟨⟨hmem.2, by decide⟩, by decide⟩
    -- the token behind the equals sign of the key ends before the value
    have hfixed : ∀ tail, extractToken (bs ++ (equalsSign ++ tail)) =
        token (((bs ++ [32] ++ [equals]).dropWhile isspace).takeWhile (!isspace ·)) := by
      intro tail
      rw [← extractToken_front hbs (filled_append _ hequals) tail, List.append_assoc,
        List.append_assoc]
      rfl
    have hskip : ∀ tail, (front ++ (equalsSign ++ tail)).dropWhile isspace =
        b :: (bs ++ (equalsSign ++ tail)) := by
      intro tail
      rw [List.dropWhile_append, hdrop, List.isEmpty_cons, if_neg Bool.false_ne_true,
        List.cons_append]
    rw [hskip, hskip]
    dsimp only
    rw [hfixed, hfixed]

/-- Two lines of a key without quotes give the same entry if the tokens of their values are the
same. -/
theorem parseEntry_alike (hfilled : key.dropWhile isspace ≠ []) (hquote : quote ∉ key)
    {tail tail' : Str} (htoken : extractToken tail = extractToken tail') (hhash : hash ∉ tail)
    (hhash' : hash ∉ tail') :
    parseEntry (key ++ (equalsSign ++ tail)) = parseEntry (key ++ (equalsSign ++ tail')) := by
  have hspaced : ∀ tail, (key ++ (equalsSign ++ tail)).dropWhile isspace =
      key.dropWhile isspace ++ (equalsSign ++ tail) := by
    intro tail
    rw [List.dropWhile_append, if_neg (by simpa using hfilled)]
  have hkept : quote ∉ key.dropWhile isspace := fun hmem =>
    hquote ((List.dropWhile_suffix isspace).subset hmem)
  rw [parseEntry, parseEntry, ← List.append_assoc, ← List.append_assoc]
  rcases stripComment_append true (key ++ equalsSign) with ⟨kept, hkept⟩ | ⟨cut, hrest⟩
  · rw [hkept, hkept]
  · rw [hrest, hrest, stripComment_of_not_mem cut hhash, stripComment_of_not_mem cut hhash',
      List.append_assoc, List.append_assoc, hspaced, hspaced, extractValue_alike hkept htoken,
      takeWhile_key, takeWhile_key]

theorem prefix_stop {name : Str} (hname : (32 : UInt8) ∉ name) (text tail : Str) :
    name ++ [32] <+: text ++ 32 :: tail ↔ name ++ [32] <+: text ++ [32] := by
  induction name generalizing text with
  | nil =>
    cases text with
    | nil => simp
    | cons c text => simp [List.cons_prefix_cons]
  | cons n name ih =>
    rw [List.mem_cons, not_or] at hname
    cases text with
    | nil => simp [List.cons_prefix_cons, Ne.symm hname.1]
    | cons c text =>
      rw [List.cons_append, List.cons_append, List.cons_append, List.cons_prefix_cons,
        List.cons_prefix_cons, ih hname.2]

/-- `include` -/
def includeName : Str := [105, 110, 99, 108, 117, 100, 101]

theorem unspaced_includeName : Unspaced includeName := by
  apply unspaced_of_all
  decide

theorem includePath_key (hkey : Unspaced key) (tail : Str) :
    includePath (key ++ (equalsSign ++ tail)) =
      if key = hash :: includeName then some [equals] else none := by
  have hword : includeWord = includeName ++ [32] := rfl
  have hends : ∀ t : Str, ∀ b ∈ (32 :: t).head?, isspace b = true := by
    intro t b hb
    rw [← Option.some.inj hb]
    decide
  cases key with
  | nil => rfl
  | cons b bs =>
    have hbs : Unspaced bs := fun c hc => hkey c (List.mem_cons_of_mem b hc)
    rw [List.cons_append, includePath]
    by_cases hif :
        (decide (b = hash) && includeWord.isPrefixOf (bs ++ (equalsSign ++ tail))) = true
    · obtain ⟨hb, hprefix⟩ := Bool.and_eq_true_iff.mp hif
      obtain ⟨more, hmore⟩ := List.isPrefixOf_iff_prefix.mp hprefix
      rw [hword, List.append_assoc, List.singleton_append] at hmore
      have hname : bs = includeName := by
        have hleft := unspaced_includeName.takeWhile (32 :: more) (hends more)
        have hright := hbs.takeWhile (equalsSign ++ tail) (hends _)
        rw [hmore, hright] at hleft
        exact hleft
      subst hname
      rw [of_decide_eq_true hb] at hif ⊢
      rw [if_pos hif, if_pos rfl]
      rfl
    · rw [if_neg hif, if_neg]
      rintro heq
      obtain ⟨rfl, rfl⟩ := List.cons.inj heq
      apply hif
      rw [Bool.and_eq_true, decide_eq_true_eq]
      exact ⟨rfl, List.isPrefixOf_iff_prefix.mpr ⟨equals :: 32 :: tail, rfl⟩⟩

theorem includePath_alike (hquote : quote ∉ key) (tail tail' : Str) :
    includePath (key ++ (equalsSign ++ tail)) = includePath (key ++ (equalsSign ++ tail')) := by
  have hequals : isspace equals = false := by decide
  have hword : includeWord = includeName ++ [32] := rfl
  cases key with
  | nil => rfl
  | cons b bs =>
    have hdecided : ∀ tail, includeWord.isPrefixOf (bs ++ (equalsSign ++ tail)) =
        includeWord.isPrefixOf (bs ++ [32]) := by
      intro tail
      rw [Bool.eq_iff_iff, List.isPrefixOf_iff_prefix, List.isPrefixOf_iff_prefix]
      exact @prefix_stop includeName (by decide) bs (equals :: 32 :: tail)
    rw [List.cons_append, List.cons_append, includePath, includePath, hdecided, hdecided]
    split_ifs with hif
    · obtain ⟨-, hprefix⟩ := Bool.and_eq_true_iff.mp hif
      obtain ⟨more, hmore⟩ := List.isPrefixOf_iff_prefix.mp hprefix
      have hmem : quote ∉ more ++ [equals] := by
        have hbs : quote ∉ includeWord ++ more := by
          rw [hmore, List.mem_append, not_or]
          exact ⟨fun h => hquote (List.mem_cons_of_mem b h), by decide⟩
        rw [List.mem_append, not_or] at hbs ⊢
        exact ⟨hbs.2, by decide⟩
      have hfixed : ∀ tail, extractValue ((bs ++ (equalsSign ++ tail)).drop includeWord.length)
          false = token (((more ++ [equals]).dropWhile isspace).takeWhile (!isspace ·)) := by
        intro tail
        have hline : bs ++ (equalsSign ++ tail) =
            includeWord ++ (more ++ [equals] ++ 32 :: tail) := by
          calc bs ++ (equalsSign ++ tail) = bs ++ [32] ++ (equals :: 32 :: tail) := by
                rw [List.append_assoc]
                rfl
            _ = includeWord ++ (more ++ [equals] ++ 32 :: tail) := by
                rw [← hmore, List.append_assoc, List.append_assoc]
                rfl
        rw [hline, List.drop_left, extractValue, if_neg Bool.false_ne_true,
          extractToken_front hmem (filled_append more hequals)]
      rw [hfixed, hfixed]
    · rfl

end Lines

section Agreement

variable {disk : Disk} {path : Str} {conf : ConfigFile}

theorem textEntries_single {line : Str} (disk : Disk) (path : Str) (h : newline ∉ line) :
    textEntries disk path line =
      lineEntries disk (configFileNewInternal disk (maxIncludeDepth - 1)) (blank path) line := by
  rw [textEntries, List.splitOn_eq_singleton h, List.flatMap_singleton]

theorem Unspaced.newline {text : Str} (h : Unspaced text) : newline ∉ text := by
  intro hmem
  have hspace := h _ hmem
  exact absurd hspace (by decide)

theorem entry_alike (disk : Disk) (path : Str) {key value : Str} (hkey : PlainKey key)
    (hvalue : value ≠ []) (hplain : Unspaced value) (hquote : quote ∉ value)
    (hhash : hash ∉ value) :
    textEntries disk path (key ++ equalsSign ++ value) =
      textEntries disk path (key ++ equalsSign ++ quoted value) := by
  have hline : newline ∉ key ++ equalsSign ++ value := by
    rw [List.mem_append, List.mem_append]
    rintro ((hmem | hmem) | hmem)
    · exact hkey.line hmem
    · exact absurd hmem (by decide)
    · exact hplain.newline hmem
  have hline' : newline ∉ key ++ equalsSign ++ quoted value := by
    rw [List.mem_append, List.mem_append, quoted, List.cons_append, List.mem_cons, List.mem_append]
    rintro ((hmem | hmem) | hmem | hmem | hmem)
    · exact hkey.line hmem
    · exact absurd hmem (by decide)
    · exact absurd hmem (by decide)
    · exact hplain.newline hmem
    · exact absurd hmem (by decide)
  have htoken : extractToken value = extractToken (quoted value) := by
    rw [extractToken_unquoted hplain hquote hvalue, extractToken_quoted hquote hvalue]
  have hhash' : hash ∉ quoted value := by
    rw [quoted, List.cons_append, List.mem_cons, List.mem_append]
    rintro (hmem | hmem | hmem)
    · exact absurd hmem (by decide)
    · exact hhash hmem
    · exact absurd hmem (by decide)
  have hread : parseEntry (key ++ (equalsSign ++ value)) =
        parseEntry (key ++ (equalsSign ++ quoted value)) ∧
      includePath (key ++ (equalsSign ++ value)) =
        includePath (key ++ (equalsSign ++ quoted value)) := by
    rcases hkey.unquoted with hfree | hword
    · exact ⟨parseEntry_alike hkey.filled hfree htoken hhash hhash', includePath_alike hfree _ _⟩
    · have hne : key ≠ [] := by
        rintro rfl
        exact hkey.filled rfl
      refine ⟨parseEntry_key hne hword htoken hhash hhash', ?_⟩
      rw [includePath_key hword, includePath_key hword]
  rw [textEntries_single disk path hline, textEntries_single disk path hline', lineEntries,
    lineEntries, includedEntries, includedEntries, List.append_assoc, List.append_assoc, hread.1,
    hread.2]

theorem includePath_start (tail : Str) :
    includePath (includeStart ++ tail) = extractToken tail := rfl

theorem parseEntry_start (tail : Str) : parseEntry (includeStart ++ tail) = none := rfl

theorem token_alike {file : Str} (hplain : Unspaced file) (hquote : quote ∉ file) :
    extractToken file = extractToken (quoted file) := by
  by_cases hne : file = []
  · rw [hne]
    rfl
  · rw [extractToken_unquoted hplain hquote hne, extractToken_quoted hquote hne]

theorem include_alike (disk : Disk) (path : Str) {file : Str} (hplain : Unspaced file)
    (hquote : quote ∉ file) :
    textEntries disk path (orbisIncludeLine file) = textEntries disk path (includeLine file) := by
  have hline : newline ∉ orbisIncludeLine file := by
    rw [orbisIncludeLine, List.mem_append]
    rintro (hmem | hmem)
    · exact absurd hmem (by decide)
    · exact hplain.newline hmem
  have hline' : newline ∉ includeLine file := by
    rw [includeLine, quoted, List.cons_append, List.mem_append, List.mem_cons, List.mem_append]
    rintro (hmem | hmem | hmem | hmem)
    · exact absurd hmem (by decide)
    · exact absurd hmem (by decide)
    · exact hplain.newline hmem
    · exact absurd hmem (by decide)
  rw [textEntries_single disk path hline, textEntries_single disk path hline', lineEntries,
    lineEntries, includedEntries, includedEntries, orbisIncludeLine, includeLine, parseEntry_start,
    parseEntry_start, includePath_start, includePath_start, token_alike hplain hquote]

theorem mapM_sprintfLine {lines : List Str} (h : ∀ line ∈ lines, line.length + 1 < 256) :
    lines.mapM sprintfLine = some (lines.map (· ++ [newline])) := by
  induction lines with
  | nil => rfl
  | cons line lines ih =>
    have hfits : sprintfLine line = some (line ++ [newline]) := if_pos (h line List.mem_cons_self)
    rw [List.mapM_cons, hfits, ih fun other hother => h other (List.mem_cons_of_mem line hother)]
    rfl

theorem lines_alike {line line' : Entry → Option Str} (list : List Entry)
    (h : ∀ e ∈ list, (line e).elim [] (textEntries disk path) =
      (line' e).elim [] (textEntries disk path)) :
    (list.filterMap line).flatMap (textEntries disk path) =
      (list.filterMap line').flatMap (textEntries disk path) := by
  have hflat : ∀ (line : Entry → Option Str),
      (list.filterMap line).flatMap (textEntries disk path) =
        list.flatMap fun e => (line e).elim [] (textEntries disk path) := by
    intro line
    clear h
    induction list with
    | nil => rfl
    | cons e list ih =>
      rw [List.filterMap_cons, List.flatMap_cons, ← ih]
      cases line e with
      | none => rfl
      | some text => rfl
  rw [hflat line, hflat line']
  exact List.flatMap_congr h

theorem reload_congr {text text' : Str}
    (h : textEntries disk path text = textEntries disk path text') (k : Str) :
    reload disk path text k = reload disk path text' k := by
  rw [reload, reload, configGetString_eq, configGetString_eq, found, found, entries_fromString,
    entries_fromString, h]

/-- What an entry without need for quotes writes is read alike, whether it is written or not. -/
theorem entryLine_alike (disk : Disk) (path : Str) {e : Entry}
    (hvalued : e.key.isSome →
      ∃ value, e.value = some value ∧ value ≠ [] ∧ quote ∉ value ∧ newline ∉ value)
    (hplain : e.readonly = false → PlainEntry e) :
    (orbisEntryLine e).elim [] (textEntries disk path) =
      (entryLine e).elim [] (textEntries disk path) := by
  rw [orbisEntryLine, entryLine]
  split_ifs with hreadonly
  · rfl
  · have hentry := hplain (by simpa using hreadonly)
    cases hkey : e.key with
    | none => rfl
    | some key =>
      obtain ⟨value, hvalue, hne, hquote, -⟩ := hvalued (by rw [hkey]; rfl)
      have hword := hentry.key key hkey
      have hfree := hentry.value value hvalue
      rw [hvalue]
      exact entry_alike disk path hword hne hfree.1 hquote hfree.2

theorem dumpOrbis_eq {sorted : List Entry}
    (hsort : mergeSortLinkedList conf.entries = some sorted)
    (hincludes : ∀ p ∈ conf.includes, (orbisIncludeLine p).length + 1 < 256)
    (hlines : ∀ e ∈ sorted, ∀ line ∈ orbisEntryLine e, line.length + 1 < 256) :
    configFileDumpOrbis conf = some (sorted, joinLines (conf.includes.map orbisIncludeLine) ++
      joinLines (sorted.filterMap orbisEntryLine)) := by
  have hfirst : ∀ line ∈ conf.includes.map orbisIncludeLine, line.length + 1 < 256 := by
    intro line hline
    obtain ⟨p, hp, rfl⟩ := List.mem_map.mp hline
    exact hincludes p hp
  have hsecond : ∀ line ∈ sorted.filterMap orbisEntryLine, line.length + 1 < 256 := by
    intro line hline
    obtain ⟨e, he, heq⟩ := List.mem_filterMap.mp hline
    exact hlines e he line heq
  rw [configFileDumpOrbis, mapM_sprintfLine hfirst, Option.bind_some, hsort, Option.bind_some,
    mapM_sprintfLine hsecond, Option.map_some]
  rfl

/-- The entry `a` with a value. -/
def single (value : Str) : ConfigFile :=
  { configFileNewAlloc with entries := [⟨false, some [97], some value⟩] }

end Agreement

end RetroArch.File.Dump
