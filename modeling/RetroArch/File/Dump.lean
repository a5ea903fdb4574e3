/- Configuration files written, with the entries as they are or sorted by key. -/

import RetroArch.File.ConfigKeys
import RetroArch.Library.Casing
import RetroArch.Library.MergeSort

namespace RetroArch.File.Dump

open Std Config ConfigKeys Library.Casing Library.MergeSort

/-- There is no result where one of the keys is NULL. -/
def configSortCompareFunc (a b : Entry) : Option Ordering :=
  a.key.bind fun key => b.key.map fun other => strcasecmp key other

def mergeSortLinkedList (list : List Entry) : Option (List Entry) :=
  mergeSort configSortCompareFunc list

/-- `(null)`, as `%s` prints it -/
def nullText : Str := [40, 110, 117, 108, 108, 41]

/-- `#include ` -/
def includeStart : Str := hash :: includeWord

/-- ` = ` -/
def equalsSign : Str := [32, equals, 32]

def quoted (text : Str) : Str := quote :: text ++ [quote]

/-- The line of an include without its end. -/
def includeLine (path : Str) : Str := includeStart ++ quoted path

/-- The line of an entry without its end, where it is written. -/
def entryLine (e : Entry) : Option Str :=
  if e.readonly then none
  else e.key.map fun key => key ++ equalsSign ++ quoted (e.value.getD nullText)

/-- Lines with their ends. -/
def joinLines (lines : List Str) : Str := lines.flatMap fun line => line ++ [newline]

/-- What `conf->entries` is afterwards, and the text of the file. -/
def configFileDump (conf : ConfigFile) (sort : Bool) : Option (List Entry × Str) :=
  (if sort then mergeSortLinkedList conf.entries else some conf.entries).map fun list =>
    (list, joinLines (conf.includes.map includeLine) ++ joinLines (list.filterMap entryLine))

section Reading

variable (disk : Disk) (openAt : Str → Option ConfigFile)

/-- The entries of the file that an include line names. -/
def includedEntries (conf : ConfigFile) (line : Str) : List Entry :=
  match includePath line with
  | some path =>
    if conf.includeDepth ≥ maxIncludeDepth then []
    else
      match openAt (realPath disk conf path) with
      | some sub => sub.entries.map fun e => { e with readonly := true }
      | none => []
  | none => []

/-- The entries that a line adds. -/
def lineEntries (conf : ConfigFile) (line : Str) : List Entry :=
  includedEntries disk openAt conf line ++ (parseEntry line).toList

/-- `tail` points to the last entry. -/
def Tidy (conf : ConfigFile) : Prop :=
  conf.tail = if conf.entries = [] then none else some (conf.entries.length - 1)

variable {disk : Disk} {openAt : Str → Option ConfigFile} {conf conf' : ConfigFile}

/-- Reading on adds these entries at the end, and nothing else that reading depends on. -/
structure Adds (conf conf' : ConfigFile) (entries : List Entry) : Prop where
  tidy : Tidy conf'
  path : conf'.path = conf.path
  depth : conf'.includeDepth = conf.includeDepth
  entries : conf'.entries = conf.entries ++ entries

theorem Adds.trans {conf'' : ConfigFile} {entries more : List Entry} (h : Adds conf conf' entries)
    (h' : Adds conf' conf'' more) : Adds conf conf'' (entries ++ more) where
  tidy := h'.tidy
  path := h'.path.trans h.path
  depth := h'.depth.trans h.depth
  entries := by rw [h'.entries, h.entries, List.append_assoc]

theorem adds_entry (h : Tidy conf) (e : Entry) : Adds conf (appendEntry conf e) [e] := by
  rw [Tidy] at h
  unfold appendEntry
  split
  · next hnil => exact ⟨rfl, rfl, rfl, by rw [hnil]; rfl⟩
  · next hne =>
      have hcons : conf.entries ≠ [] := hne
      have hpos := List.length_pos_iff.mpr hcons
      rw [if_neg hcons] at h
      have hentries : linkAfter conf.entries conf.tail [e] = conf.entries ++ [e] := by
        rw [h, linkAfter, List.take_of_length_le (by omega)]
      refine ⟨?_, rfl, rfl, hentries⟩
      rw [Tidy]
      dsimp only
      rw [hentries, h, if_neg (by simp), List.length_append, Option.map_some, List.length_singleton]
      congr 1
      omega

theorem adds_include (disk : Disk) (openAt : Str → Option ConfigFile) (h : Tidy conf)
    (line : Str) :
    Adds conf (parseInclude disk openAt conf line) (includedEntries disk openAt conf line) := by
  rw [parseInclude, includedEntries]
  cases includePath line with
  | none => exact ⟨h, rfl, rfl, (List.append_nil _).symm⟩
  | some path =>
    dsimp only
    split_ifs
    · exact ⟨h, rfl, rfl, (List.append_nil _).symm⟩
    · rw [addSubConf]
      have hpath : realPath disk { conf with includes := conf.includes ++ [path] } path =
          realPath disk conf path := rfl
      rw [hpath]
      cases openAt (realPath disk conf path) with
      | none => exact ⟨h, rfl, rfl, (List.append_nil _).symm⟩
      | some sub => exact ⟨rfl, rfl, rfl, rfl⟩

theorem adds_line (disk : Disk) (openAt : Str → Option ConfigFile) (h : Tidy conf)
    (line : Str) :
    Adds conf (parseLine disk openAt conf line) (lineEntries disk openAt conf line) := by
  have hinclude := adds_include disk openAt h line
  rw [parseLine, lineEntries]
  cases parseEntry line with
  | none => simpa using hinclude
  | some e => exact hinclude.trans (adds_entry hinclude.tidy e)

theorem lineEntries_congr (hpath : conf'.path = conf.path)
    (hdepth : conf'.includeDepth = conf.includeDepth) (line : Str) :
    lineEntries disk openAt conf' line = lineEntries disk openAt conf line := by
  have hreal : ∀ path, realPath disk conf' path = realPath disk conf path := by
    intro path
    rw [realPath, realPath, hpath]
  simp only [lineEntries, includedEntries, hdepth, hreal]

theorem adds_lines (disk : Disk) (openAt : Str → Option ConfigFile) (h : Tidy conf)
    (lines : List Str) :
    Adds conf (lines.foldl (parseLine disk openAt) conf)
      (lines.flatMap (lineEntries disk openAt conf)) := by
  induction lines generalizing conf with
  | nil => exact ⟨h, rfl, rfl, (List.append_nil _).symm⟩
  | cons line lines ih =>
    have hline := adds_line disk openAt h line
    have hrest := ih hline.tidy
    have hsame : lineEntries disk openAt (parseLine disk openAt conf line) =
        lineEntries disk openAt conf := by
      ext1 other
      exact lineEntries_congr hline.path hline.depth other
    rw [hsame] at hrest
    exact hline.trans hrest

/-- The configuration that a string is read into. -/
def blank (path : Str) : ConfigFile :=
  { configFileNewAlloc with path := if path = [] then none else some path }

/-- The entries that a text adds. -/
def textEntries (disk : Disk) (path text : Str) : List Entry :=
  (text.splitOn newline).flatMap
    (lineEntries disk (configFileNewInternal disk (maxIncludeDepth - 1)) (blank path))

theorem entries_fromString (disk : Disk) (text path : Str) :
    (configFileNewFromString disk text path).entries = textEntries disk path text := by
  have hadds := adds_lines disk (configFileNewInternal disk (maxIncludeDepth - 1))
    (show Tidy (blank path) from rfl) (text.splitOn newline)
  exact hadds.entries

theorem textEntries_nil (disk : Disk) (path : Str) : textEntries disk path [] = [] := by
  rw [textEntries, List.splitOn_nil]
  rfl

theorem textEntries_line (disk : Disk) (path line text : Str) :
    textEntries disk path (line ++ newline :: text) =
      textEntries disk path line ++ textEntries disk path text := by
  rw [textEntries, List.splitOn_append_cons_self, List.flatMap_append]
  rfl

theorem textEntries_joinLines (disk : Disk) (path : Str) (lines : List Str) (text : Str) :
    textEntries disk path (joinLines lines ++ text) =
      lines.flatMap (textEntries disk path) ++ textEntries disk path text := by
  induction lines with
  | nil => rfl
  | cons line lines ih =>
    have hcons : joinLines (line :: lines) ++ text =
        line ++ newline :: (joinLines lines ++ text) := by simp [joinLines]
    rw [hcons, textEntries_line, ih, List.flatMap_cons, List.append_assoc]

theorem textEntries_file (disk : Disk) (path : Str) (includes lines : List Str) :
    textEntries disk path (joinLines includes ++ joinLines lines) =
      includes.flatMap (textEntries disk path) ++ lines.flatMap (textEntries disk path) := by
  have hend := textEntries_joinLines disk path lines []
  rw [List.append_nil, textEntries_nil, List.append_nil] at hend
  rw [textEntries_joinLines, hend]

/-- The entry of a key that a written line of an entry sets, where it sets one. -/
def setBy (disk : Disk) (path k : Str) (line : Entry → Option Str) (e : Entry) : Option Entry :=
  (line e).bind fun line => (textEntries disk path line).find? (ofKey k)

theorem find?_lines (disk : Disk) (path k : Str) (line : Entry → Option Str) (list : List Entry) :
    ((list.filterMap line).flatMap (textEntries disk path)).find? (ofKey k) =
      (list.find? fun e => (setBy disk path k line e).isSome).bind (setBy disk path k line) := by
  induction list with
  | nil => rfl
  | cons e list ih =>
    rw [List.filterMap_cons, List.find?_cons]
    cases hline : line e with
    | none =>
      have hset : setBy disk path k line e = none := by rw [setBy, hline, Option.bind_none]
      rw [hset]
      exact ih
    | some text =>
      have hset : setBy disk path k line e = (textEntries disk path text).find? (ofKey k) := by
        rw [setBy, hline, Option.bind_some]
      dsimp only
      rw [List.flatMap_cons, List.find?_append, ih, ← hset]
      cases hfound : setBy disk path k line e with
      | none => rfl
      | some e' =>
        rw [Option.isSome_some, Option.some_or]
        exact hfound.symm

end Reading

/-- The comparison of two entries with keys. -/
def byKey (a b : Entry) : Ordering := strcasecmp (a.key.getD []) (b.key.getD [])

instance : TransCmp byKey where
  eq_swap := by
    intro a b
    exact @OrientedCmp.eq_swap _ strcasecmp _ _ _
  isLE_trans := by
    intro a b d
    exact @TransCmp.isLE_trans _ strcasecmp _ _ _ _

def Keyed (e : Entry) : Prop := e.key.isSome

/-- Each entry compares as no greater than those behind it. -/
def KeySorted (list : List Entry) : Prop :=
  list.Pairwise fun a b => ∀ order ∈ configSortCompareFunc a b, order.isLE

/-- What a lookup of the key gives in the configuration that the text is read into. -/
def reload (disk : Disk) (path text k : Str) : Option Str :=
  configGetString (configFileNewFromString disk text path) k

/-- Writing sorted is safe, sorts the entries, and changes no lookup, here and after a reload. -/
def SortKeeps (disk : Disk) (path : Str) (conf : ConfigFile) : Prop :=
  ∃ sorted text plain, configFileDump conf true = some (sorted, text) ∧
    configFileDump conf false = some (conf.entries, plain) ∧ sorted.Perm conf.entries ∧
    KeySorted sorted ∧ (∀ k, found { conf with entries := sorted } k = found conf k) ∧
    ∀ k, reload disk path text k = reload disk path plain k

/-- The value that the first of the entries whose line sets the key gives it. -/
def firstSet (disk : Disk) (path : Str) (conf : ConfigFile) (k : Str) : Option Str :=
  let setter := conf.entries.find? fun e => (setBy disk path k entryLine e).isSome
  (setter.bind (setBy disk path k entryLine)).bind Entry.value

/-- The value that the one of these with the least key gives it, the last one among keys that are
equal but for case. -/
def leastSet (disk : Disk) (path : Str) (conf : ConfigFile) (k : Str) : Option Str :=
  let setter := least byKey <| conf.entries.filter fun e => (setBy disk path k entryLine e).isSome
  (setter.bind (setBy disk path k entryLine)).bind Entry.value

/-- The lines of the includes set the key. -/
def Included (disk : Disk) (path : Str) (conf : ConfigFile) (k : Str) : Prop :=
  ∃ e ∈ (conf.includes.map includeLine).flatMap (textEntries disk path), ofKey k e

/-- There is nothing to sort; or each entry has a key, the first and the last one of each key are
the same, and each key that the includes leave open is set alike by the first of the written
entries and by the least. -/
def Sortable (disk : Disk) (path : Str) (conf : ConfigFile) : Prop :=
  conf.entries.length ≤ 1 ∨
    (∀ e ∈ conf.entries, Keyed e) ∧
      (∀ k, (conf.entries.filter (ofKey k)).head? = (conf.entries.filter (ofKey k)).getLast?) ∧
      ∀ k, ¬ Included disk path conf k → firstSet disk path conf k = leastSet disk path conf k

section Sorted

variable {disk : Disk} {path k : Str} {conf : ConfigFile} {list sorted : List Entry}

theorem compare_keyed {a b : Entry} (ha : Keyed a) (hb : Keyed b) :
    configSortCompareFunc a b = some (byKey a b) := by
  obtain ⟨key, hkey⟩ := Option.isSome_iff_exists.mp ha
  obtain ⟨other, hother⟩ := Option.isSome_iff_exists.mp hb
  rw [configSortCompareFunc, byKey, hkey, hother]
  rfl

theorem keyed_of_compare (a b : Entry) (h : (configSortCompareFunc a b).isSome) :
    Keyed a ∧ Keyed b := by
  obtain ⟨order, horder⟩ := Option.isSome_iff_exists.mp h
  obtain ⟨key, hkey, hrest⟩ := Option.bind_eq_some_iff.mp horder
  obtain ⟨other, hother, -⟩ := Option.map_eq_some_iff.mp hrest
  exact ⟨Option.isSome_of_eq_some hkey, Option.isSome_of_eq_some hother⟩

theorem total_of_keyed (h : ∀ e ∈ list, Keyed e) : Total configSortCompareFunc byKey list :=
  fun a ha b hb => compare_keyed (h a ha) (h b hb)

theorem byKey_of_ofKey {a b : Entry} (ha : ofKey k a) (hb : ofKey k b) : byKey a b = .eq := by
  rw [byKey, of_decide_eq_true ha, of_decide_eq_true hb]
  exact strcasecmp_self _

theorem least_ofKey (list : List Entry) (k : Str) :
    least byKey (list.filter (ofKey k)) = (list.filter (ofKey k)).getLast? := by
  apply least_alike
  intro a ha b hb
  exact byKey_of_ofKey (List.mem_filter.mp ha).2 (List.mem_filter.mp hb).2

theorem keySorted_of_sorted (hkeyed : ∀ e ∈ sorted, Keyed e) (h : Sorted byKey sorted) :
    KeySorted sorted := by
  apply List.Pairwise.imp_of_mem _ h
  intro a b ha hb hle order horder
  rw [compare_keyed (hkeyed a ha) (hkeyed b hb)] at horder
  rw [← Option.some.inj horder]
  exact hle

theorem reload_eq (disk : Disk) (path : Str) (includes : List Str) (line : Entry → Option Str)
    (list : List Entry) (k : Str) :
    reload disk path (joinLines includes ++ joinLines (list.filterMap line)) k =
      (((includes.flatMap (textEntries disk path)).find? (ofKey k)).or
        ((list.find? fun e => (setBy disk path k line e).isSome).bind
          (setBy disk path k line))).bind Entry.value := by
  rw [reload, configGetString_eq, found, entries_fromString, textEntries_file, List.find?_append,
    find?_lines]

/-- Two lists of entries with the same includes give the same settings if they do so for the keys
that the includes leave open. -/
theorem reload_same_iff {line line' : Entry → Option Str} {list list' : List Entry}
    (includes : List Str) :
    (∀ k, reload disk path (joinLines includes ++ joinLines (list.filterMap line)) k =
        reload disk path (joinLines includes ++ joinLines (list'.filterMap line')) k) ↔
      ∀ k, ¬ (∃ e ∈ includes.flatMap (textEntries disk path), ofKey k e) →
        (((list.find? fun e => (setBy disk path k line e).isSome).bind
            (setBy disk path k line)).bind Entry.value) =
          ((list'.find? fun e => (setBy disk path k line' e).isSome).bind
            (setBy disk path k line')).bind Entry.value := by
  apply forall_congr'
  intro k
  rw [reload_eq, reload_eq]
  cases hfind : (includes.flatMap (textEntries disk path)).find? (ofKey k) with
  | none =>
    have hnone : ¬ ∃ e ∈ includes.flatMap (textEntries disk path), ofKey k e := by
      rintro ⟨e, he, hkey⟩
      exact List.find?_eq_none.mp hfind e he hkey
    rw [Option.none_or, Option.none_or]
    exact ⟨fun h _ => h, fun h => h hnone⟩
  | some e =>
    have hsome : ∃ e ∈ includes.flatMap (textEntries disk path), ofKey k e :=
      ⟨e, List.mem_of_find?_eq_some hfind, List.find?_some hfind⟩
    exact ⟨fun _ hnot => absurd hsome hnot, fun _ => rfl⟩

theorem dump_unsorted (conf : ConfigFile) :
    configFileDump conf false = some (conf.entries, joinLines (conf.includes.map includeLine) ++
      joinLines (conf.entries.filterMap entryLine)) := rfl

theorem dump_sorted (h : mergeSortLinkedList conf.entries = some sorted) :
    configFileDump conf true = some (sorted, joinLines (conf.includes.map includeLine) ++
      joinLines (sorted.filterMap entryLine)) := by
  rw [configFileDump, if_pos rfl, h, Option.map_some]

theorem sortKeeps_short (h : conf.entries.length ≤ 1) : SortKeeps disk path conf := by
  have hsort : mergeSortLinkedList conf.entries = some conf.entries := mergeSort_short _ h
  refine ⟨_, _, _, dump_sorted hsort, dump_unsorted conf, .refl _, ?_, fun _ => rfl, fun _ => rfl⟩
  match hentries : conf.entries with
  | [] => exact List.Pairwise.nil
  | [e] => exact List.pairwise_singleton _ e
  | _ :: _ :: _ =>
    rw [hentries] at h
    simp at h

theorem sortKeeps_keyed (h : ∀ e ∈ conf.entries, Keyed e) :
    SortKeeps disk path conf ↔
      (∀ k, (conf.entries.filter (ofKey k)).head? = (conf.entries.filter (ofKey k)).getLast?) ∧
        ∀ k, ¬ Included disk path conf k →
          firstSet disk path conf k = leastSet disk path conf k := by
  obtain ⟨sorted, hsort, hsorted, hfind⟩ := mergeSort_spec (total_of_keyed h)
  have hperm := mergeSort_perm hsort
  have hlookup : (∀ k, found { conf with entries := sorted } k = found conf k) ↔
      ∀ k, (conf.entries.filter (ofKey k)).head? = (conf.entries.filter (ofKey k)).getLast? := by
    apply forall_congr'
    intro k
    rw [found, found, hfind, least_ofKey, List.head?_filter]
    exact eq_comm
  have hreload := @reload_same_iff disk path entryLine entryLine sorted conf.entries
    (conf.includes.map includeLine)
  have hsets : (∀ k, ¬ Included disk path conf k →
      ((sorted.find? fun e => (setBy disk path k entryLine e).isSome).bind
        (setBy disk path k entryLine)).bind Entry.value = firstSet disk path conf k) ↔
      ∀ k, ¬ Included disk path conf k →
        firstSet disk path conf k = leastSet disk path conf k := by
    apply forall_congr'
    intro k
    rw [hfind, ← leastSet]
    exact imp_congr_right fun _ => eq_comm
  constructor
  · rintro ⟨sorted', text, plain, htrue, hfalse, -, -, hsame, hload⟩
    rw [dump_sorted hsort] at htrue
    rw [dump_unsorted] at hfalse
    obtain ⟨rfl, rfl⟩ := Prod.mk.inj (Option.some.inj htrue)
    obtain ⟨-, rfl⟩ := Prod.mk.inj (Option.some.inj hfalse)
    exact ⟨hlookup.mp hsame, hsets.mp (hreload.mp hload)⟩
  · rintro ⟨hends, hset⟩
    refine ⟨_, _, _, dump_sorted hsort, dump_unsorted conf, hperm, ?_, hlookup.mpr hends,
      hreload.mpr (hsets.mpr hset)⟩
    exact keySorted_of_sorted (fun e he => h e (hperm.mem_iff.mp he)) hsorted

theorem sortKeeps_of_sortable (h : Sortable disk path conf) : SortKeeps disk path conf := by
  rcases h with hshort | ⟨hkeyed, hrest⟩
  · exact sortKeeps_short hshort
  · exact (sortKeeps_keyed hkeyed).mpr hrest

/-- Writing sorted keeps every setting exactly where there is nothing to sort, or every entry has a
key and the sort changes neither the first entry of a key nor the first line that sets it. -/
theorem sortKeeps_iff (disk : Disk) (path : Str) (conf : ConfigFile) :
    SortKeeps disk path conf ↔ Sortable disk path conf := by
  refine ⟨fun hkeeps => ?_, sortKeeps_of_sortable⟩
  rcases Nat.lt_or_ge 1 conf.entries.length with hlong | hshort
  · obtain ⟨sorted, text, -, htrue, -⟩ := id hkeeps
    obtain ⟨out, hsort, -⟩ := Option.map_eq_some_iff.mp htrue
    have hkeyed := mergeSort_compared keyed_of_compare hsort hlong
    exact .inr ⟨hkeyed, (sortKeeps_keyed hkeyed).mp hkeeps⟩
  · exact .inl hshort

def blankDisk : Disk where
  content := fun _ => none
  home := none
  resolve := fun _ path => path

/-- `a = 1` and `a = 2` -/
def twice : ConfigFile :=
  configFileNewFromString blankDisk [97, 32, 61, 32, 49, 10, 97, 32, 61, 32, 50, 10] []

/-- Of two entries of a key, as they are read from a file, sorting puts the second one first. -/
theorem duplicate_reversed : ¬ ∀ disk path conf, SortKeeps disk path conf := by
  intro h
  have hentries : twice.entries =
      [⟨false, some [97], some [49]⟩, ⟨false, some [97], some [50]⟩] := by decide
  have hkeyed : ∀ e ∈ twice.entries, Keyed e := by
    rw [hentries]
    simp [Keyed]
  have hends := ((sortKeeps_keyed hkeyed).mp (h blankDisk [] twice)).1 [97]
  rw [hentries] at hends
  exact absurd hends (by decide)

end Sorted

end RetroArch.File.Dump
