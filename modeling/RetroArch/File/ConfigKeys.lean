/- What setting and unsetting one key does to the others, in every configuration that is reached. -/

import RetroArch.File.Config
import RetroArch.Library.Run

namespace RetroArch.File.ConfigKeys

open Library.Run Config

variable {conf conf' : ConfigFile} {k v : Str}

section Reached

inductive Event
  | append (disk : Disk) (path : Str)
  | set (key val : Str)
  | unset (key : Str)

/-- An append that fails leaves the configuration as it was. -/
def step (conf : ConfigFile) : Event → Option ConfigFile
  | .append disk path => some ((configAppendFile disk conf path).getD conf)
  | .set key val => some (configSetString conf key val)
  | .unset key => some (configUnset conf key)

inductive Loaded : ConfigFile → Prop
  | file {disk : Disk} {path : Str} {conf : ConfigFile}
      (h : configFileNew disk path = some conf) : Loaded conf
  | string (disk : Disk) (text path : Str) : Loaded (configFileNewFromString disk text path)
  | pathToString {disk : Disk} {path : Str} {conf : ConfigFile}
      (h : configFileNewFromPathToString disk path = some conf) : Loaded conf

def Reachable (conf : ConfigFile) : Prop :=
  ∃ start events, Loaded start ∧ run step start events = some conf

variable {disk : Disk} {openAt : Str → Option ConfigFile}

theorem parseLine_flag (conf : ConfigFile) (line : Str) :
    (parseLine disk openAt conf line).guaranteedNoDuplicates = conf.guaranteedNoDuplicates := by
  have hinclude : (parseInclude disk openAt conf line).guaranteedNoDuplicates
      = conf.guaranteedNoDuplicates := by
    unfold parseInclude
    cases includePath line with
    | none => rfl
    | some path =>
      dsimp only
      split_ifs
      · rfl
      · simp only [addSubConf]
        split <;> rfl
  unfold parseLine
  cases parseEntry line with
  | none => exact hinclude
  | some e =>
    rw [← hinclude]
    simp only [appendEntry]
    split <;> rfl

theorem parseLines_flag (conf : ConfigFile) (lines : List Str) :
    (lines.foldl (parseLine disk openAt) conf).guaranteedNoDuplicates
      = conf.guaranteedNoDuplicates := by
  induction lines generalizing conf with
  | nil => rfl
  | cons line lines ih =>
    rw [List.foldl_cons, ih]
    exact parseLine_flag conf line

theorem newInternal_flag {room : ℕ} {path : Str}
    (h : configFileNewInternal disk room path = some conf) :
    conf.guaranteedNoDuplicates = false := by
  cases path with
  | nil =>
    unfold configFileNewInternal at h
    exact (congrArg ConfigFile.guaranteedNoDuplicates (Option.some.inj h)).symm
  | cons b path =>
    unfold configFileNewInternal at h
    obtain ⟨bytes, -, rfl⟩ := Option.map_eq_some_iff.mp h
    exact parseLines_flag _ _

theorem Loaded.flag (h : Loaded conf) : conf.guaranteedNoDuplicates = false := by
  cases h with
  | file h => exact newInternal_flag h
  | string disk text path => exact parseLines_flag _ _
  | pathToString h =>
    obtain ⟨bytes, -, rfl⟩ := Option.map_eq_some_iff.mp h
    exact parseLines_flag _ _

theorem step_flag {e : Event} (h : step conf e = some conf') :
    conf'.guaranteedNoDuplicates = conf.guaranteedNoDuplicates := by
  cases e with
  | append disk path =>
    have happend : (configAppendFile disk conf path).getD conf = conf' := Option.some.inj h
    rw [← happend, configAppendFile]
    cases configFileNewFromPathToString disk path with
    | none => rfl
    | some new => cases hnew : new.tail <;> simp [hnew]
  | set key val =>
    have hset : configSetString conf key val = conf' := Option.some.inj h
    rw [← hset]
    simp only [configSetString]
    split <;> rfl
  | unset key =>
    have hunset : configUnset conf key = conf' := Option.some.inj h
    rw [← hunset, configUnset]
    cases configGetEntry conf key <;> rfl

theorem Reachable.flag (h : Reachable conf) : conf.guaranteedNoDuplicates = false := by
  obtain ⟨start, events, hstart, hrun⟩ := h
  apply run_invariant (I := fun conf => conf.guaranteedNoDuplicates = false) ?_ hstart.flag hrun
  intro s e t hs hstep
  rw [step_flag hstep]
  exact hs

end Reached

def ofKey (k : Str) (e : Entry) : Bool := e.key = some k

/-- The entry that a lookup of the key finds. -/
def found (conf : ConfigFile) (k : Str) : Option Entry := conf.entries.find? (ofKey k)

theorem configGetEntry_none (h : ∀ e ∈ conf.entries, e.key ≠ some k) :
    configGetEntry conf k = none := by
  rw [configGetEntry, List.findIdx?_eq_none_iff]
  intro e he
  exact decide_eq_false (h e he)

theorem configGetEntry_append {before after : List Entry} {e : Entry}
    (hentries : conf.entries = before ++ e :: after) (hbefore : ∀ x ∈ before, x.key ≠ some k)
    (he : e.key = some k) : configGetEntry conf k = some before.length := by
  have hnone : before.findIdx? (fun e => e.key = some k) = none := by
    rw [List.findIdx?_eq_none_iff]
    intro x hx
    exact decide_eq_false (hbefore x hx)
  rw [configGetEntry, hentries, List.findIdx?_append, hnone, List.findIdx?_cons]
  simp [he]

theorem configGetEntry_cases (conf : ConfigFile) (k : Str) :
    (∀ e ∈ conf.entries, e.key ≠ some k) ∨
      ∃ before e after, conf.entries = before ++ e :: after ∧
        (∀ x ∈ before, x.key ≠ some k) ∧ e.key = some k := by
  cases hfind : conf.entries.find? (ofKey k) with
  | none =>
    left
    intro e he hkey
    have hno := List.find?_eq_none.mp hfind e he
    exact hno (decide_eq_true hkey)
  | some e =>
    right
    obtain ⟨hkey, before, after, hentries, hbefore⟩ := List.find?_eq_some_iff_append.mp hfind
    refine ⟨before, e, after, hentries, ?_, of_decide_eq_true hkey⟩
    intro x hx hxkey
    have hno := hbefore x hx
    rw [ofKey, decide_eq_true hxkey] at hno
    exact Bool.noConfusion hno

theorem found_append {before after : List Entry} {e : Entry}
    (hentries : conf.entries = before ++ e :: after) (hbefore : ∀ x ∈ before, x.key ≠ some k)
    (he : e.key = some k) : found conf k = some e := by
  rw [found, List.find?_eq_some_iff_append]
  refine ⟨decide_eq_true he, before, after, hentries, ?_⟩
  intro x hx
  rw [ofKey, decide_eq_false (hbefore x hx)]
  rfl

theorem found_none (h : ∀ e ∈ conf.entries, e.key ≠ some k) : found conf k = none := by
  rw [found, List.find?_eq_none]
  intro e he hkey
  exact h e he (of_decide_eq_true hkey)

theorem configGetString_eq (conf : ConfigFile) (k : Str) :
    configGetString conf k = (found conf k).bind Entry.value := by
  rw [configGetString]
  rcases configGetEntry_cases conf k with hnone | ⟨before, e, after, hentries, hbefore, he⟩
  · rw [configGetEntry_none hnone, found_none hnone]
    rfl
  · rw [configGetEntry_append hentries hbefore he, found_append hentries hbefore he, hentries]
    simp

/-- Every entry that is not of the key, in its order. -/
def others (conf : ConfigFile) (k : Str) : List Entry := conf.entries.filter fun e => !ofKey k e

theorem found_of_others {k' : Str} (hne : k' ≠ k) (h : others conf' k = others conf k) :
    found conf' k' = found conf k' := by
  have hsplit : ∀ c : ConfigFile, found c k' = (others c k).find? (ofKey k') := by
    intro c
    rw [found, others, List.find?_filter]
    congr 1
    funext e
    by_cases he : e.key = some k'
    · have hnot : e.key ≠ some k := by
        intro hk
        exact hne (Option.some.inj (he.symm.trans hk))
      rw [ofKey, ofKey, decide_eq_true he, decide_eq_false hnot]
      rfl
    · simp [ofKey, he]
  rw [hsplit, hsplit, h]

section Set

variable {before after : List Entry} {e : Entry}

theorem modify_middle (f : Entry → Entry) (before : List Entry) (e : Entry) (after : List Entry) :
    (before ++ e :: after).modify before.length f = before ++ f e :: after := by
  induction before with
  | nil => rfl
  | cons x before ih => exact congrArg (x :: ·) ih

theorem set_new (hflag : conf.guaranteedNoDuplicates = false)
    (h : ∀ e ∈ conf.entries, e.key ≠ some k) :
    (configSetString conf k v).entries = conf.entries ++ [⟨false, some k, some v⟩] := by
  have hnone := configGetEntry_none h
  simp only [configSetString, hflag, hnone, configGetEntryPrev, ConfigFile.head,
    Bool.false_and, Bool.false_eq_true, if_false, Option.filter_none]
  cases hentries : conf.entries with
  | nil => rfl
  | cons x xs =>
    rw [if_neg (List.cons_ne_nil x xs)]
    simp only [linkAfter, List.length_cons, Nat.add_sub_cancel]
    rw [← List.length_cons, List.take_length]

theorem set_replace (hflag : conf.guaranteedNoDuplicates = false)
    (hentries : conf.entries = before ++ e :: after) (hbefore : ∀ x ∈ before, x.key ≠ some k)
    (he : e.key = some k) (hro : e.readonly = false) :
    (configSetString conf k v).entries = before ++ { e with value := some v } :: after := by
  have hfound := configGetEntry_append hentries hbefore he
  have hwrite : (conf.entries[before.length]?.any fun e => !e.readonly) = true := by
    rw [hentries]
    simp [hro]
  simp only [configSetString, hflag, hfound, Bool.false_eq_true, if_false, Option.filter_some,
    hwrite, if_true]
  rw [hentries]
  exact modify_middle _ before e after

theorem set_readonly (hflag : conf.guaranteedNoDuplicates = false)
    (hentries : conf.entries = before ++ e :: after) (hbefore : ∀ x ∈ before, x.key ≠ some k)
    (he : e.key = some k) (hro : e.readonly = true) :
    (configSetString conf k v).entries = conf.entries.take 1 ++ [⟨false, some k, some v⟩] := by
  have hfound := configGetEntry_append hentries hbefore he
  have hwrite : (conf.entries[before.length]?.any fun e => !e.readonly) = false := by
    rw [hentries]
    simp [hro]
  have hne : conf.entries ≠ [] := by
    rw [hentries]
    simp
  simp only [configSetString, hflag, hfound, configGetEntryPrev, ConfigFile.head, hne,
    Bool.false_and, Bool.false_eq_true, if_false, Option.filter_some, hwrite]
  rfl

theorem unset_first (hentries : conf.entries = before ++ e :: after)
    (hbefore : ∀ x ∈ before, x.key ≠ some k) (he : e.key = some k) :
    (configUnset conf k).entries
      = before ++ { e with key := none, value := none } :: after := by
  rw [configUnset, configGetEntry_append hentries hbefore he]
  change conf.entries.modify before.length _ = _
  rw [hentries]
  exact modify_middle _ before e after

theorem unset_none (h : ∀ e ∈ conf.entries, e.key ≠ some k) : configUnset conf k = conf := by
  rw [configUnset, configGetEntry_none h]

end Set

/-- The entry that a lookup of the key finds came from an include. -/
def isReadonly (conf : ConfigFile) (k : Str) : Bool := (found conf k).any Entry.readonly

/-- What setting `k` to `v` promises: other entries are kept, other keys read as before, and `k`
reads `v` unless it is read-only. -/
structure SetKeeps (conf : ConfigFile) (k v : Str) : Prop where
  keeps : others (configSetString conf k v) k = others conf k
  reads : ∀ k' ≠ k, configGetString (configSetString conf k v) k' = configGetString conf k'
  sets : configGetString (configSetString conf k v) k
    = if isReadonly conf k then configGetString conf k else some v

/-- What unsetting `k` promises: no lookup finds `k`, and other keys read as before. -/
structure UnsetKeeps (conf : ConfigFile) (k : Str) : Prop where
  gone : configGetEntry (configUnset conf k) k = none
  reads : ∀ k' ≠ k, configGetString (configUnset conf k) k' = configGetString conf k'

/-- Setting a read-only key cuts the list behind its head, which harms nothing only here. -/
def HeadOnly (conf : ConfigFile) (k v : Str) : Prop :=
  (∀ e ∈ conf.entries.tail, e.key = some k) ∧
    ((∃ e ∈ conf.entries.head?, e.key = some k) ∨ configGetString conf k = some v)

theorem reads_of_others (h : others conf' k = others conf k) (k' : Str) (hne : k' ≠ k) :
    configGetString conf' k' = configGetString conf k' := by
  rw [configGetString_eq, configGetString_eq, found_of_others hne h]

theorem others_append (h : conf'.entries = conf.entries ++ [⟨false, some k, some v⟩]) :
    others conf' k = others conf k := by
  rw [others, others, h, List.filter_append]
  simp [ofKey]

theorem others_replace {before after : List Entry} {e e' : Entry}
    (hentries : conf.entries = before ++ e :: after)
    (hentries' : conf'.entries = before ++ e' :: after) (he : e.key = some k)
    (he' : e'.key = some k) : others conf' k = others conf k := by
  rw [others, others, hentries, hentries', List.filter_append, List.filter_append]
  simp [ofKey, he, he']

theorem setKeeps_of_writable (hflag : conf.guaranteedNoDuplicates = false)
    (hro : isReadonly conf k = false) (v : Str) : SetKeeps conf k v := by
  rcases configGetEntry_cases conf k with hnone | ⟨before, e, after, hentries, hbefore, he⟩
  · have hset : (configSetString conf k v).entries = _ := set_new hflag hnone
    have hothers := others_append hset
    refine ⟨hothers, reads_of_others hothers, ?_⟩
    rw [hro, configGetString_eq, found_append hset hnone rfl]
    rfl
  · have hfound := found_append hentries hbefore he
    have hreadonly : e.readonly = false := by
      rw [isReadonly, hfound] at hro
      exact hro
    have hset : (configSetString conf k v).entries = _ :=
      set_replace hflag hentries hbefore he hreadonly
    have hothers : others (configSetString conf k v) k = others conf k :=
      others_replace hentries hset he he
    refine ⟨hothers, reads_of_others hothers, ?_⟩
    rw [hro, configGetString_eq, found_append hset hbefore he]
    rfl

theorem entries_of_readonly (hflag : conf.guaranteedNoDuplicates = false)
    (hro : isReadonly conf k = true) (v : Str) :
    ∃ head rest, conf.entries = head :: rest ∧
      (configSetString conf k v).entries = [head, ⟨false, some k, some v⟩] := by
  rcases configGetEntry_cases conf k with hnone | ⟨before, e, after, hentries, hbefore, he⟩
  · rw [isReadonly, found_none hnone] at hro
    exact Bool.noConfusion hro
  · have hreadonly : e.readonly = true := by
      rw [isReadonly, found_append hentries hbefore he] at hro
      exact hro
    have hset : (configSetString conf k v).entries = _ :=
      set_readonly hflag hentries hbefore he hreadonly
    cases hlist : conf.entries with
    | nil =>
      rw [hlist] at hentries
      exact absurd hentries.symm (by simp)
    | cons head rest =>
      rw [hlist] at hset
      exact ⟨head, rest, rfl, hset⟩

theorem setKeeps_of_readonly_iff (hflag : conf.guaranteedNoDuplicates = false)
    (hro : isReadonly conf k = true) (v : Str) : SetKeeps conf k v ↔ HeadOnly conf k v := by
  obtain ⟨head, rest, hentries, hset⟩ := entries_of_readonly hflag hro v
  have hothers : others (configSetString conf k v) k = others conf k ↔
      ∀ e ∈ rest, e.key = some k := by
    have hnew : others (configSetString conf k v) k = [head].filter (fun e => !ofKey k e) := by
      rw [others, hset, ← List.singleton_append, List.filter_append]
      simp [ofKey]
    have hold : others conf k
        = [head].filter (fun e => !ofKey k e) ++ rest.filter fun e => !ofKey k e := by
      rw [others, hentries, ← List.singleton_append, List.filter_append]
    rw [hnew, hold]
    simp [ofKey]
  by_cases hhead : head.key = some k
  · have hreads : configGetString (configSetString conf k v) k = configGetString conf k := by
      have hset' : (configSetString conf k v).entries = [] ++ head :: _ := hset
      have hentries' : conf.entries = [] ++ head :: rest := hentries
      have hnew := found_append hset' (by simp) hhead
      have hold := found_append hentries' (by simp) hhead
      rw [configGetString_eq, configGetString_eq, hnew, hold]
    constructor
    · intro h
      refine ⟨?_, Or.inl ⟨head, by rw [hentries]; rfl, hhead⟩⟩
      rw [hentries]
      exact hothers.mp h.keeps
    · rintro ⟨htail, -⟩
      rw [hentries] at htail
      have hkeeps := hothers.mpr htail
      refine ⟨hkeeps, reads_of_others hkeeps, ?_⟩
      rw [hro, hreads]
      rfl
  · have hreads : configGetString (configSetString conf k v) k = some v := by
      have hset' : (configSetString conf k v).entries = [head] ++ _ :: [] := hset
      have hnew := found_append hset' (by simpa using hhead) rfl
      rw [configGetString_eq, hnew]
      rfl
    constructor
    · intro h
      have hsets := h.sets
      rw [hro, hreads] at hsets
      refine ⟨?_, Or.inr hsets.symm⟩
      rw [hentries]
      exact hothers.mp h.keeps
    · rintro ⟨htail, hvalue⟩
      rw [hentries] at htail hvalue
      have hkeeps := hothers.mpr htail
      refine ⟨hkeeps, reads_of_others hkeeps, ?_⟩
      rcases hvalue with ⟨e, he, hkey⟩ | hvalue
      · exact absurd (Option.some.inj he ▸ hkey) hhead
      · rw [hro, hreads, hvalue]
        rfl

theorem unsetKeeps_iff (conf : ConfigFile) (k : Str) :
    UnsetKeeps conf k ↔ (conf.entries.filter (ofKey k)).length ≤ 1 := by
  rcases configGetEntry_cases conf k with hnone | ⟨before, e, after, hentries, hbefore, he⟩
  · have hfilter : conf.entries.filter (ofKey k) = [] := by
      rw [List.filter_eq_nil_iff]
      intro e he hkey
      exact hnone e he (of_decide_eq_true hkey)
    rw [hfilter]
    refine ⟨fun _ => Nat.zero_le 1, fun _ => ?_⟩
    constructor
    · rw [unset_none hnone, configGetEntry_none hnone]
    · intro k' _
      rw [unset_none hnone]
  · have hunset := unset_first hentries hbefore he
    have hbeforeKey : before.filter (ofKey k) = [] := by
      rw [List.filter_eq_nil_iff]
      intro x hx hkey
      exact hbefore x hx (of_decide_eq_true hkey)
    have hfilter : conf.entries.filter (ofKey k) = e :: after.filter (ofKey k) := by
      have hkey : ofKey k e = true := decide_eq_true he
      rw [hentries, List.filter_append, hbeforeKey, List.filter_cons_of_pos hkey]
      rfl
    have hlength : (conf.entries.filter (ofKey k)).length ≤ 1 ↔ ∀ x ∈ after, x.key ≠ some k := by
      rw [hfilter]
      simp [ofKey]
    rw [hlength]
    constructor
    · intro h x hx hkey
      have hgone := h.gone
      rw [configGetEntry, List.findIdx?_eq_none_iff, hunset] at hgone
      have hno := hgone x (by simp [hx])
      exact of_decide_eq_false hno hkey
    · intro hafter
      constructor
      · apply configGetEntry_none
        intro x hx
        rw [hunset] at hx
        rcases List.mem_append.mp hx with hx | hx
        · exact hbefore x hx
        · rcases List.mem_cons.mp hx with rfl | hx
          · exact fun hkey => Option.some_ne_none k hkey.symm
          · exact hafter x hx
      · intro k' hne
        rw [configGetString_eq, configGetString_eq, found, found, hunset, hentries,
          List.find?_append, List.find?_append, List.find?_cons, List.find?_cons]
        have hnot : ofKey k' e = false := by
          apply decide_eq_false
          intro hkey
          exact hne (Option.some.inj (hkey.symm.trans he))
        have hnil : ofKey k' { e with key := none, value := none } = false := rfl
        rw [hnot, hnil]

/-- In every configuration reached, a set keeps its promise exactly when the key's entry is
writable or the list has nothing else behind its head, and an unset exactly when the key has no
second entry. -/
theorem keys_independent_iff (h : Reachable conf) :
    (∀ k v, SetKeeps conf k v ↔ isReadonly conf k = false ∨ HeadOnly conf k v) ∧
      ∀ k, UnsetKeeps conf k ↔ (conf.entries.filter (ofKey k)).length ≤ 1 := by
  refine ⟨?_, unsetKeeps_iff conf⟩
  intro k v
  cases hro : isReadonly conf k with
  | false => exact ⟨fun _ => Or.inl rfl, fun _ => setKeeps_of_writable h.flag hro v⟩
  | true =>
    rw [setKeeps_of_readonly_iff h.flag hro v]
    simp

/-- `/m` includes `/i`, which gives `a`, `b` and `c` a value. -/
def includeDisk : Disk where
  content path :=
    if path = [47, 109] then
      some [35, 105, 110, 99, 108, 117, 100, 101, 32, 47, 105, 10]
    else if path = [47, 105] then
      some [97, 32, 61, 49, 10, 98, 32, 61, 50, 10, 99, 32, 61, 51, 10]
    else none
  home := none
  resolve _ path := path

def included : ConfigFile where
  path := some [47, 109]
  entries :=
    [⟨true, some [97], some [49]⟩, ⟨true, some [98], some [50]⟩, ⟨true, some [99], some [51]⟩]
  tail := some 2
  last := none
  includeDepth := 0
  guaranteedNoDuplicates := false
  includes := [[47, 105]]

theorem included_reached : Reachable included :=
  have hload : configFileNew includeDisk [47, 109] = some included := by decide
  ⟨included, [], Loaded.file hload, rfl⟩

theorem keys_independent_included :
    Reachable included ∧ ∀ v, SetKeeps included [100] v ↔
      isReadonly included [100] = false ∨ HeadOnly included [100] v :=
  ⟨included_reached, (keys_independent_iff included_reached).1 [100]⟩

/-- Setting the included `b` drops `c`. -/
theorem set_drops_other_key :
    ¬ ∀ conf, Reachable conf →
      (∀ k v, SetKeeps conf k v) ∧ ∀ k, UnsetKeeps conf k := by
  intro h
  have hkeeps := (h included included_reached).1 [98] [57]
  have hreads := hkeeps.reads [99] (by decide)
  revert hreads
  decide

end RetroArch.File.ConfigKeys
