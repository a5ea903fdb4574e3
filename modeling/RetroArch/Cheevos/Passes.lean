/- The two passes over the achievement list, and the texts on which they agree. -/

import RetroArch.Cheevos.Parser
import RetroArch.Formats.JsonEvents

set_option maxRecDepth 10000

namespace RetroArch.Cheevos.Passes

open Parser Formats.Jsonsax
open Formats.JsonEvents (ascii)

/-- The events in front of a place in the text, the last one first. -/
abbrev History := List Event

/-- The lists a place is in: their keys came, and no array has ended since. -/
def listsAt : History → Lists
  | [] => .none
  | .endArray :: _ => .none
  | .key name :: h => (listsAt h).key (rcheevosDjb2 name)
  | _ :: h => listsAt h

/-- The last key. -/
def keyAt : History → Option UInt32
  | [] => none
  | .key name :: _ => some (rcheevosDjb2 name)
  | _ :: h => keyAt h

/-- The field of the last key, by the lists that the key is in. -/
def fieldAt : History → Option Field
  | [] => none
  | .key name :: h => keyField (listsAt h) (rcheevosDjb2 name)
  | _ :: h => fieldAt h

/-- The objects a place is in, by where they begin, the innermost first. -/
def objectsAt : History → List ℕ
  | [] => []
  | .startObject :: h => h.length :: objectsAt h
  | .endObject :: h => (objectsAt h).tail
  | _ :: h => objectsAt h

/-- The text of a string or a number. -/
def textOf : Event → Option (List UInt8)
  | .string string => some string
  | .number number => some number
  | _ => none

/-- The last text of a field, and the object it stands in. -/
def lastText (field : Field) : History → Option (List UInt8 × Option ℕ)
  | [] => none
  | e :: h =>
    match textOf e with
    | some text =>
      if fieldAt h = some field then some (text, (objectsAt h).head?) else lastText field h
    | none => lastText field h

/-- The last text of a field, if it stands in the object at hand itself. -/
def own (field : Field) (h : History) : Option (List UInt8) :=
  match lastText field h with
  | some (text, object) => if object = (objectsAt h).head? then some text else none
  | none => none

/-- What the flags of the object at hand are read as. -/
def ownFlags (h : History) : Option ℕ :=
  (own .flags h).map fun text => toUnsigned (strtolText text)

/-- How many events are of a kind, by what is in front of each. -/
def tally (kind : History → Event → Bool) : History → ℕ
  | [] => 0
  | e :: h => tally kind h + if kind h e then 1 else 0

/-- An achievement with these flags ends. -/
def endsFlagged (flags : ℕ) (h : History) (e : Event) : Bool :=
  e = .endObject && (listsAt h).inCheevos && ownFlags h = some flags

/-- An object ends in the leaderboards. -/
def endsLboard (h : History) (e : Event) : Bool :=
  e = .endObject && !(listsAt h).inCheevos && (listsAt h).inLboards

/-- A number under a key of flags in the achievements. -/
def numberFlagged (flags : ℤ) (h : History) : Event → Bool
  | .number number =>
    (listsAt h).inCheevos && keyAt h = some FLAGS && strtolText number = flags
  | _ => false

/-- A number under a key of an identifier in the leaderboards. -/
def numberLboard (h : History) : Event → Bool
  | .number _ => (listsAt h).inLboards && keyAt h = some ID
  | _ => false

def cheevoFields : List Field := [.title, .desc, .badge, .memaddr, .points, .id]

def lboardFields : List Field := [.title, .desc, .format, .memaddr, .id]

/-- An object that ends in one of the lists has what is read of it itself. -/
def Complete (h : History) : Prop :=
  if (listsAt h).inCheevos then
    ∃ flags, ownFlags h = some flags ∧
      (flags = 3 ∨ flags = 5 → ∀ field ∈ cheevoFields, (own field h).isSome)
  else if (listsAt h).inLboards then ∀ field ∈ lboardFields, (own field h).isSome
  else True

/-- Every object that ends in a list is complete, and as many numbers say that an entry comes as
entries come. -/
structure Agrees (events : List Event) : Prop where
  complete : ∀ h, Event.endObject :: h <:+ events.reverse → Complete h
  core : tally (endsFlagged 3) events.reverse = tally (numberFlagged 3) events.reverse % 2 ^ 32
  unofficial :
    tally (endsFlagged 5) events.reverse = tally (numberFlagged 5) events.reverse % 2 ^ 32
  lboards : tally endsLboard events.reverse = tally numberLboard events.reverse % 2 ^ 32

theorem foldr_countEvent (h : History) :
    h.foldr (fun e ud => countEvent ud e) CountUd.start =
      ⟨listsAt h, keyAt h, tally (numberFlagged 3) h % 2 ^ 32,
        tally (numberFlagged 5) h % 2 ^ 32, tally numberLboard h % 2 ^ 32⟩ := by
  induction h with
  | nil => rfl
  | cons e h ih =>
    rw [List.foldr_cons, ih]
    cases e with
    | number number =>
      by_cases hflags : (listsAt h).inCheevos = true ∧ keyAt h = some FLAGS
      · have hflagged : ∀ flags, numberFlagged flags h (.number number) =
            decide (strtolText number = flags) := by
          intro flags
          simp [numberFlagged, hflags]
        have hlboard : numberLboard h (.number number) = false := by
          have hne : FLAGS ≠ ID := by decide
          simp [numberLboard, hflags.2, hne]
        simp only [countEvent, countNumber, listsAt, keyAt, tally, hflagged, hlboard]
        rw [if_pos hflags]
        by_cases hthree : strtolText number = 3
        · simp [hthree]
        · by_cases hfive : strtolText number = 5
          · simp [hfive]
          · simp [hthree, hfive]
      · have hflagged : ∀ flags, numberFlagged flags h (.number number) = false := by
          intro flags
          rw [numberFlagged, Bool.and_eq_false_iff]
          left
          simpa using hflags
        simp only [countEvent, countNumber, listsAt, keyAt, tally, hflagged, numberLboard]
        rw [if_neg hflags]
        by_cases hid : (listsAt h).inLboards = true ∧ keyAt h = some ID
        · simp [hid]
        · rw [if_neg hid]
          have hboth : ((listsAt h).inLboards && decide (keyAt h = some ID)) = false := by
            simpa using hid
          simp [hboth]
    | _ => rfl

section Reading

/-- As many slots are filled as entries have come. -/
structure Slots {α : Type} (slots : List (Option α)) (filled count : ℕ) : Prop where
  length : slots.length = count
  le : filled ≤ count
  some_iff : ∀ i slot, slots[i]? = some slot → (slot.isSome ↔ i < filled)

theorem slots_replicate {α : Type} (count : ℕ) :
    Slots (.replicate count (none : Option α)) 0 count where
  length := List.length_replicate
  le := Nat.zero_le count
  some_iff := by
    intro i slot hslot
    obtain ⟨-, rfl⟩ := List.getElem?_eq_some_iff.mp hslot
    simp

theorem store_ok {α : Type} {slots slots' : List (Option α)} {filled count : ℕ} {entry : α}
    (h : Slots slots filled count) (hstore : store slots filled entry = .ok slots') :
    Slots slots' (filled + 1) count := by
  have hlength := h.length
  unfold store at hstore
  split_ifs at hstore with hlt
  cases hstore
  refine ⟨by rw [List.length_set, hlength], by omega, ?_⟩
  intro i slot hslot
  rw [List.getElem?_set] at hslot
  split_ifs at hslot with heq
  · cases hslot
    subst heq
    simp
  · rw [h.some_iff i slot hslot]
    omega

theorem exists_store {α : Type} {slots : List (Option α)} {filled count : ℕ}
    (h : Slots slots filled count) (hlt : filled < count) (entry : α) :
    ∃ slots', store slots filled entry = .ok slots' := by
  unfold store
  rw [if_pos (by rw [h.length]; exact hlt)]
  exact ⟨_, rfl⟩

/-- What the second pass knows at a place. -/
structure Tracks (core unofficial lboards : ℕ) (h : History) (ud : ReadUd) : Prop where
  lists : ud.lists = listsAt h
  field : ud.field = fieldAt h
  fields : ∀ field, ud.fields field = lastText field h
  objects : ud.objects = objectsAt h
  place : ud.place = h.length
  coreCount : ud.coreCount = tally (endsFlagged 3) h
  unofficialCount : ud.unofficialCount = tally (endsFlagged 5) h
  lboardCount : ud.lboardCount = tally endsLboard h
  coreSlots : Slots ud.patchdata.core (tally (endsFlagged 3) h) core
  unofficialSlots : Slots ud.patchdata.unofficial (tally (endsFlagged 5) h) unofficial
  lboardSlots : Slots ud.patchdata.lboards (tally endsLboard h) lboards

variable {core unofficial lboards : ℕ} {h : History} {ud ud' : ReadUd}

theorem Tracks.get (ht : Tracks core unofficial lboards h ud) (field : Field) :
    ud.get field = match own field h with
      | some text => .ok text
      | none => .error .unset := by
  unfold ReadUd.get own
  rw [ht.fields, ht.objects]
  cases lastText field h with
  | none => rfl
  | some entry =>
    obtain ⟨text, object⟩ := entry
    dsimp only
    split_ifs <;> rfl

theorem Tracks.get_iff (ht : Tracks core unofficial lboards h ud) (field : Field)
    (text : List UInt8) : ud.get field = .ok text ↔ own field h = some text := by
  rw [ht.get]
  cases own field h with
  | none => exact ⟨fun hget => (nomatch hget), fun hown => (nomatch hown)⟩
  | some own => exact ⟨fun hget => congrArg some (Except.ok.inj hget),
      fun hown => congrArg Except.ok (Option.some.inj hown)⟩

theorem bind_ok {α β : Type} {x : Except Fault α} {f : α → Except Fault β} {b : β} :
    (x >>= f) = .ok b ↔ ∃ a, x = .ok a ∧ f a = .ok b := by
  cases x with
  | error e => exact ⟨fun hx => (nomatch hx), fun ⟨_, hx, _⟩ => (nomatch hx)⟩
  | ok a => exact ⟨fun hx => ⟨a, rfl, hx⟩, fun ⟨a', ha, hx⟩ => by cases ha; exact hx⟩

theorem Tracks.cheevo_iff (ht : Tracks core unofficial lboards h ud) :
    (∃ cheevo, ud.cheevo = .ok cheevo) ↔ ∀ field ∈ cheevoFields, (own field h).isSome := by
  unfold ReadUd.cheevo cheevoFields
  simp only [bind_ok, ht.get_iff, Option.isSome_iff_exists, List.forall_mem_cons]
  constructor
  · rintro ⟨cheevo, title, htitle, desc, hdesc, badge, hbadge, memaddr, hmemaddr, points, hpoints,
      id, hid, -⟩
    exact ⟨⟨title, htitle⟩, ⟨desc, hdesc⟩, ⟨badge, hbadge⟩, ⟨memaddr, hmemaddr⟩,
      ⟨points, hpoints⟩, ⟨id, hid⟩, by simp⟩
  · rintro ⟨⟨title, htitle⟩, ⟨desc, hdesc⟩, ⟨badge, hbadge⟩, ⟨memaddr, hmemaddr⟩,
      ⟨points, hpoints⟩, ⟨id, hid⟩, -⟩
    exact ⟨_, title, htitle, desc, hdesc, badge, hbadge, memaddr, hmemaddr, points, hpoints,
      id, hid, rfl⟩

theorem Tracks.lboard_iff (ht : Tracks core unofficial lboards h ud) :
    (∃ lboard, ud.lboard = .ok lboard) ↔ ∀ field ∈ lboardFields, (own field h).isSome := by
  unfold ReadUd.lboard lboardFields
  simp only [bind_ok, ht.get_iff, Option.isSome_iff_exists, List.forall_mem_cons]
  constructor
  · rintro ⟨lboard, title, htitle, desc, hdesc, format, hformat, mem, hmem, id, hid, -⟩
    exact ⟨⟨title, htitle⟩, ⟨desc, hdesc⟩, ⟨format, hformat⟩, ⟨mem, hmem⟩, ⟨id, hid⟩, by simp⟩
  · rintro ⟨⟨title, htitle⟩, ⟨desc, hdesc⟩, ⟨format, hformat⟩, ⟨mem, hmem⟩, ⟨id, hid⟩, -⟩
    exact ⟨_, title, htitle, desc, hdesc, format, hformat, mem, hmem, id, hid, rfl⟩

theorem tally_endsFlagged (flags : ℕ) (h : History) :
    tally (endsFlagged flags) (.endObject :: h) = tally (endsFlagged flags) h +
      if (listsAt h).inCheevos = true ∧ ownFlags h = some flags then 1 else 0 := by
  rw [tally]
  simp [endsFlagged]

theorem tally_endsLboard (h : History) :
    tally endsLboard (.endObject :: h) = tally endsLboard h +
      if (listsAt h).inCheevos = false ∧ (listsAt h).inLboards = true then 1 else 0 := by
  rw [tally]
  simp [endsLboard]

/-- Behind the end of an object, with what it has filled. -/
theorem Tracks.ended (ht : Tracks core unofficial lboards h ud) {patchdata : RaPatchdata}
    {coreCount unofficialCount lboardCount : ℕ}
    (hcore : coreCount = tally (endsFlagged 3) (.endObject :: h))
    (hunofficial : unofficialCount = tally (endsFlagged 5) (.endObject :: h))
    (hlboard : lboardCount = tally endsLboard (.endObject :: h))
    (hcoreSlots : Slots patchdata.core coreCount core)
    (hunofficialSlots : Slots patchdata.unofficial unofficialCount unofficial)
    (hlboardSlots : Slots patchdata.lboards lboardCount lboards) :
    Tracks core unofficial lboards (.endObject :: h) { ud with
      coreCount := coreCount
      unofficialCount := unofficialCount
      lboardCount := lboardCount
      patchdata := patchdata
      objects := ud.objects.tail
      place := ud.place + 1 } where
  lists := ht.lists
  field := ht.field
  fields := ht.fields
  objects := congrArg List.tail ht.objects
  place := congrArg (· + 1) ht.place
  coreCount := hcore
  unofficialCount := hunofficial
  lboardCount := hlboard
  coreSlots := hcore ▸ hcoreSlots
  unofficialSlots := hunofficial ▸ hunofficialSlots
  lboardSlots := hlboard ▸ hlboardSlots

theorem readEvent_end (ud : ReadUd) :
    readEvent ud .endObject = (readEndObject ud).map fun ud =>
      { ud with objects := ud.objects.tail, place := ud.place + 1 } := by
  unfold readEvent readHandler
  cases readEndObject ud <;> rfl

theorem newCheevo_iff {v : ReadUd} :
    newCheevo ud = .ok v ↔ ∃ text, ud.get .flags = .ok text ∧
      ((toUnsigned (strtolText text) = 3 ∧ ∃ cheevo slots, ud.cheevo = .ok cheevo ∧
          store ud.patchdata.core ud.coreCount cheevo = .ok slots ∧
          v = { ud with
            coreCount := (ud.coreCount + 1) % 2 ^ 32
            patchdata := { ud.patchdata with core := slots } }) ∨
        (toUnsigned (strtolText text) = 5 ∧ ∃ cheevo slots, ud.cheevo = .ok cheevo ∧
          store ud.patchdata.unofficial ud.unofficialCount cheevo = .ok slots ∧
          v = { ud with
            unofficialCount := (ud.unofficialCount + 1) % 2 ^ 32
            patchdata := { ud.patchdata with unofficial := slots } }) ∨
        (toUnsigned (strtolText text) ≠ 3 ∧ toUnsigned (strtolText text) ≠ 5 ∧ v = ud)) := by
  unfold newCheevo
  rw [bind_ok]
  apply exists_congr
  intro text
  apply and_congr_right
  intro _
  generalize toUnsigned (strtolText text) = flags
  rcases eq_or_ne flags 3 with rfl | hthree
  · rw [if_pos rfl, bind_ok]
    constructor
    · rintro ⟨cheevo, hcheevo, hv⟩
      obtain ⟨slots, hslots, hv⟩ := bind_ok.mp hv
      cases hv
      exact Or.inl ⟨rfl, cheevo, slots, hcheevo, hslots, rfl⟩
    · rintro (⟨-, cheevo, slots, hcheevo, hslots, rfl⟩ | ⟨hfive, -⟩ | ⟨hne, -⟩)
      · exact ⟨cheevo, hcheevo, bind_ok.mpr ⟨slots, hslots, rfl⟩⟩
      · exact absurd hfive (by decide)
      · exact absurd rfl hne
  · rw [if_neg hthree]
    rcases eq_or_ne flags 5 with rfl | hfive
    · rw [if_pos rfl, bind_ok]
      constructor
      · rintro ⟨cheevo, hcheevo, hv⟩
        obtain ⟨slots, hslots, hv⟩ := bind_ok.mp hv
        cases hv
        exact Or.inr (Or.inl ⟨rfl, cheevo, slots, hcheevo, hslots, rfl⟩)
      · rintro (⟨hthree', -⟩ | ⟨-, cheevo, slots, hcheevo, hslots, rfl⟩ | ⟨-, hne, -⟩)
        · exact absurd hthree' hthree
        · exact ⟨cheevo, hcheevo, bind_ok.mpr ⟨slots, hslots, rfl⟩⟩
        · exact absurd rfl hne
    · rw [if_neg hfive]
      constructor
      · intro hv
        cases hv
        exact Or.inr (Or.inr ⟨hthree, hfive, rfl⟩)
      · rintro (⟨hthree', -⟩ | ⟨hfive', -⟩ | ⟨-, -, rfl⟩)
        · exact absurd hthree' hthree
        · exact absurd hfive' hfive
        · rfl

theorem newLboard_iff {v : ReadUd} :
    newLboard ud = .ok v ↔ ∃ lboard slots, ud.lboard = .ok lboard ∧
      store ud.patchdata.lboards ud.lboardCount lboard = .ok slots ∧
      v = { ud with
        lboardCount := (ud.lboardCount + 1) % 2 ^ 32
        patchdata := { ud.patchdata with lboards := slots } } := by
  unfold newLboard
  rw [bind_ok]
  constructor
  · rintro ⟨lboard, hlboard, hv⟩
    obtain ⟨slots, hslots, hv⟩ := bind_ok.mp hv
    cases hv
    exact ⟨lboard, slots, hlboard, hslots, rfl⟩
  · rintro ⟨lboard, slots, hlboard, hslots, rfl⟩
    exact ⟨lboard, hlboard, bind_ok.mpr ⟨slots, hslots, rfl⟩⟩

theorem Tracks.endObject (ht : Tracks core unofficial lboards h ud) (hcore : core < 2 ^ 32)
    (hunofficial : unofficial < 2 ^ 32) (hlboards : lboards < 2 ^ 32)
    (hread : readEvent ud .endObject = .ok ud') :
    Complete h ∧ Tracks core unofficial lboards (.endObject :: h) ud' := by
  rw [readEvent_end] at hread
  have hcoreSlots := ht.coreSlots
  have hunofficialSlots := ht.unofficialSlots
  have hlboardSlots := ht.lboardSlots
  obtain ⟨v, hend, rfl⟩ : ∃ v, readEndObject ud = .ok v ∧
      { v with objects := v.objects.tail, place := v.place + 1 } = ud' := by
    cases hend : readEndObject ud with
    | error e =>
      rw [hend] at hread
      exact nomatch hread
    | ok v =>
      rw [hend] at hread
      exact ⟨v, rfl, Except.ok.inj hread⟩
  unfold readEndObject at hend
  rw [ht.lists] at hend
  unfold Complete
  cases hin : (listsAt h).inCheevos with
  | true =>
    have hlboard : tally endsLboard (.endObject :: h) = tally endsLboard h := by
      simp [tally_endsLboard, hin]
    rw [hin, if_pos rfl] at hend
    rw [if_pos rfl]
    obtain ⟨text, htext, hcases⟩ := newCheevo_iff.mp hend
    have hflags : ownFlags h = some (toUnsigned (strtolText text)) := by
      unfold ownFlags
      rw [(ht.get_iff _ _).mp htext, Option.map_some]
    have htally : ∀ value, tally (endsFlagged value) (.endObject :: h) =
        tally (endsFlagged value) h +
          if toUnsigned (strtolText text) = value then 1 else 0 := by
      intro value
      simp [tally_endsFlagged, hin, hflags]
    refine ⟨⟨_, hflags, ?_⟩, ?_⟩
    · intro hfilled
      rcases hcases with ⟨-, cheevo, -, hcheevo, -⟩ | ⟨-, cheevo, -, hcheevo, -⟩ |
        ⟨hthree, hfive, -⟩
      · exact ht.cheevo_iff.mp ⟨cheevo, hcheevo⟩
      · exact ht.cheevo_iff.mp ⟨cheevo, hcheevo⟩
      · exact absurd hfilled (by simp [hthree, hfive])
    · rcases hcases with ⟨hthree, cheevo, slots, -, hstore, rfl⟩ |
        ⟨hfive, cheevo, slots, -, hstore, rfl⟩ | ⟨hthree, hfive, rfl⟩
      · rw [ht.coreCount] at hstore ⊢
        have hslots := store_ok hcoreSlots hstore
        have hmod : (tally (endsFlagged 3) h + 1) % 2 ^ 32 = tally (endsFlagged 3) h + 1 :=
          Nat.mod_eq_of_lt (lt_of_le_of_lt hslots.le hcore)
        rw [hmod]
        exact ht.ended (by simp [htally, hthree]) (by simp [htally, hthree, ht.unofficialCount])
          (by rw [hlboard]; exact ht.lboardCount) hslots
          (ht.unofficialCount ▸ hunofficialSlots) (ht.lboardCount ▸ hlboardSlots)
      · rw [ht.unofficialCount] at hstore ⊢
        have hslots := store_ok hunofficialSlots hstore
        have hmod : (tally (endsFlagged 5) h + 1) % 2 ^ 32 = tally (endsFlagged 5) h + 1 :=
          Nat.mod_eq_of_lt (lt_of_le_of_lt hslots.le hunofficial)
        rw [hmod]
        exact ht.ended (by simp [htally, hfive, ht.coreCount]) (by simp [htally, hfive])
          (by rw [hlboard]; exact ht.lboardCount) (ht.coreCount ▸ hcoreSlots) hslots
          (ht.lboardCount ▸ hlboardSlots)
      · exact ht.ended (by simp [htally, hthree, ht.coreCount])
          (by simp [htally, hfive, ht.unofficialCount])
          (by rw [hlboard]; exact ht.lboardCount) (ht.coreCount ▸ hcoreSlots)
          (ht.unofficialCount ▸ hunofficialSlots) (ht.lboardCount ▸ hlboardSlots)
  | false =>
    have htally : ∀ value, tally (endsFlagged value) (.endObject :: h) =
        tally (endsFlagged value) h := by
      intro value
      simp [tally_endsFlagged, hin]
    rw [hin, if_neg (by simp)] at hend
    rw [if_neg (by simp)]
    cases hlist : (listsAt h).inLboards with
    | true =>
      rw [hlist, if_pos rfl] at hend
      rw [if_pos rfl]
      obtain ⟨lboard, slots, hlboard, hstore, rfl⟩ := newLboard_iff.mp hend
      refine ⟨ht.lboard_iff.mp ⟨lboard, hlboard⟩, ?_⟩
      rw [ht.lboardCount] at hstore ⊢
      have hslots := store_ok hlboardSlots hstore
      have hmod : (tally endsLboard h + 1) % 2 ^ 32 = tally endsLboard h + 1 :=
        Nat.mod_eq_of_lt (lt_of_le_of_lt hslots.le hlboards)
      rw [hmod]
      exact ht.ended (by rw [htally]; exact ht.coreCount)
        (by rw [htally]; exact ht.unofficialCount)
        (by simp [tally_endsLboard, hin, hlist]) (ht.coreCount ▸ hcoreSlots)
        (ht.unofficialCount ▸ hunofficialSlots) hslots
    | false =>
      rw [hlist, if_neg (by simp)] at hend
      rw [if_neg (by simp)]
      cases hend
      exact ⟨trivial, ht.ended (by rw [htally]; exact ht.coreCount)
        (by rw [htally]; exact ht.unofficialCount)
        (by simp [tally_endsLboard, hlist, ht.lboardCount]) (ht.coreCount ▸ hcoreSlots)
        (ht.unofficialCount ▸ hunofficialSlots) (ht.lboardCount ▸ hlboardSlots)⟩

theorem Tracks.exists_endObject (ht : Tracks core unofficial lboards h ud) (hcomplete : Complete h)
    (hcore : tally (endsFlagged 3) (.endObject :: h) ≤ core)
    (hunofficial : tally (endsFlagged 5) (.endObject :: h) ≤ unofficial)
    (hlboards : tally endsLboard (.endObject :: h) ≤ lboards) :
    ∃ ud', readEvent ud .endObject = .ok ud' := by
  rw [readEvent_end]
  suffices hend : ∃ v, readEndObject ud = .ok v by
    obtain ⟨v, hv⟩ := hend
    exact ⟨_, congrArg (Except.map _) hv⟩
  unfold readEndObject
  rw [ht.lists]
  unfold Complete at hcomplete
  cases hin : (listsAt h).inCheevos with
  | true =>
    rw [hin, if_pos rfl] at hcomplete
    rw [if_pos rfl]
    obtain ⟨flags, hflags, hfields⟩ := hcomplete
    obtain ⟨text, htext, rfl⟩ := Option.map_eq_some_iff.mp hflags
    have hget := (ht.get_iff _ _).mpr htext
    have htally : ∀ value, tally (endsFlagged value) (.endObject :: h) =
        tally (endsFlagged value) h +
          if toUnsigned (strtolText text) = value then 1 else 0 := by
      intro value
      simp [tally_endsFlagged, hin, hflags]
    by_cases hthree : toUnsigned (strtolText text) = 3
    · obtain ⟨cheevo, hcheevo⟩ := ht.cheevo_iff.mpr (hfields (Or.inl hthree))
      have hroom : ud.coreCount < core := by
        rw [htally, if_pos hthree] at hcore
        rw [ht.coreCount]
        omega
      obtain ⟨slots, hslots⟩ := exists_store (ht.coreCount ▸ ht.coreSlots) hroom cheevo
      exact ⟨_, newCheevo_iff.mpr
        ⟨text, hget, Or.inl ⟨hthree, cheevo, slots, hcheevo, hslots, rfl⟩⟩⟩
    · by_cases hfive : toUnsigned (strtolText text) = 5
      · obtain ⟨cheevo, hcheevo⟩ := ht.cheevo_iff.mpr (hfields (Or.inr hfive))
        have hroom : ud.unofficialCount < unofficial := by
          rw [htally, if_pos hfive] at hunofficial
          rw [ht.unofficialCount]
          omega
        obtain ⟨slots, hslots⟩ :=
          exists_store (ht.unofficialCount ▸ ht.unofficialSlots) hroom cheevo
        exact ⟨_, newCheevo_iff.mpr
          ⟨text, hget, Or.inr (Or.inl ⟨hfive, cheevo, slots, hcheevo, hslots, rfl⟩)⟩⟩
      · exact ⟨ud, newCheevo_iff.mpr ⟨text, hget, Or.inr (Or.inr ⟨hthree, hfive, rfl⟩)⟩⟩
  | false =>
    rw [hin, if_neg (by simp)] at hcomplete
    rw [if_neg (by simp)]
    cases hlist : (listsAt h).inLboards with
    | true =>
      rw [hlist, if_pos rfl] at hcomplete
      rw [if_pos rfl]
      obtain ⟨lboard, hlboard⟩ := ht.lboard_iff.mpr hcomplete
      have hroom : ud.lboardCount < lboards := by
        rw [tally_endsLboard, if_pos ⟨hin, hlist⟩] at hlboards
        rw [ht.lboardCount]
        omega
      obtain ⟨slots, hslots⟩ := exists_store (ht.lboardCount ▸ ht.lboardSlots) hroom lboard
      exact ⟨_, newLboard_iff.mpr ⟨lboard, slots, hlboard, hslots, rfl⟩⟩
    | false => exact ⟨ud, by rw [if_neg (by simp)]⟩

/-- No entry is filled or counted. -/
structure Unfilled (ud ud' : ReadUd) : Prop where
  place : ud'.place = ud.place
  coreCount : ud'.coreCount = ud.coreCount
  unofficialCount : ud'.unofficialCount = ud.unofficialCount
  lboardCount : ud'.lboardCount = ud.lboardCount
  core : ud'.patchdata.core = ud.patchdata.core
  unofficial : ud'.patchdata.unofficial = ud.patchdata.unofficial
  lboards : ud'.patchdata.lboards = ud.patchdata.lboards

theorem Tracks.unfilled (ht : Tracks core unofficial lboards h ud) {e : Event}
    (he : e ≠ .endObject) (hunfilled : Unfilled ud ud') (hlists : ud'.lists = listsAt (e :: h))
    (hfield : ud'.field = fieldAt (e :: h))
    (hfields : ∀ field, ud'.fields field = lastText field (e :: h))
    (hobjects : ud'.objects = objectsAt (e :: h)) :
    Tracks core unofficial lboards (e :: h) { ud' with place := ud'.place + 1 } := by
  have hflagged : ∀ flags, tally (endsFlagged flags) (e :: h) = tally (endsFlagged flags) h := by
    intro flags
    rw [tally]
    simp [endsFlagged, he]
  have hlboard : tally endsLboard (e :: h) = tally endsLboard h := by
    rw [tally]
    simp [endsLboard, he]
  refine
    { lists := hlists
      field := hfield
      fields := hfields
      objects := hobjects
      place := by rw [hunfilled.place, ht.place, List.length_cons]
      coreCount := by rw [hflagged, hunfilled.coreCount, ht.coreCount]
      unofficialCount := by rw [hflagged, hunfilled.unofficialCount, ht.unofficialCount]
      lboardCount := by rw [hlboard, hunfilled.lboardCount, ht.lboardCount]
      coreSlots := ?_
      unofficialSlots := ?_
      lboardSlots := ?_ }
  · rw [hflagged, hunfilled.core]
    exact ht.coreSlots
  · rw [hflagged, hunfilled.unofficial]
    exact ht.unofficialSlots
  · rw [hlboard, hunfilled.lboards]
    exact ht.lboardSlots

theorem Tracks.set_text (ht : Tracks core unofficial lboards h ud) {e : Event}
    {text : List UInt8} (he : textOf e = some text) {last : Field} (hlast : ud.field = some last)
    (field : Field) : (ud.set last text).fields field = lastText field (e :: h) := by
  unfold lastText ReadUd.set
  rw [he, ← ht.field, hlast]
  dsimp only
  by_cases heq : last = field
  · rw [if_pos (congrArg some heq), heq, Function.update_self, ht.objects]
  · rw [if_neg (fun hsome => heq (Option.some.inj hsome)),
      Function.update_of_ne (fun hsome => heq hsome.symm), ht.fields]

theorem Tracks.no_text (ht : Tracks core unofficial lboards h ud) (e : Event)
    (hlast : ud.field = none ∨ textOf e = none) (field : Field) :
    ud.fields field = lastText field (e :: h) := by
  unfold lastText
  rw [ht.fields]
  cases he : textOf e with
  | none => rfl
  | some text =>
    rcases hlast with hnone | hnone
    · rw [ht.field] at hnone
      rw [hnone]
      dsimp only
      rw [if_neg (by simp)]
    · rw [he] at hnone
      exact nomatch hnone

theorem Tracks.other (ht : Tracks core unofficial lboards h ud) {e : Event}
    (he : e ≠ .endObject) :
    ∃ ud', readEvent ud e = .ok ud' ∧ Tracks core unofficial lboards (e :: h) ud' := by
  have hsame : Unfilled ud ud := ⟨rfl, rfl, rfl, rfl, rfl, rfl, rfl⟩
  cases e with
  | endObject => exact absurd rfl he
  | startObject =>
    exact ⟨_, rfl, ht.unfilled he
      ⟨rfl, rfl, rfl, rfl, rfl, rfl, rfl⟩ ht.lists ht.field (ht.no_text _ (Or.inr rfl))
      (by rw [ht.place, ht.objects]; rfl)⟩
  | endArray =>
    exact ⟨_, rfl, ht.unfilled he
      ⟨rfl, rfl, rfl, rfl, rfl, rfl, rfl⟩ rfl ht.field (ht.no_text _ (Or.inr rfl)) ht.objects⟩
  | key name =>
    exact ⟨_, rfl, ht.unfilled he
      ⟨rfl, rfl, rfl, rfl, rfl, rfl, rfl⟩ (by unfold readKey; rw [ht.lists]; rfl)
      (by unfold readKey; rw [ht.lists]; rfl) (ht.no_text _ (Or.inr rfl)) ht.objects⟩
  | string string =>
    refine ⟨_, rfl, ?_⟩
    unfold readString
    cases hfield : ud.field with
    | none =>
      exact ht.unfilled he hsame ht.lists ht.field (ht.no_text _ (Or.inl hfield)) ht.objects
    | some last =>
      exact ht.unfilled he ⟨rfl, rfl, rfl, rfl, rfl, rfl, rfl⟩
        ht.lists ht.field (ht.set_text rfl hfield) ht.objects
  | number number =>
    refine ⟨_, rfl, ?_⟩
    unfold readNumber
    cases hfield : ud.field with
    | none =>
      dsimp only
      split_ifs
      · exact ht.unfilled he ⟨rfl, rfl, rfl, rfl, rfl, rfl, rfl⟩ ht.lists
          (hfield.symm.trans ht.field) (ht.no_text _ (Or.inl hfield)) ht.objects
      · exact ht.unfilled he hsame ht.lists ht.field (ht.no_text _ (Or.inl hfield)) ht.objects
    | some last =>
      exact ht.unfilled he ⟨rfl, rfl, rfl, rfl, rfl, rfl, rfl⟩
        ht.lists ht.field (ht.set_text rfl hfield) ht.objects
  | startDocument =>
    exact ⟨_, rfl, ht.unfilled he hsame ht.lists ht.field (ht.no_text _ (Or.inr rfl)) ht.objects⟩
  | endDocument =>
    exact ⟨_, rfl, ht.unfilled he hsame ht.lists ht.field (ht.no_text _ (Or.inr rfl)) ht.objects⟩
  | startArray =>
    exact ⟨_, rfl, ht.unfilled he hsame ht.lists ht.field (ht.no_text _ (Or.inr rfl)) ht.objects⟩
  | arrayIndex index =>
    exact ⟨_, rfl, ht.unfilled he hsame ht.lists ht.field (ht.no_text _ (Or.inr rfl)) ht.objects⟩
  | boolean istrue =>
    exact ⟨_, rfl, ht.unfilled he hsame ht.lists ht.field (ht.no_text _ (Or.inr rfl)) ht.objects⟩
  | null =>
    exact ⟨_, rfl, ht.unfilled he hsame ht.lists ht.field (ht.no_text _ (Or.inr rfl)) ht.objects⟩

end Reading

section Passes

variable {core unofficial lboards : ℕ}

/-- The second pass over the events so far. -/
def readAll (patchdata : RaPatchdata) (h : History) : Except Fault ReadUd :=
  h.foldr (fun e ud => ud.bind fun ud => readEvent ud e) (.ok (ReadUd.start patchdata))

theorem tally_mono (kind : History → Event → Bool) {h total : History} (hsuffix : h <:+ total) :
    tally kind h ≤ tally kind total := by
  induction total with
  | nil =>
    rw [List.suffix_nil.mp hsuffix]
  | cons e total ih =>
    rcases List.suffix_cons_iff.mp hsuffix with rfl | hrest
    · exact le_refl _
    · exact (ih hrest).trans (Nat.le_add_right _ _)

/-- The arrays as the first pass has them allocated. -/
def emptySlots (consoleId core unofficial lboards : ℕ) : RaPatchdata :=
  ⟨consoleId, .replicate core none, .replicate unofficial none, .replicate lboards none⟩

theorem tracks_start (consoleId core unofficial lboards : ℕ) :
    Tracks core unofficial lboards []
      (ReadUd.start (emptySlots consoleId core unofficial lboards)) where
  lists := rfl
  field := rfl
  fields := fun _ => rfl
  objects := rfl
  place := rfl
  coreCount := rfl
  unofficialCount := rfl
  lboardCount := rfl
  coreSlots := slots_replicate core
  unofficialSlots := slots_replicate unofficial
  lboardSlots := slots_replicate lboards

theorem tracks_of_readAll {consoleId : ℕ} (hcore : core < 2 ^ 32)
    (hunofficial : unofficial < 2 ^ 32) (hlboards : lboards < 2 ^ 32) {h : History} {ud : ReadUd}
    (hread : readAll (emptySlots consoleId core unofficial lboards) h = .ok ud) :
    Tracks core unofficial lboards h ud ∧ ∀ h', Event.endObject :: h' <:+ h → Complete h' := by
  induction h generalizing ud with
  | nil =>
    cases hread
    refine ⟨tracks_start consoleId core unofficial lboards, ?_⟩
    intro h' hsuffix
    exact absurd (List.suffix_nil.mp hsuffix) (by simp)
  | cons e h ih =>
    obtain ⟨v, hv, hstep⟩ := bind_ok.mp hread
    obtain ⟨ht, hcomplete⟩ := ih hv
    by_cases he : e = .endObject
    · subst he
      obtain ⟨hhere, ht'⟩ := ht.endObject hcore hunofficial hlboards hstep
      refine ⟨ht', ?_⟩
      intro h' hsuffix
      rcases List.suffix_cons_iff.mp hsuffix with heq | hrest
      · cases heq
        exact hhere
      · exact hcomplete h' hrest
    · obtain ⟨ud', hud', ht'⟩ := ht.other he
      rw [hstep] at hud'
      cases hud'
      refine ⟨ht', ?_⟩
      intro h' hsuffix
      rcases List.suffix_cons_iff.mp hsuffix with heq | hrest
      · cases heq
        exact absurd rfl he
      · exact hcomplete h' hrest

/-- Where all objects are complete and there are slots enough, all of it is read. -/
theorem readAll_of_complete (consoleId : ℕ) (hcore : core < 2 ^ 32)
    (hunofficial : unofficial < 2 ^ 32) (hlboards : lboards < 2 ^ 32) {total h : History}
    (hsuffix : h <:+ total)
    (hcomplete : ∀ h', Event.endObject :: h' <:+ total → Complete h')
    (hcoreLe : tally (endsFlagged 3) total ≤ core)
    (hunofficialLe : tally (endsFlagged 5) total ≤ unofficial)
    (hlboardsLe : tally endsLboard total ≤ lboards) :
    ∃ ud, readAll (emptySlots consoleId core unofficial lboards) h = .ok ud := by
  induction h with
  | nil => exact ⟨_, rfl⟩
  | cons e h ih =>
    obtain ⟨v, hv⟩ := ih ((List.suffix_cons e h).trans hsuffix)
    obtain ⟨ht, -⟩ := tracks_of_readAll hcore hunofficial hlboards hv
    have hstep : ∃ ud, readEvent v e = .ok ud := by
      by_cases he : e = .endObject
      · subst he
        exact ht.exists_endObject (hcomplete h hsuffix)
          ((tally_mono _ hsuffix).trans hcoreLe) ((tally_mono _ hsuffix).trans hunofficialLe)
          ((tally_mono _ hsuffix).trans hlboardsLe)
      · obtain ⟨ud, hud, -⟩ := ht.other he
        exact ⟨ud, hud⟩
    obtain ⟨ud, hud⟩ := hstep
    exact ⟨ud, bind_ok.mpr ⟨v, hv, hud⟩⟩

theorem Slots.full_iff {α : Type} {slots : List (Option α)} {filled count : ℕ}
    (h : Slots slots filled count) : (∀ slot ∈ slots, slot.isSome) ↔ filled = count := by
  constructor
  · intro hall
    by_contra hne
    have hle := h.le
    have hlt : filled < slots.length := by
      rw [h.length]
      omega
    have hsome := (h.some_iff filled slots[filled] (List.getElem?_eq_getElem hlt)).mp
      (hall _ (List.getElem_mem hlt))
    exact absurd hsome (Nat.lt_irrefl _)
  · rintro rfl slot hslot
    obtain ⟨i, hi, rfl⟩ := List.getElem_of_mem hslot
    apply (h.some_iff i _ (List.getElem?_eq_getElem hi)).mpr
    rw [← h.length]
    exact hi

end Passes

/-- Every slot has its entry. -/
def Filled (patchdata : RaPatchdata) : Prop :=
  (∀ slot ∈ patchdata.core, slot.isSome) ∧ (∀ slot ∈ patchdata.unofficial, slot.isSome) ∧
    ∀ slot ∈ patchdata.lboards, slot.isSome

theorem deliver_foldl {σ : Type} (f : σ → Event → σ) (events : List Event) (ud : σ) :
    deliver (fun ud e => (f ud e, false)) events ud = some (events.foldl f ud) := by
  induction events generalizing ud with
  | nil => rfl
  | cons e events ih =>
    rw [deliver, if_neg (by simp), ih, List.foldl_cons]

theorem jsonsaxParse_accepted {σ : Type} (f : σ → Event → σ) {json rest : Memory}
    (haccepted : (delivers json).2 = .ok rest) (ud : σ) :
    jsonsaxParse (fun ud e => (f ud e, false)) json ud =
      .ok ((delivers json).1.reverse.foldr (fun e ud => f ud e) ud) := by
  unfold jsonsaxParse
  rw [deliver_foldl, haccepted, List.foldr_reverse]
  rfl

/-- The two passes over a text that the parser accepts. -/
theorem getPatchdata_eq {json rest : Memory} (haccepted : (delivers json).2 = .ok rest)
    (consoleId : ℕ) :
    rcheevosGetPatchdata json consoleId =
      (readAll (emptySlots consoleId
        (tally (numberFlagged 3) (delivers json).1.reverse % 2 ^ 32)
        (tally (numberFlagged 5) (delivers json).1.reverse % 2 ^ 32)
        (tally numberLboard (delivers json).1.reverse % 2 ^ 32))
        (delivers json).1.reverse).map fun ud => some ud.patchdata := by
  unfold rcheevosGetPatchdata
  rw [jsonsaxParse_accepted countEvent haccepted, foldr_countEvent]
  dsimp only
  rw [jsonsaxParse_accepted
    (fun (ud : Except Fault ReadUd) e => ud.bind fun ud => readEvent ud e) haccepted]
  rfl

/-- Of a text that the parser accepts the list is read, inside its arrays and from the fields of
each object, and every slot is filled, exactly when the passes agree on it. -/
theorem passes_agree_iff {json rest : Memory} (haccepted : (delivers json).2 = .ok rest)
    (consoleId : ℕ) :
    (∃ patchdata, rcheevosGetPatchdata json consoleId = .ok (some patchdata) ∧
      Filled patchdata) ↔ Agrees (delivers json).1 := by
  have hmod : ∀ n, n % 2 ^ 32 < 2 ^ 32 := fun n => Nat.mod_lt n (by decide)
  rw [getPatchdata_eq haccepted]
  constructor
  · rintro ⟨patchdata, hread, hcore, hunofficial, hlboards⟩
    cases hall : readAll (emptySlots consoleId
        (tally (numberFlagged 3) (delivers json).1.reverse % 2 ^ 32)
        (tally (numberFlagged 5) (delivers json).1.reverse % 2 ^ 32)
        (tally numberLboard (delivers json).1.reverse % 2 ^ 32)) (delivers json).1.reverse with
    | error e =>
      rw [hall] at hread
      exact nomatch hread
    | ok ud =>
      rw [hall] at hread
      cases hread
      obtain ⟨ht, hcomplete⟩ := tracks_of_readAll (hmod _) (hmod _) (hmod _) hall
      exact
        { complete := hcomplete
          core := ht.coreSlots.full_iff.mp hcore
          unofficial := ht.unofficialSlots.full_iff.mp hunofficial
          lboards := ht.lboardSlots.full_iff.mp hlboards }
  · intro hagrees
    obtain ⟨ud, hud⟩ := readAll_of_complete consoleId (hmod _) (hmod _) (hmod _)
      (List.suffix_refl _) hagrees.complete hagrees.core.le hagrees.unofficial.le
      hagrees.lboards.le
    obtain ⟨ht, -⟩ := tracks_of_readAll (hmod _) (hmod _) (hmod _) hud
    exact ⟨ud.patchdata, by rw [hud]; rfl, ht.coreSlots.full_iff.mpr hagrees.core,
      ht.unofficialSlots.full_iff.mpr hagrees.unofficial,
      ht.lboardSlots.full_iff.mpr hagrees.lboards⟩

/-- A text with one achievement and one leaderboard. -/
def twoLists (flags : String) : Memory :=
  ascii "\x7b\"Achievements\":[\x7b\"ID\":1,\"Title\":\"t\",\"Description\":\"d\"," ++
    ascii "\"BadgeName\":\"b\",\"MemAddr\":\"m\",\"Points\":5,\"Flags\":" ++ ascii flags ++
    ascii "\x7d],\"Leaderboards\":[\x7b\"ID\":2,\"Title\":\"t\",\"Description\":\"d\"," ++
    ascii "\"Format\":\"f\",\"Mem\":\"m\"\x7d]\x7d" ++ [0]

theorem twoLists_accepted (flags : String) (h : flags = "3" ∨ flags = "\"3\"") :
    (delivers (twoLists flags)).2 = .ok [0] := by
  rcases h with rfl | rfl
  · decide
  · decide

/-- The passes agree on it. -/
theorem twoLists_agree : Agrees (delivers (twoLists "3")).1 := by
  have hread : ((rcheevosGetPatchdata (twoLists "3") 0).toOption.bind id).map
      (fun patchdata => (patchdata.core.map Option.isSome, patchdata.unofficial.map Option.isSome,
        patchdata.lboards.map Option.isSome)) = some ([true], [], [true]) := by
    decide
  obtain ⟨patchdata, hpatchdata, hslots⟩ := Option.map_eq_some_iff.mp hread
  cases hget : rcheevosGetPatchdata (twoLists "3") 0 with
  | error fault =>
    rw [hget] at hpatchdata
    exact nomatch hpatchdata
  | ok answer =>
    rw [hget] at hpatchdata
    have hanswer : answer = some patchdata := hpatchdata
    rw [hanswer] at hget
    simp only [Prod.mk.injEq] at hslots
    obtain ⟨hcore, hunofficial, hlboards⟩ := hslots
    have hall : ∀ {α : Type} {slots : List (Option α)},
        (∀ b ∈ slots.map Option.isSome, b = true) → ∀ slot ∈ slots, slot.isSome := by
      intro α slots hslots slot hslot
      exact hslots _ (List.mem_map_of_mem hslot)
    refine (passes_agree_iff (twoLists_accepted _ (Or.inl rfl)) 0).mp
      ⟨patchdata, hget, ?_, ?_, ?_⟩
    · exact hall (by rw [hcore]; decide)
    · exact hall (by rw [hunofficial]; decide)
    · exact hall (by rw [hlboards]; decide)

/-- With its flags in quotes the achievement is not counted, and written behind the array. -/
theorem quoted_flags_outside :
    ¬ ∀ (json rest : Memory) (consoleId : ℕ), (delivers json).2 = .ok rest →
      ∃ patchdata, rcheevosGetPatchdata json consoleId = .ok (some patchdata) ∧
        Filled patchdata := by
  intro hclaim
  obtain ⟨patchdata, hread, -⟩ :=
    hclaim (twoLists "\"3\"") [0] 0 (twoLists_accepted _ (Or.inr rfl))
  have hfault : (rcheevosGetPatchdata (twoLists "\"3\"") 0).toOption = none := by
    decide
  rw [hread] at hfault
  exact nomatch hfault

end RetroArch.Cheevos.Passes
