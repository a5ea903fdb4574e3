/- The candidates of a search: the values that have met every comparison so far. -/

import RetroArch.Cheats.Search
import Mathlib.Algebra.BigOperators.Group.List.Basic
import Mathlib.Data.List.Nodup
import Mathlib.Tactic.IntervalCases

namespace RetroArch.Cheats

/-- The first byte of an item, and its group of bits. -/
abbrev Item : Type := ℕ × ℕ

/-- Where the items of `n` bytes start. -/
def starts (k : SearchMeta) (n : ℕ) : List ℕ :=
  List.range' 0 ((n + k.bytesPerItem - 1) / k.bytesPerItem) k.bytesPerItem

/-- The items of `n` bytes, in the order in which a search meets them. -/
def itemsOf (k : SearchMeta) (n : ℕ) : List Item :=
  (starts k n).flatMap fun idx => (List.range (8 / k.bits)).map fun part => (idx, part)

/-- The value of an item in a memory. -/
def valueOf (k : SearchMeta) (bigEndian : Bool) (mem : List UInt8) (item : Item) : UInt32 :=
  k.subval (itemValue bigEndian ((mem.drop item.1).take k.bytesPerItem)) item.2

/-- The numbers that the player has chosen for a comparison. -/
structure Operands where
  exactValue : UInt32
  eqplusValue : UInt32
  eqminusValue : UInt32
  deriving DecidableEq, Repr

/-- What each comparison asks of the value now and the value before. -/
def Satisfies (searchType : CheatSearchType) (o : Operands) (now before : UInt32) : Prop :=
  match searchType with
  | .exact => now = o.exactValue
  | .lt => now < before
  | .lte => now ≤ before
  | .gt => before < now
  | .gte => before ≤ now
  | .eq => now = before
  | .neq => now ≠ before
  | .eqplus => now = before + o.eqplusValue
  | .eqminus => now = before - o.eqminusValue

instance (searchType : CheatSearchType) (o : Operands) (now before : UInt32) :
    Decidable (Satisfies searchType o now before) :=
  match searchType with
  | .exact => inferInstanceAs (Decidable (now = o.exactValue))
  | .lt => inferInstanceAs (Decidable (now < before))
  | .lte => inferInstanceAs (Decidable (now ≤ before))
  | .gt => inferInstanceAs (Decidable (before < now))
  | .gte => inferInstanceAs (Decidable (before ≤ now))
  | .eq => inferInstanceAs (Decidable (now = before))
  | .neq => inferInstanceAs (Decidable (now ≠ before))
  | .eqplus => inferInstanceAs (Decidable (now = before + o.eqplusValue))
  | .eqminus => inferInstanceAs (Decidable (now = before - o.eqminusValue))

/-- A search as the player sees it: what is still a candidate, and the memory of last time. -/
structure Hunt where
  candidates : List Item
  previous : List UInt8

inductive Op
  | search (searchType : CheatSearchType) (operands : Operands) (m : Snapshot)
  | delete (target : ℕ) (m : Snapshot)

/-- All the memory of the regions, one after another. -/
def concat (m : Snapshot) (regions : List Region) : List UInt8 :=
  regions.flatMap (Region.bytes m)

/-- A comparison keeps the candidates that satisfy it; a deletion takes out the one it names. -/
def Hunt.step (k : SearchMeta) (bigEndian : Bool) (regions : List Region) (h : Hunt) :
    Op → Hunt
  | .search searchType operands m =>
    { candidates := h.candidates.filter fun item =>
        decide (Satisfies searchType operands (valueOf k bigEndian (concat m regions) item)
          (valueOf k bigEndian h.previous item))
      previous := concat m regions }
  | .delete target _ => { h with candidates := h.candidates.eraseIdx target }

/-- One operation of the cheat manager. -/
def step (s : CheatManager) : Op → Option CheatManager
  | .search searchType operands m =>
    cheatManagerSearch searchType m { s with
      searchExactValue := operands.exactValue
      searchEqplusValue := operands.eqplusValue
      searchEqminusValue := operands.eqminusValue }
  | .delete target m => (cheatManagerMatchAction .delete target 0 m s).map Prod.snd

/-- The regions that a search goes through. -/
def searchedRegions (descriptors : List MemoryDescriptor) (systemRam : Region) : List Region :=
  let accepted := descriptors.filterMap MemoryDescriptor.accepted
  if accepted = [] then if systemRam.len = 0 then [] else [systemRam] else accepted

def totalLength (regions : List Region) : ℕ := (regions.map Region.len).sum

/-- A new search and the operations after it. -/
def runSearch (descriptors : List MemoryDescriptor) (systemRam : Region) (m : Snapshot)
    (ops : List Op) (s : CheatManager) : Option CheatManager :=
  (cheatManagerInitializeMemory descriptors systemRam true m s).bind fun s => ops.foldlM step s

def runHunt (k : SearchMeta) (bigEndian : Bool) (regions : List Region) (m : Snapshot)
    (ops : List Op) : Hunt :=
  ops.foldl (Hunt.step k bigEndian regions)
    ⟨itemsOf k (totalLength regions), concat m regions⟩

/-- Whether an item is marked in `matches`. -/
def marked (k : SearchMeta) (buf : List UInt8) (item : Item) : Bool :=
  match buf[item.1]? with
  | none => false
  | some byte => decide (0 < byte &&& k.group item.2)

/-- The marked items are the candidates, and `num_matches` is their number. -/
structure ExactAt (k : SearchMeta) (n : ℕ) (h : Hunt) (s : CheatManager) : Prop where
  marks : ∀ item ∈ itemsOf k n,
    marked k (s.matchBuf.getD []) item = true ↔ item ∈ h.candidates
  count : s.numMatches = ((itemsOf k n).filter (marked k (s.matchBuf.getD []))).length

/-- No item ends outside of its region, and the number of bits is below `2 ^ 32`; where there is
no memory, nothing is left of an earlier search. -/
structure Fits (k : SearchMeta) (regions : List Region) (s : CheatManager) : Prop where
  aligned : ∀ r ∈ regions, k.bytesPerItem ∣ r.len
  small : totalLength regions < 2 ^ 29
  empty : regions = [] → s.numMatches = 0

section Meta

variable {b : ℕ}

theorem bytesPerItem_pos (b : ℕ) : 0 < (cheatManagerSetupSearchMeta b).bytesPerItem := by
  unfold cheatManagerSetupSearchMeta
  split <;> decide

theorem bits_of_item (hb : b ≤ 5) :
    (cheatManagerSetupSearchMeta b).bytesPerItem * 8 =
      8 / (cheatManagerSetupSearchMeta b).bits * 2 ^ b := by
  interval_cases b <;> decide

theorem group_pos (hb : b ≤ 5) {part : ℕ}
    (hpart : part < 8 / (cheatManagerSetupSearchMeta b).bits) :
    0 < (0xFF : UInt8) &&& (cheatManagerSetupSearchMeta b).group part := by
  have hall : ∀ b < 6, ∀ part < 8 / (cheatManagerSetupSearchMeta b).bits,
      0 < (0xFF : UInt8) &&& (cheatManagerSetupSearchMeta b).group part := by
    decide
  exact hall b (by omega) part hpart

theorem group_disjoint (hb : b ≤ 5) {part part' : ℕ}
    (hpart : part < 8 / (cheatManagerSetupSearchMeta b).bits)
    (hpart' : part' < 8 / (cheatManagerSetupSearchMeta b).bits) (hne : part ≠ part') :
    (cheatManagerSetupSearchMeta b).group part &&& (cheatManagerSetupSearchMeta b).group part' =
      0 := by
  have hall : ∀ b < 6, ∀ part < 8 / (cheatManagerSetupSearchMeta b).bits,
      ∀ part' < 8 / (cheatManagerSetupSearchMeta b).bits, part ≠ part' →
        (cheatManagerSetupSearchMeta b).group part &&&
          (cheatManagerSetupSearchMeta b).group part' = 0 := by
    decide
  exact hall b (by omega) part hpart part' hpart' hne

end Meta

section Items

variable {k : SearchMeta} {n : ℕ}

theorem mem_starts (hpos : 0 < k.bytesPerItem) {idx : ℕ} :
    idx ∈ starts k n ↔ k.bytesPerItem ∣ idx ∧ idx < n := by
  unfold starts
  rw [List.mem_range']
  constructor
  · rintro ⟨i, hi, rfl⟩
    rw [Nat.zero_add]
    refine ⟨Nat.dvd_mul_right _ _, ?_⟩
    rw [Nat.lt_div_iff_mul_lt hpos] at hi
    have hcomm := Nat.mul_comm k.bytesPerItem i
    omega
  · rintro ⟨⟨i, rfl⟩, hlt⟩
    refine ⟨i, ?_, (Nat.zero_add _).symm⟩
    rw [Nat.lt_div_iff_mul_lt hpos]
    have hcomm := Nat.mul_comm k.bytesPerItem i
    omega

theorem mem_itemsOf (hpos : 0 < k.bytesPerItem) {item : Item} :
    item ∈ itemsOf k n ↔
      k.bytesPerItem ∣ item.1 ∧ item.1 < n ∧ item.2 < 8 / k.bits := by
  unfold itemsOf
  rw [List.mem_flatMap]
  constructor
  · rintro ⟨idx, hidx, hitem⟩
    obtain ⟨part, hpart, rfl⟩ := List.mem_map.mp hitem
    obtain ⟨hdvd, hlt⟩ := (mem_starts hpos).mp hidx
    exact ⟨hdvd, hlt, List.mem_range.mp hpart⟩
  · rintro ⟨hdvd, hlt, hpart⟩
    refine ⟨item.1, (mem_starts hpos).mpr ⟨hdvd, hlt⟩, ?_⟩
    exact List.mem_map.mpr ⟨item.2, List.mem_range.mpr hpart, rfl⟩

theorem nodup_itemsOf (hpos : 0 < k.bytesPerItem) : (itemsOf k n).Nodup := by
  unfold itemsOf
  rw [List.nodup_flatMap]
  refine ⟨?_, ?_⟩
  · intro idx _
    exact List.nodup_range.map fun a b h => (Prod.mk.inj h).2
  · have hstarts : (starts k n).Nodup := List.nodup_range' _ hpos
    refine hstarts.imp ?_
    intro a b hab item ha hb
    obtain ⟨_, -, rfl⟩ := List.mem_map.mp ha
    obtain ⟨_, -, hb⟩ := List.mem_map.mp hb
    exact hab (Prod.mk.inj hb).1.symm

theorem length_itemsOf :
    (itemsOf k n).length = (n + k.bytesPerItem - 1) / k.bytesPerItem * (8 / k.bits) := by
  unfold itemsOf starts
  rw [List.length_flatMap]
  simp only [List.length_map, List.length_range]
  rw [List.map_const', List.sum_replicate, List.length_range']
  rfl

theorem length_itemsOf_le (hpos : 0 < k.bytesPerItem) : (itemsOf k n).length ≤ n * 8 := by
  rw [length_itemsOf]
  apply Nat.mul_le_mul
  · rcases Nat.eq_zero_or_pos n with rfl | hn
    · rw [Nat.zero_add, Nat.div_eq_of_lt (Nat.sub_lt hpos one_pos)]
    · apply Nat.div_le_of_le_mul
      obtain ⟨d, hd⟩ : ∃ d, k.bytesPerItem = d + 1 := ⟨k.bytesPerItem - 1, by omega⟩
      obtain ⟨c, rfl⟩ : ∃ c, n = c + 1 := ⟨n - 1, by omega⟩
      rw [hd, Nat.add_mul, Nat.mul_add]
      omega
  · exact Nat.div_le_self 8 k.bits

end Items

end RetroArch.Cheats
