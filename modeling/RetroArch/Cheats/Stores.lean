/- What a cheat stores, and where: the places of items, their bytes and their bits. -/

import RetroArch.Cheats.Apply
import RetroArch.Cheats.Regions

namespace RetroArch.Cheats

open Library.Memory

variable {m : Snapshot} {s : CheatManager} {regions : List Region} {cheat : ItemCheat}
  {k : SearchMeta} {p : Region × ℕ}

section Places

theorem go_place {a pos offset : ℕ} {r : Region} {curr : Option Region}
    (h : place regions a = some (r, pos)) (hsmall : offset + totalLength regions < 2 ^ 32) :
    translateAddress.go (offset + a) curr (regions.zip (regions.map fun r => r.len % 2 ^ 32))
      offset = (offset + a - pos, some r) ∧ pos ≤ a := by
  induction regions generalizing a offset with
  | nil => exact nomatch h
  | cons r' regions ih =>
    rw [totalLength_cons] at hsmall
    have hlen : r'.len % 2 ^ 32 = r'.len := Nat.mod_eq_of_lt (by omega)
    have hend : (offset + r'.len) % 2 ^ 32 = offset + r'.len := Nat.mod_eq_of_lt (by omega)
    rw [List.map_cons, List.zip_cons_cons, translateAddress.go, hlen, hend]
    rw [place] at h
    by_cases hhere : a < r'.len
    · rw [if_pos hhere] at h
      obtain ⟨rfl, rfl⟩ := Prod.mk.inj (Option.some.inj h)
      rw [if_pos (by omega), Nat.add_sub_cancel]
      exact ⟨rfl, Nat.le_refl _⟩
    · rw [if_neg hhere] at h
      obtain ⟨hgo, hle⟩ := @ih (a - r'.len) (offset + r'.len) h (by omega)
      have haddress : offset + r'.len + (a - r'.len) = offset + a := by omega
      rw [haddress] at hgo
      rw [if_neg (by omega), hgo]
      exact ⟨rfl, by omega⟩

theorem go_beyond {a offset : ℕ} {curr : Option Region} (h : offset + totalLength regions ≤ a)
    (hsmall : offset + totalLength regions < 2 ^ 32) :
    translateAddress.go a curr (regions.zip (regions.map fun r => r.len % 2 ^ 32)) offset =
      (offset + totalLength regions, curr) := by
  induction regions generalizing offset with
  | nil => rfl
  | cons r regions ih =>
    rw [totalLength_cons] at h hsmall ⊢
    have hlen : r.len % 2 ^ 32 = r.len := Nat.mod_eq_of_lt (by omega)
    have hend : (offset + r.len) % 2 ^ 32 = offset + r.len := Nat.mod_eq_of_lt (by omega)
    rw [List.map_cons, List.zip_cons_cons, translateAddress.go, hlen, hend, if_neg (by omega),
      ih (by omega) (by omega), Nat.add_assoc]

/-- The pointer of the code at a place. -/
structure At (p : Region × ℕ) (idx offset : ℕ) (curr : Option Region) : Prop where
  region : curr = some p.1
  le : offset ≤ idx
  sub : idx - offset = p.2

theorem itemPlace_spec (h : Holds s regions) (hsmall : totalLength regions < 2 ^ 32) {n a : ℕ}
    (hp : itemPlace regions n a = some p) (curr : Option Region) :
    At p a (translateAddress s a curr).1 (translateAddress s a curr).2 ∧
      p.2 + n ≤ p.1.len := by
  obtain ⟨hplace, hfits⟩ := Option.filter_eq_some_iff.mp hp
  obtain ⟨hgo, hle⟩ := @go_place regions a p.2 0 p.1 curr hplace (by omega)
  have htranslate : translateAddress s a curr = (a - p.2, some p.1) := by
    unfold translateAddress
    rw [h.list, h.sizes]
    simpa only [Nat.zero_add] using hgo
  rw [htranslate]
  exact ⟨⟨rfl, Nat.sub_le a p.2, Nat.sub_sub_self hle⟩, of_decide_eq_true hfits⟩

/-- The code looks at an address with the memory's size taken off where that is in the first
region. -/
def Reached (s : CheatManager) (regions : List Region) (bytesPerItem address : ℕ) : Prop :=
  address < totalLength regions ∨ ∃ r rest, regions = r :: rest ∧ s.currMemoryBuf = some r ∧
    address - totalLength regions + bytesPerItem ≤ r.len

theorem reached_spec (h : Holds s regions) (hsmall : totalLength regions < 2 ^ 32) {n a : ℕ}
    (hn : 0 < n) (hreached : Reached s regions n a)
    (hp : itemPlace regions n (a % totalLength regions) = some p) :
    At p a (translateAddress s a s.currMemoryBuf).1 (translateAddress s a s.currMemoryBuf).2 ∧
      p.2 + n ≤ p.1.len := by
  by_cases hin : a < totalLength regions
  · rw [Nat.mod_eq_of_lt hin] at hp
    exact itemPlace_spec h hsmall hp s.currMemoryBuf
  · obtain hlt | ⟨r, rest, rfl, hcurr, hfits⟩ := hreached
    · exact absurd hlt hin
    · have hgo := @go_beyond (r :: rest) a 0 s.currMemoryBuf (by omega) (by omega)
      rw [Nat.zero_add, ← h.list] at hgo
      have htranslate : translateAddress s a s.currMemoryBuf =
          (totalLength (r :: rest), s.currMemoryBuf) := by
        unfold translateAddress
        rw [h.sizes, ← h.list, hgo]
      have htotal := totalLength_cons r rest
      have hmod : a % totalLength (r :: rest) = a - totalLength (r :: rest) := by
        rw [Nat.mod_eq_sub_mod (Nat.not_lt.mp hin), Nat.mod_eq_of_lt (by omega)]
      rw [hmod] at hp
      obtain ⟨hplace, hlen⟩ := Option.filter_eq_some_iff.mp hp
      rw [place, if_pos (by omega)] at hplace
      obtain rfl := Option.some.inj hplace
      rw [htranslate]
      exact ⟨⟨hcurr, Nat.not_lt.mp hin, rfl⟩, of_decide_eq_true hlen⟩

variable {idx offset : ℕ} {curr : Option Region}

theorem storeAt_place (h : At p idx offset curr) {bytes : List UInt8}
    (hfits : p.2 + bytes.length ≤ p.1.len) :
    storeAt m idx offset curr bytes = some (overwrite m p.1.ptr p.2 bytes) := by
  unfold storeAt
  rw [h.region, Option.bind_some, h.sub, if_pos ⟨h.le, hfits⟩]

theorem byteAt_place (h : At p idx offset curr) (hfits : p.2 + 1 ≤ p.1.len) :
    byteAt m idx offset curr = some (m p.1.ptr p.2) := by
  unfold byteAt
  rw [h.region, Option.bind_some, h.sub, if_pos ⟨h.le, hfits⟩]

theorem currValue_place (h : At p idx offset curr) {n : ℕ} (hfits : p.2 + n ≤ p.1.len) :
    currValue s m n idx offset curr = some (itemValue s.bigEndian (bytesAt m p n)) := by
  unfold currValue
  rw [h.region]
  dsimp only
  rw [if_neg (Nat.not_lt.mpr h.le), h.sub,
    peeks_of_le (by rw [length_bytes]; exact hfits)]
  rfl

end Places

theorem lowByte (value : ℕ) : value &&& 0xFF = value % 256 :=
  Nat.and_two_pow_sub_one_eq_mod value 8

/-- The kinds of items that are not smaller than a byte. -/
structure SearchMeta.Wide (k : SearchMeta) : Prop where
  bits : k.bits = 8
  bytes : k.bytesPerItem = 1 ∨ k.bytesPerItem = 2 ∨ k.bytesPerItem = 4
  mask : k.mask.toNat = 2 ^ (8 * k.bytesPerItem) - 1

/-- The kinds of items that are. -/
structure SearchMeta.Small (k : SearchMeta) : Prop where
  bits : k.bits = 1 ∨ k.bits = 2 ∨ k.bits = 4
  bytes : k.bytesPerItem = 1
  mask : k.mask.toNat = 2 ^ k.bits - 1

theorem wide_or_small {size : ℕ} (h : size ≤ 5) :
    (cheatManagerSetupSearchMeta size).Wide ∨ (cheatManagerSetupSearchMeta size).Small := by
  rcases (by omega : size = 0 ∨ size = 1 ∨ size = 2 ∨ size = 3 ∨ size = 4 ∨ size = 5) with
    rfl | rfl | rfl | rfl | rfl | rfl
  · exact .inr ⟨.inl rfl, rfl, rfl⟩
  · exact .inr ⟨.inr (.inl rfl), rfl, rfl⟩
  · exact .inr ⟨.inr (.inr rfl), rfl, rfl⟩
  · exact .inl ⟨rfl, .inl rfl, rfl⟩
  · exact .inl ⟨rfl, .inr (.inl rfl), rfl⟩
  · exact .inl ⟨rfl, .inr (.inr rfl), rfl⟩

theorem SearchMeta.Wide.not_narrow (hk : k.Wide) : ¬k.bits < 8 := by
  rw [hk.bits]
  exact Nat.lt_irrefl 8

theorem SearchMeta.Small.narrow (hk : k.Small) : k.bits < 8 := by
  rcases hk.bits with h | h | h <;> omega

theorem SearchMeta.Small.pos (hk : k.Small) : 0 < k.bits := by
  rcases hk.bits with h | h | h <;> omega

theorem length_storedBytes (hk : k.Wide) (bigEndian : Bool) (value : ℕ) :
    (storedBytes bigEndian value k.bytesPerItem).length = k.bytesPerItem := by
  rcases hk.bytes with hb | hb | hb <;> rw [hb] <;> cases bigEndian <;> rfl

theorem storedBytes_eq (hk : k.Wide) (bigEndian : Bool) {value given : ℕ}
    (hbits : ∀ j < k.width, value.testBit j = given.testBit j) :
    storedBytes bigEndian value k.bytesPerItem =
      itemBytes bigEndian k.bytesPerItem (given % 2 ^ k.width) := by
  have hmod : value % 2 ^ k.width = given % 2 ^ k.width := by
    apply Nat.eq_of_testBit_eq
    intro j
    rw [Nat.testBit_mod_two_pow, Nat.testBit_mod_two_pow]
    by_cases hj : j < k.width
    · rw [hbits j hj]
    · rw [decide_eq_false hj, Bool.false_and, Bool.false_and]
  rw [← hmod]
  unfold SearchMeta.width
  rw [hk.bits]
  rcases hk.bytes with hb | hb | hb
  · rw [hb]
    simp only [storedBytes, itemBytes, List.range_succ, List.range_zero, lowByte]
    cases bigEndian <;> simp
  · rw [hb]
    have h₀ : value % 2 ^ (8 * 2) % 256 = value % 256 := by omega
    have h₁ : value % 2 ^ (8 * 2) / 256 % 256 = value / 256 % 256 := by omega
    simp only [storedBytes, itemBytes, List.range_succ, List.range_zero, lowByte,
      Nat.shiftRight_eq_div_pow, List.nil_append, List.map_cons, List.map_nil, List.cons_append,
      pow_zero, Nat.div_one, pow_one, h₀, h₁]
    cases bigEndian <;> simp
  · rw [hb]
    have h₀ : value % 2 ^ (8 * 4) % 256 = value % 256 := by omega
    have h₁ : value % 2 ^ (8 * 4) / 256 % 256 = value / 256 % 256 := by omega
    have h₂ : value % 2 ^ (8 * 4) / 256 ^ 2 % 256 = value / 2 ^ 16 % 256 := by omega
    have h₃ : value % 2 ^ (8 * 4) / 256 ^ 3 % 256 = value / 2 ^ 24 % 256 := by omega
    simp only [storedBytes, itemBytes, List.range_succ, List.range_zero, lowByte,
      Nat.shiftRight_eq_div_pow, List.nil_append, List.map_cons, List.map_nil, List.cons_append,
      pow_zero, Nat.div_one, pow_one, h₀, h₁, h₂, h₃]
    cases bigEndian <;> simp

/-- Setting a bit to that of a value, with the mask that is left behind. -/
def setInjected (value : ℕ) (w : UInt8 × ℕ) (i : ℕ) : UInt8 × ℕ :=
  (setBit w.1 i (value.testBit i), clearing i)

theorem inject_bool (i : ℕ) (byte : UInt8) (b : Bool) :
    (byte.toNat &&& clearing i ||| b.toNat <<< i).toUInt8 = setBit byte i b := by
  have hlt := byte.toNat_lt
  unfold setBit
  cases b with
  | false => rw [if_neg Bool.false_ne_true, Bool.toNat_false, Nat.zero_shiftLeft, Nat.or_zero]
  | true =>
    rw [if_pos rfl, Bool.toNat_true]
    congr 1
    apply Nat.eq_of_testBit_eq
    intro j
    rw [Nat.testBit_or, Nat.testBit_or, Nat.testBit_and, clearing, Nat.testBit_xor,
      Nat.one_shiftLeft, Nat.testBit_two_pow]
    by_cases hij : i = j
    · simp [hij]
    · by_cases hj : j < 8
      · have hfull : (0xFF : ℕ).testBit j = true := by
          rw [Nat.testBit_two_pow_sub_one 8 j, decide_eq_true hj]
        simp [hij, hfull]
      · have hnone : byte.toNat.testBit j = false :=
          Nat.testBit_lt_two_pow (lt_of_lt_of_le hlt (Nat.pow_le_pow_right (by decide)
            (Nat.not_lt.mp hj)))
        simp [hij, hnone]

theorem injectBit_eq {addressMask value : ℕ} (i : ℕ) (w : UInt8 × ℕ) :
    injectBit addressMask value w i =
      if addressMask.testBit i then setInjected value w i else w := by
  have hbit : value >>> i &&& 1 = (value.testBit i).toNat := by
    rw [Nat.and_one_is_mod, Nat.toNat_testBit, Nat.shiftRight_eq_div_pow]
  unfold injectBit setInjected
  rw [hbit, inject_bool i]

theorem foldl_injectBit {addressMask value : ℕ} (is : List ℕ) (w : UInt8 × ℕ) :
    is.foldl (injectBit addressMask value) w =
      (is.filter addressMask.testBit).foldl (setInjected value) w := by
  induction is generalizing w with
  | nil => rfl
  | cons i is ih =>
    rw [List.foldl_cons, injectBit_eq i, ih, List.filter_cons]
    by_cases hi : addressMask.testBit i = true
    · rw [if_pos hi, if_pos hi, List.foldl_cons]
    · rw [if_neg hi, if_neg hi]

theorem foldl_setInjected {value given σ n : ℕ} (byte : UInt8) (mask : ℕ)
    (hbits : ∀ j < n, value.testBit (σ + j) = given.testBit j) :
    ((List.range n).map (σ + ·)).foldl (setInjected value) (byte, mask) =
      (setBits σ n given byte, if n = 0 then mask else clearing (σ + n - 1)) := by
  induction n with
  | zero => rfl
  | succ n ih =>
    rw [List.range_succ, List.map_append, List.foldl_append,
      ih fun j hj => hbits j (Nat.lt_succ_of_lt hj)]
    unfold setBits
    rw [List.range_succ, List.foldl_append, List.map_singleton, List.foldl_cons, List.foldl_nil,
      List.foldl_cons, List.foldl_nil, setInjected, hbits n (Nat.lt_succ_self n),
      if_neg (Nat.succ_ne_zero n), Nat.add_succ_sub_one]

theorem shift_small (hk : k.Small) {addressMask : UInt32} {σ : ℕ}
    (h : k.shift addressMask = some σ) : σ + k.bits ≤ 8 ∧ k.bits ∣ σ ∧
      (List.range 8).filter addressMask.toNat.testBit = (List.range k.bits).map (σ + ·) := by
  unfold SearchMeta.shift at h
  rw [if_pos hk.narrow] at h
  have hmask : addressMask.toNat = k.mask.toNat <<< σ := by
    have hfound := List.find?_some h
    exact beq_iff_eq.mp hfound
  have hmem := List.mem_of_find?_eq_some h
  rw [hmask, hk.mask]
  obtain ⟨i, hi, rfl⟩ := List.mem_map.mp hmem
  rw [List.mem_range] at hi
  have hall : ∀ b ∈ [1, 2, 4], ∀ i < 8 / b, i * b + b ≤ 8 ∧ b ∣ i * b ∧
      (List.range 8).filter ((2 ^ b - 1) <<< (i * b)).testBit =
        (List.range b).map (i * b + ·) := by decide
  apply hall
  · rcases hk.bits with h | h | h <;> simp [h]
  · exact hi

/-- The bits of the group are set to those of the value that the group is given, where the value
has them in the group's own place. -/
theorem inject_spec (hk : k.Small) {addressMask : UInt32} {σ value given : ℕ}
    (h : k.shift addressMask = some σ) (byte : UInt8) (mask : ℕ)
    (hbits : ∀ j < k.bits, value.testBit (σ + j) = given.testBit j) :
    (List.range 8).foldl (injectBit addressMask.toNat value) (byte, mask) =
      (setBits σ k.bits given byte, clearing (σ + k.bits - 1)) := by
  obtain ⟨-, -, hfilter⟩ := shift_small hk h
  rw [foldl_injectBit (List.range 8), hfilter, foldl_setInjected _ _ hbits,
    if_neg (Nat.ne_of_gt hk.pos)]

section Items

variable {t : Repetition} {σ given : ℕ}

theorem SearchMeta.Wide.width_le (hk : k.Wide) : k.width ≤ 32 := by
  unfold SearchMeta.width
  rw [hk.bits]
  rcases hk.bytes with hb | hb | hb <;> omega

theorem SearchMeta.Small.width_eq (hk : k.Small) : k.width = k.bits := by
  unfold SearchMeta.width
  rw [hk.bytes, Nat.mul_one]

theorem shift_wide (hk : k.Wide) {addressMask : UInt32} (h : k.shift addressMask = some σ) :
    σ = 0 := by
  unfold SearchMeta.shift at h
  rw [if_neg hk.not_narrow] at h
  exact (Option.some.inj h).symm

theorem storeItem_wide (hk : k.Wide) (hat : At p t.idx t.offset t.curr)
    (hlen : p.2 + k.bytesPerItem ≤ p.1.len) (σ : ℕ)
    (hbits : ∀ j < k.width, t.valueToSet.testBit j = given.testBit j) :
    storeItem cheat k t = some { t with
      memory := writtenItem t.memory k cheat.bigEndian p σ (given % 2 ^ k.width) } := by
  have hfits : p.2 + (storedBytes cheat.bigEndian t.valueToSet k.bytesPerItem).length ≤
      p.1.len := by
    rw [length_storedBytes hk]
    exact hlen
  unfold storeItem writtenItem
  rw [if_neg fun h => hk.not_narrow h.2, if_neg hk.not_narrow, storeAt_place hat hfits,
    Option.map_some, storedBytes_eq hk _ hbits]

theorem storeItem_small (hk : k.Small) (hshift : k.shift cheat.addressMask = some σ)
    (hat : At p t.idx t.offset t.curr) (hlen : p.2 + k.bytesPerItem ≤ p.1.len)
    (hmask : t.addressMask = cheat.addressMask.toNat)
    (hbits : ∀ j < k.width, t.valueToSet.testBit (σ + j) = given.testBit j) :
    storeItem cheat k t = some { t with
      memory := writtenItem t.memory k cheat.bigEndian p σ (given % 2 ^ k.width)
      mask := clearing (σ + k.bits - 1) } := by
  rw [hk.bytes] at hlen
  rw [hk.width_eq] at hbits ⊢
  have hreduced : ∀ j < k.bits,
      t.valueToSet.testBit (σ + j) = (given % 2 ^ k.bits).testBit j := by
    intro j hj
    rw [Nat.testBit_mod_two_pow, decide_eq_true hj, Bool.true_and, hbits j hj]
  unfold storeItem writtenItem
  rw [if_pos ⟨hk.bytes, hk.narrow⟩, byteAt_place hat hlen, Option.bind_some, hmask]
  dsimp only
  rw [inject_spec hk hshift _ _ hreduced, @storeAt_place t.memory p _ _ _ hat [_] hlen,
    Option.map_some, if_pos hk.narrow]

end Items

end RetroArch.Cheats
