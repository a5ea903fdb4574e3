/- Where a prepared memory map puts an address, and where its documentation does. -/

import RetroArch.Cheevos.MmapBits

set_option maxRecDepth 10000

namespace RetroArch.Cheevos.Mmap

open Library.BitPicking

section Loops

variable {free len disconnect : SizeT} {k : ℕ}

theorem disconnect_round (h : mmapReduce free disconnect >>> 1 > len - 1) :
    (len - 1).toNat.size ≤ (free &&& ~~~disconnect).toNat.size - 1 ∧
      0 < (free &&& ~~~disconnect).toNat.size := by
  set s := (free &&& ~~~disconnect).toNat.size with hs
  have hbound : pick 64 disconnect.toNat free.toNat < 2 ^ s := by
    apply pick_lt
    intro p hp hbit
    have hp64 : p < 64 := by
      by_contra hbig
      rw [BitVec.testBit_toNat, BitVec.getLsbD_of_ge free p (Nat.not_lt.mp hbig)] at hbit
      cases hbit
    refine ⟨hp64, ?_⟩
    by_contra hconnected
    have hfree : (free &&& ~~~disconnect).toNat.testBit p = true := by
      rw [testBit_and_not, hbit, Bool.eq_false_iff.mpr hconnected]
      rfl
    have hlt : (free &&& ~~~disconnect).toNat < 2 ^ p :=
      (Nat.lt_size_self _).trans_le (Nat.pow_le_pow_right Nat.two_pos hp)
    rw [Nat.testBit_eq_false_of_lt hlt] at hfree
    cases hfree
  have hmore : (len - 1).toNat < pick 64 disconnect.toNat free.toNat / 2 := by
    have hlt := BitVec.lt_def.mp h
    rw [BitVec.toNat_ushiftRight, mmapReduce_toNat, Nat.shiftRight_eq_div_pow, pow_one] at hlt
    exact hlt
  have hpos : 0 < s := by
    by_contra hzero
    obtain hs0 : s = 0 := by omega
    rw [hs0, pow_zero] at hbound
    omega
  refine ⟨?_, hpos⟩
  apply Nat.size_le.mpr
  have hdouble : 2 ^ s = 2 * 2 ^ (s - 1) := by
    rw [← pow_succ', Nat.sub_add_cancel hpos]
  omega

theorem disconnectLoop_mod (fuel : ℕ) (disconnect : SizeT) (hk : k ≤ (len - 1).toNat.size) :
    (disconnectLoop free len fuel disconnect).toNat % 2 ^ k = disconnect.toNat % 2 ^ k := by
  induction fuel generalizing disconnect with
  | zero => rfl
  | succ fuel ih =>
    rw [disconnectLoop]
    split_ifs with hmore
    · rw [ih]
      obtain ⟨hhigh, hpos⟩ := disconnect_round hmore
      apply Nat.eq_of_testBit_eq
      intro p
      rw [Nat.testBit_mod_two_pow, Nat.testBit_mod_two_pow, BitVec.toNat_or, Nat.testBit_or,
        mmapHighestBit_toNat, if_neg (by omega), Nat.testBit_two_pow]
      by_cases hp : p < k
      · rw [decide_eq_true hp, decide_eq_false (by omega), Bool.or_false]
      · rw [decide_eq_false hp, Bool.false_and, Bool.false_and]
    · rfl

theorem disconnect_lower (h : mmapReduce free disconnect >>> 1 > len - 1) :
    (free &&& ~~~(disconnect ||| mmapHighestBit (free &&& ~~~disconnect))).toNat <
      2 ^ ((free &&& ~~~disconnect).toNat.size - 1) := by
  obtain ⟨-, hpos⟩ := disconnect_round h
  apply Nat.lt_pow_two_of_testBit
  intro p hp
  rw [testBit_and_not, BitVec.toNat_or, Nat.testBit_or, mmapHighestBit_toNat,
    if_neg (by omega), Nat.testBit_two_pow]
  by_cases hbit : (free &&& ~~~disconnect).toNat.testBit p = true
  · have hplace : (free &&& ~~~disconnect).toNat.size - 1 = p := by
      by_contra hother
      have hlt : (free &&& ~~~disconnect).toNat < 2 ^ p :=
        (Nat.lt_size_self _).trans_le (Nat.pow_le_pow_right Nat.two_pos (by omega))
      rw [Nat.testBit_eq_false_of_lt hlt] at hbit
      cases hbit
    rw [decide_eq_true hplace, Bool.or_true, Bool.not_true, Bool.and_false]
  · rw [testBit_and_not] at hbit
    rw [Bool.not_or, ← Bool.and_assoc, Bool.eq_false_iff.mpr hbit, Bool.false_and]

theorem maskLoop_spec (fuel : ℕ) {j m : ℕ} {mask : SizeT} (hmask : mask.toNat = 2 ^ j - 1)
    (hlow : disconnect.toNat < 2 ^ j) (hm : disconnect.toNat = m % 2 ^ j) :
    ∃ i ≤ j, (maskLoop fuel mask disconnect).1.toNat = 2 ^ i - 1 ∧
      (maskLoop fuel mask disconnect).2.toNat = m % 2 ^ i ∧
      i - picked i m = j - picked j m := by
  induction fuel generalizing j mask disconnect with
  | zero => exact ⟨j, le_rfl, hmask, hm, rfl⟩
  | succ fuel ih =>
    rw [maskLoop]
    split_ifs with hmore
    · have hne : ((~~~mask) >>> 1 &&& disconnect).toNat ≠ 0 :=
        fun hzero => hmore (BitVec.eq_of_toNat_eq hzero)
      obtain ⟨p, hp⟩ := Nat.exists_testBit_of_ne_zero hne
      rw [BitVec.toNat_and, Nat.testBit_and, BitVec.toNat_ushiftRight, Nat.testBit_shiftRight,
        Bool.and_eq_true] at hp
      obtain ⟨hclear, hset⟩ := hp
      have hpj : p < j := by
        by_contra hbig
        have hlt : disconnect.toNat < 2 ^ p :=
          hlow.trans_le (Nat.pow_le_pow_right Nat.two_pos (Nat.not_lt.mp hbig))
        rw [Nat.testBit_eq_false_of_lt hlt] at hset
        cases hset
      have hjp : j ≤ p + 1 := by
        by_contra hsmall
        rw [BitVec.testBit_toNat, BitVec.getLsbD_not, ← BitVec.testBit_toNat, hmask,
          Nat.testBit_two_pow_sub_one, decide_eq_true (show 1 + p < j by omega), Bool.not_true,
          Bool.and_false] at hclear
        cases hclear
      obtain rfl : j = p + 1 := by omega
      have hbit : m.testBit p = true := by
        rw [hm, Nat.testBit_mod_two_pow, Bool.and_eq_true] at hset
        exact hset.2
      have hhalf : (mask >>> 1).toNat = 2 ^ p - 1 := by
        rw [BitVec.toNat_ushiftRight, hmask, Nat.shiftRight_eq_div_pow, pow_succ]
        omega
      have hdisconnect : (disconnect &&& mask >>> 1).toNat = m % 2 ^ p := by
        rw [BitVec.toNat_and, hhalf, Nat.and_two_pow_sub_one_eq_mod, hm,
          Nat.mod_mod_of_dvd _ (pow_dvd_pow 2 (Nat.le_succ p))]
      have hbound : (disconnect &&& mask >>> 1).toNat < 2 ^ p := by
        rw [hdisconnect]
        exact Nat.mod_lt _ (Nat.two_pow_pos p)
      obtain ⟨i, hi, hmask', hm', hroom⟩ := ih hhalf hbound hdisconnect
      refine ⟨i, by omega, hmask', hm', ?_⟩
      have hpicked := picked_succ p m
      rw [hbit] at hpicked
      have hone : true.toNat = 1 := rfl
      omega
    · exact ⟨j, le_rfl, hmask, hm, rfl⟩

end Loops

section Descriptor

variable {top : SizeT} {desc : RetroMemoryDescriptor} {prepared : RarchMemoryDescriptor}

/-- What an accepted descriptor keeps, and the mask it is given. -/
structure Prepared (top : SizeT) (desc : RetroMemoryDescriptor)
    (prepared : RarchMemoryDescriptor) : Prop where
  select : preparedSelect top desc = some prepared.core.select
  len : prepared.core.len = preparedLen top prepared.core.select desc
  start : desc.start &&& ~~~prepared.core.select = 0
  kept : prepared.core.ptr = desc.ptr ∧ prepared.core.offset = desc.offset ∧
    prepared.core.start = desc.start
  mask : ∃ i ≤ (prepared.core.len - 1).toNat.size, prepared.disconnectMask.toNat = 2 ^ i - 1 ∧
    prepared.core.disconnect.toNat = desc.disconnect.toNat % 2 ^ i ∧
    i - picked i desc.disconnect.toNat = (prepared.core.len - 1).toNat.size -
      picked (prepared.core.len - 1).toNat.size desc.disconnect.toNat

theorem preprocessDescriptor_spec (h : preprocessDescriptor top desc = some prepared) :
    Prepared top desc prepared := by
  obtain ⟨select, hselect, hrest⟩ := Option.bind_eq_some_iff.mp h
  set len := preparedLen top select desc with hlen
  dsimp only at hrest
  split_ifs at hrest with hstart
  rw [not_not] at hstart
  set k := (len - 1).toNat.size with hk
  set loop := disconnectLoop (top &&& ~~~select) len 64 desc.disconnect with hloop
  have hmask : (mmapAddBitsDown (len - 1)).toNat = 2 ^ k - 1 := mmapAddBitsDown_toNat _
  have hmod : (loop &&& mmapAddBitsDown (len - 1)).toNat = desc.disconnect.toNat % 2 ^ k := by
    rw [BitVec.toNat_and, hmask, Nat.and_two_pow_sub_one_eq_mod, hloop]
    exact disconnectLoop_mod 64 desc.disconnect le_rfl
  have hlow : (loop &&& mmapAddBitsDown (len - 1)).toNat < 2 ^ k := by
    rw [hmod]
    exact Nat.mod_lt _ (Nat.two_pow_pos k)
  obtain ⟨i, hi, hmask', hdisconnect, hroom⟩ := maskLoop_spec 64 hmask hlow hmod
  obtain rfl := Option.some.inj hrest
  exact ⟨hselect, rfl, hstart, ⟨rfl, rfl, rfl⟩, i, hi, hmask', hdisconnect, hroom⟩

variable {address : BitVec 32}

theorem Prepared.start_le (h : Prepared top desc prepared) (hselects : Selects prepared address) :
    desc.start.toNat ≤ address.toNat := by
  have hstart := h.start
  obtain ⟨-, -, hsame⟩ := h.kept
  unfold Selects at hselects
  rw [hsame] at hselects
  have hmasked : desc.start = address.setWidth 64 &&& prepared.core.select := by
    apply BitVec.eq_of_getLsbD_eq
    intro p hp
    have hsub := congrArg (fun x : SizeT => x.getLsbD p) hstart
    have hmatch := congrArg (fun x : SizeT => x.getLsbD p) hselects
    simp only [BitVec.getLsbD_and, BitVec.getLsbD_not, BitVec.getLsbD_xor,
      decide_eq_true hp, Bool.true_and] at hsub hmatch
    rw [BitVec.getLsbD_and]
    cases hs : desc.start.getLsbD p <;> cases hsel : prepared.core.select.getLsbD p <;>
      cases ha : (address.setWidth 64).getLsbD p <;> simp_all
  have hle : desc.start.toNat ≤ (address.setWidth 64).toNat := by
    rw [hmasked, BitVec.toNat_and]
    exact Nat.and_le_left
  exact hle.trans_eq (BitVec.toNat_setWidth_of_le (by decide))

/-- The documented address inside of the memory before `len` is applied. -/
def physicalAddress (desc : RetroMemoryDescriptor) (address : BitVec 32) : ℕ :=
  pick 64 desc.disconnect.toNat (address.setWidth 64 - desc.start).toNat

theorem Prepared.sub_toNat (h : Prepared top desc prepared) (hselects : Selects prepared address) :
    (address.setWidth 64 - desc.start).toNat = address.toNat - desc.start.toNat := by
  have hle := h.start_le hselects
  have haddress : (address.setWidth 64).toNat = address.toNat :=
    BitVec.toNat_setWidth_of_le (by decide)
  rw [BitVec.toNat_sub_of_le (BitVec.le_def.mpr (hle.trans_eq haddress.symm)), haddress]

theorem Prepared.physicalAddress_lt (h : Prepared top desc prepared)
    (hselects : Selects prepared address) : physicalAddress desc address < 2 ^ 32 := by
  have hpick := pick_le 64 desc.disconnect.toNat (address.setWidth 64 - desc.start).toNat
  rw [h.sub_toNat hselects] at hpick
  have hlt := address.isLt
  rw [physicalAddress, h.sub_toNat hselects]
  omega

/-- How many connected bits an address has below the length. -/
def connectedBits (len : SizeT) (disconnect : ℕ) : ℕ :=
  (len - 1).toNat.size - picked (len - 1).toNat.size disconnect

/-- The offset of the lookup before `offset` is added. -/
def lookedUp (len : SizeT) (disconnect physical : ℕ) : ℕ :=
  let y := physical % 2 ^ connectedBits len disconnect
  if y < len.toNat then y else dropHighest y

theorem toNat_sub_highest {n : SizeT} (h : n.toNat < 2 ^ 32) :
    (n - rcheevosVarHighestBit n).toNat = dropHighest n.toNat := by
  have hhighest := rcheevosVarHighestBit_toNat h
  have hle : (rcheevosVarHighestBit n).toNat ≤ n.toNat := by
    rw [hhighest]
    split_ifs with hzero
    · exact Nat.zero_le _
    · exact (size_bounds (Nat.size_pos.mp (Nat.pos_of_ne_zero hzero))).1
  rw [BitVec.toNat_sub_of_le (BitVec.le_def.mpr hle), hhighest, dropHighest]
  split_ifs with hzero
  · rw [Nat.size_eq_zero.mp hzero]
    rfl
  · rfl

theorem lookedUp_le (len : SizeT) (disconnect physical : ℕ) :
    lookedUp len disconnect physical ≤ physical := by
  have hmod := Nat.mod_le physical (2 ^ connectedBits len disconnect)
  unfold lookedUp dropHighest
  dsimp only
  split_ifs
  · exact hmod
  · exact (dropHighest_le _).trans hmod

/-- The place of an address inside of its descriptor, before `offset` is added. -/
def placedAddress (desc : RarchMemoryDescriptor) (addr : BitVec 32) : BitVec 32 :=
  let address : BitVec 32 := (rcheevosVarReduce
    ((addr.setWidth 64 - desc.core.start) &&& desc.disconnectMask) desc.core.disconnect).setWidth 32
  if address.setWidth 64 ≥ desc.core.len then
    (address.setWidth 64 - rcheevosVarHighestBit (address.setWidth 64)).setWidth 32
  else address

theorem descriptorAddress_eq (desc : RarchMemoryDescriptor) (addr : BitVec 32) :
    descriptorAddress desc addr =
      ((placedAddress desc addr).setWidth 64 + desc.core.offset).setWidth 32 := rfl

theorem Prepared.placedAddress_toNat (h : Prepared top desc prepared)
    (hselects : Selects prepared address) :
    (placedAddress prepared address).toNat =
      lookedUp prepared.core.len desc.disconnect.toNat (physicalAddress desc address) := by
  obtain ⟨i, hi, hmask, hdisconnect, hroom⟩ := h.mask
  obtain ⟨-, -, hsame⟩ := h.kept
  have hphysical := h.physicalAddress_lt hselects
  have hi64 : i ≤ 64 := hi.trans (Nat.size_le.mpr (BitVec.isLt _))
  set y := physicalAddress desc address %
    2 ^ connectedBits prepared.core.len desc.disconnect.toNat with hy
  have hy32 : y < 2 ^ 32 := (Nat.mod_le _ _).trans_lt hphysical
  have hreduced : (rcheevosVarReduce ((address.setWidth 64 - prepared.core.start) &&&
      prepared.disconnectMask) prepared.core.disconnect).toNat = y := by
    rw [rcheevosVarReduce_toNat, hsame, BitVec.toNat_and, hmask, Nat.and_two_pow_sub_one_eq_mod]
    have hcongr : ∀ x, pick 64 prepared.core.disconnect.toNat (x % 2 ^ i) =
        pick 64 desc.disconnect.toNat (x % 2 ^ i) := by
      intro x
      apply pick_congr (Nat.mod_lt x (Nat.two_pow_pos i)) hi64
      rw [hdisconnect, Nat.mod_mod]
    rw [hcongr, pick_mod hi64, hroom]
    rfl
  set reduced : BitVec 32 := (rcheevosVarReduce ((address.setWidth 64 - prepared.core.start) &&&
      prepared.disconnectMask) prepared.core.disconnect).setWidth 32 with hreducedWord
  have hword : (reduced.setWidth 64 : SizeT).toNat = y := by
    rw [BitVec.toNat_setWidth_of_le (by decide), hreducedWord, BitVec.toNat_setWidth, hreduced,
      Nat.mod_eq_of_lt hy32]
  have hlen : (reduced.setWidth 64 : SizeT) ≥ prepared.core.len ↔
      ¬ y < prepared.core.len.toNat := by
    rw [ge_iff_le, BitVec.le_def, hword, Nat.not_lt]
  have hdropped : ((reduced.setWidth 64 : SizeT) -
      rcheevosVarHighestBit (reduced.setWidth 64)).toNat = dropHighest y := by
    rw [toNat_sub_highest (by rw [hword]; exact hy32), hword]
  unfold placedAddress
  dsimp only
  rw [← hreducedWord, lookedUp, ← hy]
  by_cases hsmall : y < prepared.core.len.toNat
  · have hnot : ¬ (reduced.setWidth 64 : SizeT) ≥ prepared.core.len := by
      rw [hlen, not_not]
      exact hsmall
    rw [if_neg hnot, if_pos hsmall, ← hword]
    exact (BitVec.toNat_setWidth_of_le (by decide)).symm
  · have hle := dropHighest_le y
    rw [if_pos (hlen.mpr hsmall), if_neg hsmall, BitVec.toNat_setWidth, hdropped,
      Nat.mod_eq_of_lt (by omega)]

theorem Prepared.descriptorAddress_toNat (h : Prepared top desc prepared)
    (hselects : Selects prepared address) :
    (descriptorAddress prepared address).toNat =
      (lookedUp prepared.core.len desc.disconnect.toNat (physicalAddress desc address) +
        desc.offset.toNat) % 2 ^ 32 := by
  obtain ⟨-, hoffset, -⟩ := h.kept
  rw [descriptorAddress_eq, BitVec.toNat_setWidth, BitVec.toNat_add,
    BitVec.toNat_setWidth_of_le (by decide), hoffset, Nat.mod_mod_of_dvd _ (by decide),
    h.placedAddress_toNat hselects]

end Descriptor

section Reach

variable {top : SizeT} {desc : RetroMemoryDescriptor} {prepared : RarchMemoryDescriptor}
variable {address : BitVec 32}

/-- The number of bits of the last address of a descriptor: of its length, or without one of all
connected bits that it does not select. -/
def reachBits (top : SizeT) (desc : RetroMemoryDescriptor) : ℕ :=
  if desc.len = 0 then (pick 64 desc.disconnect.toNat (top &&& ~~~desc.select).toNat).size
  else (desc.len - 1).toNat.size

/-- The documented offset is one that the bits below the length reach when those of them that are
disconnected are lost, the address range has a size, and nothing is cut off the result. -/
def WithinReach (top : SizeT) (desc : RetroMemoryDescriptor) (address : BitVec 32) : Prop :=
  let bits := reachBits top desc
  let offset := documentedOffset desc address
  (offset = 0 ∨
    offset < 2 ^ (bits - picked bits desc.disconnect.toNat) ∧ (desc.len = 0 → bits < 64)) ∧
  (desc.offset.toNat + offset) % 2 ^ 64 < 2 ^ 32

theorem documentedOffset_eq (desc : RetroMemoryDescriptor) (address : BitVec 32) :
    documentedOffset desc address =
      if desc.len = 0 then physicalAddress desc address
      else clearHigh 64 desc.len.toNat (physicalAddress desc address) := rfl

theorem documentedOffset_le (desc : RetroMemoryDescriptor) (address : BitVec 32) :
    documentedOffset desc address ≤ physicalAddress desc address := by
  rw [documentedOffset_eq]
  split_ifs
  · exact le_rfl
  · exact clearHigh_le _ _ _

theorem lookedUp_of_len (address : BitVec 32) (hlen : desc.len ≠ 0) :
    lookedUp desc.len desc.disconnect.toNat (physicalAddress desc address) =
        documentedOffset desc address ↔
      documentedOffset desc address < 2 ^ connectedBits desc.len desc.disconnect.toNat := by
  have hsub := toNat_sub_one hlen
  have hpos : 0 < desc.len.toNat :=
    Nat.pos_of_ne_zero fun hzero => hlen (BitVec.eq_of_toNat_eq hzero)
  have hup : desc.len.toNat ≤ 2 ^ (desc.len - 1).toNat.size := by
    have hlt := Nat.lt_size_self (desc.len - 1).toNat
    omega
  have hdown : 2 ^ (desc.len - 1).toNat.size < 2 * desc.len.toNat := by
    rcases Nat.eq_zero_or_pos (desc.len - 1).toNat with hzero | hmore
    · rw [hzero, Nat.size_zero]
      omega
    · have hbounds := (size_bounds hmore).1
      have hsize := Nat.size_pos.mpr hmore
      have hdouble : 2 ^ (desc.len - 1).toNat.size = 2 * 2 ^ ((desc.len - 1).toNat.size - 1) := by
        rw [← pow_succ', Nat.sub_add_cancel hsize]
      omega
  have hx : physicalAddress desc address < 2 ^ 64 := (pick_le _ _ _).trans_lt (BitVec.isLt _)
  rw [documentedOffset_eq, if_neg hlen]
  exact clearHigh_mod_iff hx hup hdown (Nat.sub_le _ _)

theorem lookedUp_of_no_len (address : BitVec 32) (hlen : desc.len = 0) {select : SizeT}
    (hselect : preparedSelect top desc = some select) :
    lookedUp (preparedLen top select desc) desc.disconnect.toNat (physicalAddress desc address) =
        documentedOffset desc address ↔
      documentedOffset desc address = 0 ∨
        documentedOffset desc address <
            2 ^ (reachBits top desc - picked (reachBits top desc) desc.disconnect.toNat) ∧
          reachBits top desc < 64 := by
  have hsame : select = desc.select := by
    rw [preparedSelect, hlen, if_pos rfl] at hselect
    split_ifs at hselect with hzero
    exact (Option.some.inj hselect).symm
  set bits := reachBits top desc with hbits
  have hreach : (mmapReduce (top &&& ~~~select) desc.disconnect).toNat.size = bits := by
    rw [mmapReduce_toNat, hbits, reachBits, if_pos hlen, hsame]
  have hbits64 : bits ≤ 64 := by
    rw [← hreach]
    exact Nat.size_le.mpr (BitVec.isLt _)
  have hlenEq : preparedLen top select desc =
      mmapAddBitsDown (mmapReduce (top &&& ~~~select) desc.disconnect) + 1 := by
    rw [preparedLen, if_pos hlen]
  have hones : (preparedLen top select desc - 1).toNat = 2 ^ bits - 1 := by
    rw [hlenEq, BitVec.add_sub_cancel, mmapAddBitsDown_toNat, hreach]
  have hsize : (preparedLen top select desc - 1).toNat.size = bits := by
    rw [hones, size_ones]
  have hconnected : connectedBits (preparedLen top select desc) desc.disconnect.toNat =
      bits - picked bits desc.disconnect.toNat := by
    rw [connectedBits, hsize]
  have hlenNat : (preparedLen top select desc).toNat = 2 ^ bits % 2 ^ 64 := by
    have hpos := Nat.two_pow_pos bits
    rw [hlenEq, BitVec.toNat_add, mmapAddBitsDown_toNat, hreach]
    change (2 ^ bits - 1 + 1) % 2 ^ 64 = _
    rw [Nat.sub_add_cancel hpos]
  rw [documentedOffset_eq, if_pos hlen, lookedUp, hconnected]
  set physical := physicalAddress desc address
  set room := bits - picked bits desc.disconnect.toNat with hroom
  rcases Nat.eq_or_lt_of_le hbits64 with hfull | hless
  · -- the length of the whole address space is 0, and every offset loses its highest bit
    have hzero : (preparedLen top select desc).toNat = 0 := by
      rw [hlenNat, hfull, Nat.mod_self]
    rw [hzero, if_neg (Nat.not_lt_zero _)]
    have hmod := Nat.mod_le physical (2 ^ room)
    constructor
    · intro heq
      left
      by_contra hne
      rcases Nat.eq_zero_or_pos (physical % 2 ^ room) with hnone | hsome
      · rw [hnone] at heq
        exact hne heq.symm
      · have hlt := dropHighest_lt_self hsome
        omega
    · rintro (hnone | ⟨-, hless⟩)
      · rw [hnone, Nat.zero_mod]
        rfl
      · omega
  · have hless64 : 2 ^ bits < 2 ^ 64 := Nat.pow_lt_pow_right Nat.one_lt_two hless
    have hroomLe : 2 ^ room ≤ 2 ^ bits := Nat.pow_le_pow_right Nat.two_pos (Nat.sub_le _ _)
    have hlow : physical % 2 ^ room < 2 ^ room := Nat.mod_lt _ (Nat.two_pow_pos room)
    rw [hlenNat, Nat.mod_eq_of_lt hless64, if_pos (hlow.trans_le hroomLe)]
    constructor
    · intro heq
      right
      rw [heq] at hlow
      exact ⟨hlow, hless⟩
    · rintro (hnone | ⟨hsmall, -⟩)
      · rw [hnone, Nat.zero_mod]
      · exact Nat.mod_eq_of_lt hsmall

theorem Prepared.descriptorAddress_iff (h : Prepared top desc prepared)
    (hselects : Selects prepared address) :
    (descriptorAddress prepared address).setWidth 64 =
        desc.offset + BitVec.ofNat 64 (documentedOffset desc address) ↔
      WithinReach top desc address := by
  have hphysical := h.physicalAddress_lt hselects
  have hdocumented := documentedOffset_le desc address
  have hlooked := lookedUp_le prepared.core.len desc.disconnect.toNat (physicalAddress desc address)
  have haddress := h.descriptorAddress_toNat hselects
  set looked := lookedUp prepared.core.len desc.disconnect.toNat (physicalAddress desc address)
  set offset := documentedOffset desc address with hoffset
  have hsame : looked = offset ↔ offset = 0 ∨
      offset < 2 ^ (reachBits top desc - picked (reachBits top desc) desc.disconnect.toNat) ∧
        (desc.len = 0 → reachBits top desc < 64) := by
    have hlenEq := h.len
    by_cases hlen : desc.len = 0
    · have hiff := lookedUp_of_no_len address hlen h.select
      rw [← hlenEq] at hiff
      rw [hiff]
      constructor
      · rintro (hzero | ⟨hsmall, hbits⟩)
        · exact Or.inl hzero
        · exact Or.inr ⟨hsmall, fun _ => hbits⟩
      · rintro (hzero | ⟨hsmall, hbits⟩)
        · exact Or.inl hzero
        · exact Or.inr ⟨hsmall, hbits hlen⟩
    · have hiff := lookedUp_of_len address hlen
      rw [preparedLen, if_neg hlen] at hlenEq
      have hreach : reachBits top desc = (desc.len - 1).toNat.size := if_neg hlen
      rw [← hlenEq] at hiff
      rw [hiff, hreach, hlenEq]
      constructor
      · intro hsmall
        exact Or.inr ⟨hsmall, fun hzero => absurd hzero hlen⟩
      · rintro (hzero | ⟨hsmall, -⟩)
        · rw [← hoffset, hzero]
          exact Nat.two_pow_pos _
        · exact hsmall
  have hsum : (descriptorAddress prepared address).setWidth 64 =
      desc.offset + BitVec.ofNat 64 offset ↔
      (looked + desc.offset.toNat) % 2 ^ 32 = (desc.offset.toNat + offset) % 2 ^ 64 := by
    rw [← BitVec.toNat_inj, BitVec.toNat_setWidth_of_le (by decide), haddress, BitVec.toNat_add,
      BitVec.toNat_ofNat, Nat.mod_eq_of_lt (show offset < 2 ^ 64 by omega)]
  rw [hsum, WithinReach, ← hoffset, ← hsame]
  constructor
  · intro heq
    have hlow : (desc.offset.toNat + offset) % 2 ^ 64 < 2 ^ 32 := by
      rw [← heq]
      exact Nat.mod_lt _ (by decide)
    refine ⟨?_, hlow⟩
    omega
  · rintro ⟨heq, hlow⟩
    rw [heq]
    omega

end Reach

section Lists

variable {descs : List RetroMemoryDescriptor} {prepared : List RarchMemoryDescriptor}

theorem find_prepared {f : RetroMemoryDescriptor → Option RarchMemoryDescriptor}
    (h : descs.mapM f = some prepared) (address : BitVec 32) :
    (prepared.find? fun desc => Selects desc address) = none ∧
        claiming descs prepared address = none ∨
      ∃ desc p, f desc = some p ∧ Selects p address ∧
        (prepared.find? fun desc => Selects desc address) = some p ∧
        claiming descs prepared address = some desc := by
  induction descs generalizing prepared with
  | nil =>
    obtain rfl := Option.some.inj h
    exact Or.inl ⟨rfl, rfl⟩
  | cons desc descs ih =>
    rw [List.mapM_cons] at h
    obtain ⟨p, hp, hrest⟩ := Option.bind_eq_some_iff.mp h
    obtain ⟨ps, hps, hlast⟩ := Option.bind_eq_some_iff.mp hrest
    obtain rfl := Option.some.inj hlast
    by_cases hselects : Selects p address
    · right
      have hpair : ((desc, p) :: descs.zip ps).find? (fun pair => Selects pair.2 address) =
          some (desc, p) :=
        List.find?_cons_of_pos (decide_eq_true hselects)
      refine ⟨desc, p, hp, hselects, List.find?_cons_of_pos (decide_eq_true hselects), ?_⟩
      rw [claiming, List.zip_cons_cons, hpair]
      rfl
    · have hnot : ¬ decide (Selects p address) = true := by
        rw [decide_eq_true_eq]
        exact hselects
      have hfirst : ((p :: ps).find? fun desc => Selects desc address) =
          ps.find? fun desc => Selects desc address :=
        List.find?_cons_of_neg hnot
      have hpair : ((desc, p) :: descs.zip ps).find? (fun pair => Selects pair.2 address) =
          (descs.zip ps).find? fun pair => Selects pair.2 address :=
        List.find?_cons_of_neg hnot
      have hclaim : claiming (desc :: descs) (p :: ps) address = claiming descs ps address := by
        rw [claiming, List.zip_cons_cons, hpair]
        rfl
      rw [hfirst, hclaim]
      exact ih hps

/-- The lookup gives the documented pointer exactly where the descriptor that claims the adjusted
address has no memory or reaches the documented offset. -/
theorem patchAddress_documented_iff (hprepared : mmapPreprocessDescriptors descs = some prepared)
    (hne : prepared ≠ []) (memory : List RetroCtxMemoryInfo) (address : BitVec 32)
    (console : Console) :
    rcheevosPatchAddress memory prepared address console =
        documentedPointer descs prepared (adjustedAddress console address) ↔
      ∀ desc, claiming descs prepared (adjustedAddress console address) = some desc →
        desc.ptr = 0 ∨ WithinReach (topAddr descs) desc (adjustedAddress console address) := by
  rw [rcheevosPatchAddress, if_neg hne, documentedPointer]
  set adjusted := adjustedAddress console address
  dsimp only
  rcases find_prepared hprepared adjusted with
    ⟨hfind, hclaim⟩ | ⟨desc, p, hp, hselects, hfind, hclaim⟩
  · rw [hfind, hclaim]
    simp
  · have hspec := preprocessDescriptor_spec hp
    obtain ⟨hptr, -, -⟩ := hspec.kept
    rw [hfind, hclaim]
    dsimp only
    rw [pointerAt, hptr]
    have hiff := hspec.descriptorAddress_iff hselects
    by_cases hnull : desc.ptr = 0
    · rw [if_pos hnull, if_pos hnull]
      refine iff_of_true rfl ?_
      intro desc' hsame
      obtain rfl := Option.some.inj hsame
      exact Or.inl hnull
    · rw [if_neg hnull, if_neg hnull, Option.some.injEq]
      constructor
      · intro heq desc' hsame
        obtain rfl := Option.some.inj hsame
        right
        exact hiff.mp ((BitVec.add_right_inj desc.ptr).mp heq)
      · intro hreach
        rw [hiff.mpr ((hreach desc rfl).resolve_left hnull)]

/-- Four bytes behind the address bits 1 and 2, bit 0 being disconnected. -/
def oddMissing : RetroMemoryDescriptor := ⟨0x1000, 0, 0, 0xf0, 1, 4⟩

def oddMissingPrepared : RarchMemoryDescriptor := ⟨oddMissing, 3⟩

theorem oddMissing_prepared :
    mmapPreprocessDescriptors [oddMissing] = some [oddMissingPrepared] := by
  decide

theorem oddMissing_documented_iff :
    rcheevosPatchAddress [] [oddMissingPrepared] 2 .other =
        documentedPointer [oddMissing] [oddMissingPrepared] (adjustedAddress .other 2) ↔
      ∀ desc, claiming [oddMissing] [oddMissingPrepared] (adjustedAddress .other 2) = some desc →
        desc.ptr = 0 ∨ WithinReach (topAddr [oddMissing]) desc (adjustedAddress .other 2) :=
  patchAddress_documented_iff oddMissing_prepared (List.cons_ne_nil _ _) [] 2 .other

/-- Address 4 is documented as byte 2, which the mask of the length takes away. -/
theorem oddMissing_lost :
    mmapPreprocessDescriptors [oddMissing] = some [oddMissingPrepared] ∧
      documentedPointer [oddMissing] [oddMissingPrepared] (adjustedAddress .other 4) =
        some 0x1002 ∧
      rcheevosPatchAddress [] [oddMissingPrepared] 4 .other = some 0x1000 := by
  refine ⟨oddMissing_prepared, ?_, ?_⟩
  · decide
  · decide

end Lists

end RetroArch.Cheevos.Mmap
