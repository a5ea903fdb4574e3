/- Translated addresses and the memory of their descriptor, and the end of the loops that prepare
   it. -/

import RetroArch.Cheevos.MmapAddress
import RetroArch.Library.While

namespace RetroArch.Cheevos.Mmap

open Library.BitPicking Library.While

def inflateRound (s : SizeT × SizeT) : SizeT × SizeT :=
  let tmp := (s.2 - 1) &&& ~~~s.2
  (((s.1 &&& ~~~tmp) <<< 1) ||| (s.1 &&& tmp), s.2 &&& (s.2 - 1))

def reduceRound (s : SizeT × SizeT) : SizeT × SizeT :=
  let tmp := (s.2 - 1) &&& ~~~s.2
  ((s.1 &&& tmp) ||| ((s.1 >>> 1) &&& ~~~tmp), (s.2 &&& (s.2 - 1)) >>> 1)

def disconnectRound (free disconnect : SizeT) : SizeT :=
  disconnect ||| mmapHighestBit (free &&& ~~~disconnect)

def maskRound (s : SizeT × SizeT) : SizeT × SizeT := (s.1 >>> 1, s.2 &&& s.1 >>> 1)

/-- The loops of the preparation come to their ends, where the model has them. -/
structure LoopsEnd : Prop where
  inflate : ∀ addr mask, ∃ last,
    Ends (fun s : SizeT × SizeT => s.2 ≠ 0) inflateRound (addr, mask) (mmapInflate addr mask, last)
  reduce : ∀ addr mask, ∃ last,
    Ends (fun s : SizeT × SizeT => s.2 ≠ 0) reduceRound (addr, mask) (mmapReduce addr mask, last)
  disconnect : ∀ free len disconnect : SizeT,
    Ends (fun d => mmapReduce free d >>> 1 > len - 1) (disconnectRound free) disconnect
      (disconnectLoop free len 64 disconnect)
  mask : ∀ mask disconnect : SizeT,
    Ends (fun s : SizeT × SizeT => (~~~s.1) >>> 1 &&& s.2 ≠ 0) maskRound (mask, disconnect &&& mask)
      (maskLoop 64 mask (disconnect &&& mask))

section Endings

variable {addr mask : SizeT}

theorem lowest_cleared_lt (h : mask ≠ 0) : (mask &&& (mask - 1)).toNat < mask.toNat := by
  have hpos : 0 < mask.toNat := Nat.pos_of_ne_zero fun hzero => h (BitVec.eq_of_toNat_eq hzero)
  have hle : mask.toNat &&& (mask - 1).toNat ≤ (mask - 1).toNat := Nat.and_le_right
  rw [toNat_sub_one h] at hle
  rw [BitVec.toNat_and, toNat_sub_one h]
  omega

theorem mmapInflateLoop_eq (n : ℕ) (addr mask : SizeT) :
    mmapInflateLoop n addr mask =
      (rounds (fun s : SizeT × SizeT => s.2 ≠ 0) inflateRound n (addr, mask)).1 := by
  induction n generalizing addr mask with
  | zero => rfl
  | succ n ih =>
    rw [mmapInflateLoop, rounds]
    by_cases hmask : mask = 0
    · rw [if_pos hmask, if_neg (not_not.mpr hmask)]
    · rw [if_neg hmask, if_pos hmask]
      exact ih _ _

theorem mmapReduceLoop_eq (n : ℕ) (addr mask : SizeT) :
    mmapReduceLoop n addr mask =
      (rounds (fun s : SizeT × SizeT => s.2 ≠ 0) reduceRound n (addr, mask)).1 := by
  induction n generalizing addr mask with
  | zero => rfl
  | succ n ih =>
    rw [mmapReduceLoop, rounds]
    by_cases hmask : mask = 0
    · rw [if_pos hmask, if_neg (not_not.mpr hmask)]
    · rw [if_neg hmask, if_pos hmask]
      exact ih _ _

theorem inflate_ends (addr mask : SizeT) : ∃ last,
    Ends (fun s : SizeT × SizeT => s.2 ≠ 0) inflateRound (addr, mask) (mmapInflate addr mask, last) := by
  have hlower : ∀ s : SizeT × SizeT, True → s.2 ≠ 0 →
      True ∧ (inflateRound s).2.toNat < s.2.toNat :=
    fun s _ hmask => ⟨trivial, lowest_cleared_lt hmask⟩
  have hends := ends_of_measure (fun s : SizeT × SizeT => s.2.toNat) hlower
    (n := 64 + mask.toNat) (s := (addr, mask)) trivial (Nat.le_add_left _ _)
  rw [← mmapInflate_stable mask.toNat, mmapInflateLoop_eq]
  exact ⟨_, hends⟩

theorem size_half_lt {x : ℕ} (h : 0 < x) {y : ℕ} (hy : y ≤ x / 2) : y.size < x.size := by
  have hpos := Nat.size_pos.mpr h
  have hlt := Nat.lt_size_self x
  have hdouble : 2 ^ x.size = 2 * 2 ^ (x.size - 1) := by
    rw [← pow_succ', Nat.sub_add_cancel hpos]
  have hsize : y.size ≤ x.size - 1 := Nat.size_le.mpr (by omega)
  omega

theorem reduce_ends (addr mask : SizeT) : ∃ last,
    Ends (fun s : SizeT × SizeT => s.2 ≠ 0) reduceRound (addr, mask) (mmapReduce addr mask, last) := by
  have hlower : ∀ s : SizeT × SizeT, True → s.2 ≠ 0 →
      True ∧ (reduceRound s).2.toNat.size < s.2.toNat.size := by
    rintro ⟨a, m⟩ - hmask
    have hless := lowest_cleared_lt hmask
    refine ⟨trivial, size_half_lt (Nat.zero_lt_of_lt hless) ?_⟩
    change ((m &&& (m - 1)) >>> 1).toNat ≤ m.toNat / 2
    rw [BitVec.toNat_ushiftRight, Nat.shiftRight_eq_div_pow, pow_one]
    exact Nat.div_le_div_right hless.le
  have hends := ends_of_measure (fun s : SizeT × SizeT => s.2.toNat.size) hlower (n := 64)
    (s := (addr, mask)) trivial (Nat.size_le.mpr mask.isLt)
  rw [mmapReduce, mmapReduceLoop_eq]
  exact ⟨_, hends⟩

theorem disconnectLoop_eq (free len : SizeT) (n : ℕ) (disconnect : SizeT) :
    disconnectLoop free len n disconnect =
      rounds (fun d => mmapReduce free d >>> 1 > len - 1) (disconnectRound free) n disconnect := by
  induction n generalizing disconnect with
  | zero => rfl
  | succ n ih =>
    rw [disconnectLoop, rounds]
    split_ifs
    · exact ih _
    · rfl

theorem disconnect_ends (free len disconnect : SizeT) :
    Ends (fun d => mmapReduce free d >>> 1 > len - 1) (disconnectRound free) disconnect
      (disconnectLoop free len 64 disconnect) := by
  rw [disconnectLoop_eq]
  apply ends_of_measure (I := fun _ => True) (fun d : SizeT => (free &&& ~~~d).toNat.size) _ trivial
    (Nat.size_le.mpr (BitVec.isLt _))
  intro d _ hmore
  have hpos := (disconnect_round hmore).2
  have hless := disconnect_lower hmore
  exact ⟨trivial, Nat.lt_of_le_of_lt (Nat.size_le.mpr hless) (Nat.sub_lt hpos Nat.one_pos)⟩

theorem maskLoop_eq (n : ℕ) (mask disconnect : SizeT) :
    maskLoop n mask disconnect =
      rounds (fun s : SizeT × SizeT => (~~~s.1) >>> 1 &&& s.2 ≠ 0) maskRound n
        (mask, disconnect) := by
  induction n generalizing mask disconnect with
  | zero => rfl
  | succ n ih =>
    rw [maskLoop, rounds]
    by_cases hmore : (~~~mask) >>> 1 &&& disconnect ≠ 0
    · rw [if_pos hmore, if_pos hmore]
      exact ih _ _
    · rw [if_neg hmore, if_neg hmore]

theorem mask_ends (mask disconnect : SizeT) :
    Ends (fun s : SizeT × SizeT => (~~~s.1) >>> 1 &&& s.2 ≠ 0) maskRound (mask, disconnect &&& mask)
      (maskLoop 64 mask (disconnect &&& mask)) := by
  rw [maskLoop_eq]
  refine ends_of_measure (I := fun s : SizeT × SizeT => s.2 &&& s.1 = s.2)
    (fun s => s.1.toNat.size) ?_ ?_ (Nat.size_le.mpr (BitVec.isLt _))
  · rintro ⟨m, d⟩ hinside hmore
    dsimp only at hinside hmore
    have hmask : 0 < m.toNat := by
      apply Nat.pos_of_ne_zero
      intro hzero
      obtain rfl : m = 0 := BitVec.eq_of_toNat_eq hzero
      have hd : d = 0 := hinside.symm.trans BitVec.and_zero
      apply hmore
      rw [hd]
      exact BitVec.and_zero
    refine ⟨?_, size_half_lt hmask ?_⟩
    · change d &&& m >>> 1 &&& m >>> 1 = d &&& m >>> 1
      rw [BitVec.and_assoc, BitVec.and_self]
    · change (m >>> 1).toNat ≤ m.toNat / 2
      rw [BitVec.toNat_ushiftRight, Nat.shiftRight_eq_div_pow, pow_one]
  · change disconnect &&& mask &&& mask = disconnect &&& mask
    rw [BitVec.and_assoc, BitVec.and_self]

theorem loopsEnd : LoopsEnd := ⟨inflate_ends, reduce_ends, disconnect_ends, mask_ends⟩

end Endings

section Bounds

variable {top : SizeT} {desc : RetroMemoryDescriptor} {prepared : RarchMemoryDescriptor}

theorem lookedUp_lt {len : SizeT} (hlen : len ≠ 0) (disconnect physical : ℕ) :
    lookedUp len disconnect physical < len.toNat := by
  have hpos : 0 < len.toNat := Nat.pos_of_ne_zero fun hzero => hlen (BitVec.eq_of_toNat_eq hzero)
  have hsub := toNat_sub_one hlen
  set y := physical % 2 ^ connectedBits len disconnect with hy
  have hconnected : connectedBits len disconnect ≤ (len - 1).toNat.size := Nat.sub_le _ _
  have hylt : y < 2 ^ (len - 1).toNat.size :=
    (Nat.mod_lt _ (Nat.two_pow_pos _)).trans_le (Nat.pow_le_pow_right Nat.two_pos hconnected)
  rw [lookedUp, ← hy]
  split_ifs with hsmall
  · exact hsmall
  · -- the length reaches more than half of what its bits do
    have hypos : 0 < y := by omega
    have hsize : y.size ≤ (len - 1).toNat.size := Nat.size_le.mpr hylt
    have hless : (len - 1).toNat < y := by omega
    have hsame : (len - 1).toNat.size ≤ y.size := Nat.size_le_size hless.le
    have hbounds := size_bounds hypos
    have hmore : 0 < (len - 1).toNat := by
      by_contra hzero
      rw [Nat.eq_zero_of_not_pos hzero, Nat.size_zero, pow_zero] at hylt
      omega
    have hlow := (size_bounds hmore).1
    have hequal : y.size = (len - 1).toNat.size := le_antisymm hsize hsame
    have hdouble : 2 ^ y.size = 2 * 2 ^ (y.size - 1) := by
      rw [← pow_succ', Nat.sub_add_cancel (Nat.size_pos.mpr hypos)]
    rw [← hequal] at hlow
    unfold dropHighest
    have hup := Nat.lt_size_self y
    omega

theorem Prepared.len_ne_zero (h : Prepared top desc prepared) (htop : top.toNat < 2 ^ 63) :
    prepared.core.len ≠ 0 := by
  rw [h.len, preparedLen]
  split_ifs with hlen
  · intro hzero
    set reach := mmapReduce (top &&& ~~~prepared.core.select) desc.disconnect with hreach
    have hle : reach.toNat ≤ top.toNat := by
      rw [hreach, mmapReduce_toNat]
      apply (pick_le _ _ _).trans
      rw [BitVec.toNat_and]
      exact Nat.and_le_left
    have hsize : reach.toNat.size ≤ 63 := Nat.size_le.mpr (hle.trans_lt htop)
    have hpow : 2 ^ reach.toNat.size ≤ 2 ^ 63 := Nat.pow_le_pow_right Nat.two_pos hsize
    have hpos := Nat.two_pow_pos reach.toNat.size
    have hvalue := congrArg BitVec.toNat hzero
    rw [BitVec.toNat_add, mmapAddBitsDown_toNat] at hvalue
    change (2 ^ reach.toNat.size - 1 + 1) % 2 ^ 64 = 0 at hvalue
    omega
  · exact hlen

theorem topAddr_lt {descs : List RetroMemoryDescriptor}
    (htop : (topAddr descs).toNat < 2 ^ 64 - 1) : (topAddr descs).toNat < 2 ^ 63 := by
  unfold topAddr at htop ⊢
  rw [mmapAddBitsDown_toNat] at htop ⊢
  set k := (descs.foldl (fun top desc =>
    if desc.select ≠ 0 then top ||| desc.select else top ||| (desc.start + desc.len - 1))
    (1 : SizeT)).toNat.size with hk
  have hsmall : k < 64 := by
    by_contra hbig
    have hpow : 2 ^ 64 ≤ 2 ^ k := Nat.pow_le_pow_right Nat.two_pos (Nat.not_lt.mp hbig)
    omega
  have hpow : 2 ^ k ≤ 2 ^ 63 := Nat.pow_le_pow_right Nat.two_pos (Nat.le_of_lt_succ hsmall)
  omega

end Bounds

section Inside

variable {descs : List RetroMemoryDescriptor} {prepared : List RarchMemoryDescriptor}

/-- The place is below the length, and the address in the range of the descriptor, counted from
its pointer on. -/
structure Inside (desc : RarchMemoryDescriptor) (address : BitVec 32) : Prop where
  place : (placedAddress desc address).toNat < desc.core.len.toNat
  above : desc.core.offset.toNat ≤ (descriptorAddress desc address).toNat
  below : (descriptorAddress desc address).toNat <
    desc.core.offset.toNat + desc.core.len.toNat

/-- The preparation ends, and every address that a descriptor claims stays in its memory. -/
structure StaysInside (prepared : List RarchMemoryDescriptor) : Prop where
  ends : LoopsEnd
  inside : ∀ desc ∈ prepared, ∀ address, Selects desc address → Inside desc address
  looked : ∀ memory address console desc,
    prepared.find? (fun desc => Selects desc (adjustedAddress console address)) = some desc →
      rcheevosPatchAddress memory prepared address console =
        pointerAt desc.core.ptr (descriptorAddress desc (adjustedAddress console address))

/-- The place of an address in front of `offset`: less `start`, without the disconnected bits, cut
to the bits of the length. -/
def inputPlace (top : SizeT) (desc : RetroMemoryDescriptor) (select : SizeT)
    (address : BitVec 32) : ℕ :=
  lookedUp (preparedLen top select desc) desc.disconnect.toNat (physicalAddress desc address)

theorem mem_zip_of_mapM {f : RetroMemoryDescriptor → Option RarchMemoryDescriptor}
    (h : descs.mapM f = some prepared) :
    (∀ pair ∈ descs.zip prepared, f pair.1 = some pair.2) ∧
      ∀ p ∈ prepared, ∃ desc, (desc, p) ∈ descs.zip prepared := by
  induction descs generalizing prepared with
  | nil =>
    obtain rfl := Option.some.inj h
    exact ⟨fun _ hmem => absurd hmem List.not_mem_nil,
      fun _ hmem => absurd hmem List.not_mem_nil⟩
  | cons desc descs ih =>
    rw [List.mapM_cons] at h
    obtain ⟨p, hp, hrest⟩ := Option.bind_eq_some_iff.mp h
    obtain ⟨ps, hps, hlast⟩ := Option.bind_eq_some_iff.mp hrest
    obtain rfl := Option.some.inj hlast
    obtain ⟨hall, hfrom⟩ := ih hps
    rw [List.zip_cons_cons]
    constructor
    · intro pair hpair
      rcases List.mem_cons.mp hpair with rfl | hpair
      · exact hp
      · exact hall pair hpair
    · intro q hq
      rcases List.mem_cons.mp hq with rfl | hq
      · exact ⟨desc, List.mem_cons_self⟩
      · obtain ⟨d, hd⟩ := hfrom q hq
        exact ⟨d, List.mem_cons_of_mem _ hd⟩

theorem Prepared.inside_iff {top : SizeT} {desc : RetroMemoryDescriptor}
    {p : RarchMemoryDescriptor} (h : Prepared top desc p) (htop : top.toNat < 2 ^ 63)
    {address : BitVec 32} (hselects : Selects p address) :
    Inside p address ↔
      desc.offset.toNat + inputPlace top desc p.core.select address < 2 ^ 32 := by
  have hplace := h.placedAddress_toNat hselects
  have haddress := h.descriptorAddress_toNat hselects
  have hlt := lookedUp_lt (h.len_ne_zero htop) desc.disconnect.toNat (physicalAddress desc address)
  obtain ⟨-, hoffset, -⟩ := h.kept
  rw [inputPlace, ← h.len]
  set place := lookedUp p.core.len desc.disconnect.toNat (physicalAddress desc address)
  constructor
  · rintro ⟨-, habove, -⟩
    rw [haddress, hoffset] at habove
    by_contra hlong
    have hsmall : place < 2 ^ 32 := hplace ▸ (placedAddress p address).isLt
    have hmod : (place + desc.offset.toNat) % 2 ^ 32 < 2 ^ 32 := Nat.mod_lt _ (by decide)
    omega
  · intro hshort
    rw [Nat.add_comm] at hshort
    rw [Nat.mod_eq_of_lt hshort] at haddress
    refine ⟨hplace ▸ hlt, ?_, ?_⟩
    · rw [haddress, hoffset]
      exact Nat.le_add_left _ _
    · rw [haddress, hoffset, Nat.add_comm]
      exact Nat.add_lt_add_left hlt _

/-- Translated addresses stay inside exactly if no sum of an offset and a place has more than 32
bits. -/
theorem staysInside_iff (hprepared : mmapPreprocessDescriptors descs = some prepared)
    (htop : (topAddr descs).toNat < 2 ^ 64 - 1) :
    StaysInside prepared ↔ ∀ pair ∈ descs.zip prepared, ∀ address, Selects pair.2 address →
      pair.1.offset.toNat + inputPlace (topAddr descs) pair.1 pair.2.core.select address <
        2 ^ 32 := by
  obtain ⟨hall, hfrom⟩ := mem_zip_of_mapM hprepared
  have hlow := topAddr_lt htop
  constructor
  · rintro ⟨-, hinside, -⟩ pair hpair address hselects
    have hspec := preprocessDescriptor_spec (hall pair hpair)
    exact (hspec.inside_iff hlow hselects).mp
      (hinside pair.2 (List.of_mem_zip hpair).2 address hselects)
  · intro hshort
    refine ⟨loopsEnd, fun p hp address hselects => ?_, ?_⟩
    · obtain ⟨desc, hpair⟩ := hfrom p hp
      have hspec := preprocessDescriptor_spec (hall (desc, p) hpair)
      exact (hspec.inside_iff hlow hselects).mpr (hshort (desc, p) hpair address hselects)
    · intro memory address console p hfind
      have hne : prepared ≠ [] := by
        rintro rfl
        exact nomatch hfind
      rw [rcheevosPatchAddress, if_neg hne]
      dsimp only
      rw [hfind]

/-- Sixteen bytes behind the first four gigabytes of a buffer. -/
def farOffset : RetroMemoryDescriptor := ⟨0x1000, 0x100000000, 0, 0xf0, 0, 16⟩

def nearOffset : RetroMemoryDescriptor := ⟨0x1000, 0, 0, 0xf0, 0, 16⟩

theorem nearOffset_stays :
    StaysInside [⟨nearOffset, 15⟩] := by
  have hprepared : mmapPreprocessDescriptors [nearOffset] = some [⟨nearOffset, 15⟩] := by
    decide
  apply (staysInside_iff hprepared (by decide)).mpr
  intro pair hpair address hselects
  obtain rfl := List.mem_singleton.mp hpair
  have hlen : preparedLen (topAddr [nearOffset]) nearOffset.select nearOffset = 16 := rfl
  have hlt : inputPlace (topAddr [nearOffset]) nearOffset nearOffset.select address < 16 := by
    rw [inputPlace, hlen]
    exact lookedUp_lt (by decide) _ _
  exact Nat.lt_trans (Nat.add_lt_add_left hlt 0) (by decide)

/-- Address 0 is given the pointer itself, in front of the range. -/
theorem farOffset_outside : ∃ prepared, mmapPreprocessDescriptors [farOffset] = some prepared ∧
    (topAddr [farOffset]).toNat < 2 ^ 64 - 1 ∧ ¬StaysInside prepared := by
  refine ⟨[⟨farOffset, 15⟩], by decide, by decide, ?_⟩
  rintro ⟨-, hinside, -⟩
  have habove := (hinside _ List.mem_cons_self 0 (by decide)).above
  exact absurd habove (by decide)

end Inside

end RetroArch.Cheevos.Mmap
