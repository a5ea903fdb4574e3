/- What the bit helpers of memory maps compute, as arithmetic on natural numbers. -/

import RetroArch.Cheevos.Mmap

namespace RetroArch.Cheevos.Mmap

open Library.BitPicking

theorem toNat_or_shift (n : SizeT) (s : ℕ) :
    (n ||| n >>> s).toNat = n.toNat ||| n.toNat >>> s := by
  rw [BitVec.toNat_or, BitVec.toNat_ushiftRight]

theorem smeared_or_shift {x : ℕ} {s : ℕ} {n : SizeT} (h : Smeared x s n.toNat) :
    Smeared x (2 * s) (n ||| n >>> s).toNat := by
  rw [toNat_or_shift]
  exact h.double

theorem mmapAddBitsDown_toNat (n : SizeT) :
    (mmapAddBitsDown n).toNat = 2 ^ n.toNat.size - 1 := by
  have h32 := smeared_or_shift (smeared_or_shift (smeared_or_shift (smeared_or_shift
    (smeared_or_shift (smeared_one n.toNat)))))
  have hlast : ∀ m : SizeT, m >>> 32 = m >>> 16 >>> 16 := by
    intro m
    exact BitVec.shiftRight_add m 16 16
  have h64 := smeared_or_shift h32
  rw [hlast] at h64
  exact h64.eq n.isLt

theorem mmapHighestBit_toNat (n : SizeT) :
    (mmapHighestBit n).toNat = if n.toNat.size = 0 then 0 else 2 ^ (n.toNat.size - 1) := by
  unfold mmapHighestBit
  rw [BitVec.toNat_xor, BitVec.toNat_ushiftRight, mmapAddBitsDown_toNat, ones_xor_half]

theorem rcheevosVarHighestBit_toNat {n : SizeT} (h : n.toNat < 2 ^ 32) :
    (rcheevosVarHighestBit n).toNat =
      if n.toNat.size = 0 then 0 else 2 ^ (n.toNat.size - 1) := by
  have h32 := smeared_or_shift (smeared_or_shift (smeared_or_shift (smeared_or_shift
    (smeared_or_shift (smeared_one n.toNat)))))
  unfold rcheevosVarHighestBit
  rw [BitVec.toNat_xor, BitVec.toNat_ushiftRight, h32.eq h, ones_xor_half]

section Reducing

theorem testBit_and_not (a b : SizeT) (p : ℕ) :
    (a &&& ~~~b).toNat.testBit p = (a.toNat.testBit p && !b.toNat.testBit p) := by
  rw [BitVec.toNat_and, Nat.testBit_and, BitVec.testBit_toNat, BitVec.testBit_toNat,
    BitVec.testBit_toNat, BitVec.getLsbD_not]
  by_cases hp : p < 64
  · rw [decide_eq_true hp, Bool.true_and]
  · rw [BitVec.getLsbD_of_ge a p (Nat.not_lt.mp hp), Bool.false_and, Bool.false_and]

theorem toNat_sub_one {mask : SizeT} (h : mask ≠ 0) : (mask - 1).toNat = mask.toNat - 1 := by
  have hpos : mask.toNat ≠ 0 := fun hzero => h (BitVec.eq_of_toNat_eq hzero)
  have hlt := mask.isLt
  rw [BitVec.toNat_sub]
  change (2 ^ 64 - 1 + mask.toNat) % 2 ^ 64 = _
  omega

variable {mask : SizeT} {i m : ℕ}

theorem lowest_below (h : mask ≠ 0) (hmask : mask.toNat = 2 ^ i * (2 * m + 1)) :
    ((mask - 1) &&& ~~~mask).toNat = 2 ^ i - 1 := by
  apply Nat.eq_of_testBit_eq
  intro p
  rw [testBit_and_not, toNat_sub_one h, hmask, testBit_lowest, testBit_lowest_sub_one,
    Nat.testBit_two_pow_sub_one]
  split_ifs with hlow heq
  · rw [decide_eq_true hlow]
    rfl
  · rw [decide_eq_false hlow]
    rfl
  · rw [decide_eq_false hlow, Bool.and_not_self]

theorem lowest_cleared (h : mask ≠ 0) (hmask : mask.toNat = 2 ^ i * (2 * m + 1)) :
    (mask &&& (mask - 1)).toNat = 2 ^ (i + 1) * m := by
  apply Nat.eq_of_testBit_eq
  intro p
  rw [BitVec.toNat_and, Nat.testBit_and, toNat_sub_one h, hmask, testBit_lowest,
    testBit_lowest_sub_one, Nat.testBit_two_pow_mul]
  split_ifs with hlow heq
  · rw [decide_eq_false (by omega), Bool.false_and, Bool.false_and]
  · rw [decide_eq_false (by omega), Bool.false_and, Bool.and_false]
  · rw [decide_eq_true (by omega), Bool.true_and, Bool.and_self, Nat.sub_sub]

theorem reduce_round (addr : SizeT) {tmp : SizeT} (htmp : tmp.toNat = 2 ^ i - 1) :
    ((addr &&& tmp) ||| ((addr >>> 1) &&& ~~~tmp)).toNat =
      addr.toNat % 2 ^ i + 2 ^ i * (addr.toNat / 2 ^ (i + 1)) := by
  apply Nat.eq_of_testBit_eq
  intro p
  rw [BitVec.toNat_or, Nat.testBit_or, testBit_and_not, BitVec.toNat_and, Nat.testBit_and, htmp,
    Nat.testBit_two_pow_sub_one, BitVec.toNat_ushiftRight, Nat.testBit_shiftRight,
    Nat.add_comm 1 p, Nat.add_comm (addr.toNat % 2 ^ i),
    Nat.testBit_two_pow_mul_add _ (Nat.mod_lt _ (Nat.two_pow_pos i))]
  by_cases hp : p < i
  · rw [decide_eq_true hp, if_pos hp, Nat.testBit_mod_two_pow, decide_eq_true hp, Bool.and_true,
      Bool.not_true, Bool.and_false, Bool.or_false, Bool.true_and]
  · have hplace : p - i + (i + 1) = p + 1 := by omega
    rw [decide_eq_false hp, if_neg hp, Nat.testBit_div_two_pow, hplace, Bool.and_false,
      Bool.not_false, Bool.and_true, Bool.false_or]

theorem mmapReduceLoop_toNat (n : ℕ) (addr : SizeT) (h : mask.toNat < 2 ^ n) :
    (mmapReduceLoop n addr mask).toNat = pick n mask.toNat addr.toNat := by
  induction n generalizing addr mask with
  | zero => rfl
  | succ n ih =>
    rw [mmapReduceLoop]
    split_ifs with hzero
    · rw [hzero]
      exact (pick_zero_mask _ _).symm
    · have hne : mask.toNat ≠ 0 := fun heq => hzero (BitVec.eq_of_toNat_eq heq)
      obtain ⟨i, m, hmask⟩ := exists_lowest hne
      have hround := reduce_round addr (lowest_below hzero hmask)
      have hcleared : ((mask &&& (mask - 1)) >>> 1).toNat = 2 ^ i * m := by
        rw [BitVec.toNat_ushiftRight, lowest_cleared hzero hmask, Nat.shiftRight_eq_div_pow,
          pow_succ', pow_one, Nat.mul_assoc, Nat.mul_div_cancel_left _ Nat.two_pos]
      have hsmall : 2 ^ i * m < 2 ^ n := by
        rw [hmask, pow_succ] at h
        have hexp : 2 ^ i * (2 * m + 1) = 2 ^ i * m * 2 + 2 ^ i := by ring
        have hpos := Nat.two_pow_pos i
        omega
      have hi : i ≤ n := by
        by_contra hbig
        have hle : 2 ^ (n + 1) ≤ 2 ^ i := Nat.pow_le_pow_right Nat.two_pos (by omega)
        have hfirst : 2 ^ i ≤ 2 ^ i * (2 * m + 1) := Nat.le_mul_of_pos_right _ (by omega)
        omega
      have htail := fun addr => ih addr (hcleared ▸ hsmall)
      dsimp only
      rw [htail, hround, hcleared, hmask, pick_lowest hi]

theorem mmapReduce_toNat (addr mask : SizeT) :
    (mmapReduce addr mask).toNat = pick 64 mask.toNat addr.toNat :=
  mmapReduceLoop_toNat 64 addr mask.isLt

theorem rcheevosVarReduce_toNat (addr mask : SizeT) :
    (rcheevosVarReduce addr mask).toNat = pick 64 mask.toNat addr.toNat :=
  mmapReduceLoop_toNat 64 addr mask.isLt

theorem mmapInflateLoop_stable (fuel : ℕ) {n i : ℕ} (addr : SizeT) (hdvd : 2 ^ i ∣ mask.toNat)
    (hn : 64 ≤ n + i) : mmapInflateLoop (n + fuel) addr mask = mmapInflateLoop n addr mask := by
  induction n generalizing addr mask i with
  | zero =>
    have hzero : mask = 0 := by
      apply BitVec.eq_of_toNat_eq
      apply Nat.eq_zero_of_dvd_of_lt hdvd
      exact mask.isLt.trans_le (Nat.pow_le_pow_right Nat.two_pos (by omega))
    rw [hzero]
    cases fuel with
    | zero => rfl
    | succ fuel =>
      rw [Nat.zero_add]
      exact if_pos rfl
  | succ n ih =>
    have hsucc : n + 1 + fuel = n + fuel + 1 := by omega
    rw [hsucc, mmapInflateLoop, mmapInflateLoop]
    split_ifs with hzero
    · rfl
    · have hne : mask.toNat ≠ 0 := fun heq => hzero (BitVec.eq_of_toNat_eq heq)
      obtain ⟨j, m, hmask⟩ := exists_lowest hne
      have hij : i ≤ j := by
        rw [hmask] at hdvd
        exact lowest_of_dvd hdvd
      have hnext : 2 ^ (i + 1) ∣ (mask &&& (mask - 1)).toNat := by
        rw [lowest_cleared hzero hmask]
        exact (pow_dvd_pow 2 (by omega)).mul_right m
      exact ih _ hnext (by omega)

theorem mmapInflate_stable (fuel : ℕ) (addr mask : SizeT) :
    mmapInflateLoop (64 + fuel) addr mask = mmapInflate addr mask :=
  mmapInflateLoop_stable (i := 0) fuel addr (one_dvd _) le_rfl

end Reducing

end RetroArch.Cheevos.Mmap
