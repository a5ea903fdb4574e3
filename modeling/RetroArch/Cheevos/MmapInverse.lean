/- Putting the disconnected bits into an address and taking them out of it undo each other. -/

import RetroArch.Cheevos.MmapBounds

namespace RetroArch.Cheevos.Mmap

open Library.BitPicking Library.While

/-- An address that is spread out over the gaps of the mask, in a word wide enough. -/
def inflated (addr mask : SizeT) : ℕ := spread 64 mask.toNat addr.toNat

structure InflateInverse (addr mask : SizeT) : Prop where
  reduceInflate : inflated addr mask < 2 ^ 64 → mmapReduce (mmapInflate addr mask) mask = addr
  inflateClear : mmapInflate addr mask &&& mask = 0
  inflateReduce : addr &&& mask = 0 → mmapInflate (mmapReduce addr mask) mask = addr
  inflateEnds : ∃ last, Ends (fun s : SizeT × SizeT => s.2 ≠ 0) inflateRound (addr, mask)
    (mmapInflate addr mask, last)
  reduceEnds : ∃ last, Ends (fun s : SizeT × SizeT => s.2 ≠ 0) reduceRound (addr, mask)
    (mmapReduce addr mask, last)
  varReduce : rcheevosVarReduce addr mask = mmapReduce addr mask

section Inflating

theorem toNat_zero : (0 : SizeT).toNat = 0 := rfl

variable {addr mask : SizeT} {i : ℕ}

theorem inflate_round (addr : SizeT) {tmp : SizeT} (htmp : tmp.toNat = 2 ^ i - 1) :
    (((addr &&& ~~~tmp) <<< 1) ||| (addr &&& tmp)).toNat =
      (addr.toNat % 2 ^ i + 2 ^ (i + 1) * (addr.toNat / 2 ^ i)) % 2 ^ 64 := by
  have hlow : addr.toNat % 2 ^ i < 2 ^ (i + 1) :=
    (Nat.mod_lt _ (Nat.two_pow_pos i)).trans_le (Nat.pow_le_pow_right Nat.two_pos (Nat.le_succ i))
  apply Nat.eq_of_testBit_eq
  intro p
  rw [BitVec.toNat_or, Nat.testBit_or, BitVec.toNat_shiftLeft, Nat.testBit_mod_two_pow,
    Nat.testBit_shiftLeft, testBit_and_not, BitVec.toNat_and, Nat.testBit_and, htmp,
    Nat.testBit_two_pow_sub_one, Nat.testBit_two_pow_sub_one, Nat.testBit_mod_two_pow,
    Nat.add_comm (addr.toNat % 2 ^ i), Nat.testBit_two_pow_mul_add _ hlow]
  by_cases hword : p < 64
  · rw [decide_eq_true hword, Bool.true_and, Bool.true_and]
    rcases Nat.lt_trichotomy p i with hp | rfl | hp
    · rw [if_pos (by omega), Nat.testBit_mod_two_pow, decide_eq_true hp,
        decide_eq_true (show p - 1 < i by omega), Bool.not_true, Bool.and_false, Bool.and_false,
        Bool.false_or, Bool.and_true, Bool.true_and]
    · rw [if_pos (Nat.lt_succ_self p), Nat.testBit_mod_two_pow, decide_eq_false (lt_irrefl p),
        Bool.and_false, Bool.or_false, Bool.false_and]
      cases p with
      | zero => rfl
      | succ p =>
        rw [Nat.add_sub_cancel, decide_eq_true (Nat.lt_succ_self p), Bool.not_true, Bool.and_false,
          Bool.and_false]
    · rw [if_neg (by omega), Nat.testBit_div_two_pow, decide_eq_false (show ¬p < i by omega),
        decide_eq_false (show ¬p - 1 < i by omega), decide_eq_true (show p ≥ 1 by omega),
        Bool.not_false, Bool.and_true, Bool.true_and, Bool.and_false, Bool.or_false]
      congr 1
      omega
  · rw [decide_eq_false hword, Bool.false_and, Bool.false_and, Bool.false_or,
      BitVec.testBit_toNat, BitVec.getLsbD_of_ge addr p (Nat.not_lt.mp hword), Bool.false_and]

theorem mmapInflateLoop_toNat {n : ℕ} (addr : SizeT) (hdvd : 2 ^ i ∣ mask.toNat)
    (hn : 64 ≤ n + i) : (mmapInflateLoop n addr mask).toNat = inflated addr mask % 2 ^ 64 := by
  induction n generalizing addr mask i with
  | zero =>
    have hzero : mask.toNat = 0 := Nat.eq_zero_of_dvd_of_lt hdvd
      (mask.isLt.trans_le (Nat.pow_le_pow_right Nat.two_pos (by omega)))
    rw [mmapInflateLoop, inflated, hzero, spread_zero_mask, Nat.mod_eq_of_lt addr.isLt]
  | succ n ih =>
    rw [mmapInflateLoop]
    split_ifs with hzero
    · rw [inflated, hzero, toNat_zero, spread_zero_mask, Nat.mod_eq_of_lt addr.isLt]
    · have hne : mask.toNat ≠ 0 := fun heq => hzero (BitVec.eq_of_toNat_eq heq)
      obtain ⟨j, m, hmask⟩ := exists_lowest hne
      have hij : i ≤ j := by
        rw [hmask] at hdvd
        exact lowest_of_dvd hdvd
      have hj : j < 64 := by
        apply (Nat.pow_lt_pow_iff_right Nat.one_lt_two).mp
        have hfirst : 2 ^ j ≤ 2 ^ j * (2 * m + 1) := Nat.le_mul_of_pos_right _ (Nat.succ_pos _)
        have hlt := mask.isLt
        omega
      have hcleared := lowest_cleared hzero hmask
      have hnext : 2 ^ (i + 1) ∣ (mask &&& (mask - 1)).toNat := by
        rw [hcleared]
        exact (pow_dvd_pow 2 (by omega)).mul_right m
      have hround := inflate_round addr (lowest_below hzero hmask)
      dsimp only
      rw [ih _ hnext (by omega), inflated, inflated, hround, hcleared, hmask, spread_lowest hj]
      exact spread_congr (Nat.mod_mod _ _)

theorem mmapInflate_toNat (addr mask : SizeT) :
    (mmapInflate addr mask).toNat = inflated addr mask % 2 ^ 64 :=
  mmapInflateLoop_toNat (i := 0) addr (one_dvd _) le_rfl

end Inflating

section Undoing

variable {addr mask : SizeT}

theorem reduce_inflate (h : inflated addr mask < 2 ^ 64) :
    mmapReduce (mmapInflate addr mask) mask = addr := by
  apply BitVec.eq_of_toNat_eq
  rw [mmapReduce_toNat, mmapInflate_toNat, Nat.mod_eq_of_lt h]
  exact pick_spread 64 mask.toNat addr.toNat

theorem inflate_clear (addr mask : SizeT) : mmapInflate addr mask &&& mask = 0 := by
  apply BitVec.eq_of_toNat_eq
  apply Nat.eq_of_testBit_eq
  intro p
  rw [BitVec.toNat_and, Nat.testBit_and, mmapInflate_toNat, Nat.testBit_mod_two_pow,
    toNat_zero, Nat.zero_testBit]
  by_cases hp : p < 64
  · cases hbit : mask.toNat.testBit p with
    | false => rw [Bool.and_false]
    | true => rw [inflated, testBit_spread hp hbit, Bool.and_false, Bool.false_and]
  · rw [decide_eq_false hp, Bool.false_and, Bool.false_and]

theorem inflate_reduce (h : addr &&& mask = 0) :
    mmapInflate (mmapReduce addr mask) mask = addr := by
  have hclear : ∀ p < 64, mask.toNat.testBit p = true → addr.toNat.testBit p = false := by
    intro p _ hbit
    have hand := congrArg (fun x : SizeT => x.toNat.testBit p) h
    rwa [BitVec.toNat_and, Nat.testBit_and, hbit, Bool.and_true, toNat_zero,
      Nat.zero_testBit] at hand
  apply BitVec.eq_of_toNat_eq
  rw [mmapInflate_toNat, inflated, mmapReduce_toNat, spread_pick hclear,
    Nat.mod_eq_of_lt addr.isLt]

theorem inflateInverse (addr mask : SizeT) : InflateInverse addr mask where
  reduceInflate := reduce_inflate
  inflateClear := inflate_clear addr mask
  inflateReduce := inflate_reduce
  inflateEnds := inflate_ends addr mask
  reduceEnds := reduce_ends addr mask
  varReduce := rfl

end Undoing

end RetroArch.Cheevos.Mmap
