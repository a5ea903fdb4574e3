/- Bitmaps as natural numbers: setting and clearing one bit. -/

import Mathlib.Data.Nat.Bitwise

namespace RetroArch.Library.Bits

/-- `bits | (1 << i)`. -/
def setBit (bits i : ℕ) : ℕ := bits ||| 1 <<< i

/-- `bits & ~(1 << i)`. -/
def clearBit (bits i : ℕ) : ℕ := Nat.ldiff bits (1 <<< i)

@[simp] theorem testBit_setBit (bits i j : ℕ) :
    (setBit bits i).testBit j = (decide (i = j) || bits.testBit j) := by
  rw [setBit, Nat.testBit_or, Nat.shiftLeft_eq, one_mul, Nat.testBit_two_pow, Bool.or_comm]

@[simp] theorem testBit_clearBit (bits i j : ℕ) :
    (clearBit bits i).testBit j = (bits.testBit j && !decide (i = j)) := by
  rw [clearBit, Nat.testBit_ldiff, Nat.shiftLeft_eq, one_mul, Nat.testBit_two_pow]

theorem testBit_clearBit_ne (bits : ℕ) {i j : ℕ} (h : i ≠ j) :
    (clearBit bits j).testBit i = bits.testBit i := by
  rw [testBit_clearBit, decide_eq_false h.symm, Bool.not_false, Bool.and_true]

end RetroArch.Library.Bits
