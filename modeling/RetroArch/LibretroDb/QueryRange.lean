/- The range of a query, and the numbers for which it is exact. -/

import Mathlib.Data.UInt
import RetroArch.LibretroDb.Query

namespace RetroArch.LibretroDb.Query

/-- `query_func_between`. An unsigned input is cut down to 32 bits for the one comparison, and is
signed in the other. -/
def queryFuncBetween (input : Value) (argv : List Argument) : Bool :=
  match argv with
  | [.value (.int lo), .value (.int hi)] =>
    match input with
    | .int n => lo ≤ n && n ≤ hi
    | .uint n => lo.toUInt64 ≤ n.toUInt32.toUInt64 && n.toInt64 ≤ hi
    | _ => false
  | _ => false

/-- An input that is a number. -/
inductive Number
  | int (n : Int64)
  | uint (n : UInt64)

def Number.value : Number → Value
  | int n => .int n
  | uint n => .uint n

def Number.toInt : Number → Int
  | int n => n.toInt
  | uint n => n.toNat

/-- Where the range is exact. A signed number always is. An unsigned one has to be above the range
if this begins below zero. Else it is outside, or its low half is in the range with it; from
`2 ^ 63` on the low half is below the range. -/
def InRange (lo hi : Int64) : Number → Prop
  | .int _ => True
  | .uint n =>
    if lo.toInt < 0 then hi.toInt < n.toNat
    else if n.toNat < 2 ^ 63 then
      hi.toInt < n.toNat ∨ (n.toNat : Int) < lo.toInt ∨ lo.toInt ≤ (n.toNat : Int) % 2 ^ 32
    else (n.toNat : Int) % 2 ^ 32 < lo.toInt

instance (lo hi : Int64) (v : Number) : Decidable (InRange lo hi v) := by
  cases v <;> unfold InRange <;> infer_instance

theorem toInt_toInt64 (n : UInt64) :
    n.toInt64.toInt = if n.toNat < 2 ^ 63 then (n.toNat : Int) else n.toNat - 2 ^ 64 := by
  change n.toBitVec.toInt = _
  rw [BitVec.toInt_eq_toNat_cond]
  change (if 2 * n.toNat < 2 ^ 64 then (n.toNat : Int) else n.toNat - 2 ^ 64) = _
  split_ifs <;> omega

theorem toNat_toUInt64 (n : Int64) :
    (n.toUInt64.toNat : Int) = if n.toInt < 0 then n.toInt + 2 ^ 64 else n.toInt := by
  have hround : n.toUInt64.toInt64 = n := Int64.toInt64_toUInt64 n
  have hlt := n.toUInt64.toNat_lt
  have hint := toInt_toInt64 n.toUInt64
  rw [hround] at hint
  split_ifs at hint with hsmall
  · rw [if_neg (by omega)]
    omega
  · rw [if_pos (by omega)]
    omega

theorem between_uint (lo hi : Int64) (n : UInt64) :
    queryFuncBetween (.uint n) [.value (.int lo), .value (.int hi)] = true ↔
      (if lo.toInt < 0 then lo.toInt + 2 ^ 64 else lo.toInt) ≤ (n.toNat : Int) % 2 ^ 32 ∧
        (if n.toNat < 2 ^ 63 then (n.toNat : Int) else n.toNat - 2 ^ 64) ≤ hi.toInt := by
  have hlow : (n.toUInt32.toUInt64.toNat : Int) = (n.toNat : Int) % 2 ^ 32 := by
    rw [UInt32.toNat_toUInt64, UInt64.toNat_toUInt32]
    norm_cast
  rw [← toNat_toUInt64, ← toInt_toInt64, ← hlow]
  simp only [queryFuncBetween, Bool.and_eq_true, decide_eq_true_eq, UInt64.le_iff_toNat_le,
    Int64.le_iff_toInt_le]
  norm_cast

/-- The range takes a number in it and no other, exactly where the comparisons are good for it. -/
theorem between_exact (lo hi : Int64) (h : lo ≤ hi) (v : Number) :
    (queryFuncBetween v.value [.value (.int lo), .value (.int hi)] = true ↔
      lo.toInt ≤ v.toInt ∧ v.toInt ≤ hi.toInt) ↔ InRange lo hi v := by
  rw [Int64.le_iff_toInt_le] at h
  cases v with
  | int n =>
    simp only [Number.value, Number.toInt, queryFuncBetween, Bool.and_eq_true, decide_eq_true_eq,
      Int64.le_iff_toInt_le, InRange]
  | uint n =>
    have hlt := n.toNat_lt
    have hhi : hi.toInt < 2 ^ 63 := Int64.toInt_lt hi
    have hlo : -2 ^ 63 ≤ lo.toInt := Int64.le_toInt lo
    rw [show (Number.uint n).value = .uint n from rfl, between_uint]
    simp only [Number.toInt, InRange]
    have hmod := Int.emod_lt_of_pos (n.toNat : Int) (show (0 : Int) < 2 ^ 32 by decide)
    have hpos := Int.emod_nonneg (n.toNat : Int) (show (2 ^ 32 : Int) ≠ 0 by decide)
    have hle : (n.toNat : Int) % 2 ^ 32 ≤ n.toNat := by omega
    generalize (n.toNat : Int) % 2 ^ 32 = low at *
    split_ifs <;> omega

/-- The size of a file above four gigabytes. -/
theorem between_small :
    (5 : Int64) ≤ 2 ^ 40 ∧
      queryFuncBetween (.uint (2 ^ 32 + 7)) [.value (.int 5), .value (.int (2 ^ 40))] = true := by
  refine ⟨by decide, ?_⟩
  exact (between_exact 5 (2 ^ 40) (by decide) (.uint (2 ^ 32 + 7))).mpr (by decide)
    |>.mpr (by decide)

/-- A number in the range is not taken, and one far above it is. -/
theorem between_fails :
    queryFuncBetween (.uint (2 ^ 32)) [.value (.int 5), .value (.int (2 ^ 40))] = false ∧
      queryFuncBetween (.uint (2 ^ 63 + 7)) [.value (.int 5), .value (.int 9)] = true := by
  decide

end RetroArch.LibretroDb.Query
