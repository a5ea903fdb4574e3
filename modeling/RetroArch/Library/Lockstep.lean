/- Pointers into a ring that move together with a counter. -/

import Mathlib.Data.Int.ModEq

namespace RetroArch.Library.Lockstep

/-- The pointer lies in a ring of `n` slots, at the slot of its count. Slot 0 belongs to the counts
that are `base` modulo `n`. -/
structure InStep (n base ptr count : ℕ) : Prop where
  lt : ptr < n
  modEq : count ≡ ptr + base [MOD n]

variable {n base p q c d : ℕ}

theorem InStep.next (h : InStep n base p c) : InStep n base ((p + 1) % n) (c + 1) where
  lt := Nat.mod_lt _ (Nat.zero_lt_of_lt h.lt)
  modEq := by
    have hstep : c + 1 ≡ p + 1 + base [MOD n] := by
      rw [Nat.add_right_comm]
      exact h.modEq.add_right 1
    exact hstep.trans ((Nat.mod_modEq _ _).symm.add_right base)

theorem InStep.prev (h : InStep n base p c) (hc : c ≠ 0) :
    InStep n base (if p = 0 then n - 1 else p - 1) (c - 1) := by
  have hlt := h.lt
  have hmod := h.modEq
  refine ⟨by split_ifs <;> omega, Nat.ModEq.add_right_cancel' 1 ?_⟩
  rw [Nat.sub_add_cancel (Nat.one_le_iff_ne_zero.mpr hc)]
  split_ifs with hp
  · have hturn : n - 1 + base + 1 = 0 + base + n := by omega
    rw [hturn, ← hp]
    exact hmod.trans (Nat.ModEq.symm Nat.add_modEq_right)
  · have hback : p - 1 + base + 1 = p + base := by omega
    rw [hback]
    exact hmod

theorem InStep.rebase (hlt : p < n) (c : ℕ) :
    InStep n (c + (n - p)) p c where
  lt := hlt
  modEq := by
    have hturn : p + (c + (n - p)) = c + n := by omega
    rw [hturn]
    exact Nat.ModEq.symm Nat.add_modEq_right

theorem InStep.sub_modEq (h : InStep n base p c) (k : InStep n base q d) :
    (p : ℤ) - q ≡ c - d [ZMOD n] := by
  have hc := (Int.natCast_modEq_iff.mpr h.modEq).symm
  have hd := (Int.natCast_modEq_iff.mpr k.modEq).symm
  have hsub := hc.sub hd
  rwa [Nat.cast_add, Nat.cast_add, add_sub_add_right_eq_sub] at hsub

end RetroArch.Library.Lockstep
