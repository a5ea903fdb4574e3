/- While loops: that they end, and where. -/

import Mathlib.Tactic.Ring

namespace RetroArch.Library.While

variable {σ : Type*} {cond : σ → Prop} {body : σ → σ}

/-- The loop that starts here ends there. -/
inductive Ends (cond : σ → Prop) (body : σ → σ) : σ → σ → Prop
  | stop {s : σ} (h : ¬cond s) : Ends cond body s s
  | round {s t : σ} (h : cond s) (hrest : Ends cond body (body s) t) : Ends cond body s t

/-- A bounded number of rounds. -/
def rounds (cond : σ → Prop) [DecidablePred cond] (body : σ → σ) : ℕ → σ → σ
  | 0, s => s
  | n + 1, s => if cond s then rounds cond body n (body s) else s

theorem Ends.stopped {s t : σ} (h : Ends cond body s t) : ¬cond t := by
  induction h with
  | stop h => exact h
  | round _ _ ih => exact ih

theorem ends_of_iterate {n : ℕ} {s : σ} (h : ¬cond (body^[n] s)) : ∃ t, Ends cond body s t := by
  induction n generalizing s with
  | zero => exact ⟨s, .stop h⟩
  | succ n ih =>
    by_cases hcond : cond s
    · obtain ⟨t, hrest⟩ := ih (s := body s) h
      exact ⟨t, .round hcond hrest⟩
    · exact ⟨s, .stop hcond⟩

theorem Ends.eq_iterate {s t : σ} (h : Ends cond body s t) (hkeep : ∀ u, ¬cond u → body u = u)
    {n : ℕ} (hn : ¬cond (body^[n] s)) : t = body^[n] s := by
  induction h generalizing n with
  | stop h => exact (Function.iterate_fixed (hkeep _ h) n).symm
  | round hcond _ ih =>
    cases n with
    | zero => exact absurd hcond hn
    | succ n => exact ih hn

theorem Ends.keeps {I : σ → Prop} {s t : σ} (h : Ends cond body s t) (hs : I s)
    (keep : ∀ u, I u → I (body u)) : I t := by
  induction h with
  | stop => exact hs
  | round _ _ ih => exact ih (keep _ hs)

variable [DecidablePred cond]

/-- A measure that every round lowers bounds the number of rounds. -/
theorem ends_of_measure {I : σ → Prop} (m : σ → ℕ)
    (lower : ∀ s, I s → cond s → I (body s) ∧ m (body s) < m s) {n : ℕ} {s : σ} (hs : I s)
    (hn : m s ≤ n) : Ends cond body s (rounds cond body n s) := by
  induction n generalizing s with
  | zero =>
    refine .stop fun hcond => ?_
    have hless := (lower s hs hcond).2
    omega
  | succ n ih =>
    rw [rounds]
    split_ifs with hcond
    · obtain ⟨hI, hless⟩ := lower s hs hcond
      exact .round hcond (ih hI (by omega))
    · exact .stop hcond

end RetroArch.Library.While
