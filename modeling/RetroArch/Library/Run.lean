/- Runs of a partial step function and the rules to reason about them. -/

import Mathlib.Data.Int.Notation
import Mathlib.Data.List.Basic

namespace RetroArch.Library.Run

variable {σ ι : Type*}

/-- Take the steps in order; a step that has no successor ends the run with nothing. -/
def run (step : σ → ι → Option σ) : σ → List ι → Option σ
  | s, [] => some s
  | s, i :: is => (step s i).bind fun t => run step t is

variable {step : σ → ι → Option σ}

theorem run_cons {s t : σ} {i : ι} {is : List ι} (h : run step s (i :: is) = some t) :
    ∃ m, step s i = some m ∧ run step m is = some t :=
  Option.bind_eq_some_iff.mp h

theorem foldlM_eq_run (step : σ → ι → Option σ) (is : List ι) (s : σ) :
    is.foldlM step s = run step s is := by
  induction is generalizing s with
  | nil => rfl
  | cons i is ih =>
    rw [List.foldlM_cons, run]
    congr 1
    funext t
    exact ih t

theorem run_invariant {I : σ → Prop} (keep : ∀ s i t, I s → step s i = some t → I t)
    {s t : σ} {is : List ι} (hs : I s) (h : run step s is = some t) : I t := by
  induction is generalizing s with
  | nil => exact Option.some.inj h ▸ hs
  | cons i is ih =>
    obtain ⟨m, hm, hrest⟩ := run_cons h
    exact ih (keep s i m hs hm) hrest

theorem run_total {I : σ → Prop} (keep : ∀ s i, I s → ∃ t, step s i = some t ∧ I t) {s : σ}
    (hs : I s) (is : List ι) : ∃ t, run step s is = some t ∧ I t := by
  induction is generalizing s with
  | nil => exact ⟨s, rfl, hs⟩
  | cons i is ih =>
    obtain ⟨m, hm, hI⟩ := keep s i hs
    obtain ⟨t, ht, hI'⟩ := ih hI
    exact ⟨t, by rw [run, hm]; exact ht, hI'⟩

/-- A run whose steps all meet a condition on the state and the input. -/
inductive RunsWithin (step : σ → ι → Option σ) (ok : σ → ι → Prop) : σ → List ι → σ → Prop
  | nil (s : σ) : RunsWithin step ok s [] s
  | cons {s m t : σ} {i : ι} {is : List ι} (hok : ok s i) (hstep : step s i = some m)
      (hrest : RunsWithin step ok m is t) : RunsWithin step ok s (i :: is) t

/-- What such steps keep, such runs keep. -/
theorem RunsWithin.invariant {ok : σ → ι → Prop} {I : σ → Prop}
    (keep : ∀ s i t, I s → ok s i → step s i = some t → I t) {s t : σ} {is : List ι}
    (h : RunsWithin step ok s is t) (hs : I s) : I t := by
  induction h with
  | nil s => exact hs
  | cons hok hstep _ ih => exact ih (keep _ _ _ hs hok hstep)

/-- The run, as far as its steps meet a condition that can be decided. -/
def runChecked (step : σ → ι → Option σ) (ok : σ → ι → Prop) [∀ s i, Decidable (ok s i)] :
    σ → List ι → Option σ
  | s, [] => some s
  | s, i :: is => if ok s i then (step s i).bind fun t => runChecked step ok t is else none

theorem runsWithin_of_checked {ok : σ → ι → Prop} [∀ s i, Decidable (ok s i)] {s t : σ}
    {is : List ι} (h : runChecked step ok s is = some t) : RunsWithin step ok s is t := by
  induction is generalizing s with
  | nil => exact Option.some.inj h ▸ .nil s
  | cons i is ih =>
    rw [runChecked] at h
    split_ifs at h with hok
    obtain ⟨m, hm, hrest⟩ := Option.bind_eq_some_iff.mp h
    exact .cons hok hm (ih hrest)

/-- Where a step from a good state leads to a good one exactly if it meets the condition, a run
stays in good states exactly if its steps meet the condition. -/
theorem runsWithin_iff {ok : σ → ι → Prop} {I good : σ → Prop}
    (keep : ∀ s i t, I s → step s i = some t → I t)
    (exact : ∀ s i t, I s → good s → step s i = some t → (good t ↔ ok s i))
    {s t : σ} {is : List ι} (hI : I s) (hs : good s) (h : run step s is = some t) :
    (∀ n m, run step s (is.take n) = some m → good m) ↔ RunsWithin step ok s is t := by
  induction is generalizing s with
  | nil =>
    obtain rfl := Option.some.inj h
    refine ⟨fun _ => .nil _, fun _ n m hm => ?_⟩
    rw [List.take_nil] at hm
    exact Option.some.inj hm ▸ hs
  | cons i is ih =>
    obtain ⟨m, hm, hrest⟩ := run_cons h
    have hIm := keep s i m hI hm
    constructor
    · intro hall
      have hgood : good m := hall 1 m (by simp [run, hm])
      refine .cons ((exact s i m hI hs hm).mp hgood) hm ((ih hIm hgood hrest).mp ?_)
      intro n m' hm'
      exact hall (n + 1) m' (by rw [List.take_succ_cons, run, hm]; exact hm')
    · rintro (_ | ⟨hok, hstep, hwithin⟩) n m' hm'
      obtain rfl := Option.some.inj (hm.symm.trans hstep)
      have hgood := (exact s i m hI hs hm).mpr hok
      cases n with
      | zero => exact Option.some.inj hm' ▸ hs
      | succ n =>
        rw [List.take_succ_cons, run, hm] at hm'
        exact (ih hIm hgood hrest).mpr hwithin n m' hm'

/-- Where every step reaches the end or adds to a bounded amount, the end is reached. -/
theorem exists_of_progress {done : ℕ → Prop} {amount : ℕ → ℤ} {bound : ℤ}
    (progress : ∀ n, ¬ done n → done (n + 1) ∨ amount n < amount (n + 1))
    (bounded : ∀ n, ¬ done n → amount n ≤ bound) : ∃ n, done n := by
  by_contra hnever
  have hnot : ∀ n, ¬ done n := fun n h => hnever ⟨n, h⟩
  have hgrows : ∀ n : ℕ, amount 0 + n ≤ amount n := by
    intro n
    induction n with
    | zero => simp
    | succ n ih =>
      rcases progress n (hnot n) with hdone | hmore
      · exact absurd hdone (hnot (n + 1))
      · push_cast
        omega
  have hlast := hgrows (bound - amount 0 + 1).toNat
  have hbound := bounded _ (hnot (bound - amount 0 + 1).toNat)
  omega

end RetroArch.Library.Run
