/- Loops that take marks away, and the number of marks that are left. -/

import Mathlib.Data.List.Nodup

namespace RetroArch.Library.Sweeping

variable {σ ι κ : Type}

/-- Where round `i` of a loop takes the mark from those items of its own that are not to be kept,
the loop takes it from those of all its rounds. -/
theorem foldlM_swept (marked : σ → ι → Bool) (own : κ → ι → Bool) (keep : ι → Bool)
    (I : σ → Prop) (J : ι → Prop) {f : σ → κ → Option σ} {l : List κ}
    (round : ∀ i ∈ l, ∀ s, I s → ∃ s', f s i = some s' ∧ I s' ∧
      ∀ j, J j → marked s' j = (marked s j && (!own i j || keep j)))
    {s : σ} (hs : I s) :
    ∃ s', l.foldlM f s = some s' ∧ I s' ∧
      ∀ j, J j → marked s' j = (marked s j && (!l.any (own · j) || keep j)) := by
  induction l generalizing s with
  | nil =>
    refine ⟨s, rfl, hs, ?_⟩
    intro j _
    rw [List.any_nil, Bool.not_false, Bool.true_or, Bool.and_true]
  | cons i l ih =>
    obtain ⟨s₁, hf, hI, hmarked⟩ := round i List.mem_cons_self s hs
    obtain ⟨s₂, hrest, hI', hmarked'⟩ :=
      ih (fun k hk => round k (List.mem_cons_of_mem i hk)) hI
    refine ⟨s₂, ?_, hI', ?_⟩
    · rw [List.foldlM_cons, hf]
      exact hrest
    · intro j hj
      rw [hmarked' j hj, hmarked j hj, List.any_cons]
      cases marked s j <;> cases own i j <;> cases keep j <;>
        cases l.any (own · j) <;> rfl

theorem foldlM_none {f : σ → κ → Option σ} {l : List κ} {i : κ} (hi : i ∈ l)
    (hf : ∀ s, f s i = none) (s : σ) : l.foldlM f s = none := by
  induction l generalizing s with
  | nil => exact absurd hi List.not_mem_nil
  | cons k l ih =>
    rw [List.foldlM_cons]
    rcases List.mem_cons.mp hi with rfl | hi
    · rw [hf]
      rfl
    · rcases hk : f s k with _ | s'
      · rfl
      · exact ih hi s'

variable [DecidableEq ι] {items : List ι} {p : ι → Bool}

theorem filter_unmark (hnodup : items.Nodup) (i : ι) :
    (items.filter fun j => p j && !decide (j = i)) = (items.filter p).erase i := by
  rw [(hnodup.filter p).erase_eq_filter, List.filter_filter]
  apply List.filter_congr
  intro j _
  rw [Bool.and_comm]
  rfl

/-- Taking away the mark that is at a given place among the marks. -/
theorem filter_unmark_eraseIdx (hnodup : items.Nodup) {n : ℕ} {i : ι}
    (hi : (items.filter p)[n]? = some i) :
    (items.filter fun j => p j && !decide (j = i)) = (items.filter p).eraseIdx n := by
  obtain ⟨hn, rfl⟩ := List.getElem?_eq_some_iff.mp hi
  rw [filter_unmark hnodup]
  exact (hnodup.filter p).erase_getElem n hn

theorem length_filter_unmark (hnodup : items.Nodup) {i : ι} (hi : i ∈ items) (hp : p i = true) :
    (items.filter fun j => p j && !decide (j = i)).length = (items.filter p).length - 1 := by
  rw [filter_unmark hnodup, List.length_erase_of_mem (List.mem_filter.mpr ⟨hi, hp⟩)]

end RetroArch.Library.Sweeping
