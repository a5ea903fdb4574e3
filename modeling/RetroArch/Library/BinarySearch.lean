/- A search that halves a sorted list, and the sorting that it relies on. -/

import Mathlib.Data.List.Sort

namespace RetroArch.Library.BinarySearch

variable {α κ : Type*}

/-- `bsearch`; `cmp` compares the key to an element, and there is one round for each element at
most. -/
def bsearch (cmp : α → Ordering) : ℕ → List α → Option α
  | 0, _ => none
  | rounds + 1, xs =>
    match xs.drop (xs.length / 2) with
    | [] => none
    | x :: right =>
      match cmp x with
      | .eq => some x
      | .lt => bsearch cmp rounds (xs.take (xs.length / 2))
      | .gt => bsearch cmp rounds right

/-- `qsort`, of elements of which no two are equal. -/
def qsort (cmp : α → α → Ordering) (xs : List α) : List α :=
  xs.mergeSort fun a b => cmp a b != .gt

variable [LinearOrder κ] {key : α → κ} {xs : List α}

/-- The keys of the elements grow. -/
def Growing (key : α → κ) (xs : List α) : Prop := xs.Pairwise fun a b => key a < key b

theorem bsearch_cases (h : Growing key xs) (k : κ) {rounds : ℕ} (hrounds : xs.length ≤ rounds) :
    (∃ a ∈ xs, key a = k ∧ bsearch (fun a => compare k (key a)) rounds xs = some a) ∨
      (∀ a ∈ xs, key a ≠ k) ∧ bsearch (fun a => compare k (key a)) rounds xs = none := by
  induction rounds generalizing xs with
  | zero =>
    obtain rfl := List.eq_nil_of_length_eq_zero (Nat.le_zero.mp hrounds)
    exact Or.inr ⟨fun a ha => absurd ha List.not_mem_nil, rfl⟩
  | succ rounds ih =>
    rw [bsearch]
    have hhalves := List.take_append_drop (xs.length / 2) xs
    have hlen : (xs.drop (xs.length / 2)).length = xs.length - xs.length / 2 := List.length_drop
    have htake : (xs.take (xs.length / 2)).length ≤ xs.length / 2 := by
      rw [List.length_take]
      exact Nat.min_le_left _ _
    cases hdrop : xs.drop (xs.length / 2) with
    | nil =>
      right
      rw [hdrop, List.length_nil] at hlen
      obtain rfl := List.eq_nil_of_length_eq_zero (show xs.length = 0 by omega)
      exact ⟨fun a ha => absurd ha List.not_mem_nil, rfl⟩
    | cons x right =>
      rw [hdrop] at hhalves hlen
      rw [List.length_cons] at hlen
      rw [Growing, ← hhalves, List.pairwise_append, List.pairwise_cons] at h
      obtain ⟨hleft, ⟨hmiddle, hright⟩, hacross⟩ := h
      have hmem : ∀ a, a ∈ xs ↔ a ∈ xs.take (xs.length / 2) ∨ a = x ∨ a ∈ right := by
        intro a
        nth_rewrite 1 [← hhalves]
        rw [List.mem_append, List.mem_cons]
      dsimp only
      rcases lt_trichotomy k (key x) with hless | heq | hmore
      · rw [compare_lt_iff_lt.mpr hless]
        dsimp only
        rcases ih hleft (by omega) with ⟨a, ha, hkey, hfound⟩ | ⟨hnone, hfound⟩
        · exact Or.inl ⟨a, (hmem a).mpr (Or.inl ha), hkey, hfound⟩
        · right
          refine ⟨fun a ha => ?_, hfound⟩
          rcases (hmem a).mp ha with ha | rfl | ha
          · exact hnone a ha
          · exact ne_of_gt hless
          · exact ne_of_gt (hless.trans (hmiddle a ha))
      · rw [compare_eq_iff_eq.mpr heq]
        exact Or.inl ⟨x, (hmem x).mpr (Or.inr (Or.inl rfl)), heq.symm, rfl⟩
      · rw [compare_gt_iff_gt.mpr hmore]
        dsimp only
        rcases ih hright (by omega) with ⟨a, ha, hkey, hfound⟩ | ⟨hnone, hfound⟩
        · exact Or.inl ⟨a, (hmem a).mpr (Or.inr (Or.inr ha)), hkey, hfound⟩
        · right
          refine ⟨fun a ha => ?_, hfound⟩
          rcases (hmem a).mp ha with ha | rfl | ha
          · exact ne_of_lt ((hacross a ha x List.mem_cons_self).trans hmore)
          · exact ne_of_lt hmore
          · exact hnone a ha

theorem qsort_perm (cmp : α → α → Ordering) (xs : List α) : (qsort cmp xs).Perm xs :=
  List.mergeSort_perm xs _

theorem qsort_growing (hxs : (xs.map key).Nodup) :
    Growing key (qsort (fun a b => compare (key a) (key b)) xs) := by
  have hle : ∀ a b : α, (compare (key a) (key b) != .gt) = true ↔ key a ≤ key b := by
    intro a b
    rw [bne_iff_ne, ne_eq, compare_gt_iff_gt, not_lt]
  have hsorted : (qsort (fun a b => compare (key a) (key b)) xs).Pairwise
      fun a b => (compare (key a) (key b) != .gt) = true := by
    apply List.pairwise_mergeSort
    · intro a b c hab hbc
      exact (hle a c).mpr (((hle a b).mp hab).trans ((hle b c).mp hbc))
    · intro a b
      rw [Bool.or_eq_true, hle, hle]
      exact le_total _ _
  have hdistinct : ((qsort (fun a b => compare (key a) (key b)) xs).map key).Nodup :=
    ((qsort_perm _ xs).map key).nodup_iff.mpr hxs
  rw [List.Nodup, List.pairwise_map] at hdistinct
  apply (hsorted.and hdistinct).imp
  intro a b hab
  exact lt_of_le_of_ne ((hle a b).mp hab.1) hab.2

end RetroArch.Library.BinarySearch
