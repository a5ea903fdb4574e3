/- Paths through a labelled relation, with the labels listed from the last step back. -/

import Mathlib.Data.List.Basic
import Mathlib.Order.Nat

namespace RetroArch.Library.Path

variable {α ρ : Type*}

inductive Trail (R : α → ρ → α → Prop) (a : α) : α → List ρ → Prop
  | nil : Trail R a a []
  | snoc {b c : α} {r : ρ} {rs : List ρ} (init : Trail R a b rs) (last : R b r c) :
      Trail R a c (r :: rs)

variable {R : α → ρ → α → Prop} {a b c : α} {r : ρ} {rs : List ρ}

theorem Trail.first (h : Trail R a c rs) (hne : rs ≠ []) :
    ∃ b r ss, R a r b ∧ Trail R b c ss ∧ rs = ss ++ [r] := by
  induction h with
  | nil => exact absurd rfl hne
  | @snoc b c r rs init last ih =>
    by_cases hempty : rs = []
    · subst hempty
      cases init
      exact ⟨c, r, [], last, .nil, rfl⟩
    · obtain ⟨b', r', ss, hfirst, hrest, rfl⟩ := ih hempty
      exact ⟨b', r', r :: ss, hfirst, .snoc hrest last, rfl⟩

theorem Trail.measure {R : ℕ → ρ → ℕ → Prop} {a b k : ℕ}
    (step : ∀ a r b, R a r b → a + k ≤ b) (h : Trail R a b rs) : a + k * rs.length ≤ b := by
  induction h with
  | nil => simp
  | snoc _ last ih =>
    have := step _ _ _ last
    rw [List.length_cons, Nat.mul_add]
    omega

/-- A path whose every step within reach also is one of another relation. -/
theorem Trail.mono {R S : ℕ → ρ → ℕ → Prop} {a b : ℕ} (up : ∀ a r b, R a r b → a ≤ b)
    (keep : ∀ c r d, a ≤ c → d ≤ b → R c r d → S c r d) (h : Trail R a b rs) :
    Trail S a b rs := by
  induction h with
  | nil => exact .nil
  | @snoc b c r rs init last ih =>
    have hstep := up _ _ _ last
    have hinit : a ≤ b := by
      simpa using init.measure (k := 0) up
    exact .snoc (ih fun c r d hc hd => keep c r d hc (le_trans hd hstep))
      (keep _ _ _ hinit le_rfl last)

end RetroArch.Library.Path
