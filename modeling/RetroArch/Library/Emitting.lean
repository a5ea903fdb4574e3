/- Programs that deliver events until they come to an end or to an error. -/

import Mathlib.Data.List.Basic

namespace RetroArch.Library.Emitting

variable {α ε σ τ : Type*}

/-- The events that are delivered, in order, and the end. -/
abbrev Emits (α ε σ : Type*) := List α × Except ε σ

def andThen (m : Emits α ε σ) (f : σ → Emits α ε τ) : Emits α ε τ :=
  match m.2 with
  | .error e => (m.1, .error e)
  | .ok s => (m.1 ++ (f s).1, (f s).2)

def emit (a : α) (m : Emits α ε σ) : Emits α ε σ := (a :: m.1, m.2)

theorem andThen_ok {m : Emits α ε σ} {s : σ} (h : m.2 = .ok s) (f : σ → Emits α ε τ) :
    andThen m f = (m.1 ++ (f s).1, (f s).2) := by
  simp only [andThen, h]

theorem andThen_error {m : Emits α ε σ} {e : ε} (h : m.2 = .error e) (f : σ → Emits α ε τ) :
    andThen m f = (m.1, .error e) := by
  simp only [andThen, h]

/-- What comes to its end came to one in both of its parts. -/
theorem andThen_eq_ok {m : Emits α ε σ} {f : σ → Emits α ε τ} {t : τ}
    (h : (andThen m f).2 = .ok t) :
    ∃ s, m.2 = .ok s ∧ (f s).2 = .ok t ∧ (andThen m f).1 = m.1 ++ (f s).1 := by
  cases hm : m.2 with
  | error e =>
    rw [andThen_error hm] at h
    exact nomatch h
  | ok s =>
    rw [andThen_ok hm] at h ⊢
    exact ⟨s, rfl, h, rfl⟩

theorem andThen_eq_error {m : Emits α ε σ} {f : σ → Emits α ε τ} {e : ε}
    (h : (andThen m f).2 = .error e) :
    m.2 = .error e ∨ ∃ s, m.2 = .ok s ∧ (f s).2 = .error e := by
  cases hm : m.2 with
  | error e' =>
    rw [andThen_error hm] at h
    exact .inl (congrArg Except.error (Except.error.inj h))
  | ok s =>
    rw [andThen_ok hm] at h
    exact .inr ⟨s, rfl, h⟩

/-- An error, or an event that is not the one expected in its place. -/
def Diverges (m : Emits α ε σ) (expected : List α) : Prop :=
  (∃ e, m.2 = .error e) ∨
    ∃ front a b rest rest', m.1 = front ++ a :: rest ∧ expected = front ++ b :: rest' ∧ a ≠ b

theorem Diverges.not_delivered {m : Emits α ε σ} {expected : List α} (h : Diverges m expected)
    (s : σ) : m ≠ (expected, .ok s) := by
  rintro rfl
  rcases h with ⟨e, he⟩ | ⟨front, a, b, rest, rest', ha, hb, hne⟩
  · exact nomatch he
  · have heq := ha.symm.trans hb
    exact hne (List.cons.inj (List.append_cancel_left heq)).1

theorem Diverges.emit {m : Emits α ε σ} {expected : List α} (h : Diverges m expected) (a : α) :
    Diverges (emit a m) (a :: expected) := by
  rcases h with herror | ⟨front, b, c, rest, rest', hb, hc, hne⟩
  · exact .inl herror
  · refine .inr ⟨a :: front, b, c, rest, rest', ?_, ?_, hne⟩
    · exact congrArg (a :: ·) hb
    · exact congrArg (a :: ·) hc

/-- What went wrong once stays wrong, whatever follows. -/
theorem Diverges.andThen {m : Emits α ε σ} {expected : List α} (h : Diverges m expected)
    (f : σ → Emits α ε τ) (more : List α) : Diverges (andThen m f) (expected ++ more) := by
  rcases h with ⟨e, he⟩ | ⟨front, a, b, rest, rest', ha, hb, hne⟩
  · exact .inl ⟨e, by rw [andThen_error he]⟩
  · cases hm : m.2 with
    | error e => exact .inl ⟨e, by rw [andThen_error hm]⟩
    | ok s =>
      refine .inr ⟨front, a, b, rest ++ (f s).1, rest' ++ more, ?_, ?_, hne⟩
      · rw [andThen_ok hm]
        show m.1 ++ (f s).1 = _
        rw [ha, List.append_assoc, List.cons_append]
      · rw [hb, List.append_assoc, List.cons_append]

/-- What goes wrong behind a part that went as expected. -/
theorem Diverges.behind {m : Emits α ε σ} {s : σ} {f : σ → Emits α ε τ} {expected : List α}
    (hm : m.2 = .ok s) (h : Diverges (f s) expected) :
    Diverges (Emitting.andThen m f) (m.1 ++ expected) := by
  rw [andThen_ok hm]
  rcases h with herror | ⟨front, a, b, rest, rest', ha, hb, hne⟩
  · exact .inl herror
  · refine .inr ⟨m.1 ++ front, a, b, rest, rest', ?_, ?_, hne⟩
    · show m.1 ++ (f s).1 = _
      rw [ha, List.append_assoc]
    · rw [hb, List.append_assoc]

end RetroArch.Library.Emitting
