/- Programs that ask questions, answered by a stateful handler or by a fixed table. -/

namespace RetroArch.Library.Asking

/-- A deterministic program: it ends, or asks and goes on with the answer. -/
inductive Asking (Q A R : Type) where
  | done (result : R)
  | ask (question : Q) (next : A → Asking Q A R)

variable {Q A R S T : Type}

/-- The program with answers from a handler that has a state. -/
def Asking.handled (handler : S → Q → A × S) : Asking Q A R → S → R × S
  | .done result, s => (result, s)
  | .ask question next, s =>
    (next (handler s question).1).handled handler (handler s question).2

/-- The program with the same answers all along. -/
def Asking.answered (table : Q → A) : Asking Q A R → R
  | .done result => result
  | .ask question next => (next (table question)).answered table

/-- The answers that the program is given by a handler. -/
def Asking.heard (handler : S → Q → A × S) : Asking Q A R → S → List A
  | .done _, _ => []
  | .ask question next, s =>
    (handler s question).1 :: (next (handler s question).1).heard handler (handler s question).2

/-- The program with the answers of a list, which it must use up. -/
def Asking.follows : Asking Q A R → List A → Option R
  | .done result, [] => some result
  | .ask _ next, answer :: answers => (next answer).follows answers
  | .done _, _ :: _ => none
  | .ask _ _, [] => none

theorem Asking.follows_heard (handler : S → Q → A × S) (p : Asking Q A R) (s : S) :
    p.follows (p.heard handler s) = some (p.handled handler s).1 := by
  induction p generalizing s with
  | done result => rfl
  | ask question next ih => exact ih (handler s question).1 (handler s question).2

/-- A relation between states, by way of the answers given between them. -/
theorem Asking.handled_heard (handler : S → Q → A × S) (rel : S → List A → S → Prop)
    (stop : ∀ s, rel s [] s)
    (next : ∀ s q answers t, rel (handler s q).2 answers t → rel s ((handler s q).1 :: answers) t)
    (p : Asking Q A R) (s : S) : rel s (p.heard handler s) (p.handled handler s).2 := by
  induction p generalizing s with
  | done result => exact stop s
  | ask question more ih =>
    exact next s question _ _ (ih (handler s question).1 (handler s question).2)

/-- What every answer keeps, the program keeps. -/
theorem Asking.handled_invariant {handler : S → Q → A × S} {I : S → Prop}
    (keep : ∀ s q, I s → I (handler s q).2) (p : Asking Q A R) {s : S} (hs : I s) :
    I (p.handled handler s).2 := by
  induction p generalizing s with
  | done result => exact hs
  | ask question next ih => exact ih (handler s question).1 (keep s question hs)

/-- Two handlers that answer alike from related states lead to the same result. -/
theorem Asking.handled_related {f : S → Q → A × S} {g : T → Q → A × T} (rel : S → T → Prop)
    (keep : ∀ s t q, rel s t → (f s q).1 = (g t q).1 ∧ rel (f s q).2 (g t q).2)
    (p : Asking Q A R) {s : S} {t : T} (h : rel s t) :
    (p.handled f s).1 = (p.handled g t).1 ∧ rel (p.handled f s).2 (p.handled g t).2 := by
  induction p generalizing s t with
  | done result => exact ⟨rfl, h⟩
  | ask question next ih =>
    obtain ⟨hanswer, hrel⟩ := keep s t question h
    unfold Asking.handled
    rw [hanswer]
    exact ih (g t question).1 hrel

/-- Where each answer is the table's, or else marks the state for good, an unmarked end is the
table's end. -/
theorem Asking.handled_unless {handler : S → Q → A × S} {table : Q → A} (marked I : S → Prop)
    (stay : ∀ s q, marked s → marked (handler s q).2)
    (keep : ∀ s q, I s → marked (handler s q).2 ∨ (handler s q).1 = table q ∧ I (handler s q).2)
    (p : Asking Q A R) {s : S} (hs : I s) :
    marked (p.handled handler s).2 ∨
      (p.handled handler s).1 = p.answered table ∧ I (p.handled handler s).2 := by
  induction p generalizing s with
  | done result => exact Or.inr ⟨rfl, hs⟩
  | ask question next ih =>
    rcases keep s question hs with hmarked | ⟨hanswer, hI⟩
    · exact Or.inl (handled_invariant stay (next (handler s question).1) hmarked)
    · unfold Asking.handled Asking.answered
      rw [← hanswer]
      exact ih (handler s question).1 hI

end RetroArch.Library.Asking
