/- Stacks that may forget their oldest entries on a push, and histories of the latest ones. -/

import Mathlib.Data.List.Dedup

namespace RetroArch.Library.LossyStack

variable {α : Type*}

inductive Op (α : Type*)
  | push (a : α)
  | pop

/-- What an operation answers: a pop gives an entry or finds the stack empty. -/
inductive Answer (α : Type*)
  | pushed
  | popped (a : α)
  | empty
deriving DecidableEq

/-- A push keeps a prefix of the stack, newest entries first. -/
inductive Step : List α → Op α → Answer α → List α → Prop
  | push {stack kept : List α} (a : α) (h : kept <+: stack) :
      Step stack (.push a) .pushed (a :: kept)
  | pop {stack : List α} (a : α) : Step (a :: stack) .pop (.popped a) stack
  | empty : Step [] .pop .empty []

/-- The answers to a list of operations, explained by a stack at every point. -/
inductive Explains : List α → List (Op α) → List (Answer α) → List α → Prop
  | done (stack : List α) : Explains stack [] [] stack
  | step {stack next last : List α} {op : Op α} {answer : Answer α} {ops : List (Op α)}
      {answers : List (Answer α)} (first : Step stack op answer next)
      (rest : Explains next ops answers last) :
      Explains stack (op :: ops) (answer :: answers) last

theorem Explains.second_pop {a b c d : α} {last : List α}
    (h : Explains [] [.push a, .push b, .pop, .pop] [.pushed, .pushed, .popped c, .popped d]
      last) : d = a := by
  cases h with
  | step first h =>
    cases first with
    | push _ hkept =>
      obtain rfl := List.prefix_nil.mp hkept
      cases h with
      | step second h =>
        cases second with
        | push _ hkept =>
          cases h with
          | step third h =>
            cases third
            cases h with
            | step fourth h =>
              cases fourth
              exact List.cons_prefix_cons.mp hkept |>.1

section Recent

variable [DecidableEq α] {L front rest : List α} {k : α} {n : ℕ}

/-- What a history of `n` places should show: the last of what was played, each once, the latest
first. -/
def recent (n : ℕ) (played : List α) : List α := played.dedup.reverse.take n

theorem dedup_concat (L : List α) (k : α) : (L ++ [k]).dedup = L.dedup.filter (· ≠ k) ++ [k] := by
  induction L with
  | nil => rfl
  | cons a L ih =>
    rw [List.cons_append]
    by_cases ha : a ∈ L
    · rw [List.dedup_cons_of_mem (List.mem_append_left _ ha), List.dedup_cons_of_mem ha, ih]
    · rw [List.dedup_cons_of_notMem ha, List.filter_cons]
      by_cases hk : a = k
      · rw [if_neg (by simp [hk]), List.dedup_cons_of_mem (by simp [hk]), ih]
      · rw [if_pos (by simp [hk]), List.dedup_cons_of_notMem (by simp [hk, ha]), ih,
          List.cons_append]

theorem recent_concat (n : ℕ) (L : List α) (k : α) :
    recent (n + 1) (L ++ [k]) = k :: (L.dedup.reverse.filter (· ≠ k)).take n := by
  rw [recent, dedup_concat, List.reverse_append, List.filter_reverse]
  rfl

theorem take_filter_of_mem (hnodup : L.Nodup) (h : L.take (n + 1) = front ++ k :: rest) :
    (L.filter (· ≠ k)).take n = front ++ rest := by
  induction front generalizing L n with
  | nil =>
    cases L with
    | nil => cases h
    | cons x L =>
      obtain ⟨rfl, hrest⟩ := List.cons.inj h
      have hx := (List.nodup_cons.mp hnodup).1
      rw [List.filter_cons_of_neg (by simp), List.filter_eq_self.mpr, hrest, List.nil_append]
      intro y hy
      exact decide_eq_true fun hyx => hx (hyx ▸ hy)
  | cons x front ih =>
    cases L with
    | nil => cases h
    | cons y L =>
      obtain rfl := (List.cons.inj h).1
      have hrest : L.take n = front ++ k :: rest := (List.cons.inj h).2
      obtain ⟨hy, hL⟩ := List.nodup_cons.mp hnodup
      have hk : k ∈ L := by
        have hmem : k ∈ front ++ k :: rest := List.mem_append_right _ List.mem_cons_self
        rw [← hrest] at hmem
        exact List.mem_of_mem_take hmem
      cases n with
      | zero => simp at hrest
      | succ n =>
        have hne : y ≠ k := fun hyk => hy (hyk ▸ hk)
        rw [List.filter_cons_of_pos (by simpa using hne), List.take_succ_cons, ih hL hrest,
          List.cons_append]

theorem take_filter_of_not_mem (h : k ∉ L.take (n + 1)) :
    (L.filter (· ≠ k)).take n = L.take n := by
  induction L generalizing n with
  | nil => rfl
  | cons x L ih =>
    rw [List.take_succ_cons, List.mem_cons, not_or] at h
    have hne : x ≠ k := fun hx => h.1 hx.symm
    rw [List.filter_cons_of_pos (by simpa using hne)]
    cases n with
    | zero => rfl
    | succ n => rw [List.take_succ_cons, List.take_succ_cons, ih h.2]

end Recent

end RetroArch.Library.LossyStack
