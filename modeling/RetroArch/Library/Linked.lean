/- Singly linked lists in memory: which nodes a pointer leads to, and what relinking does. -/

import Mathlib.Data.List.Nodup

namespace RetroArch.Library.Linked

open Function (update)

variable {α : Type*}

/-- The pointer leads to these nodes, and after them to nothing. -/
def Chain (next : α → Option α) : Option α → List α → Prop
  | p, [] => p = none
  | p, r :: rs => p = some r ∧ Chain next (next r) rs

/-- The nodes that a pointer leads to, as far as the fuel goes. -/
def nodes (next : α → Option α) : ℕ → Option α → List α
  | 0, _ => []
  | _ + 1, none => []
  | fuel + 1, some r => r :: nodes next fuel (next r)

/-- A queue keeps its last node beside the first; the last one is stale while it is empty. -/
def Queued (next : α → Option α) (front back : Option α) (rs : List α) : Prop :=
  Chain next front rs ∧ (rs ≠ [] → back = rs.getLast?)

variable {next next' : α → Option α} {p front back : Option α} {r : α} {rs : List α}

theorem Chain.nodes_eq (h : Chain next p rs) {fuel : ℕ} (hfuel : rs.length ≤ fuel) :
    nodes next fuel p = rs := by
  induction rs generalizing p fuel with
  | nil =>
    obtain rfl : p = none := h
    cases fuel with
    | zero => rfl
    | succ fuel => rfl
  | cons r rs ih =>
    obtain ⟨rfl, hrest⟩ := h
    cases fuel with
    | zero => exact absurd hfuel (by simp)
    | succ fuel => rw [nodes, ih hrest (Nat.le_of_succ_le_succ hfuel)]

theorem Chain.congr (h : Chain next p rs) (heq : ∀ r ∈ rs, next' r = next r) :
    Chain next' p rs := by
  induction rs generalizing p with
  | nil => exact h
  | cons r rs ih =>
    refine ⟨h.1, ?_⟩
    rw [heq r List.mem_cons_self]
    exact ih h.2 fun q hq => heq q (List.mem_cons_of_mem r hq)

theorem Queued.congr (h : Queued next front back rs) (heq : ∀ r ∈ rs, next' r = next r) :
    Queued next' front back rs := ⟨h.1.congr heq, h.2⟩

theorem Queued.front_eq_none (h : Queued next none back rs) : rs = [] := by
  cases rs with
  | nil => rfl
  | cons r rs => exact absurd h.1.1 (by simp)

theorem queued_singleton (hend : next r = none) : Queued next (some r) (some r) [r] :=
  ⟨⟨rfl, hend⟩, fun _ => rfl⟩

variable [DecidableEq α]

theorem Chain.update (h : Chain next p rs) (hr : r ∉ rs) (n : Option α) :
    Chain (update next r n) p rs := by
  apply h.congr
  intro q hq
  exact Function.update_of_ne (ne_of_mem_of_not_mem hq hr) n next

theorem Queued.update (h : Queued next front back rs) (hr : r ∉ rs) (n : Option α) :
    Queued (update next r n) front back rs := ⟨h.1.update hr n, h.2⟩

theorem Chain.push (h : Chain next p rs) (hr : r ∉ rs) :
    Chain (Function.update next r p) (some r) (r :: rs) := by
  refine ⟨rfl, ?_⟩
  rw [Function.update_self]
  exact h.update hr p

/-- Linking a node behind the last one. -/
theorem Chain.append {b : α} (h : Chain next p (rs ++ [b])) (hnodup : (rs ++ [b]).Nodup)
    (hr : r ∉ rs ++ [b]) (hend : next r = none) :
    Chain (Function.update next b (some r)) p (rs ++ [b] ++ [r]) := by
  induction rs generalizing p with
  | nil =>
    have hne : r ≠ b := fun heq => hr (heq ▸ List.mem_singleton_self b)
    refine ⟨h.1, ?_⟩
    rw [Function.update_self]
    refine ⟨rfl, ?_⟩
    rw [Function.update_of_ne hne]
    exact hend
  | cons q rs ih =>
    have hq : q ∉ rs ++ [b] := (List.nodup_cons.mp hnodup).1
    have hne : q ≠ b := fun heq => hq (by rw [heq]; simp)
    refine ⟨h.1, ?_⟩
    rw [Function.update_of_ne hne]
    exact ih h.2 (List.nodup_cons.mp hnodup).2 fun hmem => hr (List.mem_cons_of_mem q hmem)

/-- Taking the first node leaves the rest. -/
theorem Queued.pop (h : Queued next (some r) back rs) (hnodup : rs.Nodup) :
    ∃ rest, rs = r :: rest ∧ Queued (Function.update next r none) (next r) back rest := by
  cases rs with
  | nil => exact absurd h.1 (by simp [Chain])
  | cons q rest =>
    obtain ⟨⟨hq, hrest⟩, hback⟩ := h
    obtain rfl := Option.some.inj hq
    have hmem := (List.nodup_cons.mp hnodup).1
    refine ⟨rest, rfl, hrest.update hmem none, ?_⟩
    intro hne
    rw [hback (List.cons_ne_nil r rest), List.getLast?_cons_of_ne_nil hne]

/-- A new node at the end of a queue that is not empty. -/
theorem Queued.put {f : α} (h : Queued next (some f) back rs) (hnodup : rs.Nodup) (hr : r ∉ rs)
    (hend : next r = none) :
    ∃ b, back = some b ∧
      Queued (Function.update next b (some r)) (some f) (some r) (rs ++ [r]) ∧ b ∈ rs := by
  rcases List.eq_nil_or_concat' rs with rfl | ⟨init, b, rfl⟩
  · exact absurd h.1 (by simp [Chain])
  · have hback := h.2 (by simp)
    rw [List.getLast?_concat] at hback
    refine ⟨b, hback, ⟨h.1.append hnodup hr hend, ?_⟩, by simp⟩
    intro _
    rw [List.getLast?_concat]

end RetroArch.Library.Linked
