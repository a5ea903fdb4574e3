/- The list of inputs last given to the core. -/

import Mathlib.Tactic.Ring
import Mathlib.Data.List.GetD

namespace RetroArch.RunAhead

/-- The arguments of `retro_input_state_t`. -/
structure Query where
  port : ℕ
  device : ℕ
  index : ℕ
  id : ℕ
  deriving DecidableEq, Repr

/-- `input_list_element`; `state_size` is the length of `state`. -/
structure InputListElement where
  port : ℕ
  device : ℕ
  index : ℕ
  state : List Int16
  deriving DecidableEq, Repr

def InputListElement.isFor (e : InputListElement) (q : Query) : Bool :=
  decide (e.port = q.port ∧ e.device = q.device ∧ e.index = q.index)

def inputListElementConstructor (q : Query) : InputListElement :=
  ⟨q.port, q.device, q.index, List.replicate 256 0⟩

/-- The loop of `input_list_element_expand`, run `fuel` times at most. -/
def expandedSize (newIndex : ℕ) : ℕ → ℕ → ℕ
  | 0, newSize => newSize
  | fuel + 1, newSize =>
    if newSize ≤ newIndex then expandedSize newIndex fuel (newSize * 2) else newSize

def inputListElementExpand (e : InputListElement) (newIndex : ℕ) : InputListElement :=
  let newSize := if e.state.length = 0 then 32 else e.state.length
  let newSize := expandedSize newIndex (newIndex + 1) newSize
  { e with state := e.state ++ List.replicate (newSize - e.state.length) 0 }

/-- `element->state[id] = value`, in an element that has been expanded for it. -/
def InputListElement.store (e : InputListElement) (id : ℕ) (value : Int16) : InputListElement :=
  let e := if e.state.length ≤ id then inputListElementExpand e id else e
  { e with state := e.state.set id value }

/-- `input_state_set_last`; a list that has not been made is an empty one. -/
def inputStateSetLast (list : List InputListElement) (q : Query) (value : Int16) :
    List InputListElement :=
  match list with
  | [] => [(inputListElementConstructor q).store q.id value]
  | e :: list =>
    if e.isFor q then e.store q.id value :: list else e :: inputStateSetLast list q value

def inputStateGetLast (list : List InputListElement) (q : Query) : Int16 :=
  match list with
  | [] => 0
  | e :: list =>
    if e.isFor q then
      if q.id < e.state.length then e.state.getD q.id 0 else 0
    else inputStateGetLast list q

theorem expandedSize_ge (newIndex fuel newSize : ℕ) :
    newSize ≤ expandedSize newIndex fuel newSize := by
  induction fuel generalizing newSize with
  | zero => exact le_rfl
  | succ fuel ih =>
    unfold expandedSize
    split_ifs
    · exact (Nat.le_mul_of_pos_right newSize two_pos).trans (ih (newSize * 2))
    · exact le_rfl

theorem lt_expandedSize {newIndex fuel newSize : ℕ} (hpos : 0 < newSize)
    (hfuel : newIndex < newSize * 2 ^ fuel) : newIndex < expandedSize newIndex fuel newSize := by
  induction fuel generalizing newSize with
  | zero => simpa [expandedSize] using hfuel
  | succ fuel ih =>
    unfold expandedSize
    split_ifs with hsmall
    · apply ih (Nat.mul_pos hpos two_pos)
      calc newIndex < newSize * 2 ^ (fuel + 1) := hfuel
        _ = newSize * 2 * 2 ^ fuel := by ring
    · exact Nat.lt_of_not_le hsmall

theorem expandedSize_le {newIndex bound : ℕ} (hindex : newIndex < 2 ^ bound) (fuel : ℕ) {k : ℕ}
    (hk : k ≤ bound) : ∃ n ≤ bound, expandedSize newIndex fuel (2 ^ k) = 2 ^ n := by
  induction fuel generalizing k with
  | zero => exact ⟨k, hk, rfl⟩
  | succ fuel ih =>
    unfold expandedSize
    split_ifs with hsmall
    · have hless : k < bound := by
        apply (Nat.pow_lt_pow_iff_right (Nat.one_lt_two)).mp
        omega
      rw [← Nat.pow_succ]
      exact ih hless
    · exact ⟨k, hk, rfl⟩

section Elements

theorem getD_zeros (n i : ℕ) : (List.replicate n (0 : Int16)).getD i 0 = 0 := by
  rw [List.getD_eq_getElem?_getD, List.getElem?_replicate]
  split_ifs
  · rfl
  · rfl

variable (e : InputListElement)

theorem isFor_iff (q : Query) :
    e.isFor q = true ↔ e.port = q.port ∧ e.device = q.device ∧ e.index = q.index :=
  decide_eq_true_iff

theorem isFor_both {e : InputListElement} {q q' : Query} (h : e.isFor q = true)
    (h' : e.isFor q' = true) : q' = q ↔ q'.id = q.id := by
  obtain ⟨hport, hdevice, hindex⟩ := (isFor_iff e q).mp h
  obtain ⟨hport', hdevice', hindex'⟩ := (isFor_iff e q').mp h'
  constructor
  · intro heq
    rw [heq]
  · intro hid
    cases q
    cases q'
    simp_all

theorem inputListElementExpand_length (newIndex : ℕ) :
    newIndex < (inputListElementExpand e newIndex).state.length := by
  have hroom : newIndex < expandedSize newIndex (newIndex + 1)
      (if e.state.length = 0 then 32 else e.state.length) := by
    have hpos : 0 < if e.state.length = 0 then 32 else e.state.length := by
      split_ifs with hzero
      · decide
      · exact Nat.pos_of_ne_zero hzero
    apply lt_expandedSize hpos
    calc newIndex < 2 ^ newIndex := Nat.lt_two_pow_self
      _ ≤ 2 ^ (newIndex + 1) := Nat.pow_le_pow_right two_pos (Nat.le_succ newIndex)
      _ ≤ _ := Nat.le_mul_of_pos_left _ hpos
  unfold inputListElementExpand
  dsimp only
  rw [List.length_append, List.length_replicate]
  omega

theorem inputListElementExpand_getD (newIndex i : ℕ) :
    (inputListElementExpand e newIndex).state.getD i 0 = e.state.getD i 0 := by
  unfold inputListElementExpand
  dsimp only
  rcases Nat.lt_or_ge i e.state.length with hin | hout
  · rw [List.getD_append _ _ _ _ hin]
  · rw [List.getD_append_right _ _ _ _ hout, List.getD_eq_default _ _ hout, getD_zeros]

theorem store_isFor (id : ℕ) (value : Int16) (q : Query) :
    (e.store id value).isFor q = e.isFor q := by
  unfold InputListElement.store
  split_ifs <;> rfl

theorem read_eq (q : Query) :
    (if q.id < e.state.length then e.state.getD q.id 0 else 0) = e.state.getD q.id 0 := by
  split_ifs with hin
  · rfl
  · rw [List.getD_eq_default _ _ (Nat.le_of_not_lt hin)]

theorem store_getD (id i : ℕ) (value : Int16) :
    (e.store id value).state.getD i 0 = if i = id then value else e.state.getD i 0 := by
  have hset : ∀ state : List Int16, id < state.length →
      (state.set id value).getD i 0 = if i = id then value else state.getD i 0 := by
    intro state hin
    rw [List.getD_eq_getElem?_getD, List.getD_eq_getElem?_getD, List.getElem?_set]
    split_ifs with h₁ h₂ h₃
    · rfl
    · exact absurd h₁.symm h₂
    · exact absurd h₃.symm h₁
    · rfl
  unfold InputListElement.store
  by_cases hfits : e.state.length ≤ id
  · rw [if_pos hfits]
    dsimp only
    rw [hset _ (inputListElementExpand_length e id), inputListElementExpand_getD]
  · rw [if_neg hfits]
    exact hset _ (Nat.lt_of_not_le hfits)

end Elements

section Lists

variable (list : List InputListElement)

theorem inputStateGetLast_setLast (q q' : Query) (value : Int16) :
    inputStateGetLast (inputStateSetLast list q value) q' =
      if q' = q then value else inputStateGetLast list q' := by
  induction list with
  | nil =>
    have hself : (inputListElementConstructor q).isFor q = true :=
      (isFor_iff _ q).mpr ⟨rfl, rfl, rfl⟩
    unfold inputStateSetLast inputStateGetLast
    rw [store_isFor, read_eq, store_getD]
    by_cases hfor : (inputListElementConstructor q).isFor q' = true
    · rw [if_pos hfor]
      simp only [isFor_both hself hfor]
      split_ifs
      · rfl
      · exact getD_zeros 256 q'.id
    · rw [if_neg hfor]
      split_ifs with heq
      · exact absurd (heq ▸ hself) hfor
      · rfl
  | cons e list ih =>
    unfold inputStateSetLast
    by_cases hq : e.isFor q = true
    · rw [if_pos hq]
      unfold inputStateGetLast
      rw [store_isFor, read_eq, read_eq, store_getD]
      by_cases hq' : e.isFor q' = true
      · rw [if_pos hq', if_pos hq']
        simp only [isFor_both hq hq']
      · rw [if_neg hq', if_neg hq']
        split_ifs with heq
        · exact absurd (heq ▸ hq) hq'
        · rfl
    · rw [if_neg hq]
      unfold inputStateGetLast
      by_cases hq' : e.isFor q' = true
      · have hne : q' ≠ q := by
          rintro rfl
          exact hq hq'
        rw [if_pos hq', if_pos hq', if_neg hne]
      · rw [if_neg hq', if_neg hq']
        exact ih

/-- Every element has a size that ids below 65536 lead to. -/
def Sized (list : List InputListElement) : Prop :=
  ∀ e ∈ list, ∃ k ≤ 16, e.state.length = 2 ^ k

theorem store_sized {e : InputListElement} (h : ∃ k ≤ 16, e.state.length = 2 ^ k) {id : ℕ}
    (hid : id < 65536) (value : Int16) : ∃ k ≤ 16, (e.store id value).state.length = 2 ^ k := by
  obtain ⟨k, hk, hlength⟩ := h
  unfold InputListElement.store
  split_ifs
  · have hpos : ¬ e.state.length = 0 := by
      rw [hlength]
      exact (Nat.two_pow_pos k).ne'
    obtain ⟨n, hn, hsize⟩ := @expandedSize_le id 16 hid (id + 1) k hk
    have hge := expandedSize_ge id (id + 1) (2 ^ k)
    refine ⟨n, hn, ?_⟩
    unfold inputListElementExpand
    dsimp only
    rw [List.length_set, List.length_append, List.length_replicate, if_neg hpos, hlength, ← hsize]
    omega
  · refine ⟨k, hk, ?_⟩
    dsimp only
    rw [List.length_set, hlength]

theorem inputStateSetLast_sized {list : List InputListElement} (h : Sized list) {q : Query}
    (hid : q.id < 65536) (value : Int16) : Sized (inputStateSetLast list q value) := by
  induction list with
  | nil =>
    intro e he
    obtain rfl := List.mem_singleton.mp he
    apply store_sized _ hid value
    exact ⟨8, by decide, List.length_replicate⟩
  | cons first list ih =>
    have hfirst := h first List.mem_cons_self
    have hrest : Sized list := fun e he => h e (List.mem_cons_of_mem first he)
    unfold inputStateSetLast
    intro e he
    split_ifs at he
    · rcases List.mem_cons.mp he with rfl | he
      · exact store_sized hfirst hid value
      · exact hrest e he
    · rcases List.mem_cons.mp he with rfl | he
      · exact hfirst
      · exact ih hrest e he

end Lists

end RetroArch.RunAhead
