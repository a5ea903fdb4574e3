/- Text in chunks, each an element that begins it and elements that continue it. -/

import Mathlib.Data.List.Infix

namespace RetroArch.Library.Chunks

variable {α : Type*} {continues : α → Bool}

/-- One element that does not continue a chunk, and then only such that do. -/
def Chunk (continues : α → Bool) (c : List α) : Prop :=
  ∃ head tail, c = head :: tail ∧ continues head = false ∧ ∀ b ∈ tail, continues b = true

/-- Back to the nearest element that begins a chunk. -/
def back (continues : α → Bool) (text : List α) : ℕ → Option ℕ
  | 0 => text[0]?.bind fun b => if continues b then none else some 0
  | i + 1 => text[i + 1]?.bind fun b =>
    if continues b then back continues text i else some (i + 1)

/-- How many chunks of the front have room. -/
def whole : List (List α) → ℕ → ℕ
  | [], _ => 0
  | c :: cs, room => if c.length ≤ room then whole cs (room - c.length) + 1 else 0

variable {c text : List α} {cs : List (List α)} {i room : ℕ}

theorem whole_le_length (cs : List (List α)) (room : ℕ) : whole cs room ≤ cs.length := by
  induction cs generalizing room with
  | nil => exact Nat.le_refl 0
  | cons c cs ih =>
    rw [whole]
    split_ifs
    · exact Nat.succ_le_succ (ih _)
    · exact Nat.zero_le _

theorem length_take_whole (cs : List (List α)) (room : ℕ) :
    (cs.take (whole cs room)).flatten.length ≤ room := by
  induction cs generalizing room with
  | nil => exact Nat.zero_le _
  | cons c cs ih =>
    rw [whole]
    split_ifs with hfits
    · have hrest := ih (room - c.length)
      rw [List.take_succ_cons, List.flatten_cons, List.length_append]
      omega
    · exact Nat.zero_le _

theorem le_whole {k : ℕ} (hk : k ≤ cs.length) (h : (cs.take k).flatten.length ≤ room) :
    k ≤ whole cs room := by
  induction cs generalizing k room with
  | nil => exact hk
  | cons c cs ih =>
    cases k with
    | zero => exact Nat.zero_le _
    | succ k =>
      rw [List.take_succ_cons, List.flatten_cons, List.length_append] at h
      rw [whole, if_pos (by omega)]
      exact Nat.succ_le_succ (ih (Nat.le_of_succ_le_succ hk) (by omega))

theorem dropWhile_tail {tail : List α} (htail : ∀ b ∈ tail, continues b = true) {stop : α}
    {rest : List α} (hstop : continues stop = false) :
    (tail ++ stop :: rest).dropWhile continues = stop :: rest := by
  rw [List.dropWhile_append_of_pos htail, List.dropWhile_cons_of_neg (by rw [hstop]; decide)]

theorem back_append (c : List α) {p : ℕ} (h : back continues text i = some p) :
    back continues (c ++ text) (c.length + i) = some (c.length + p) := by
  have hat : ∀ j, (c ++ text)[c.length + j]? = text[j]? := by
    intro j
    rw [List.getElem?_append_right (Nat.le_add_right _ _), Nat.add_sub_cancel_left]
  induction i generalizing p with
  | zero =>
    rw [back] at h
    obtain ⟨b, hb, hend⟩ := Option.bind_eq_some_iff.mp h
    split_ifs at hend with hcontinues
    obtain rfl := Option.some.inj hend
    have hplace : (c ++ text)[c.length]? = some b := (hat 0).trans hb
    cases hlen : c.length with
    | zero =>
      rw [hlen] at hplace
      rw [Nat.add_zero, back, hplace, Option.bind_some, if_neg hcontinues]
    | succ n =>
      rw [hlen] at hplace
      rw [Nat.add_zero, back, hplace, Option.bind_some, if_neg hcontinues]
  | succ i ih =>
    rw [back] at h
    obtain ⟨b, hb, hend⟩ := Option.bind_eq_some_iff.mp h
    rw [← Nat.add_assoc, back, Nat.add_assoc, hat, hb, Option.bind_some]
    split_ifs at hend ⊢ with hcontinues
    · exact ih hend
    · rw [← Option.some.inj hend]

theorem back_inside (hc : Chunk continues c) (hi : i < c.length) :
    back continues (c ++ text) i = some 0 := by
  obtain ⟨head, tail, rfl, hhead, htail⟩ := hc
  induction i with
  | zero =>
    change (if continues head then none else some 0) = some 0
    rw [hhead]
    rfl
  | succ i ih =>
    have hin : i < tail.length := Nat.lt_of_succ_lt_succ hi
    have hat : (head :: tail ++ text)[i + 1]? = some tail[i] := by
      rw [List.cons_append, List.getElem?_cons_succ, List.getElem?_append_left hin,
        List.getElem?_eq_getElem hin]
    rw [back, hat, Option.bind_some, if_pos (htail _ (List.getElem_mem hin))]
    exact ih (Nat.lt_of_succ_lt hi)

/-- From anywhere in a text the search ends where the last chunk that has room ends. -/
theorem back_chunks (hcs : ∀ c ∈ cs, Chunk continues c) {stop : α} {rest : List α}
    (hstop : continues stop = false) (hi : i ≤ cs.flatten.length) :
    back continues (cs.flatten ++ stop :: rest) i =
      some (cs.take (whole cs i)).flatten.length := by
  induction cs generalizing i with
  | nil =>
    obtain rfl : i = 0 := Nat.le_zero.mp hi
    change (if continues stop then none else some 0) = some 0
    rw [hstop]
    rfl
  | cons c cs ih =>
    rw [whole, List.flatten_cons, List.append_assoc]
    split_ifs with hfits
    · rw [List.flatten_cons, List.length_append] at hi
      have hrest := back_append c (ih (fun c hc => hcs c (List.mem_cons_of_mem _ hc))
        (show i - c.length ≤ _ by omega))
      rw [Nat.add_sub_cancel' hfits] at hrest
      rw [hrest, List.take_succ_cons, List.flatten_cons, List.length_append]
    · exact back_inside (hcs c List.mem_cons_self) (Nat.lt_of_not_le hfits)

end RetroArch.Library.Chunks
