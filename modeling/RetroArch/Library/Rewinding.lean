/- A rewindable input: the cells that have arrived since the last commit and a cursor. -/

import Mathlib.Data.List.Basic
import Mathlib.Order.Nat

namespace RetroArch.Library.Rewinding

/-- The cursor never leaves the cells that have arrived. -/
@[ext] structure Tape (α : Type*) where
  cells : List α
  cursor : ℕ
  bound : cursor ≤ cells.length

namespace Tape

variable {α : Type*}

/-- What has been read since the last commit. -/
def done (t : Tape α) : List α := t.cells.take t.cursor

/-- What has arrived and is still to be read. -/
def rest (t : Tape α) : List α := t.cells.drop t.cursor

def empty : Tape α := ⟨[], 0, le_rfl⟩

/-- More cells arrive at the far end. -/
def arrive (t : Tape α) (new : List α) : Tape α :=
  ⟨t.cells ++ new, t.cursor, by
    have := t.bound
    rw [List.length_append]
    omega⟩

/-- Read up to `n` cells. -/
def read (t : Tape α) (n : ℕ) : List α × Tape α :=
  (t.rest.take n, ⟨t.cells, min (t.cursor + n) t.cells.length, Nat.min_le_right _ _⟩)

/-- Back to the last commit. -/
def rewind (t : Tape α) : Tape α := ⟨t.cells, 0, Nat.zero_le _⟩

/-- Forget what has been read. -/
def commit (t : Tape α) : Tape α := ⟨t.rest, 0, Nat.zero_le _⟩

theorem done_append_rest (t : Tape α) : t.done ++ t.rest = t.cells :=
  List.take_append_drop _ _

@[simp] theorem arrive_cells (t : Tape α) (new : List α) :
    (t.arrive new).cells = t.cells ++ new := rfl

@[simp] theorem arrive_done (t : Tape α) (new : List α) : (t.arrive new).done = t.done :=
  List.take_append_of_le_length t.bound

@[simp] theorem arrive_rest (t : Tape α) (new : List α) :
    (t.arrive new).rest = t.rest ++ new :=
  List.drop_append_of_le_length t.bound

@[simp] theorem read_cells (t : Tape α) (n : ℕ) : (t.read n).2.cells = t.cells := rfl

theorem read_done (t : Tape α) (n : ℕ) : (t.read n).2.done = t.done ++ (t.read n).1 := by
  have hbound := t.bound
  rw [read, done, done, rest]
  simp only
  rw [← List.take_add]
  rcases Nat.le_total (t.cursor + n) t.cells.length with hle | hle
  · rw [Nat.min_eq_left hle]
  · rw [Nat.min_eq_right hle, List.take_of_length_le le_rfl, List.take_of_length_le hle]

@[simp] theorem read_rest (t : Tape α) (n : ℕ) : (t.read n).2.rest = t.rest.drop n := by
  rw [read, rest, rest]
  simp only
  rw [List.drop_drop]
  rcases Nat.le_total (t.cursor + n) t.cells.length with hle | hle
  · rw [Nat.min_eq_left hle]
  · rw [Nat.min_eq_right hle, List.drop_length, List.drop_of_length_le hle]

theorem length_read (t : Tape α) (n : ℕ) : (t.read n).1.length = min n t.rest.length := by
  rw [read, List.length_take]

@[simp] theorem rewind_cells (t : Tape α) : t.rewind.cells = t.cells := rfl

@[simp] theorem rewind_done (t : Tape α) : t.rewind.done = [] := rfl

@[simp] theorem rewind_rest (t : Tape α) : t.rewind.rest = t.cells := rfl

@[simp] theorem commit_cells (t : Tape α) : t.commit.cells = t.rest := rfl

@[simp] theorem commit_done (t : Tape α) : t.commit.done = [] := rfl

@[simp] theorem commit_rest (t : Tape α) : t.commit.rest = t.rest := rfl

end Tape

end RetroArch.Library.Rewinding
