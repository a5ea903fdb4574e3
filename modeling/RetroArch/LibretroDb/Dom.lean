/- Values of the document database and the slots a reader fills in them. -/

import Mathlib.Data.List.Basic
import Mathlib.Tactic.Ring

namespace RetroArch.LibretroDb

/-- A buffer whose length is a `uint32_t`. -/
structure Buffer where
  buff : List UInt8
  len_lt : buff.length < 2 ^ 32
  deriving DecidableEq

/-- The `len` bytes a callback is given. -/
def Buffer.ofBytes (bs : List UInt8) : Buffer where
  buff := bs.take (bs.length % 2 ^ 32)
  len_lt := by
    rw [List.length_take]
    have := Nat.mod_lt bs.length (show 0 < 2 ^ 32 by decide)
    omega

@[simp] theorem Buffer.ofBytes_buff (b : Buffer) : Buffer.ofBytes b.buff = b := by
  obtain ⟨buff, hlen⟩ := b
  simp only [Buffer.ofBytes, Nat.mod_eq_of_lt hlen, List.take_length]

/-- `struct rmsgpack_dom_value`, the union read through its type. -/
inductive Value
  | null
  | bool (bool_ : Bool)
  | uint (uint_ : UInt64)
  | int (int_ : Int64)
  | string (string : Buffer)
  | binary (binary : Buffer)
  | map (items : List (Value × Value))
  | array (items : List Value)

def Value.isNull : Value → Bool
  | null => true
  | _ => false

def Value.isMap : Value → Bool
  | map _ => true
  | _ => false

/-- One step from a container to a value stored in it. -/
inductive Member
  | key (i : ℕ)
  | value (i : ℕ)
  | item (i : ℕ)
  deriving DecidableEq, Repr

/-- A pointer into a value under construction. -/
abbrev Slot := List Member

/-- Store through a pointer. -/
def Value.store (w : Value) : Slot → Value → Value
  | [], _ => w
  | .key i :: slot, .map items => .map (items.modify i fun p => (store w slot p.1, p.2))
  | .value i :: slot, .map items => .map (items.modify i fun p => (p.1, store w slot p.2))
  | .item i :: slot, .array items => .array (items.modify i (store w slot))
  | _ :: _, v => v

theorem Value.store_append (w v : Value) (slot deeper : Slot) (out : Value) :
    store w (slot ++ deeper) (store v slot out) = store (store w deeper v) slot out := by
  induction slot generalizing out with
  | nil => rfl
  | cons m slot ih =>
    cases m <;> cases out <;>
      simp only [List.cons_append, store, List.modify_modify_eq, Function.comp_def, ih]

end RetroArch.LibretroDb
