/- What the formats of `rmsgpack.c` say a run of bytes encodes, apart from how it is written and read. -/

import RetroArch.LibretroDb.DomReader

namespace RetroArch.LibretroDb

open Library.Bytes Streams

/-- The members of a map in the order they are written. -/
def unpair (pairs : List (Value × Value)) : List Value := pairs.flatMap fun p => [p.1, p.2]

def pairUp : List Value → List (Value × Value)
  | key :: value :: rest => (key, value) :: pairUp rest
  | _ => []

mutual

/-- The encoding of a value, every format byte followed by its own payload only. -/
def wire : Value → List UInt8
  | .null => rmsgpackWriteNil.bytes
  | .bool b => [UInt8.ofNat (if b then mpfTrue else mpfFalse)]
  | .int i => (rmsgpackWriteInt i).bytes
  | .uint u => (rmsgpackWriteUint u).bytes
  | .string s => (rmsgpackWriteString s).bytes
  | .binary b => (rmsgpackWriteBin b).bytes
  | .map items => (rmsgpackWriteMapHeader items.length).bytes ++ wirePairs items
  | .array items => (rmsgpackWriteArrayHeader items.length).bytes ++ wireItems items

def wirePairs : List (Value × Value) → List UInt8
  | [] => []
  | (key, value) :: items => wire key ++ wire value ++ wirePairs items

def wireItems : List Value → List UInt8
  | [] => []
  | item :: items => wire item ++ wireItems items

end

mutual

/-- The members of every container in the opposite order. -/
def mirror : Value → Value
  | .map items => .map (mirrorPairs items).reverse
  | .array items => .array (mirrorItems items).reverse
  | v => v

def mirrorPairs : List (Value × Value) → List (Value × Value)
  | [] => []
  | (key, value) :: items => (mirror key, mirror value) :: mirrorPairs items

def mirrorItems : List Value → List Value
  | [] => []
  | item :: items => mirror item :: mirrorItems items

end

mutual

/-- How often a value holds the boolean true. -/
def trues : Value → ℕ
  | .bool true => 1
  | .map items => truesPairs items
  | .array items => truesItems items
  | _ => 0

def truesPairs : List (Value × Value) → ℕ
  | [] => 0
  | (key, value) :: items => trues key + trues value + truesPairs items

def truesItems : List Value → ℕ
  | [] => 0
  | item :: items => trues item + truesItems items

end

mutual

/-- Whether every container opened on top of `below` other slots leaves the stack within bounds. -/
def holds (below : ℕ) : Value → Bool
  | .map items => below + 2 * items.length ≤ maxDepth && holdsPairs below items
  | .array items => below + items.length ≤ maxDepth && holdsItems below items
  | _ => true

def holdsPairs (below : ℕ) : List (Value × Value) → Bool
  | [] => true
  | (key, value) :: items =>
    holds (below + 2 * items.length + 1) key && holds (below + 2 * items.length) value &&
      holdsPairs below items

def holdsItems (below : ℕ) : List Value → Bool
  | [] => true
  | item :: items => holds (below + items.length) item && holdsItems below items

end

mutual

/-- Whether every length is a `uint32_t`, as the fields that hold them are. -/
def sized : Value → Bool
  | .map items => items.length < 2 ^ 32 && sizedPairs items
  | .array items => items.length < 2 ^ 32 && sizedItems items
  | _ => true

def sizedPairs : List (Value × Value) → Bool
  | [] => true
  | (key, value) :: items => sized key && sized value && sizedPairs items

def sizedItems : List Value → Bool
  | [] => true
  | item :: items => sized item && sizedItems items

end

mutual

/-- The levels of containers in a value. -/
def nesting : Value → ℕ
  | .map items => nestingPairs items + 1
  | .array items => nestingItems items + 1
  | _ => 0

def nestingPairs : List (Value × Value) → ℕ
  | [] => 0
  | (key, value) :: items => max (max (nesting key) (nesting value)) (nestingPairs items)

def nestingItems : List Value → ℕ
  | [] => 0
  | item :: items => max (nesting item) (nestingItems items)

end

mutual

/-- The bytes a write counts: a buffer's count is kept modulo a `uint32_t`, binaries count nothing. -/
def counted : Value → ℕ
  | .string s => (rmsgpackWriteString s).bytes.length % 2 ^ 32
  | .binary _ => 0
  | .bool _ => 1
  | .map items => (rmsgpackWriteMapHeader items.length).bytes.length + countedPairs items
  | .array items => (rmsgpackWriteArrayHeader items.length).bytes.length + countedItems items
  | .null => 1
  | .int i => (rmsgpackWriteInt i).bytes.length
  | .uint u => (rmsgpackWriteUint u).bytes.length

def countedPairs : List (Value × Value) → ℕ
  | [] => 0
  | (key, value) :: items => counted key + counted value + countedPairs items

def countedItems : List Value → ℕ
  | [] => 0
  | item :: items => counted item + countedItems items

end

mutual

/-- The values whose encodings follow each other in what a write produces. -/
def emitted : Value → List Value
  | .bool true => [.bool true, .bool false]
  | .map items =>
    let values := emittedPairs items
    .map (pairUp (values.take (2 * items.length))) :: values.drop (2 * items.length)
  | .array items =>
    let values := emittedItems items
    .array (values.take items.length) :: values.drop items.length
  | v => [v]

def emittedPairs : List (Value × Value) → List Value
  | [] => []
  | (key, value) :: items => emitted key ++ emitted value ++ emittedPairs items

def emittedItems : List Value → List Value
  | [] => []
  | item :: items => emitted item ++ emittedItems items

end

theorem unpair_cons (key value : Value) (pairs : List (Value × Value)) :
    unpair ((key, value) :: pairs) = key :: value :: unpair pairs := rfl

theorem pairUp_unpair (pairs : List (Value × Value)) : pairUp (unpair pairs) = pairs := by
  induction pairs with
  | nil => rfl
  | cons p pairs ih => exact congrArg (List.cons p) ih

theorem length_unpair (pairs : List (Value × Value)) :
    (unpair pairs).length = 2 * pairs.length := by
  induction pairs with
  | nil => rfl
  | cons p pairs ih =>
    rw [unpair_cons, List.length_cons, List.length_cons, ih, List.length_cons]
    omega

theorem wireItems_append (xs ys : List Value) :
    wireItems (xs ++ ys) = wireItems xs ++ wireItems ys := by
  induction xs with
  | nil => rfl
  | cons x xs ih => rw [List.cons_append, wireItems, ih, wireItems, List.append_assoc]

theorem wirePairs_eq (pairs : List (Value × Value)) : wirePairs pairs = wireItems (unpair pairs) := by
  induction pairs with
  | nil => rfl
  | cons p pairs ih =>
    rw [wirePairs, ih, unpair_cons, wireItems, wireItems, List.append_assoc]

theorem unpair_pairUp {xs : List Value} (h : 2 ∣ xs.length) : unpair (pairUp xs) = xs := by
  induction xs using pairUp.induct with
  | case1 key value rest ih =>
    have hrest : 2 ∣ rest.length := by
      simp only [List.length_cons] at h
      omega
    rw [pairUp, unpair_cons, ih hrest]
  | case2 xs hfew =>
    match xs with
    | [] => rfl
    | [x] =>
      simp only [List.length_cons, List.length_nil] at h
      omega
    | key :: value :: rest => exact absurd rfl (hfew key value rest)

theorem length_pairUp (xs : List Value) : (pairUp xs).length = xs.length / 2 := by
  induction xs using pairUp.induct with
  | case1 key value rest ih =>
    rw [pairUp, List.length_cons, ih]
    simp only [List.length_cons]
    omega
  | case2 xs hfew =>
    match xs with
    | [] => rfl
    | [x] => simp [pairUp]
    | key :: value :: rest => exact absurd rfl (hfew key value rest)

mutual

theorem length_emitted (v : Value) : (emitted v).length = trues v + 1 := by
  match v with
  | .null | .int _ | .uint _ | .string _ | .binary _ | .bool true | .bool false => rfl
  | .map items =>
    have h := length_emittedPairs items
    rw [emitted, trues, List.length_cons, List.length_drop, h]
    omega
  | .array items =>
    have h := length_emittedItems items
    rw [emitted, trues, List.length_cons, List.length_drop, h]
    omega

theorem length_emittedPairs (items : List (Value × Value)) :
    (emittedPairs items).length = truesPairs items + 2 * items.length := by
  match items with
  | [] => rfl
  | (key, value) :: items =>
    rw [emittedPairs, truesPairs, List.length_append, List.length_append, length_emitted key,
      length_emitted value, length_emittedPairs items, List.length_cons]
    omega

theorem length_emittedItems (items : List Value) :
    (emittedItems items).length = truesItems items + items.length := by
  match items with
  | [] => rfl
  | item :: items =>
    rw [emittedItems, truesItems, List.length_append, length_emitted item,
      length_emittedItems items, List.length_cons]
    omega

end

mutual

theorem emitted_of_trueless (v : Value) (h : trues v = 0) : emitted v = [v] := by
  match v with
  | .null | .int _ | .uint _ | .string _ | .binary _ | .bool false => rfl
  | .bool true => exact absurd h (by decide)
  | .map items =>
    rw [trues] at h
    rw [emitted, emittedPairs_of_trueless items h, ← length_unpair, List.take_length,
      List.drop_length, pairUp_unpair]
  | .array items =>
    rw [trues] at h
    rw [emitted, emittedItems_of_trueless items h, List.take_length, List.drop_length]

theorem emittedPairs_of_trueless (items : List (Value × Value)) (h : truesPairs items = 0) :
    emittedPairs items = unpair items := by
  match items with
  | [] => rfl
  | (key, value) :: items =>
    rw [truesPairs] at h
    rw [emittedPairs, emitted_of_trueless key (by omega), emitted_of_trueless value (by omega),
      emittedPairs_of_trueless items (by omega)]
    rfl

theorem emittedItems_of_trueless (items : List Value) (h : truesItems items = 0) :
    emittedItems items = items := by
  match items with
  | [] => rfl
  | item :: items =>
    rw [truesItems] at h
    rw [emittedItems, emitted_of_trueless item (by omega),
      emittedItems_of_trueless items (by omega)]
    rfl

end

theorem sizedItems_append (xs ys : List Value) :
    sizedItems (xs ++ ys) = (sizedItems xs && sizedItems ys) := by
  induction xs with
  | nil => rfl
  | cons x xs ih => rw [List.cons_append, sizedItems, ih, sizedItems, Bool.and_assoc]

theorem sizedPairs_eq (pairs : List (Value × Value)) :
    sizedPairs pairs = sizedItems (unpair pairs) := by
  induction pairs with
  | nil => rfl
  | cons p pairs ih => rw [sizedPairs, ih, unpair_cons, sizedItems, sizedItems, Bool.and_assoc]

theorem sizedItems_take {xs : List Value} (h : sizedItems xs = true) (n : ℕ) :
    sizedItems (xs.take n) = true ∧ sizedItems (xs.drop n) = true := by
  rw [← List.take_append_drop n xs, sizedItems_append, Bool.and_eq_true] at h
  exact h

mutual

theorem sized_of_holds (v : Value) {below : ℕ} (h : holds below v = true) : sized v = true := by
  match v with
  | .null | .bool _ | .int _ | .uint _ | .string _ | .binary _ => rfl
  | .map items =>
    rw [holds, Bool.and_eq_true, decide_eq_true_eq, maxDepth] at h
    rw [sized, sizedPairs_of_holds items h.2, Bool.and_true, decide_eq_true_eq]
    omega
  | .array items =>
    rw [holds, Bool.and_eq_true, decide_eq_true_eq, maxDepth] at h
    rw [sized, sizedItems_of_holds items h.2, Bool.and_true, decide_eq_true_eq]
    omega

theorem sizedPairs_of_holds (items : List (Value × Value)) {below : ℕ}
    (h : holdsPairs below items = true) : sizedPairs items = true := by
  match items with
  | [] => rfl
  | (key, value) :: items =>
    rw [holdsPairs, Bool.and_eq_true, Bool.and_eq_true] at h
    rw [sizedPairs, sized_of_holds key h.1.1, sized_of_holds value h.1.2,
      sizedPairs_of_holds items h.2]
    rfl

theorem sizedItems_of_holds (items : List Value) {below : ℕ}
    (h : holdsItems below items = true) : sizedItems items = true := by
  match items with
  | [] => rfl
  | item :: items =>
    rw [holdsItems, Bool.and_eq_true] at h
    rw [sizedItems, sized_of_holds item h.1, sizedItems_of_holds items h.2]
    rfl

end

mutual

theorem sizedItems_emitted (v : Value) (h : sized v = true) : sizedItems (emitted v) = true := by
  match v with
  | .null | .bool true | .bool false | .int _ | .uint _ | .string _ | .binary _ => rfl
  | .map items =>
    rw [sized, Bool.and_eq_true, decide_eq_true_eq] at h
    obtain ⟨htake, hdrop⟩ :=
      sizedItems_take (sizedItems_emittedPairs items h.2) (2 * items.length)
    have hlen : ((emittedPairs items).take (2 * items.length)).length = 2 * items.length := by
      apply List.length_take_of_le
      rw [length_emittedPairs]
      omega
    have hpairs : (pairUp ((emittedPairs items).take (2 * items.length))).length =
        items.length := by
      rw [length_pairUp, hlen]
      omega
    rw [emitted, sizedItems, sized, hpairs, sizedPairs_eq, unpair_pairUp ⟨_, hlen⟩, htake, hdrop,
      decide_eq_true h.1]
    rfl
  | .array items =>
    rw [sized, Bool.and_eq_true, decide_eq_true_eq] at h
    obtain ⟨htake, hdrop⟩ := sizedItems_take (sizedItems_emittedItems items h.2) items.length
    have hlen : ((emittedItems items).take items.length).length = items.length := by
      apply List.length_take_of_le
      rw [length_emittedItems]
      omega
    rw [emitted, sizedItems, sized, hlen, htake, hdrop, decide_eq_true h.1]
    rfl

theorem sizedItems_emittedPairs (items : List (Value × Value)) (h : sizedPairs items = true) :
    sizedItems (emittedPairs items) = true := by
  match items with
  | [] => rfl
  | (key, value) :: items =>
    rw [sizedPairs, Bool.and_eq_true, Bool.and_eq_true] at h
    rw [emittedPairs, sizedItems_append, sizedItems_append, sizedItems_emitted key h.1.1,
      sizedItems_emitted value h.1.2, sizedItems_emittedPairs items h.2]
    rfl

theorem sizedItems_emittedItems (items : List Value) (h : sizedItems items = true) :
    sizedItems (emittedItems items) = true := by
  match items with
  | [] => rfl
  | item :: items =>
    rw [sizedItems, Bool.and_eq_true] at h
    rw [emittedItems, sizedItems_append, sizedItems_emitted item h.1,
      sizedItems_emittedItems items h.2]
    rfl

end

end RetroArch.LibretroDb
