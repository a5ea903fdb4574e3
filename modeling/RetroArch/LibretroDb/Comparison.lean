/- Comparing values, and looking up the key of a map by comparing. -/

import RetroArch.LibretroDb.Query

namespace RetroArch.LibretroDb.Comparison

/-- `strncmp`, which does not look behind a terminator. -/
def strncmp : ℕ → List UInt8 → List UInt8 → Int
  | n + 1, c :: cs, d :: ds =>
    if c ≠ d then (c.toNat : Int) - d.toNat else if c = 0 then 0 else strncmp n cs ds
  | _, _, _ => 0

def memcmp : ℕ → List UInt8 → List UInt8 → Int
  | n + 1, c :: cs, d :: ds => if c ≠ d then (c.toNat : Int) - d.toNat else memcmp n cs ds
  | _, _, _ => 0

mutual

/-- `rmsgpack_dom_value_cmp`, where `same` tells at which places the two pointers are the same. The
loops over the members end in the `return 1` behind the `switch`. -/
def rmsgpackDomValueCmp (same : Slot → Bool) (a b : Value) : Int :=
  if same [] then 1
  else
    match a, b with
    | .null, .null => 0
    | .bool x, .bool y => if x = y then 0 else 1
    | .int x, .int y => if x = y then 0 else 1
    | .uint x, .uint y => if x = y then 0 else 1
    | .string x, .string y =>
      if x.buff.length ≠ y.buff.length then 1 else strncmp x.buff.length x.buff y.buff
    | .binary x, .binary y =>
      if x.buff.length ≠ y.buff.length then 1 else memcmp x.buff.length x.buff y.buff
    | .map xs, .map ys => if xs.length ≠ ys.length then 1 else cmpPairs same 0 xs ys
    | .array xs, .array ys => if xs.length ≠ ys.length then 1 else cmpItems same 0 xs ys
    | _, _ => 1

def cmpPairs (same : Slot → Bool) (i : ℕ) : List (Value × Value) → List (Value × Value) → Int
  | (key, value) :: items, (key', value') :: items' =>
    let rv := rmsgpackDomValueCmp (fun slot => same (.key i :: slot)) key key'
    if rv ≠ 0 then rv
    else
      let rv := rmsgpackDomValueCmp (fun slot => same (.value i :: slot)) value value'
      if rv ≠ 0 then rv else cmpPairs same (i + 1) items items'
  | _, _ => 1

def cmpItems (same : Slot → Bool) (i : ℕ) : List Value → List Value → Int
  | item :: items, item' :: items' =>
    let rv := rmsgpackDomValueCmp (fun slot => same (.item i :: slot)) item item'
    if rv ≠ 0 then rv else cmpItems same (i + 1) items items'
  | _, _ => 1

end

/-- The loop of `rmsgpack_dom_value_map_value`: the number of the pair. -/
def findKey (same : ℕ → Slot → Bool) (key : Value) : List (Value × Value) → Option ℕ
  | [] => none
  | (k, _) :: items =>
    if rmsgpackDomValueCmp (same 0) key k = 0 then some 0
    else (findKey (fun i => same (i + 1)) key items).map (· + 1)

/-- `rmsgpack_dom_value_map_value`: the number of the pair whose value is pointed to. -/
def rmsgpackDomValueMapValue (same : ℕ → Slot → Bool) (map key : Value) : Option ℕ :=
  match map with
  | .map items => findKey same key items
  | _ => none

/-- A literal is an `int64_t`, and is read as the `uint64_t` it is compared with. -/
def asInput (input value : Value) : Value :=
  match input, value with
  | .uint _, .int n => .uint n.toUInt64
  | _, _ => value

/-- The input and the argument are copies on the stack. -/
def funcEquals (input : Value) (argv : List Query.Argument) : Bool :=
  match argv with
  | [.value value] => rmsgpackDomValueCmp (fun _ => false) input (asInput input value) == 0
  | _ => false

/-- Two strings that differ behind a terminator only. -/
def DifferBehind (a b : Value) : Prop :=
  ∃ s t : Buffer, a = .string s ∧ b = .string t ∧ s ≠ t ∧ s.buff.length = t.buff.length ∧
    ∃ front u v, s.buff = front ++ 0 :: u ∧ t.buff = front ++ 0 :: v

/-- The pointers are not the same, equal values are neither maps nor arrays, and strings do not
differ behind a terminator only. -/
def Comparable (same : Bool) (a b : Value) : Prop :=
  (a = b → same = false ∧ (∀ items, a ≠ .map items) ∧ ∀ items, a ≠ .array items) ∧
    (same = false → ¬ DifferBehind a b)

/-- The pair with the first key that is equal. -/
def Found (key : Value) (items : List (Value × Value)) : Option ℕ → Prop
  | none => ∀ p ∈ items, p.1 ≠ key
  | some i => ∃ p, items[i]? = some p ∧ p.1 = key ∧ ∀ q ∈ items.take i, q.1 ≠ key

theorem strncmp_eq_zero {n : ℕ} {s t : List UInt8} (hs : s.length = n) (ht : t.length = n) :
    strncmp n s t = 0 ↔ s = t ∨ ∃ front u v, s = front ++ 0 :: u ∧ t = front ++ 0 :: v := by
  induction n generalizing s t with
  | zero =>
    rw [List.length_eq_zero_iff.mp hs, List.length_eq_zero_iff.mp ht]
    exact ⟨fun _ => .inl rfl, fun _ => rfl⟩
  | succ n ih =>
    obtain ⟨c, s, rfl⟩ := List.exists_cons_of_length_eq_add_one hs
    obtain ⟨d, t, rfl⟩ := List.exists_cons_of_length_eq_add_one ht
    have hrest := ih (Nat.succ.inj hs) (Nat.succ.inj ht)
    rw [strncmp]
    split_ifs with hne hzero
    · constructor
      · intro heq
        exact absurd (UInt8.toNat_inj.mp (by omega)) hne
      · rintro (heq | ⟨front, u, v, hu, hv⟩)
        · exact absurd (List.cons.inj heq).1 hne
        · cases front with
          | nil => exact absurd ((List.cons.inj hu).1.trans (List.cons.inj hv).1.symm) hne
          | cons e front => exact absurd ((List.cons.inj hu).1.trans (List.cons.inj hv).1.symm) hne
    · refine ⟨fun _ => .inr ⟨[], s, t, ?_, ?_⟩, fun _ => rfl⟩
      · rw [hzero, List.nil_append]
      · rw [← not_not.mp hne, hzero, List.nil_append]
    · obtain rfl := not_not.mp hne
      rw [hrest]
      constructor
      · rintro (rfl | ⟨front, u, v, rfl, rfl⟩)
        · exact .inl rfl
        · exact .inr ⟨c :: front, u, v, rfl, rfl⟩
      · rintro (heq | ⟨front, u, v, hu, hv⟩)
        · exact .inl (List.cons.inj heq).2
        · cases front with
          | nil => exact absurd (List.cons.inj hu).1 hzero
          | cons e front =>
            exact .inr ⟨front, u, v, (List.cons.inj hu).2, (List.cons.inj hv).2⟩

theorem memcmp_eq_zero {n : ℕ} {s t : List UInt8} (hs : s.length = n) (ht : t.length = n) :
    memcmp n s t = 0 ↔ s = t := by
  induction n generalizing s t with
  | zero =>
    rw [List.length_eq_zero_iff.mp hs, List.length_eq_zero_iff.mp ht]
    exact ⟨fun _ => rfl, fun _ => rfl⟩
  | succ n ih =>
    obtain ⟨c, s, rfl⟩ := List.exists_cons_of_length_eq_add_one hs
    obtain ⟨d, t, rfl⟩ := List.exists_cons_of_length_eq_add_one ht
    rw [memcmp]
    split_ifs with hne
    · constructor
      · intro heq
        exact absurd (UInt8.toNat_inj.mp (by omega)) hne
      · intro heq
        exact absurd (List.cons.inj heq).1 hne
    · rw [ih (Nat.succ.inj hs) (Nat.succ.inj ht), not_not.mp hne, List.cons_inj_right]

theorem cmpPairs_ne_zero (same : Slot → Bool) (i : ℕ) (xs ys : List (Value × Value)) :
    cmpPairs same i xs ys ≠ 0 := by
  induction xs generalizing i ys with
  | nil => simp [cmpPairs]
  | cons x xs ih =>
    cases ys with
    | nil => simp [cmpPairs]
    | cons y ys =>
      rw [cmpPairs]
      dsimp only
      split_ifs with hkey hvalue
      · exact hkey
      · exact hvalue
      · exact ih (i + 1) ys

theorem cmpItems_ne_zero (same : Slot → Bool) (i : ℕ) (xs ys : List Value) :
    cmpItems same i xs ys ≠ 0 := by
  induction xs generalizing i ys with
  | nil => simp [cmpItems]
  | cons x xs ih =>
    cases ys with
    | nil => simp [cmpItems]
    | cons y ys =>
      rw [cmpItems]
      split_ifs with hitem
      · exact hitem
      · exact ih (i + 1) ys

theorem Buffer.ext_buff {s t : Buffer} (h : s.buff = t.buff) : s = t := by
  cases s
  cases t
  cases h
  rfl

theorem strings_eq_zero (s t : Buffer) :
    (if s.buff.length ≠ t.buff.length then 1 else strncmp s.buff.length s.buff t.buff) = 0 ↔
      s = t ∨ DifferBehind (.string s) (.string t) := by
  by_cases hlen : s.buff.length = t.buff.length
  · rw [if_neg (not_not.mpr hlen), strncmp_eq_zero rfl hlen.symm]
    constructor
    · rintro (heq | hbehind)
      · exact .inl (Buffer.ext_buff heq)
      · by_cases heq : s = t
        · exact .inl heq
        · exact .inr ⟨s, t, rfl, rfl, heq, hlen, hbehind⟩
    · rintro (rfl | ⟨_, _, hs, ht, _, _, hbehind⟩)
      · exact .inl rfl
      · cases hs
        cases ht
        exact .inr hbehind
  · rw [if_pos hlen]
    constructor
    · intro heq
      cases heq
    · rintro (rfl | ⟨_, _, hs, ht, _, hlen', _⟩)
      · exact absurd rfl hlen
      · cases hs
        cases ht
        exact absurd hlen' hlen

theorem binaries_eq_zero (s t : Buffer) :
    (if s.buff.length ≠ t.buff.length then 1 else memcmp s.buff.length s.buff t.buff) = 0 ↔
      s = t := by
  by_cases hlen : s.buff.length = t.buff.length
  · rw [if_neg (not_not.mpr hlen), memcmp_eq_zero rfl hlen.symm]
    exact ⟨Buffer.ext_buff, congrArg Buffer.buff⟩
  · rw [if_pos hlen]
    constructor
    · intro heq
      cases heq
    · rintro rfl
      exact absurd rfl hlen

theorem cmp_eq_zero (same : Slot → Bool) (a b : Value) :
    rmsgpackDomValueCmp same a b = 0 ↔
      same [] = false ∧ (∀ items, a ≠ .map items) ∧ (∀ items, a ≠ .array items) ∧
        (a = b ∨ DifferBehind a b) := by
  have hbehind : ∀ {a b : Value}, (∀ s, a ≠ .string s) → ¬ DifferBehind a b := by
    rintro a b hne ⟨s, _, hs, _⟩
    exact hne s hs
  unfold rmsgpackDomValueCmp
  cases hsame : same [] with
  | true => simp
  | false =>
    simp only [Bool.false_eq_true, if_false, true_and]
    cases a with
    | string s =>
      cases b with
      | string t =>
        dsimp only
        rw [strings_eq_zero]
        simp
      | _ => simp [DifferBehind]
    | binary s =>
      cases b with
      | binary t =>
        dsimp only
        rw [binaries_eq_zero]
        simp [hbehind (a := .binary s) (by simp)]
      | _ => simp [DifferBehind]
    | map xs =>
      cases b with
      | map ys =>
        dsimp only
        split_ifs with hlen
        · simp
        · simp [cmpPairs_ne_zero]
      | _ => simp
    | array xs =>
      cases b with
      | array ys =>
        dsimp only
        split_ifs with hlen
        · simp
        · simp [cmpItems_ne_zero]
      | _ => simp
    | null => cases b <;> simp [DifferBehind]
    | bool x => cases b <;> simp [DifferBehind]
    | int x => cases b <;> simp [DifferBehind]
    | uint x => cases b <;> simp [DifferBehind]

theorem not_differBehind_self (a : Value) : ¬ DifferBehind a a := by
  rintro ⟨s, t, hs, ht, hne, _⟩
  rw [hs] at ht
  exact hne (Value.string.inj ht)

theorem cmp_meant (same : Slot → Bool) (a b : Value) :
    (rmsgpackDomValueCmp same a b = 0 ↔ a = b) ↔ Comparable (same []) a b := by
  rw [cmp_eq_zero]
  constructor
  · intro h
    refine ⟨fun heq => ?_, fun hsame hbehind => ?_⟩
    · obtain ⟨hsame, hmap, harray, _⟩ := h.mpr heq
      exact ⟨hsame, hmap, harray⟩
    · have heq : a = b := by
        refine h.mp ⟨hsame, ?_, ?_, .inr hbehind⟩
        · intro items hitems
          obtain ⟨s, _, hs, _⟩ := hbehind
          exact nomatch hitems.symm.trans hs
        · intro items hitems
          obtain ⟨s, _, hs, _⟩ := hbehind
          exact nomatch hitems.symm.trans hs
      subst heq
      exact not_differBehind_self a hbehind
  · rintro ⟨hequal, hdiffer⟩
    constructor
    · rintro ⟨hsame, _, _, heq | hbehind⟩
      · exact heq
      · exact absurd hbehind (hdiffer hsame)
    · intro heq
      obtain ⟨hsame, hmap, harray⟩ := hequal heq
      exact ⟨hsame, hmap, harray, .inl heq⟩

/-- The keys that are looked at, up to the first that is equal, are comparable. -/
def KeysComparable (same : ℕ → Slot → Bool) (key : Value) (items : List (Value × Value)) : Prop :=
  ∀ i p, items[i]? = some p → (∀ q ∈ items.take i, q.1 ≠ key) →
    Comparable (same i []) key p.1

theorem keysComparable_cons (same : ℕ → Slot → Bool) (key k v : Value)
    (items : List (Value × Value)) :
    KeysComparable same key ((k, v) :: items) ↔
      Comparable (same 0 []) key k ∧
        (k ≠ key → KeysComparable (fun i => same (i + 1)) key items) := by
  constructor
  · intro h
    refine ⟨h 0 (k, v) rfl (fun q hq => nomatch hq), ?_⟩
    intro hne i p hp hbefore
    refine h (i + 1) p hp ?_
    intro q hq
    rcases List.mem_cons.mp hq with rfl | hq
    · exact hne
    · exact hbefore q hq
  · rintro ⟨hfirst, hrest⟩ i p hp hbefore
    cases i with
    | zero =>
      cases hp
      exact hfirst
    | succ i =>
      refine hrest (hbefore (k, v) List.mem_cons_self) i p hp ?_
      intro q hq
      exact hbefore q (List.mem_cons_of_mem _ hq)

theorem found_cons_succ {key k v : Value} {items : List (Value × Value)} (r : Option ℕ) :
    Found key ((k, v) :: items) (r.map (· + 1)) ↔ k ≠ key ∧ Found key items r := by
  cases r with
  | none =>
    change (∀ p ∈ (k, v) :: items, p.1 ≠ key) ↔ _
    rw [List.forall_mem_cons]
    rfl
  | some i =>
    change (∃ p, items[i]? = some p ∧ p.1 = key ∧ ∀ q ∈ (k, v) :: items.take i, q.1 ≠ key) ↔ _
    simp only [List.forall_mem_cons]
    constructor
    · rintro ⟨p, hp, heq, hne, hbefore⟩
      exact ⟨hne, p, hp, heq, hbefore⟩
    · rintro ⟨hne, p, hp, heq, hbefore⟩
      exact ⟨p, hp, heq, hne, hbefore⟩

/-- The lookup finds the first equal key exactly where the keys up to it are comparable. -/
theorem findKey_meant (same : ℕ → Slot → Bool) (key : Value) (items : List (Value × Value)) :
    Found key items (findKey same key items) ↔ KeysComparable same key items := by
  induction items generalizing same with
  | nil =>
    refine ⟨fun _ i p hp => ?_, fun _ p hp => nomatch hp⟩
    cases hp
  | cons item items ih =>
    obtain ⟨k, v⟩ := item
    rw [keysComparable_cons, ← cmp_meant, findKey]
    split_ifs with hcmp
    · simp only [hcmp, true_iff]
      constructor
      · rintro ⟨p, hp, heq, _⟩
        cases hp
        exact ⟨heq.symm, fun hne => absurd heq hne⟩
      · rintro ⟨heq, _⟩
        exact ⟨(k, v), rfl, heq.symm, fun q hq => nomatch hq⟩
    · rw [found_cons_succ, ih]
      simp only [hcmp, false_iff]
      constructor
      · rintro ⟨hne, hrest⟩
        exact ⟨Ne.symm hne, fun _ => hrest⟩
      · rintro ⟨hne, hrest⟩
        exact ⟨Ne.symm hne, hrest (Ne.symm hne)⟩

/-- The comparison, the lookup of a key and the equality of a query take for equal what is equal,
exactly where all that is compared is comparable. -/
theorem comparison_meant (same : Slot → Bool) (a b : Value) (sameKey : ℕ → Slot → Bool)
    (key : Value) (items : List (Value × Value)) (input value : Value) :
    ((rmsgpackDomValueCmp same a b = 0 ↔ a = b) ↔ Comparable (same []) a b) ∧
      (Found key items (rmsgpackDomValueMapValue sameKey (.map items) key) ↔
        KeysComparable sameKey key items) ∧
      ((funcEquals input [.value value] = true ↔ input = asInput input value) ↔
        Comparable false input (asInput input value)) := by
  refine ⟨cmp_meant same a b, findKey_meant sameKey key items, ?_⟩
  rw [← cmp_meant (fun _ => false) input (asInput input value)]
  simp only [funcEquals, beq_iff_eq]

/-- Two empty arrays are not equal, and strings that differ behind a terminator are. -/
theorem comparison_fails :
    rmsgpackDomValueCmp (fun _ => false) (.array []) (.array []) ≠ 0 ∧
      rmsgpackDomValueCmp (fun _ => false) (.string ⟨[0, 1], by decide⟩)
        (.string ⟨[0, 2], by decide⟩) = 0 ∧
      rmsgpackDomValueMapValue (fun _ _ => false) (.map [(.map [], .null)]) (.map []) = none ∧
      funcEquals (.array []) [.value (.array [])] = false := by
  refine ⟨?_, ?_, ?_, ?_⟩ <;> simp [rmsgpackDomValueCmp, cmpPairs, cmpItems, strncmp,
    rmsgpackDomValueMapValue, findKey, funcEquals, asInput]

end RetroArch.LibretroDb.Comparison
