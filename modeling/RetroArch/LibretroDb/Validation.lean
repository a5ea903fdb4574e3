/- The documents that are valid, and those that the check lets through. -/

import RetroArch.LibretroDb.Database

namespace RetroArch.LibretroDb.Validation

/-- A key that a document may have. -/
def GoodKey : Value → Prop
  | .string s => s.buff.length ≠ 0 ∧ s.buff.head? ≠ some 0x24
  | _ => False

/-- The pairs of a valid document: in it and in every map in it, all the keys are good. -/
inductive Valid : List (Value × Value) → Prop
  | map {items : List (Value × Value)} (hkeys : ∀ p ∈ items, GoodKey p.1)
      (hnested : ∀ p ∈ items, ∀ nested, p.2 = .map nested → Valid nested) : Valid items

/-- The keys of a map are good, or those up to a map in it that is let through. -/
inductive LetThrough : List (Value × Value) → Prop
  | here {items : List (Value × Value)} (hkeys : ∀ p ∈ items, GoodKey p.1) : LetThrough items
  | inside {front rest nested : List (Value × Value)} {key : Value}
      (hfront : ∀ p ∈ front, GoodKey p.1) (hkey : GoodKey key) (hnested : LetThrough nested) :
      LetThrough (front ++ (key, .map nested) :: rest)

theorem LetThrough.cons {key value : Value} {items : List (Value × Value)} (hkey : GoodKey key)
    (h : LetThrough items) : LetThrough ((key, value) :: items) := by
  cases h with
  | here hkeys =>
    refine .here ?_
    intro p hp
    rcases List.mem_cons.mp hp with rfl | hp
    · exact hkey
    · exact hkeys p hp
  | @inside front rest nested key' hfront hkey' hnested =>
    have hall : ∀ p ∈ (key, value) :: front, GoodKey p.1 := by
      intro p hp
      rcases List.mem_cons.mp hp with rfl | hp
      · exact hkey
      · exact hfront p hp
    exact .inside hall hkey' hnested

theorem validatePairs_good {key : Value} (hkey : GoodKey key) (value : Value)
    (items : List (Value × Value)) :
    validatePairs ((key, value) :: items) =
      if value.isMap && libretrodbValidateDocument value == 0 then 0 else validatePairs items := by
  cases key with
  | string s => rw [validatePairs, if_neg hkey.1, if_neg hkey.2]
  | _ => exact hkey.elim

theorem validatePairs_bad {key : Value} (hkey : ¬ GoodKey key) (value : Value)
    (items : List (Value × Value)) : validatePairs ((key, value) :: items) = -einval := by
  cases key with
  | string s =>
    rw [validatePairs]
    split_ifs with hempty hdollar
    · rfl
    · rfl
    · exact absurd ⟨hempty, hdollar⟩ hkey
    · exact absurd ⟨hempty, hdollar⟩ hkey
  | _ => rfl

theorem validatePairs_of_letThrough {items : List (Value × Value)} (h : LetThrough items) :
    validatePairs items = 0 := by
  induction h with
  | @here items hkeys =>
    induction items with
    | nil => rfl
    | cons p items ih =>
      rw [List.forall_mem_cons] at hkeys
      rw [validatePairs_good hkeys.1, ih hkeys.2, ite_self]
  | @inside front rest nested key hfront hkey hnested ih =>
    induction front with
    | nil =>
      rw [List.nil_append, validatePairs_good hkey]
      simp [Value.isMap, libretrodbValidateDocument, ih]
    | cons p front ihfront =>
      rw [List.forall_mem_cons] at hfront
      rw [List.cons_append, validatePairs_good hfront.1, ihfront hfront.2, ite_self]

theorem letThrough_of_validatePairs (n : ℕ) (items : List (Value × Value)) (hn : sizeOf items < n)
    (h : validatePairs items = 0) : LetThrough items := by
  induction n generalizing items with
  | zero => exact absurd hn (Nat.not_lt_zero _)
  | succ n ih =>
    cases items with
    | nil => exact .here fun p hp => nomatch hp
    | cons p items =>
      obtain ⟨key, value⟩ := p
      simp only [List.cons.sizeOf_spec, Prod.mk.sizeOf_spec] at hn
      by_cases hkey : GoodKey key
      · rw [validatePairs_good hkey] at h
        split_ifs at h with hnested
        · obtain ⟨hmap, hvalid⟩ := (Bool.and_eq_true _ _).mp hnested
          cases value with
          | map nested =>
            rw [Value.map.sizeOf_spec] at hn
            have hthrough : LetThrough nested :=
              ih nested (by omega) (by simpa [libretrodbValidateDocument] using hvalid)
            have hnone : ∀ p ∈ ([] : List (Value × Value)), GoodKey p.1 :=
              fun p hp => nomatch hp
            exact .inside hnone hkey hthrough
          | _ => cases hmap
        · exact (ih items (by omega) h).cons hkey
      · rw [validatePairs_bad hkey] at h
        exact absurd h (by decide)

theorem validatePairs_eq_zero (items : List (Value × Value)) :
    validatePairs items = 0 ↔ LetThrough items :=
  ⟨letThrough_of_validatePairs _ items (Nat.lt_succ_self _), validatePairs_of_letThrough⟩

def IsValid (doc : Value) : Prop := ∃ items, doc = .map items ∧ Valid items

theorem Valid.letThrough {items : List (Value × Value)} (h : Valid items) : LetThrough items := by
  cases h with
  | map hkeys _ => exact .here hkeys

/-- The check passes the valid documents and no others, except for those let through. -/
theorem validate_exact (doc : Value) :
    (libretrodbValidateDocument doc = 0 ↔ IsValid doc) ↔
      (IsValid doc ∨ ∀ items, doc = .map items → ¬ LetThrough items) := by
  have hcheck : libretrodbValidateDocument doc = 0 ↔
      ∃ items, doc = .map items ∧ LetThrough items := by
    cases doc with
    | map items =>
      rw [libretrodbValidateDocument, validatePairs_eq_zero]
      simp
    | _ => simp [libretrodbValidateDocument, einval]
  rw [hcheck]
  constructor
  · intro h
    by_cases hvalid : IsValid doc
    · exact .inl hvalid
    · refine .inr ?_
      intro items hdoc hthrough
      exact hvalid (h.mp ⟨items, hdoc, hthrough⟩)
  · rintro (hvalid | hnone)
    · obtain ⟨items, hdoc, hitems⟩ := hvalid
      exact ⟨fun _ => ⟨items, hdoc, hitems⟩, fun _ => ⟨items, hdoc, hitems.letThrough⟩⟩
    · constructor
      · rintro ⟨items, hdoc, hthrough⟩
        exact absurd hthrough (hnone items hdoc)
      · rintro ⟨items, hdoc, hvalid⟩
        exact absurd hvalid.letThrough (hnone items hdoc)

/-- `"a"` and `"$"` -/
def keyA : Value := .string ⟨[0x61], by decide⟩

def keyDollar : Value := .string ⟨[0x24], by decide⟩

/-- A bad key behind a map, and one in a map. -/
theorem validate_fails :
    (libretrodbValidateDocument (.map [(keyA, .map []), (keyDollar, .null)]) = 0 ∧
        ¬ IsValid (.map [(keyA, .map []), (keyDollar, .null)])) ∧
      libretrodbValidateDocument (.map [(keyA, .map [(keyDollar, .null)])]) = 0 ∧
        ¬ IsValid (.map [(keyA, .map [(keyDollar, .null)])]) := by
  have hbad : ¬ GoodKey keyDollar := fun h => h.2 rfl
  refine ⟨⟨by decide, ?_⟩, by decide, ?_⟩
  · rintro ⟨items, hdoc, hvalid⟩
    cases hdoc
    cases hvalid with
    | map hkeys _ => exact hbad (hkeys (keyDollar, .null) (by simp))
  · rintro ⟨items, hdoc, hvalid⟩
    cases hdoc
    cases hvalid with
    | map _ hnested =>
      cases hnested (keyA, .map [(keyDollar, .null)]) (by simp) _ rfl with
      | map hkeys _ => exact hbad (hkeys (keyDollar, .null) (by simp))

end RetroArch.LibretroDb.Validation
