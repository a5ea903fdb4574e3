/- Strings compared and searched without regard to the case of their letters. -/

import Mathlib.Data.List.Basic
import Mathlib.Tactic.Ring

namespace RetroArch.Library.Casing

open Std

def tolower (b : UInt8) : UInt8 := if 65 ≤ b ∧ b ≤ 90 then b + 32 else b

/-- The sign of the result. -/
def strcasecmp (s t : List UInt8) : Ordering := compare (s.map tolower) (t.map tolower)

/-- The string from the first match on. -/
def strcasestr (hay needle : List UInt8) : Option (List UInt8) :=
  if (needle.map tolower).isPrefixOf (hay.map tolower) then some hay
  else
    match hay with
    | [] => none
    | _ :: rest => strcasestr rest needle

instance : TransCmp strcasecmp where
  eq_swap := by
    intro s t
    exact @OrientedCmp.eq_swap _ compare _ _ _
  isLE_trans := by
    intro s t u
    exact @TransCmp.isLE_trans _ compare _ _ _ _

variable {s t u : List UInt8}

theorem strcasecmp_self (s : List UInt8) : strcasecmp s s = .eq := ReflCmp.compare_self

theorem strcasecmp_swap (s t : List UInt8) : strcasecmp t s = (strcasecmp s t).swap :=
  OrientedCmp.eq_swap

theorem strcasecmp_lt_trans (h : strcasecmp s t = .lt) (h' : strcasecmp t u = .lt) :
    strcasecmp s u = .lt := TransCmp.lt_trans h h'

theorem strcasecmp_eq_trans (h : strcasecmp s t = .eq) (h' : strcasecmp t u = .eq) :
    strcasecmp s u = .eq := TransCmp.eq_trans h h'

theorem strcasestr_cons_begins {b : UInt8} {hay needle : List UInt8}
    (h : needle.map tolower <+: (b :: hay).map tolower) :
    strcasestr (b :: hay) needle = some (b :: hay) := by
  rw [strcasestr, if_pos (List.isPrefixOf_iff_prefix.mpr h)]

theorem strcasestr_cons_of_not {b : UInt8} {hay needle : List UInt8}
    (h : ¬needle.map tolower <+: (b :: hay).map tolower) :
    strcasestr (b :: hay) needle = strcasestr hay needle := by
  rw [strcasestr, if_neg fun hp => h (List.isPrefixOf_iff_prefix.mp hp)]

theorem strcasestr_none_iff {hay needle : List UInt8} :
    strcasestr hay needle = none ↔ ¬needle.map tolower <:+: hay.map tolower := by
  induction hay with
  | nil =>
    rw [strcasestr, List.map_nil, List.infix_nil]
    cases needle with
    | nil => simp
    | cons b needle => simp
  | cons b hay ih =>
    rw [List.map_cons, List.infix_cons_iff, ← List.map_cons]
    by_cases hhere : needle.map tolower <+: (b :: hay).map tolower
    · rw [strcasestr_cons_begins hhere]
      exact ⟨fun h => (nomatch h), fun h => absurd (Or.inl hhere) h⟩
    · rw [strcasestr_cons_of_not hhere, ih, not_or]
      exact ⟨fun h => ⟨hhere, h⟩, fun h => h.2⟩

theorem strcasestr_suffix {hay needle found : List UInt8} (h : strcasestr hay needle = some found) :
    found <:+ hay := by
  induction hay with
  | nil =>
    rw [strcasestr] at h
    split_ifs at h
    exact Option.some.inj h ▸ List.suffix_refl _
  | cons b hay ih =>
    by_cases hhere : needle.map tolower <+: (b :: hay).map tolower
    · rw [strcasestr_cons_begins hhere] at h
      exact Option.some.inj h ▸ List.suffix_refl _
    · rw [strcasestr_cons_of_not hhere] at h
      exact (ih h).trans (List.suffix_cons b hay)

theorem prefix_mark {α : Type*} {m : α} {x y : List α} (hx : m ∉ x) (hy : m ∉ y)
    (tail : List α) : x ++ [m] <+: y ++ m :: tail ↔ x = y := by
  induction x generalizing y with
  | nil =>
    cases y with
    | nil => simp
    | cons c y =>
      have hne : m ≠ c := fun h => hy (h ▸ List.mem_cons_self)
      simp [List.cons_prefix_cons, hne]
  | cons b x ih =>
    cases y with
    | nil =>
      have hne : b ≠ m := fun h => hx (h ▸ List.mem_cons_self)
      simp [List.cons_prefix_cons, hne]
    | cons c y =>
      have hx' := fun h => hx (List.mem_cons_of_mem b h)
      have hy' := fun h => hy (List.mem_cons_of_mem c h)
      rw [List.cons_append, List.cons_append, List.cons_prefix_cons, ih hx' hy',
        List.cons.injEq]

/-- A needle that ends at its only mark is found before the next mark, or behind it. -/
theorem strcasestr_mark {front name : List UInt8} {mark : UInt8} (rest : List UInt8)
    (hmark : tolower mark ∉ front.map tolower) (hname : tolower mark ∉ name.map tolower) :
    strcasestr (front ++ mark :: rest) (name ++ [mark]) =
      if name.map tolower <:+ front.map tolower then
        some (front.drop (front.length - name.length) ++ mark :: rest)
      else strcasestr rest (name ++ [mark]) := by
  have hiff : ∀ front : List UInt8, tolower mark ∉ front.map tolower →
      ((name ++ [mark]).map tolower <+: (front ++ mark :: rest).map tolower ↔
        name.map tolower = front.map tolower) := by
    intro front hfront
    rw [List.map_append, List.map_singleton, List.map_append, List.map_cons]
    exact prefix_mark hname hfront _
  induction front with
  | nil =>
    have hstart := hiff [] List.not_mem_nil
    by_cases hnil : name = []
    · subst hnil
      rw [List.nil_append, strcasestr_cons_begins (hstart.mpr rfl)]
      exact (if_pos List.nil_suffix).symm
    · have hne : name.map tolower ≠ [] := fun h => hnil (List.map_eq_nil_iff.mp h)
      rw [List.nil_append, strcasestr_cons_of_not (fun h => hne (hstart.mp h)), List.map_nil,
        if_neg (fun h => hne (List.suffix_nil.mp h))]
  | cons b front ih =>
    have hfront := fun h => hmark (List.mem_cons_of_mem (tolower b) h)
    have hstart := hiff (b :: front) hmark
    rw [List.cons_append] at hstart
    by_cases hhere : name.map tolower = (b :: front).map tolower
    · have hlen : name.length = (b :: front).length := by
        rw [← List.length_map tolower, hhere, List.length_map]
      rw [List.cons_append, strcasestr_cons_begins (hstart.mpr hhere), hhere,
        if_pos (List.suffix_refl _), hlen, Nat.sub_self, List.drop_zero, List.cons_append]
    · rw [List.cons_append, strcasestr_cons_of_not (fun h => hhere (hstart.mp h)), ih hfront]
      have hcons : name.map tolower <:+ (b :: front).map tolower ↔
          name.map tolower = (b :: front).map tolower ∨ name.map tolower <:+ front.map tolower := by
        rw [List.map_cons, List.suffix_cons_iff]
      by_cases hsuffix : name.map tolower <:+ front.map tolower
      · have hlen : name.length ≤ front.length := by
          have hle := hsuffix.length_le
          rwa [List.length_map, List.length_map] at hle
        rw [if_pos hsuffix, if_pos (hcons.mpr (.inr hsuffix)), List.length_cons, Nat.succ_sub hlen,
          List.drop_succ_cons]
      · rw [if_neg hsuffix, if_neg]
        intro h
        rcases hcons.mp h with h | h
        · exact hhere h
        · exact hsuffix h

end RetroArch.Library.Casing
