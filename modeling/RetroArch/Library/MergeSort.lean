/- The merge sort of a linked list that takes from the right where neither node is less. A
   comparison may have no result. -/

import Mathlib.Data.List.Basic

namespace RetroArch.Library.MergeSort

open Std

variable {α : Type*}

section Sorting

/-- The list cut where the pointer at half the speed is when the other one is at the end. -/
def halve : List α → List α → List α × List α
  | r :: right, _ :: _ :: temp =>
    let halves := halve right temp
    (r :: halves.1, halves.2)
  | right, _ => ([], right)

theorem halve_eq (right temp : List α) (h : temp.length ≤ right.length) :
    halve right temp = (right.take (temp.length / 2), right.drop (temp.length / 2)) := by
  induction right, temp using halve.induct with
  | case1 r right a b temp ih =>
    simp only [List.length_cons] at h ⊢
    have hhalf : (temp.length + 1 + 1) / 2 = temp.length / 2 + 1 := by omega
    rw [halve, ih (by omega), hhalf, List.take_succ_cons, List.drop_succ_cons]
  | case2 right temp hend =>
    have hshort : temp.length / 2 = 0 := by
      match temp with
      | [] => simp
      | [_] => simp
      | _ :: _ :: _ =>
        match right with
        | [] => simp at h
        | r :: rs => exact absurd rfl (hend r rs _ _ _ rfl)
    rw [halve.eq_2 _ _ hend, hshort, List.take_zero, List.drop_zero]

variable (compare : α → α → Option Ordering)

def merge : List α → List α → Option (List α)
  | list, [] => some list
  | [], right => some right
  | a :: list, b :: right =>
    (compare a b).bind fun order =>
      if order = .lt then (merge list (b :: right)).map (a :: ·)
      else (merge (a :: list) right).map (b :: ·)

def mergeSort (list : List α) : Option (List α) :=
  match list with
  | [] => some []
  | [a] => some [a]
  | a :: b :: rest =>
    let halves := halve (a :: b :: rest) (a :: b :: rest)
    (mergeSort halves.1).bind fun list =>
      (mergeSort halves.2).bind fun right => merge compare list right
termination_by list.length
decreasing_by
  all_goals
    rw [halve_eq _ _ (Nat.le_refl _)]
    simp only [List.length_take, List.length_drop, List.length_cons]
    omega

end Sorting

section Order

variable (c : α → α → Ordering)

/-- Of two, the one that a merge takes first. -/
def first (a b : α) : α := if c a b = .lt then a else b

def firstOf : Option α → Option α → Option α
  | some a, some b => some (first c a b)
  | some a, none => some a
  | none, b => b

/-- The one of a list that comes first when it is sorted: the last of the least. -/
def least : List α → Option α
  | [] => none
  | a :: list => firstOf c (some a) (least list)

/-- No element is after one that follows it. -/
def Sorted (list : List α) : Prop := list.Pairwise fun a b => (c a b).isLE

end Order

section Least

variable {c : α → α → Ordering} {a b d : α}

theorem firstOf_none (x : Option α) : firstOf c x none = x := by
  cases x <;> rfl

theorem none_firstOf (x : Option α) : firstOf c none x = x := by
  cases x <;> rfl

theorem least_alike {list : List α} (h : ∀ a ∈ list, ∀ b ∈ list, c a b = .eq) :
    least c list = list.getLast? := by
  induction list with
  | nil => rfl
  | cons a list ih =>
    rw [least, ih fun x hx y hy => h x (List.mem_cons_of_mem a hx) y (List.mem_cons_of_mem a hy)]
    cases hlast : list.getLast? with
    | none =>
      rw [List.getLast?_eq_none_iff.mp hlast]
      rfl
    | some b =>
      have hb := List.mem_of_getLast? hlast
      have heq := h a List.mem_cons_self b (List.mem_cons_of_mem a hb)
      rw [List.getLast?_cons_of_ne_nil (List.ne_nil_of_mem hb), hlast, firstOf, first, heq]
      rfl

variable [TransCmp c]

theorem isLE_of_not_lt (h : c a b ≠ .lt) : (c b a).isLE := by
  by_contra hle
  exact h (OrientedCmp.lt_of_not_isLE hle)

theorem first_assoc (a b d : α) : first c (first c a b) d = first c a (first c b d) := by
  unfold first
  by_cases hab : c a b = .lt
  · rw [if_pos hab]
    by_cases hbd : c b d = .lt
    · rw [if_pos hbd, if_pos hab, if_pos (TransCmp.lt_trans hab hbd)]
    · rw [if_neg hbd]
  · rw [if_neg hab]
    by_cases hbd : c b d = .lt
    · rw [if_pos hbd, if_neg hab]
    · have had : c a d ≠ .lt := by
        intro had
        exact hbd (TransCmp.lt_of_isLE_of_lt (isLE_of_not_lt hab) had)
      rw [if_neg hbd, if_neg had]

theorem firstOf_assoc (x y z : Option α) :
    firstOf c (firstOf c x y) z = firstOf c x (firstOf c y z) := by
  cases x with
  | none => cases y <;> rfl
  | some a =>
    cases y with
    | none => cases z <;> rfl
    | some b =>
      cases z with
      | none => rfl
      | some d => exact congrArg some (first_assoc a b d)

theorem least_append (list right : List α) :
    least c (list ++ right) = firstOf c (least c list) (least c right) := by
  induction list with
  | nil => rw [List.nil_append, least, none_firstOf]
  | cons a list ih => rw [List.cons_append, least, ih, least, firstOf_assoc]

end Least

section Merging

variable {compare : α → α → Option Ordering} {c : α → α → Ordering} {list right out : List α}

/-- The comparison has this result for all that are compared. -/
def Total (compare : α → α → Option Ordering) (c : α → α → Ordering) (list : List α) : Prop :=
  ∀ a ∈ list, ∀ b ∈ list, compare a b = some (c a b)

theorem Total.subset {list list' : List α} (h : Total compare c list) (hsub : list' ⊆ list) :
    Total compare c list' := fun a ha b hb => h a (hsub ha) b (hsub hb)

theorem merge_perm (h : merge compare list right = some out) : out.Perm (list ++ right) := by
  induction list, right using merge.induct generalizing out with
  | case1 list =>
    rw [merge] at h
    rw [← Option.some.inj h, List.append_nil]
  | case2 right hne =>
    rw [merge] at h
    · rw [← Option.some.inj h, List.nil_append]
    · exact hne
  | case3 a list b right ihleft ihright =>
    rw [merge] at h
    obtain ⟨order, -, h⟩ := Option.bind_eq_some_iff.mp h
    split_ifs at h
    · obtain ⟨rest, hrest, rfl⟩ := Option.map_eq_some_iff.mp h
      exact (ihleft hrest).cons a
    · obtain ⟨rest, hrest, rfl⟩ := Option.map_eq_some_iff.mp h
      exact ((ihright hrest).cons b).trans List.perm_middle.symm

variable [TransCmp c]

theorem before_all {a b d : α} (hab : (c a b).isLE) (hright : Sorted c (b :: right))
    (hd : d ∈ b :: right) : (c a d).isLE := by
  rcases List.mem_cons.mp hd with rfl | hd
  · exact hab
  · exact TransCmp.isLE_trans hab ((List.pairwise_cons.mp hright).1 d hd)

/-- What a merge gives, and which element of it is found first. -/
theorem merge_spec (htotal : Total compare c (list ++ right)) (hlist : Sorted c list)
    (hright : Sorted c right) :
    ∃ out, merge compare list right = some out ∧ Sorted c out ∧
      ∀ p, out.find? p = firstOf c (list.find? p) (right.find? p) := by
  induction list, right using merge.induct with
  | case1 list =>
    refine ⟨list, by rw [merge], hlist, fun p => ?_⟩
    rw [List.find?_nil, firstOf_none]
  | case2 right hne =>
    refine ⟨right, by rw [merge]; exact hne, hright, fun p => ?_⟩
    rw [List.find?_nil, none_firstOf]
  | case3 a list b right ihleft ihright =>
    have hcompare : compare a b = some (c a b) := htotal a (by simp) b (by simp)
    have hlist' := List.pairwise_cons.mp hlist
    have hright' := List.pairwise_cons.mp hright
    by_cases hlt : c a b = .lt
    · obtain ⟨out, hmerge, hsorted, hfind⟩ :=
        ihleft (htotal.subset (List.subset_cons_self _ _)) hlist'.2 hright
      have hle : (c a b).isLE := by rw [hlt]; rfl
      refine ⟨a :: out, ?_, ?_, fun p => ?_⟩
      · rw [merge, hcompare, Option.bind_some, if_pos hlt, hmerge]
        rfl
      · refine List.pairwise_cons.mpr ⟨fun d hd => ?_, hsorted⟩
        rcases List.mem_append.mp ((merge_perm hmerge).mem_iff.mp hd) with hd | hd
        · exact hlist'.1 d hd
        · exact before_all hle hright hd
      · rw [List.find?_cons, List.find?_cons]
        cases hp : p a with
        | false => exact hfind p
        | true =>
          dsimp only
          cases hother : (b :: right).find? p with
          | none => rfl
          | some d =>
            have hd := List.mem_of_find?_eq_some hother
            have had : c a d = .lt := by
              rcases List.mem_cons.mp hd with rfl | hd
              · exact hlt
              · exact TransCmp.lt_of_lt_of_isLE hlt (hright'.1 d hd)
            rw [firstOf, first, if_pos had]
    · obtain ⟨out, hmerge, hsorted, hfind⟩ :=
        ihright (htotal.subset (by intro x; simp only [List.mem_append, List.mem_cons]; tauto))
          hlist hright'.2
      have hle := isLE_of_not_lt hlt
      refine ⟨b :: out, ?_, ?_, fun p => ?_⟩
      · rw [merge, hcompare, Option.bind_some, if_neg hlt, hmerge]
        rfl
      · refine List.pairwise_cons.mpr ⟨fun d hd => ?_, hsorted⟩
        rcases List.mem_append.mp ((merge_perm hmerge).mem_iff.mp hd) with hd | hd
        · exact before_all hle hlist hd
        · exact hright'.1 d hd
      · cases hp : p b with
        | false =>
          rw [List.find?_cons_of_neg (by simp [hp]), hfind,
            @List.find?_cons_of_neg _ p b right (by simp [hp])]
        | true =>
          rw [List.find?_cons_of_pos hp, @List.find?_cons_of_pos _ p b right hp]
          cases hother : (a :: list).find? p with
          | none => rfl
          | some d =>
            have hd := List.mem_of_find?_eq_some hother
            have hbd := before_all hle hlist hd
            have hdb : c d b ≠ .lt := fun hlt => OrientedCmp.not_isLE_of_lt hlt hbd
            rw [firstOf, first, if_neg hdb]

end Merging

section Sorted

variable {compare : α → α → Option Ordering} {c : α → α → Ordering} {list out : List α}

theorem halve_self (list : List α) :
    halve list list = (list.take (list.length / 2), list.drop (list.length / 2)) :=
  halve_eq list list (Nat.le_refl _)

/-- A list of at least two is sorted by sorting its halves, which are not empty. -/
theorem mergeSort_halves (compare : α → α → Option Ordering) (h : 2 ≤ list.length) :
    ∃ front back, front ++ back = list ∧ front ≠ [] ∧ back ≠ [] ∧
      front.length < list.length ∧ back.length < list.length ∧
      mergeSort compare list = (mergeSort compare front).bind fun front =>
        (mergeSort compare back).bind fun back => merge compare front back := by
  match list with
  | [] => simp at h
  | [_] => simp at h
  | a :: b :: rest =>
    have hlength : (a :: b :: rest).length = rest.length + 2 := rfl
    refine ⟨_, _, List.take_append_drop ((a :: b :: rest).length / 2) _, ?_, ?_, ?_, ?_, ?_⟩
    · apply List.ne_nil_of_length_pos
      rw [List.length_take]
      omega
    · apply List.ne_nil_of_length_pos
      rw [List.length_drop]
      omega
    · rw [List.length_take]
      omega
    · rw [List.length_drop]
      omega
    · rw [mergeSort, halve_self]

theorem mergeSort_short (compare : α → α → Option Ordering) (h : list.length ≤ 1) :
    mergeSort compare list = some list := by
  match list with
  | [] => rw [mergeSort]
  | [a] => rw [mergeSort]
  | _ :: _ :: _ => simp at h

theorem mergeSort_perm (h : mergeSort compare list = some out) : out.Perm list := by
  induction hn : list.length using Nat.strongRecOn generalizing list out with
  | ind n ih =>
    rcases Nat.lt_or_ge 1 list.length with hlong | hshort
    · obtain ⟨front, back, happend, -, -, hfront, hback, heq⟩ := mergeSort_halves compare hlong
      rw [heq] at h
      obtain ⟨front', hsortFront, h⟩ := Option.bind_eq_some_iff.mp h
      obtain ⟨back', hsortBack, h⟩ := Option.bind_eq_some_iff.mp h
      rw [← happend]
      exact (merge_perm h).trans
        ((ih _ (hn ▸ hfront) hsortFront rfl).append (ih _ (hn ▸ hback) hsortBack rfl))
    · rw [mergeSort_short compare hshort] at h
      rw [Option.some.inj h]

/-- Where there is something to compare, everything is compared with something. -/
theorem mergeSort_compared {good : α → Prop}
    (hgood : ∀ a b, (compare a b).isSome → good a ∧ good b)
    (h : mergeSort compare list = some out) (hlong : 2 ≤ list.length) : ∀ a ∈ list, good a := by
  induction hn : list.length using Nat.strongRecOn generalizing list out with
  | ind n ih =>
    obtain ⟨front, back, happend, hfrontNe, hbackNe, hfront, hback, heq⟩ :=
      mergeSort_halves compare hlong
    rw [heq] at h
    obtain ⟨front', hsortFront, h⟩ := Option.bind_eq_some_iff.mp h
    obtain ⟨back', hsortBack, h⟩ := Option.bind_eq_some_iff.mp h
    have hpermFront := mergeSort_perm hsortFront
    have hpermBack := mergeSort_perm hsortBack
    obtain ⟨a, restFront, hfrontEq⟩ : ∃ a rest, front' = a :: rest :=
      List.exists_cons_of_ne_nil fun hnil => hfrontNe (by simpa [hnil] using hpermFront)
    obtain ⟨b, restBack, hbackEq⟩ : ∃ b rest, back' = b :: rest :=
      List.exists_cons_of_ne_nil fun hnil => hbackNe (by simpa [hnil] using hpermBack)
    have hheads : good a ∧ good b := by
      rw [hfrontEq, hbackEq, merge] at h
      obtain ⟨order, horder, -⟩ := Option.bind_eq_some_iff.mp h
      exact hgood a b (by rw [horder]; rfl)
    -- a half of one element has it at its head, a longer one was compared before
    have hhalf : ∀ (half half' : List α) (x : α), half.length < n →
        mergeSort compare half = some half' → x ∈ half' → good x → ∀ y ∈ half, good y := by
      intro half half' x hlt hsort hx hxgood y hy
      rcases Nat.lt_or_ge 1 half.length with hlong | hshort
      · exact ih half.length hlt hsort hlong rfl y hy
      · rw [mergeSort_short compare hshort] at hsort
        rw [← Option.some.inj hsort] at hx
        match half with
        | [] => exact absurd hx List.not_mem_nil
        | [z] =>
          rw [List.mem_singleton.mp hy, ← List.mem_singleton.mp hx]
          exact hxgood
        | _ :: _ :: _ => simp at hshort
    intro y hy
    rw [← happend] at hy
    rcases List.mem_append.mp hy with hy | hy
    · exact hhalf front front' a (hn ▸ hfront) hsortFront (by rw [hfrontEq]; simp) hheads.1 y hy
    · exact hhalf back back' b (hn ▸ hback) hsortBack (by rw [hbackEq]; simp) hheads.2 y hy

variable [TransCmp c]

theorem mergeSort_spec (htotal : Total compare c list) :
    ∃ out, mergeSort compare list = some out ∧ Sorted c out ∧
      ∀ p, out.find? p = least c (list.filter p) := by
  induction hn : list.length using Nat.strongRecOn generalizing list with
  | ind n ih =>
    rcases Nat.lt_or_ge 1 list.length with hlong | hshort
    · obtain ⟨front, back, happend, -, -, hfront, hback, heq⟩ := mergeSort_halves compare hlong
      have htotalFront : Total compare c front := htotal.subset (by rw [← happend]; simp)
      have htotalBack : Total compare c back := htotal.subset (by rw [← happend]; simp)
      obtain ⟨front', hsortFront, hsortedFront, hfindFront⟩ := ih _ (hn ▸ hfront) htotalFront rfl
      obtain ⟨back', hsortBack, hsortedBack, hfindBack⟩ := ih _ (hn ▸ hback) htotalBack rfl
      have htotal' : Total compare c (front' ++ back') := by
        apply htotal.subset
        intro x hx
        rw [← happend]
        exact ((mergeSort_perm hsortFront).append (mergeSort_perm hsortBack)).mem_iff.mp hx
      obtain ⟨out, hmerge, hsorted, hfind⟩ := merge_spec htotal' hsortedFront hsortedBack
      refine ⟨out, ?_, hsorted, fun p => ?_⟩
      · rw [heq, hsortFront, Option.bind_some, hsortBack, Option.bind_some, hmerge]
      · rw [hfind, hfindFront, hfindBack, ← happend, List.filter_append, least_append]
    · refine ⟨list, mergeSort_short compare hshort, ?_, fun p => ?_⟩
      · match list with
        | [] => exact List.Pairwise.nil
        | [a] => exact List.pairwise_singleton _ a
        | _ :: _ :: _ => simp at hshort
      · match list with
        | [] => rfl
        | [a] =>
          rw [List.find?_cons, List.filter_cons]
          cases p a <;> rfl
        | _ :: _ :: _ => simp at hshort

end Sorted

end RetroArch.Library.MergeSort
