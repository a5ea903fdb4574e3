/- `bintree.c`: values inserted by a comparison and visited in its order. -/

import Mathlib.Data.List.Induction
import Mathlib.Data.List.Perm.Basic
import Mathlib.Algebra.Order.Group.Int

namespace RetroArch.LibretroDb.SearchTree

open Std

variable {α σ : Type*}

def einval : ℤ := 22

/-- A node without a value has no children; `calloc` is taken to succeed. -/
inductive BintreeNode (α : Type*)
  | nil
  | node (value : α) (left right : BintreeNode α)

def bintreeInsertInternal (cmp : α → α → ℤ) : BintreeNode α → α → ℤ × BintreeNode α
  | .nil, value => (0, .node value .nil .nil)
  | .node root left right, value =>
    let cmpRes := cmp root value
    if cmpRes > 0 then
      let (rv, left) := bintreeInsertInternal cmp left value
      (rv, .node root left right)
    else if cmpRes < 0 then
      let (rv, right) := bintreeInsertInternal cmp right value
      (rv, .node root left right)
    else (-einval, .node root left right)

/-- The callback works on data of its own. -/
def bintreeIterateInternal (cb : α → σ → ℤ × σ) : BintreeNode α → σ → ℤ × σ
  | .nil, ctx => (0, ctx)
  | .node value left right, ctx =>
    let (rv, ctx) := bintreeIterateInternal cb left ctx
    if rv ≠ 0 then (rv, ctx)
    else
      let (rv, ctx) := cb value ctx
      if rv ≠ 0 then (rv, ctx) else bintreeIterateInternal cb right ctx

structure Bintree (α : Type*) where
  root : BintreeNode α
  cmp : α → α → ℤ

def bintreeNew (cmp : α → α → ℤ) : Bintree α := ⟨.nil, cmp⟩

def bintreeInsert (t : Bintree α) (value : α) : ℤ × Bintree α :=
  let (rv, root) := bintreeInsertInternal t.cmp t.root value
  (rv, { t with root := root })

def bintreeIterate (t : Bintree α) (cb : α → σ → ℤ × σ) (ctx : σ) : ℤ × σ :=
  bintreeIterateInternal cb t.root ctx

/-- The tree after some calls of `bintree_insert`. -/
def insertAll (cmp : α → α → ℤ) (values : List α) : Bintree α :=
  values.foldl (fun t value => (bintreeInsert t value).2) (bintreeNew cmp)

/-- The order that the sign of the comparison makes. -/
def order (cmp : α → α → ℤ) (a b : α) : Ordering := compare (cmp a b) 0

/-- The first of every kind of equal values. -/
def firsts (cmp : α → α → ℤ) : List α → List α
  | [] => []
  | v :: values => v :: (firsts cmp values).filter (fun w => cmp v w ≠ 0)

/-- Call the callback for one value after the other, up to the first that it does not take. -/
def visit (cb : α → σ → ℤ × σ) : List α → σ → ℤ × σ
  | [], ctx => (0, ctx)
  | v :: values, ctx =>
    let (rv, ctx) := cb v ctx
    if rv ≠ 0 then (rv, ctx) else visit cb values ctx

structure OrderedSet (cmp : α → α → ℤ) (values : List α) : Prop where
  returns : ∀ v, (bintreeInsert (insertAll cmp values) v).1 = 0 ↔ ∀ u ∈ values, cmp u v ≠ 0
  refuses : ∀ v, (bintreeInsert (insertAll cmp values) v).1 ≠ 0 →
    (bintreeInsert (insertAll cmp values) v).2 = insertAll cmp values
  iterates : ∃ sorted : List α, sorted.Pairwise (fun a b => cmp a b < 0) ∧
    sorted.Perm (firsts cmp values) ∧
    ∀ {σ : Type} (cb : α → σ → ℤ × σ) (ctx : σ),
      bintreeIterate (insertAll cmp values) cb ctx = visit cb sorted ctx

section Order

variable {cmp : α → α → ℤ} {a b c : α}

theorem order_lt : order cmp a b = .lt ↔ cmp a b < 0 := compare_lt_iff_lt

theorem order_eq : order cmp a b = .eq ↔ cmp a b = 0 := Std.compare_eq_iff_eq

variable [TransCmp (order cmp)]

theorem cmp_self (a : α) : cmp a a = 0 := order_eq.mp ReflCmp.compare_self

theorem cmp_swap : 0 < cmp a b ↔ cmp b a < 0 := by
  have hswap : order cmp a b = .gt ↔ order cmp b a = .lt := OrientedCmp.gt_iff_lt
  rw [order_lt] at hswap
  rw [← hswap]
  exact compare_gt_iff_gt.symm

theorem cmp_lt_trans (h : cmp a b < 0) (h' : cmp b c < 0) : cmp a c < 0 :=
  order_lt.mp (TransCmp.lt_trans (order_lt.mpr h) (order_lt.mpr h'))

theorem cmp_eq_trans (h : cmp a b = 0) (h' : cmp b c = 0) : cmp a c = 0 :=
  order_eq.mp (TransCmp.eq_trans (order_eq.mpr h) (order_eq.mpr h'))

end Order

section Firsts

variable {cmp : α → α → ℤ} {u v : α} {values : List α}

theorem firsts_subset (h : u ∈ firsts cmp values) : u ∈ values := by
  induction values with
  | nil => exact h
  | cons w values ih =>
    rw [firsts, List.mem_cons] at h
    rcases h with rfl | h
    · exact List.mem_cons_self
    · exact List.mem_cons_of_mem w (ih (List.mem_of_mem_filter h))

theorem firsts_append_singleton (values : List α) (v : α) : firsts cmp (values ++ [v]) =
    firsts cmp values ++ [v].filter fun v => ∀ u ∈ values, cmp u v ≠ 0 := by
  induction values with
  | nil => simp [firsts]
  | cons w values ih =>
    rw [List.cons_append, firsts, ih, firsts, List.filter_append, List.filter_filter,
      List.cons_append]
    congr 2
    apply List.filter_congr
    intro x _
    simp

variable [TransCmp (order cmp)]

theorem exists_first (h : u ∈ values) : ∃ f ∈ firsts cmp values, cmp f u = 0 := by
  induction values with
  | nil => exact absurd h List.not_mem_nil
  | cons w values ih =>
    rcases List.mem_cons.mp h with rfl | h
    · exact ⟨u, List.mem_cons_self, cmp_self u⟩
    · obtain ⟨f, hf, heq⟩ := ih h
      by_cases hw : cmp w f = 0
      · exact ⟨w, List.mem_cons_self, cmp_eq_trans hw heq⟩
      · exact ⟨f, List.mem_cons_of_mem w (List.mem_filter.mpr ⟨hf, decide_eq_true hw⟩), heq⟩

theorem firsts_apart : (∀ u ∈ firsts cmp values, cmp u v ≠ 0) ↔ ∀ u ∈ values, cmp u v ≠ 0 := by
  constructor
  · intro h u hu heq
    obtain ⟨f, hf, hfu⟩ : ∃ f ∈ firsts cmp values, cmp f u = 0 := exists_first hu
    exact h f hf (cmp_eq_trans hfu heq)
  · intro h u hu
    exact h u (firsts_subset hu)

end Firsts

/-- The values from left to right. -/
def inorder : BintreeNode α → List α
  | .nil => []
  | .node value left right => inorder left ++ value :: inorder right

theorem visit_append (cb : α → σ → ℤ × σ) (xs ys : List α) (ctx : σ) :
    visit cb (xs ++ ys) ctx =
      if (visit cb xs ctx).1 ≠ 0 then visit cb xs ctx else visit cb ys (visit cb xs ctx).2 := by
  induction xs generalizing ctx with
  | nil => rfl
  | cons x xs ih =>
    simp only [List.cons_append, visit]
    split_ifs with hstop
    · rfl
    · rw [ih, if_pos ‹_›]
    · rw [ih, if_neg ‹_›]

theorem bintreeIterateInternal_eq (cb : α → σ → ℤ × σ) (n : BintreeNode α) (ctx : σ) :
    bintreeIterateInternal cb n ctx = visit cb (inorder n) ctx := by
  induction n generalizing ctx with
  | nil => rfl
  | node value left right ihleft ihright =>
    simp only [bintreeIterateInternal, inorder, visit_append, visit, ihleft, ihright]

section Insertion

variable {cmp : α → α → ℤ} [TransCmp (order cmp)] {n : BintreeNode α} {values : List α}

theorem bintreeInsertInternal_spec (h : (inorder n).Pairwise fun a b => cmp a b < 0) (v : α) :
    (∃ xs ys, inorder n = xs ++ ys ∧ (∀ x ∈ xs, cmp x v < 0) ∧ (∀ y ∈ ys, cmp v y < 0) ∧
      (bintreeInsertInternal cmp n v).1 = 0 ∧
      inorder (bintreeInsertInternal cmp n v).2 = xs ++ v :: ys) ∨
    (∃ u ∈ inorder n, cmp u v = 0) ∧ bintreeInsertInternal cmp n v = (-einval, n) := by
  induction n with
  | nil =>
    exact .inl ⟨[], [], rfl, fun x hx => absurd hx List.not_mem_nil,
      fun y hy => absurd hy List.not_mem_nil, rfl, rfl⟩
  | node root left right ihleft ihright =>
    obtain ⟨hleft, hnode, hbelow⟩ := List.pairwise_append.mp h
    obtain ⟨habove, hright⟩ := List.pairwise_cons.mp hnode
    rw [bintreeInsertInternal]
    dsimp only
    split_ifs with hgreater hless
    · have hroot : cmp v root < 0 := cmp_swap.mp hgreater
      rcases ihleft hleft with ⟨xs, ys, hsplit, hxs, hys, hrv, hplace⟩ | ⟨⟨u, hu, heq⟩, hsame⟩
      · refine .inl ⟨xs, ys ++ root :: inorder right, ?_, hxs, ?_, hrv, ?_⟩
        · rw [inorder, hsplit, List.append_assoc]
        · intro y hy
          rcases List.mem_append.mp hy with hy | hy
          · exact hys y hy
          · rcases List.mem_cons.mp hy with rfl | hy
            · exact hroot
            · exact cmp_lt_trans hroot (habove y hy)
        · rw [inorder, hplace, List.append_assoc, List.cons_append]
      · refine .inr ⟨⟨u, List.mem_append_left _ hu, heq⟩, ?_⟩
        rw [hsame]
    · rcases ihright hright with ⟨xs, ys, hsplit, hxs, hys, hrv, hplace⟩ | ⟨⟨u, hu, heq⟩, hsame⟩
      · refine .inl ⟨inorder left ++ root :: xs, ys, ?_, ?_, hys, hrv, ?_⟩
        · rw [inorder, hsplit, List.append_assoc, List.cons_append]
        · intro x hx
          rcases List.mem_append.mp hx with hx | hx
          · exact cmp_lt_trans (hbelow x hx root List.mem_cons_self) hless
          · rcases List.mem_cons.mp hx with rfl | hx
            · exact hless
            · exact hxs x hx
        · rw [inorder, hplace, List.append_assoc, List.cons_append]
      · refine .inr ⟨⟨u, List.mem_append_right _ (List.mem_cons_of_mem root hu), heq⟩, ?_⟩
        rw [hsame]
    · refine .inr ⟨⟨root, List.mem_append_right _ List.mem_cons_self, ?_⟩, rfl⟩
      omega

/-- The values that were taken, in order. -/
structure Holds (cmp : α → α → ℤ) (n : BintreeNode α) (values : List α) : Prop where
  sorted : (inorder n).Pairwise fun a b => cmp a b < 0
  taken : (inorder n).Perm (firsts cmp values)

theorem Holds.apart (h : Holds cmp n values) {v : α} :
    (∀ u ∈ inorder n, cmp u v ≠ 0) ↔ ∀ u ∈ values, cmp u v ≠ 0 := by
  refine Iff.trans ?_ firsts_apart
  constructor
  · intro hall u hu
    exact hall u (h.taken.mem_iff.mpr hu)
  · intro hall u hu
    exact hall u (h.taken.mem_iff.mp hu)

theorem Holds.insert (h : Holds cmp n values) (v : α) :
    Holds cmp (bintreeInsertInternal cmp n v).2 (values ++ [v]) := by
  rcases bintreeInsertInternal_spec h.sorted v with
    ⟨xs, ys, hsplit, hxs, hys, -, hplace⟩ | ⟨⟨u, hu, heq⟩, hsame⟩
  · have hapart : ∀ u ∈ inorder n, cmp u v ≠ 0 := by
      intro u hu
      rw [hsplit] at hu
      rcases List.mem_append.mp hu with hu | hu
      · exact (hxs u hu).ne
      · exact (cmp_swap.mpr (hys u hu)).ne'
    constructor
    · have hsorted := h.sorted
      rw [hsplit, List.pairwise_append] at hsorted
      rw [hplace, List.pairwise_append, List.pairwise_cons]
      refine ⟨hsorted.1, ⟨hys, hsorted.2.1⟩, ?_⟩
      intro x hx y hy
      rcases List.mem_cons.mp hy with rfl | hy
      · exact hxs x hx
      · exact hsorted.2.2 x hx y hy
    · have hkept : [v].filter (fun v => ∀ u ∈ values, cmp u v ≠ 0) = [v] :=
        List.filter_eq_self.mpr fun w hw => by
          rw [List.mem_singleton.mp hw]
          exact decide_eq_true (h.apart.mp hapart)
      rw [hplace, firsts_append_singleton, hkept]
      have hperm := h.taken
      rw [hsplit] at hperm
      exact List.perm_middle.trans ((hperm.cons v).trans (List.perm_append_singleton v _).symm)
  · have hequal : ¬∀ u ∈ values, cmp u v ≠ 0 := fun hall => h.apart.mpr hall u hu heq
    rw [hsame]
    refine ⟨h.sorted, ?_⟩
    have hdropped : [v].filter (fun v => ∀ u ∈ values, cmp u v ≠ 0) = [] :=
      List.filter_eq_nil_iff.mpr fun w hw => by
        rw [List.mem_singleton.mp hw, decide_eq_true_eq]
        exact hequal
    rw [firsts_append_singleton, hdropped, List.append_nil]
    exact h.taken

/-- The step lemma over a whole run. -/
theorem insertAll_holds (values : List α) :
    (insertAll cmp values).cmp = cmp ∧ Holds cmp (insertAll cmp values).root values := by
  induction values using List.reverseRecOn with
  | nil => exact ⟨rfl, List.Pairwise.nil, List.Perm.nil⟩
  | append_singleton values v ih =>
    obtain ⟨hcmp, hholds⟩ := ih
    have hstep : insertAll cmp (values ++ [v]) = (bintreeInsert (insertAll cmp values) v).2 := by
      rw [insertAll, List.foldl_append]
      rfl
    rw [hstep]
    refine ⟨hcmp, ?_⟩
    have hroot : (bintreeInsert (insertAll cmp values) v).2.root =
        (bintreeInsertInternal cmp (insertAll cmp values).root v).2 := by
      rw [bintreeInsert, hcmp]
    rw [hroot]
    exact hholds.insert v

theorem orderedSet (values : List α) : OrderedSet cmp values := by
  obtain ⟨hcmp, hholds⟩ : (insertAll cmp values).cmp = cmp ∧ Holds cmp _ values :=
    insertAll_holds values
  have hinsert : ∀ v, bintreeInsert (insertAll cmp values) v =
      ((bintreeInsertInternal cmp (insertAll cmp values).root v).1,
        { insertAll cmp values with
          root := (bintreeInsertInternal cmp (insertAll cmp values).root v).2 }) := by
    intro v
    simp only [bintreeInsert, hcmp]
  have hrefused : ¬-einval = 0 := by decide
  refine ⟨?_, ?_, (inorder (insertAll cmp values).root), hholds.sorted, hholds.taken, ?_⟩
  · intro v
    rw [hinsert, ← hholds.apart]
    rcases bintreeInsertInternal_spec hholds.sorted v with
      ⟨xs, ys, hsplit, hxs, hys, hrv, -⟩ | ⟨⟨u, hu, heq⟩, hsame⟩
    · refine ⟨fun _ u hu => ?_, fun _ => hrv⟩
      rw [hsplit] at hu
      rcases List.mem_append.mp hu with hu | hu
      · exact (hxs u hu).ne
      · exact (cmp_swap.mpr (hys u hu)).ne'
    · rw [hsame]
      exact ⟨fun h => absurd h hrefused, fun h => absurd heq (h u hu)⟩
  · intro v hrv
    rw [hinsert] at hrv ⊢
    rcases bintreeInsertInternal_spec hholds.sorted v with
      ⟨xs, ys, -, -, -, hzero, -⟩ | ⟨-, hsame⟩
    · exact absurd hzero hrv
    · rw [hsame]
  · intro σ cb ctx
    exact bintreeIterateInternal_eq cb _ ctx

theorem order_sub : order (fun a b : ℤ => a - b) = compare := by
  funext a b
  rcases Int.lt_trichotomy a b with h | rfl | h
  · rw [compare_lt_iff_lt.mpr h, order_lt]
    omega
  · rw [Std.compare_eq_iff_eq.mpr rfl, order_eq]
    omega
  · rw [compare_gt_iff_gt.mpr h, order, compare_gt_iff_gt]
    omega

/-- For numbers compared by their difference. -/
theorem orderedSet_sub : OrderedSet (fun a b : ℤ => a - b) [2, 1, 2] := by
  have htrans : TransCmp (order fun a b : ℤ => a - b) := by
    rw [order_sub]
    infer_instance
  exact orderedSet [2, 1, 2]

end Insertion

end RetroArch.LibretroDb.SearchTree
