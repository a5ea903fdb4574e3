/- The cache of translated addresses, sorted before it is searched. -/

import RetroArch.Cheevos.Mmap
import RetroArch.Library.BinarySearch
import RetroArch.Library.Run

namespace RetroArch.Cheevos.Fixup

open Mmap Library.BinarySearch Library.Run

structure RcheevosFixup where
  address : BitVec 32
  location : Option SizeT
  deriving DecidableEq

/-- `count` is the number of the elements. -/
structure RcheevosFixups where
  elements : List RcheevosFixup
  capacity : ℕ
  dirty : Bool
  deriving DecidableEq

def rcheevosCmpaddr (f1 f2 : BitVec 32) : Ordering :=
  if f1 < f2 then .lt else if f1 > f2 then .gt else .eq

def rcheevosFixupInit : RcheevosFixups := ⟨[], 0, false⟩

/-- What a query leaves and answers, and whether it evaluated `rcheevos_patch_address`. -/
structure Found where
  fixups : RcheevosFixups
  location : Option SizeT
  patched : Bool

def newCapacity (capacity : ℕ) : ℕ := if capacity = 0 then 16 else capacity * 2 % 2 ^ 32

/-- The allocation succeeds; there is no result where the element has no place in it. -/
def rcheevosFixupFind (patchAddress : BitVec 32 → Option SizeT) (fixups : RcheevosFixups)
    (address : BitVec 32) : Option Found :=
  let fixups :=
    if fixups.dirty then
      { fixups with
        elements := qsort (fun f1 f2 => rcheevosCmpaddr f1.address f2.address) fixups.elements
        dirty := false }
    else fixups
  match bsearch (fun f => rcheevosCmpaddr address f.address) fixups.elements.length
      fixups.elements with
  | some found => some ⟨fixups, found.location, false⟩
  | none =>
    let capacity :=
      if fixups.elements.length = fixups.capacity then newCapacity fixups.capacity
      else fixups.capacity
    if fixups.elements.length < capacity then
      let location := patchAddress address
      some ⟨⟨fixups.elements ++ [⟨address, location⟩], capacity, true⟩, location, true⟩
    else none

/-- The cache with the answers it gave and the addresses for which it evaluated
`rcheevos_patch_address`. -/
structure Session where
  fixups : RcheevosFixups
  answers : List (Option SizeT)
  patched : List (BitVec 32)

def query (patchAddress : BitVec 32 → Option SizeT) (s : Session) (address : BitVec 32) :
    Option Session :=
  (rcheevosFixupFind patchAddress s.fixups address).map fun found =>
    ⟨found.fixups, s.answers ++ [found.location],
      s.patched ++ if found.patched then [address] else []⟩

def Session.start : Session := ⟨rcheevosFixupInit, [], []⟩

structure Transparent (patchAddress : BitVec 32 → Option SizeT) (queries : List (BitVec 32))
    (s : Session) : Prop where
  answers : s.answers = queries.map patchAddress
  once : s.patched.Nodup
  distinct : (s.fixups.elements.map RcheevosFixup.address).Nodup
  queried : ∀ address, address ∈ s.fixups.elements.map RcheevosFixup.address ↔ address ∈ queries

/-- All queries are answered, and the cache cannot be told from `rcheevos_patch_address`. -/
def Serves (patchAddress : BitVec 32 → Option SizeT) (queries : List (BitVec 32)) : Prop :=
  ∃ s, run (query patchAddress) .start queries = some s ∧ Transparent patchAddress queries s

section Invariant

variable {patchAddress : BitVec 32 → Option SizeT} {fixups : RcheevosFixups} {address : BitVec 32}

/-- Entries are compared by the numbers that their addresses are. -/
def addressKey (f : RcheevosFixup) : ℕ := f.address.toNat

theorem rcheevosCmpaddr_eq (f1 f2 : BitVec 32) :
    rcheevosCmpaddr f1 f2 = compare f1.toNat f2.toNat := by
  unfold rcheevosCmpaddr
  have hlt : ∀ a b : BitVec 32, a < b ↔ a.toNat < b.toNat := fun a b => BitVec.lt_def
  rcases lt_trichotomy f1.toNat f2.toNat with hless | heq | hmore
  · rw [if_pos ((hlt f1 f2).mpr hless), compare_lt_iff_lt.mpr hless]
  · obtain rfl := BitVec.eq_of_toNat_eq heq
    have hirrefl := mt (hlt f1 f1).mp (lt_irrefl _)
    rw [if_neg hirrefl, if_neg hirrefl, compare_eq_iff_eq.mpr rfl]
  · rw [if_neg (mt (hlt f1 f2).mp (not_lt_of_gt hmore)), if_pos ((hlt f2 f1).mpr hmore),
      compare_gt_iff_gt.mpr hmore]

/-- Sixteen places, doubled some times, at most to half of what an `unsigned` holds. -/
def Capacity (capacity : ℕ) : Prop := capacity = 0 ∨ ∃ k ≤ 27, capacity = 16 * 2 ^ k

/-- A set of right entries, which is sorted unless it is marked. -/
structure Cached (patchAddress : BitVec 32 → Option SizeT) (fixups : RcheevosFixups) : Prop where
  distinct : (fixups.elements.map RcheevosFixup.address).Nodup
  right : ∀ f ∈ fixups.elements, f.location = patchAddress f.address
  sorted : fixups.dirty = false → Growing addressKey fixups.elements
  capacity : Capacity fixups.capacity
  fits : fixups.elements.length ≤ fixups.capacity

theorem cached_init : Cached patchAddress rcheevosFixupInit :=
  ⟨List.nodup_nil, fun _ hf => absurd hf List.not_mem_nil, fun _ => List.Pairwise.nil, Or.inl rfl,
    Nat.le_refl 0⟩

/-- What the search sees. -/
def sortedFixups (fixups : RcheevosFixups) : RcheevosFixups :=
  if fixups.dirty then
    { fixups with
      elements := qsort (fun f1 f2 => rcheevosCmpaddr f1.address f2.address) fixups.elements
      dirty := false }
  else fixups

theorem sortedFixups_perm (fixups : RcheevosFixups) :
    (sortedFixups fixups).elements.Perm fixups.elements := by
  unfold sortedFixups
  split_ifs
  · exact qsort_perm _ _
  · exact List.Perm.refl _

theorem Cached.sortedFixups (h : Cached patchAddress fixups) :
    Cached patchAddress (sortedFixups fixups) ∧ (Fixup.sortedFixups fixups).dirty = false := by
  have hperm := sortedFixups_perm fixups
  have hgrowing : Growing addressKey (Fixup.sortedFixups fixups).elements ∧
      (Fixup.sortedFixups fixups).dirty = false ∧
      (Fixup.sortedFixups fixups).capacity = fixups.capacity := by
    unfold Fixup.sortedFixups
    cases hdirty : fixups.dirty with
    | false => exact ⟨h.sorted hdirty, hdirty, rfl⟩
    | true =>
      refine ⟨?_, rfl, rfl⟩
      rw [if_pos rfl]
      have hcmp : (fun f1 f2 : RcheevosFixup => rcheevosCmpaddr f1.address f2.address) =
          fun f1 f2 => compare (addressKey f1) (addressKey f2) := by
        funext f1 f2
        exact rcheevosCmpaddr_eq _ _
      have hdistinct := h.distinct.map BitVec.toNat_injective
      rw [List.map_map] at hdistinct
      rw [hcmp]
      exact qsort_growing hdistinct
  obtain ⟨hsorted, hclean, hcapacity⟩ := hgrowing
  refine ⟨⟨?_, ?_, fun _ => hsorted, hcapacity ▸ h.capacity, ?_⟩, hclean⟩
  · exact (hperm.map _).nodup_iff.mpr h.distinct
  · exact fun f hf => h.right f (hperm.mem_iff.mp hf)
  · rw [hcapacity, hperm.length_eq]
    exact h.fits

theorem newCapacity_cases {capacity : ℕ} (h : Capacity capacity) :
    Capacity (newCapacity capacity) ∧ capacity < newCapacity capacity ∨
      capacity = 2 ^ 31 ∧ newCapacity capacity = 0 := by
  unfold newCapacity
  rcases h with rfl | ⟨k, hk, rfl⟩
  · exact Or.inl ⟨Or.inr ⟨0, by decide, rfl⟩, by decide⟩
  · have hpos : 16 * 2 ^ k ≠ 0 := Nat.mul_ne_zero (by decide) (Nat.two_pow_pos k).ne'
    rw [if_neg hpos]
    rcases Nat.lt_or_eq_of_le hk with hless | rfl
    · have hbound : 2 ^ k ≤ 2 ^ 26 := Nat.pow_le_pow_right (by decide) (by omega)
      have hdouble : 16 * 2 ^ k * 2 % 2 ^ 32 = 16 * 2 ^ (k + 1) := by
        rw [Nat.mod_eq_of_lt (by omega), Nat.pow_succ]
        omega
      rw [hdouble]
      refine Or.inl ⟨Or.inr ⟨k + 1, hless, rfl⟩, ?_⟩
      rw [Nat.pow_succ]
      omega
    · exact Or.inr ⟨rfl, rfl⟩

theorem capacity_le {capacity : ℕ} (h : Capacity capacity) : capacity ≤ 2 ^ 31 := by
  rcases h with rfl | ⟨k, hk, rfl⟩
  · decide
  · have hbound : 2 ^ k ≤ 2 ^ 27 := Nat.pow_le_pow_right (by decide) hk
    omega

/-- A query finds its entry, appends one, or is the first that has no place. -/
theorem find_cases (h : Cached patchAddress fixups) (address : BitVec 32) :
    (address ∈ fixups.elements.map RcheevosFixup.address ∧
      ∃ fixups', rcheevosFixupFind patchAddress fixups address =
        some ⟨fixups', patchAddress address, false⟩ ∧ Cached patchAddress fixups' ∧
        fixups'.elements.Perm fixups.elements) ∨
    (address ∉ fixups.elements.map RcheevosFixup.address ∧
      ((∃ fixups', rcheevosFixupFind patchAddress fixups address =
          some ⟨fixups', patchAddress address, true⟩ ∧ Cached patchAddress fixups' ∧
          fixups'.elements.Perm (fixups.elements ++ [⟨address, patchAddress address⟩])) ∨
        fixups.elements.length = 2 ^ 31 ∧
          rcheevosFixupFind patchAddress fixups address = none)) := by
  have hperm := sortedFixups_perm fixups
  obtain ⟨hcached, hclean⟩ := h.sortedFixups
  have hsearch := bsearch_cases (hcached.sorted hclean) address.toNat (Nat.le_refl _)
  have hfind : rcheevosFixupFind patchAddress fixups address =
      match bsearch (fun f => compare address.toNat (addressKey f)) (sortedFixups fixups).elements.length
          (sortedFixups fixups).elements with
      | some found => some ⟨sortedFixups fixups, found.location, false⟩
      | none =>
        let capacity :=
          if (sortedFixups fixups).elements.length = (sortedFixups fixups).capacity then
            newCapacity (sortedFixups fixups).capacity
          else (sortedFixups fixups).capacity
        if (sortedFixups fixups).elements.length < capacity then
          let location := patchAddress address
          some ⟨⟨(sortedFixups fixups).elements ++ [⟨address, location⟩], capacity, true⟩,
            location, true⟩
        else none := by
    have hcmp : (fun f : RcheevosFixup => rcheevosCmpaddr address f.address) =
        fun f => compare address.toNat (addressKey f) := by
      funext f
      exact rcheevosCmpaddr_eq _ _
    rw [← hcmp]
    rfl
  have hmem : address ∈ fixups.elements.map RcheevosFixup.address ↔
      ∃ f ∈ (sortedFixups fixups).elements, f.address = address := by
    rw [List.mem_map]
    constructor
    · rintro ⟨f, hf, rfl⟩
      exact ⟨f, hperm.mem_iff.mpr hf, rfl⟩
    · rintro ⟨f, hf, rfl⟩
      exact ⟨f, hperm.mem_iff.mp hf, rfl⟩
  rw [hfind, hmem]
  generalize sortedFixups fixups = fixups₁ at hcached hperm hsearch
  rcases hsearch with ⟨f, hf, hkey, hfound⟩ | ⟨hother, hfound⟩
  · left
    obtain rfl := BitVec.eq_of_toNat_eq hkey
    refine ⟨⟨f, hf, rfl⟩, fixups₁, ?_, hcached, hperm⟩
    rw [hfound]
    dsimp only
    rw [hcached.right f hf]
  · right
    have hnone : ∀ f ∈ fixups₁.elements, f.address ≠ address :=
      fun f hf heq => hother f hf (congrArg BitVec.toNat heq)
    refine ⟨fun ⟨f, hf, heq⟩ => hnone f hf heq, ?_⟩
    rw [hfound]
    dsimp only
    have hfits := hcached.fits
    have happended : ∀ capacity, Capacity capacity → fixups₁.elements.length < capacity →
        Cached patchAddress
          ⟨fixups₁.elements ++ [⟨address, patchAddress address⟩], capacity, true⟩ := by
      intro capacity hcapacity hlt
      refine ⟨?_, ?_, (fun hdirty => nomatch hdirty), hcapacity, ?_⟩
      · rw [List.map_append, List.map_singleton, List.nodup_append]
        refine ⟨hcached.distinct, List.nodup_singleton _, ?_⟩
        rintro a ha b hb rfl
        obtain ⟨f, hf, rfl⟩ := List.mem_map.mp ha
        exact hnone f hf (List.mem_singleton.mp hb)
      · intro f hf
        rcases List.mem_append.mp hf with hf | hf
        · exact hcached.right f hf
        · rw [List.mem_singleton.mp hf]
      · rw [List.length_append, List.length_singleton]
        exact hlt
    by_cases hfull : fixups₁.elements.length = fixups₁.capacity
    · rw [if_pos hfull]
      rcases newCapacity_cases hcached.capacity with ⟨hcapacity, hlt⟩ | ⟨hmax, hzero⟩
      · left
        have hroom : fixups₁.elements.length < newCapacity fixups₁.capacity := hfull ▸ hlt
        exact ⟨_, if_pos hroom, happended _ hcapacity hroom, hperm.append_right _⟩
      · right
        rw [hzero]
        refine ⟨?_, if_neg (Nat.not_lt_zero _)⟩
        rw [← hperm.length_eq, hfull, hmax]
    · left
      rw [if_neg hfull]
      have hroom : fixups₁.elements.length < fixups₁.capacity := lt_of_le_of_ne hfits hfull
      exact ⟨_, if_pos hroom, happended _ hcached.capacity hroom, hperm.append_right _⟩

end Invariant

section Runs

variable {patchAddress : BitVec 32 → Option SizeT} {s : Session} {queries : List (BitVec 32)}

/-- The entries are those of the addresses for which `rcheevos_patch_address` was evaluated. -/
structure Books (patchAddress : BitVec 32 → Option SizeT) (queries : List (BitVec 32))
    (s : Session) : Prop where
  cached : Cached patchAddress s.fixups
  answers : s.answers = queries.map patchAddress
  patched : s.patched.Perm (s.fixups.elements.map RcheevosFixup.address)
  queried : ∀ address, address ∈ s.fixups.elements.map RcheevosFixup.address ↔ address ∈ queries

theorem books_start : Books patchAddress [] .start :=
  ⟨cached_init, rfl, List.Perm.refl _, fun _ => Iff.rfl⟩

theorem Books.query (h : Books patchAddress queries s) (address : BitVec 32) :
    (∃ t, Fixup.query patchAddress s address = some t ∧
        Books patchAddress (queries ++ [address]) t) ∨
      address ∉ queries ∧ s.fixups.elements.length = 2 ^ 31 ∧
        Fixup.query patchAddress s address = none := by
  have hlast : ∀ other, other ∈ queries ++ [address] ↔ other ∈ queries ∨ other = address := by
    intro other
    rw [List.mem_append, List.mem_singleton]
  unfold Fixup.query
  rcases find_cases h.cached address with
    ⟨hmem, fixups', hfind, hcached, hperm⟩ |
      ⟨hmem, ⟨fixups', hfind, hcached, hperm⟩ | ⟨hfull, hfind⟩⟩
  · left
    rw [hfind]
    refine ⟨_, rfl, hcached, ?_, ?_, ?_⟩
    · rw [h.answers, List.map_append]
      rfl
    · change (s.patched ++ []).Perm _
      rw [List.append_nil]
      exact h.patched.trans (hperm.map _).symm
    · intro other
      rw [hlast, (hperm.map _).mem_iff, h.queried]
      constructor
      · exact Or.inl
      · rintro (hother | rfl)
        · exact hother
        · exact (h.queried other).mp hmem
  · left
    rw [hfind]
    have haddresses := hperm.map RcheevosFixup.address
    rw [List.map_append] at haddresses
    refine ⟨_, rfl, hcached, ?_, ?_, ?_⟩
    · rw [h.answers, List.map_append]
      rfl
    · exact (h.patched.append_right _).trans haddresses.symm
    · intro other
      rw [hlast, haddresses.mem_iff, List.mem_append, List.map_singleton, List.mem_singleton,
        h.queried]
  · right
    rw [hfind]
    exact ⟨fun hqueried => hmem ((h.queried address).mpr hqueried), hfull, rfl⟩

theorem Books.length (h : Books patchAddress queries s) :
    s.fixups.elements.length = queries.dedup.length := by
  have hperm : (s.fixups.elements.map RcheevosFixup.address).Perm queries.dedup := by
    rw [List.perm_ext_iff_of_nodup h.cached.distinct (List.nodup_dedup _)]
    intro address
    rw [List.mem_dedup]
    exact h.queried address
  rw [← hperm.length_eq, List.length_map]

theorem Books.length_le (h : Books patchAddress queries s) : queries.dedup.length ≤ 2 ^ 31 := by
  rw [← h.length]
  exact h.cached.fits.trans (capacity_le h.cached.capacity)

theorem Books.transparent (h : Books patchAddress queries s) :
    Transparent patchAddress queries s :=
  ⟨h.answers, h.patched.nodup_iff.mpr h.cached.distinct, h.cached.distinct, h.queried⟩

theorem Books.after (h : Books patchAddress queries s) (more : List (BitVec 32)) :
    (∃ t, run (Fixup.query patchAddress) s more = some t ∧
        Books patchAddress (queries ++ more) t) ∨
      2 ^ 31 < (queries ++ more).dedup.length ∧
        run (Fixup.query patchAddress) s more = none := by
  induction more generalizing queries s with
  | nil =>
    rw [List.append_nil]
    exact Or.inl ⟨s, rfl, h⟩
  | cons address more ih =>
    have hassoc : queries ++ address :: more = queries ++ [address] ++ more := by simp
    rw [run, hassoc]
    rcases h.query address with ⟨t, ht, hbooks⟩ | ⟨hnew, hfull, hnone⟩
    · rw [ht]
      exact ih hbooks
    · right
      rw [hnone]
      refine ⟨?_, rfl⟩
      have hsub : (address :: queries.dedup).Subperm (queries ++ [address] ++ more).dedup := by
        apply List.subperm_of_subset
        · exact List.nodup_cons.mpr ⟨mt List.mem_dedup.mp hnew, List.nodup_dedup _⟩
        · intro other hother
          rw [List.mem_dedup, List.mem_append, List.mem_append, List.mem_singleton]
          rcases List.mem_cons.mp hother with rfl | hother
          · exact Or.inl (Or.inr rfl)
          · exact Or.inl (Or.inl (List.mem_dedup.mp hother))
      have hle := hsub.length_le
      rw [List.length_cons, ← h.length, hfull] at hle
      exact hle

/-- The cache serves as long as there are at most `2 ^ 31` different addresses. -/
theorem serves_iff (memory : List RetroCtxMemoryInfo) (descs : List RarchMemoryDescriptor)
    (console : Console) (queries : List (BitVec 32)) :
    Serves (fun address => rcheevosPatchAddress memory descs address console) queries ↔
      queries.dedup.length ≤ 2 ^ 31 := by
  set patchAddress := fun address => rcheevosPatchAddress memory descs address console
  have hbooks : Books patchAddress [] .start := books_start
  rcases hbooks.after queries with ⟨t, ht, ht'⟩ | ⟨hmany, hnone⟩
  · exact iff_of_true ⟨t, ht, ht'.transparent⟩ ht'.length_le
  · rw [List.nil_append] at hmany
    refine iff_of_false ?_ (Nat.not_le.mpr hmany)
    rintro ⟨s, hs, -⟩
    rw [hnone] at hs
    exact nomatch hs

/-- The doubled capacity of `2 ^ 31` is zero. -/
theorem many_addresses_lost :
    ¬Serves (fun address => rcheevosPatchAddress [] [] address .other)
      ((List.range (2 ^ 31 + 1)).map (BitVec.ofNat 32)) := by
  rw [serves_iff]
  have hnodup : ((List.range (2 ^ 31 + 1)).map (BitVec.ofNat 32)).Nodup := by
    apply List.Nodup.map_on _ List.nodup_range
    intro i hi j hj heq
    have hi' := List.mem_range.mp hi
    have hj' := List.mem_range.mp hj
    have hnat := congrArg BitVec.toNat heq
    rw [BitVec.toNat_ofNat, BitVec.toNat_ofNat, Nat.mod_eq_of_lt (by omega),
      Nat.mod_eq_of_lt (by omega)] at hnat
    exact hnat
  rw [hnodup.dedup, List.length_map, List.length_range]
  omega

end Runs

end RetroArch.Cheevos.Fixup
