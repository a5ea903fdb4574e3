/- `find_change` with its mask and its trailing zeros, from any address. The words are functions of
   the index, for the scans read behind the first difference as well. -/

import Mathlib.Data.List.GetD
import RetroArch.Rewind.Variants

set_option maxRecDepth 10000

namespace RetroArch.Rewind.FindChange

section Scans

open Variants (Build)

/-- The branches of `compat_ctz`. -/
inductive Ctz
  | builtin
  | bitScanReverse
  | nibbles
  deriving DecidableEq

/-- `compat_ctz`; `_BitScanReverse` leaves `r` as it is when no bit is set. -/
def compatCtz : Ctz → BitVec 32 → ℕ
  | .builtin, x => x.ctz.toNat
  | .bitScanReverse, x => x.toNat.log2
  | .nibbles, x =>
    if x &&& 0x000f ≠ 0 then 0
    else if x &&& 0x00f0 ≠ 0 then 4
    else if x &&& 0x0f00 ≠ 0 then 8
    else if x &&& 0xf000 ≠ 0 then 12
    else 16

/-- `_mm_movemask_epi8` of four lanes, each all ones or all zeros. -/
def movemask (c₀ c₁ c₂ c₃ : Bool) : BitVec 32 :=
  (if c₀ then 0x000f else 0) ||| (if c₁ then 0x00f0 else 0) |||
    (if c₂ then 0x0f00 else 0) ||| (if c₃ then 0xf000 else 0)

variable (a b : ℕ → UInt16)

/-- A lane of `_mm_cmpeq_epi32`. -/
def cmpeq (i : ℕ) : Bool := decide (a i = b i ∧ a (i + 1) = b (i + 1))

/-- The loop with vectors. -/
def scanVectors (ctz : Ctz) : ℕ → ℕ → Option ℕ
  | 0, _ => none
  | rounds + 1, i =>
    let mask := movemask (cmpeq a b i) (cmpeq a b (i + 2)) (cmpeq a b (i + 4)) (cmpeq a b (i + 6))
    if mask ≠ 0xffff then
      let ret := ((2 * i) ||| compatCtz ctz (~~~mask)) >>> 1
      some (ret ||| (if a ret = b ret then 1 else 0))
    else scanVectors ctz rounds (i + 8)

/-- The words in front of the first that stands at a multiple of `size` bytes. -/
def scanUnaligned (size address : ℕ) : ℕ → ℕ → Option ℕ
  | 0, _ => none
  | rounds + 1, i =>
    if (address + 2 * i) % size ≠ 0 ∧ a i = b i then scanUnaligned size address rounds (i + 1)
    else some i

/-- The loop over `size_t` of `w` words. -/
def scanBig (w : ℕ) : ℕ → ℕ → Option ℕ
  | 0, _ => none
  | rounds + 1, i =>
    if ∀ j < w, a (i + j) = b (i + j) then scanBig w rounds (i + w) else some i

def scanWords : ℕ → ℕ → Option ℕ
  | 0, _ => none
  | rounds + 1, i => if a i = b i then scanWords rounds (i + 1) else some i

/-- `find_change`, each loop in so many rounds; `address` is the one of `a`. -/
def findChange (build : Build) (ctz : Ctz) (address rounds : ℕ) : Option ℕ :=
  if build.sse2 then scanVectors a b ctz rounds 0
  else
    (if build.noUnalignedMem then scanUnaligned a b (2 * build.sizeWords) address rounds 0
      else some 0).bind fun i =>
        if build.noUnalignedMem ∧ a i ≠ b i then some i
        else (scanBig a b build.sizeWords rounds i).bind fun i => scanWords a b rounds i

/-- The place of the first difference. -/
structure FirstChange (i : ℕ) : Prop where
  same : ∀ j < i, a j = b j
  differs : a i ≠ b i

end Scans

/-- The lanes that are the same in front of the first that is not. -/
def sameLanes (c₀ c₁ c₂ : Bool) : ℕ := if c₀ then if c₁ then if c₂ then 3 else 2 else 1 else 0

theorem movemask_eq_iff (c₀ c₁ c₂ c₃ : Bool) :
    movemask c₀ c₁ c₂ c₃ = 0xffff ↔ c₀ = true ∧ c₁ = true ∧ c₂ = true ∧ c₃ = true := by
  revert c₀ c₁ c₂ c₃
  decide

theorem compatCtz_movemask {ctz : Ctz} (hctz : ctz ≠ .bitScanReverse) (c₀ c₁ c₂ c₃ : Bool)
    (hmask : movemask c₀ c₁ c₂ c₃ ≠ 0xffff) :
    compatCtz ctz (~~~movemask c₀ c₁ c₂ c₃) = 4 * sameLanes c₀ c₁ c₂ := by
  revert c₀ c₁ c₂ c₃
  cases ctz with
  | builtin => decide
  | bitScanReverse => exact absurd rfl hctz
  | nibbles => decide

theorem bitScanReverse_movemask (c₀ c₁ c₂ c₃ : Bool) :
    compatCtz .bitScanReverse (~~~movemask c₀ c₁ c₂ c₃) = 31 := by
  revert c₀ c₁ c₂ c₃
  decide

theorem lane_word (k : ℕ) {q : ℕ} (hq : q < 4) : (2 * (8 * k) ||| 4 * q) >>> 1 = 8 * k + 2 * q := by
  have hor := Nat.two_pow_add_eq_or_of_lt (show 4 * q < 2 ^ 4 by omega) k
  rw [show 2 * (8 * k) = 2 ^ 4 * k by omega, ← hor, Nat.shiftRight_eq_div_pow]
  omega

theorem highest_word (k : ℕ) : (2 * (8 * k) ||| 31) >>> 1 = 16 * (k / 2) + 15 := by
  have hor : 2 * (8 * k) ||| 31 = 32 * (k / 2) + 31 := by
    obtain ⟨m, rfl | rfl⟩ : ∃ m, k = 2 * m ∨ k = 2 * m + 1 := ⟨k / 2, by omega⟩
    · have hor := Nat.two_pow_add_eq_or_of_lt (show 31 < 2 ^ 5 by decide) m
      rw [show 2 * (8 * (2 * m)) = 2 ^ 5 * m by omega, ← hor]
      omega
    · have hhigh := Nat.two_pow_add_eq_or_of_lt (show 16 < 2 ^ 5 by decide) m
      have hlow := Nat.two_pow_add_eq_or_of_lt (show 31 < 2 ^ 5 by decide) m
      rw [show 2 * (8 * (2 * m + 1)) = 2 ^ 5 * m + 16 by omega, hhigh, Nat.or_assoc,
        show 16 ||| 31 = 31 from rfl, ← hlow]
      omega
  rw [hor, Nat.shiftRight_eq_div_pow]
  omega

theorem even_or_one (n : ℕ) : 2 * n ||| 1 = 2 * n + 1 :=
  (Nat.two_pow_add_eq_or_of_lt (show 1 < 2 ^ 1 by decide) n).symm

section Loops

variable {a b : ℕ → UInt16} {i : ℕ}

theorem cmpeq_true {j : ℕ} (h : FirstChange a b i) (hj : j + 1 < i) : cmpeq a b j = true :=
  decide_eq_true ⟨h.same j (Nat.lt_of_succ_lt hj), h.same (j + 1) hj⟩

theorem cmpeq_false {j : ℕ} (h : FirstChange a b i) (hlow : j ≤ i) (hhigh : i ≤ j + 1) :
    cmpeq a b j = false := by
  apply decide_eq_false
  rintro ⟨hfirst, hsecond⟩
  rcases Nat.eq_or_lt_of_le hlow with rfl | hlt
  · exact h.differs hfirst
  · obtain rfl : i = j + 1 := by omega
    exact h.differs hsecond

theorem sameLanes_eq {k : ℕ} (h : FirstChange a b i) (hlow : 8 * k ≤ i) (hhigh : i < 8 * k + 8) :
    sameLanes (cmpeq a b (8 * k)) (cmpeq a b (8 * k + 2)) (cmpeq a b (8 * k + 4)) =
      (i - 8 * k) / 2 := by
  rw [sameLanes]
  by_cases h₀ : 8 * k + 1 < i
  · rw [if_pos (cmpeq_true h h₀)]
    by_cases h₁ : 8 * k + 3 < i
    · rw [if_pos (cmpeq_true h h₁)]
      by_cases h₂ : 8 * k + 5 < i
      · rw [if_pos (cmpeq_true h h₂)]
        omega
      · rw [cmpeq_false h (by omega) (by omega), if_neg Bool.false_ne_true]
        omega
    · rw [cmpeq_false h (j := 8 * k + 2) (by omega) (by omega), if_neg Bool.false_ne_true]
      omega
  · rw [cmpeq_false h (j := 8 * k) (by omega) (by omega), if_neg Bool.false_ne_true]
    omega

theorem movemask_ne {k : ℕ} (h : FirstChange a b i) (hlow : 8 * k ≤ i) (hhigh : i < 8 * k + 8) :
    movemask (cmpeq a b (8 * k)) (cmpeq a b (8 * k + 2)) (cmpeq a b (8 * k + 4))
      (cmpeq a b (8 * k + 6)) ≠ 0xffff := by
  intro hmask
  obtain ⟨h₀, h₁, h₂, h₃⟩ := (movemask_eq_iff _ _ _ _).mp hmask
  simp only [cmpeq, decide_eq_true_eq] at h₀ h₁ h₂ h₃
  obtain rfl | rfl | rfl | rfl | rfl | rfl | rfl | rfl : i = 8 * k ∨ i = 8 * k + 1 ∨
      i = 8 * k + 2 ∨ i = 8 * k + 3 ∨ i = 8 * k + 4 ∨ i = 8 * k + 5 ∨ i = 8 * k + 6 ∨
      i = 8 * k + 7 := by omega
  exacts [h.differs h₀.1, h.differs h₀.2, h.differs h₁.1, h.differs h₁.2, h.differs h₂.1,
    h.differs h₂.2, h.differs h₃.1, h.differs h₃.2]

theorem scanVectors_skip (h : FirstChange a b i) (ctz : Ctz) {rounds k : ℕ} (hk : 8 * k + 8 ≤ i) :
    scanVectors a b ctz (rounds + 1) (8 * k) = scanVectors a b ctz rounds (8 * (k + 1)) := by
  have hmask := (movemask_eq_iff _ _ _ _).mpr ⟨cmpeq_true h (show 8 * k + 1 < i by omega),
    cmpeq_true h (show 8 * k + 2 + 1 < i by omega), cmpeq_true h (show 8 * k + 4 + 1 < i by omega),
    cmpeq_true h (show 8 * k + 6 + 1 < i by omega)⟩
  rw [scanVectors]
  exact if_neg (not_not_intro hmask)

theorem scanVectors_run (h : FirstChange a b i) (ctz : Ctz) {rounds k : ℕ} (hk : 8 * k ≤ i)
    (hrounds : i < rounds + k) :
    ∃ rounds', scanVectors a b ctz rounds (8 * k) =
      scanVectors a b ctz (rounds' + 1) (8 * (i / 8)) := by
  induction rounds generalizing k with
  | zero => omega
  | succ rounds ih =>
    by_cases hskip : 8 * k + 8 ≤ i
    · rw [scanVectors_skip h ctz hskip]
      exact ih (by omega) (by omega)
    · obtain rfl : k = i / 8 := by omega
      exact ⟨rounds, rfl⟩

theorem scanVectors_last (h : FirstChange a b i) {ctz : Ctz} (hctz : ctz ≠ .bitScanReverse)
    (rounds : ℕ) : scanVectors a b ctz (rounds + 1) (8 * (i / 8)) = some i := by
  have hlow : 8 * (i / 8) ≤ i := by omega
  have hhigh : i < 8 * (i / 8) + 8 := by omega
  have hmask := movemask_ne h hlow hhigh
  have hlanes := sameLanes_eq h hlow hhigh
  rw [scanVectors]
  dsimp only
  rw [if_pos hmask, compatCtz_movemask hctz _ _ _ _ hmask, hlanes, lane_word _ (by omega),
    show 8 * (i / 8) + 2 * ((i - 8 * (i / 8)) / 2) = 2 * (i / 2) by omega]
  by_cases hsame : a (2 * (i / 2)) = b (2 * (i / 2))
  · have hne : 2 * (i / 2) ≠ i := fun heq => h.differs (heq ▸ hsame)
    rw [if_pos hsame, even_or_one]
    congr 1
    omega
  · have heq : ¬ 2 * (i / 2) < i := fun hlt => hsame (h.same _ hlt)
    rw [if_neg hsame, Nat.or_zero]
    congr 1
    omega

theorem scanVectors_highest (h : FirstChange a b i) (rounds : ℕ) :
    scanVectors a b .bitScanReverse (rounds + 1) (8 * (i / 8)) = some (16 * (i / 16) + 15) := by
  rw [scanVectors]
  dsimp only
  rw [if_pos (movemask_ne h (by omega) (by omega)), bitScanReverse_movemask, highest_word]
  have hodd : 16 * (i / 8 / 2) + 15 = 2 * (8 * (i / 16) + 7) + 1 := by omega
  rw [hodd, ← even_or_one]
  congr 1
  split_ifs
  · rw [Nat.or_assoc, Nat.or_self, even_or_one]
    omega
  · rw [Nat.or_zero, even_or_one]
    omega

theorem scanWords_eq (h : FirstChange a b i) {rounds j : ℕ} (hj : j ≤ i)
    (hrounds : i < rounds + j) : scanWords a b rounds j = some i := by
  induction rounds generalizing j with
  | zero => omega
  | succ rounds ih =>
    rw [scanWords]
    rcases Nat.eq_or_lt_of_le hj with rfl | hlt
    · rw [if_neg h.differs]
    · rw [if_pos (h.same j hlt)]
      exact ih hlt (by omega)

theorem scanBig_le (h : FirstChange a b i) {w rounds j : ℕ} (hw : 0 < w) (hj : j ≤ i)
    (hrounds : i < rounds + j) : ∃ j', scanBig a b w rounds j = some j' ∧ j' ≤ i := by
  induction rounds generalizing j with
  | zero => omega
  | succ rounds ih =>
    rw [scanBig]
    by_cases hsame : ∀ m < w, a (j + m) = b (j + m)
    · have hpast : j + w ≤ i := by
        by_contra hin
        have hdiff := hsame (i - j) (by omega)
        rw [Nat.add_sub_cancel' hj] at hdiff
        exact h.differs hdiff
      rw [if_pos hsame]
      exact ih hpast (by omega)
    · rw [if_neg hsame]
      exact ⟨j, rfl, hj⟩

theorem scanUnaligned_le (h : FirstChange a b i) (size address : ℕ) {rounds j : ℕ} (hj : j ≤ i)
    (hrounds : i < rounds + j) :
    ∃ j', scanUnaligned a b size address rounds j = some j' ∧ j' ≤ i := by
  induction rounds generalizing j with
  | zero => omega
  | succ rounds ih =>
    rw [scanUnaligned]
    by_cases hsame : (address + 2 * j) % size ≠ 0 ∧ a j = b j
    · have hne : j ≠ i := fun heq => h.differs (heq ▸ hsame.2)
      rw [if_pos hsame]
      exact ih (by omega) (by omega)
    · rw [if_neg hsame]
      exact ⟨j, rfl, hj⟩

end Loops

section Results

open Variants (Build)

variable {a b : ℕ → UInt16} {i : ℕ}

theorem findChange_words (h : FirstChange a b i) {build : Build} (hbuild : build.sse2 = false)
    (ctz : Ctz) (address : ℕ) {rounds : ℕ} (hrounds : i < rounds) :
    findChange a b build ctz address rounds = some i := by
  have hw : 0 < build.sizeWords := by
    rw [Build.sizeWords]
    split_ifs <;> decide
  have hscan : ∀ j ≤ i, (scanBig a b build.sizeWords rounds j).bind
      (fun i => scanWords a b rounds i) = some i := by
    intro j hj
    obtain ⟨j', hbig, hj'⟩ := scanBig_le h hw hj (show i < rounds + j by omega)
    rw [hbig]
    exact scanWords_eq h hj' (by omega)
  rw [findChange, hbuild, if_neg Bool.false_ne_true]
  cases hunaligned : build.noUnalignedMem with
  | false =>
    have hnot : ¬ ((false : Bool) = true ∧ a 0 ≠ b 0) := fun hnot => Bool.false_ne_true hnot.1
    rw [if_neg Bool.false_ne_true, Option.bind_some, if_neg hnot]
    exact hscan 0 (Nat.zero_le i)
  | true =>
    obtain ⟨j, hskip, hj⟩ := scanUnaligned_le h (2 * build.sizeWords) address (Nat.zero_le i)
      (show i < rounds + 0 from hrounds)
    rw [if_pos rfl, hskip, Option.bind_some]
    by_cases hdiff : a j = b j
    · rw [if_neg fun hnot => hnot.2 hdiff]
      exact hscan j hj
    · rw [if_pos ⟨rfl, hdiff⟩]
      congr 1
      by_contra hne
      exact hdiff (h.same j (by omega))

theorem findChange_vectors (h : FirstChange a b i) {build : Build} (hbuild : build.sse2 = true)
    (ctz : Ctz) (address : ℕ) {rounds : ℕ} (hrounds : i < rounds) :
    findChange a b build ctz address rounds =
      some (if ctz = .bitScanReverse then 16 * (i / 16) + 15 else i) := by
  obtain ⟨rounds', hrun⟩ := scanVectors_run h ctz (Nat.zero_le i) (show i < rounds + 0 from hrounds)
  rw [findChange, hbuild, if_pos rfl, ← Nat.mul_zero 8, hrun]
  by_cases hctz : ctz = .bitScanReverse
  · rw [if_pos hctz, hctz]
    exact scanVectors_highest h rounds'
  · rw [if_neg hctz]
    exact scanVectors_last h hctz rounds'

end Results

open Variants (Build)

/-- Every build finds the first difference from any address, but for the one with vectors and
`_BitScanReverse`, which finds only the last word of two vectors. -/
theorem findChange_first_iff (a b : ℕ → UInt16) (i : ℕ) (h : FirstChange a b i) (build : Build)
    (ctz : Ctz) (address : ℕ) :
    (∀ rounds > i, findChange a b build ctz address rounds = some i) ↔
      (build.sse2 = true → ctz = .bitScanReverse → i % 16 = 15) := by
  cases hbuild : build.sse2 with
  | false =>
    apply iff_of_true
    · intro rounds hrounds
      exact findChange_words h hbuild ctz address hrounds
    · exact fun hsse2 => absurd hsse2 Bool.false_ne_true
  | true =>
    constructor
    · intro hfinds _ hctz
      have hfound := hfinds (i + 1) (Nat.lt_succ_self i)
      rw [findChange_vectors h hbuild ctz address (Nat.lt_succ_self i), if_pos hctz] at hfound
      have heq := Option.some.inj hfound
      omega
    · intro hlast rounds hrounds
      rw [findChange_vectors h hbuild ctz address hrounds]
      by_cases hctz : ctz = .bitScanReverse
      · rw [if_pos hctz]
        have hmod := hlast rfl hctz
        congr 1
        omega
      · rw [if_neg hctz]

/-- The first word differs. -/
theorem findChange_first_word :
    (∀ rounds > 0, findChange (fun _ => 0) (fun i => if i = 0 then 1 else 0) ⟨true, true, false⟩
      .builtin 0 rounds = some 0) ↔
      ((true : Bool) = true → Ctz.builtin = .bitScanReverse → 0 % 16 = 15) :=
  findChange_first_iff (fun _ => 0) (fun i => if i = 0 then 1 else 0) 0
    ⟨fun j hj => absurd hj (Nat.not_lt_zero j), by decide⟩ ⟨true, true, false⟩ .builtin 0

/-- With `_BitScanReverse` the vectors give the place 15 for it, the machine words the place 0. -/
theorem findChange_disagree :
    ¬ ∀ (a b : ℕ → UInt16) (i : ℕ), FirstChange a b i →
      ∀ (build : Build) (ctz : Ctz) (address : ℕ),
        ∀ rounds > i, findChange a b build ctz address rounds = some i := by
  intro h
  have hfound := h (fun _ => 0) (fun i => if i = 0 then 1 else 0) 0
    ⟨fun j hj => absurd hj (Nat.not_lt_zero j), by decide⟩ ⟨true, true, false⟩ .bitScanReverse 0 1
    (by decide)
  exact absurd hfound (by decide)

end RetroArch.Rewind.FindChange
