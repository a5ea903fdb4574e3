/- Taking bits out of a number and closing the gaps, putting gaps in again, and clearing its
   highest bits. -/

import Mathlib.Data.Nat.Bitwise
import Mathlib.Data.Nat.Factorization.Basic
import Mathlib.Data.Nat.Size
import Mathlib.Tactic.Ring

namespace RetroArch.Library.BitPicking

theorem mod_two_pow_succ_mod_two (x k : ℕ) : x % 2 ^ (k + 1) % 2 = x % 2 :=
  Nat.mod_mod_of_dvd x (Dvd.intro_left (2 ^ k) (pow_succ 2 k).symm)

theorem mod_two_pow_succ_div_two (x k : ℕ) : x % 2 ^ (k + 1) / 2 = x / 2 % 2 ^ k := by
  rw [pow_succ', Nat.mod_mul_right_div_self]

theorem halves_congr {m m' k : ℕ} (h : m % 2 ^ (k + 1) = m' % 2 ^ (k + 1)) :
    m % 2 = m' % 2 ∧ m / 2 % 2 ^ k = m' / 2 % 2 ^ k := by
  constructor
  · rw [← mod_two_pow_succ_mod_two m k, h, mod_two_pow_succ_mod_two]
  · rw [← mod_two_pow_succ_div_two m k, h, mod_two_pow_succ_div_two]

section Picking

/-- `x` without the bits that are set in the first `n` bits of `mask`, the gaps closed. -/
def pick : ℕ → ℕ → ℕ → ℕ
  | 0, _, x => x
  | n + 1, mask, x =>
    if mask % 2 = 1 then pick n (mask / 2) (x / 2)
    else x % 2 + 2 * pick n (mask / 2) (x / 2)

/-- How many of the first `k` bits of `mask` are set. -/
def picked : ℕ → ℕ → ℕ
  | 0, _ => 0
  | k + 1, mask => mask % 2 + picked k (mask / 2)

variable {n k mask mask' x : ℕ}

theorem pick_odd (h : mask % 2 = 1) :
    pick (n + 1) mask x = pick n (mask / 2) (x / 2) := by
  rw [pick, if_pos h]

theorem pick_even (h : mask % 2 = 0) :
    pick (n + 1) mask x = x % 2 + 2 * pick n (mask / 2) (x / 2) := by
  rw [pick, if_neg (by omega)]

theorem pick_two_mul (n m x : ℕ) :
    pick (n + 1) (2 * m) x = x % 2 + 2 * pick n m (x / 2) := by
  rw [pick_even (Nat.mul_mod_right 2 m), Nat.mul_div_cancel_left m Nat.two_pos]

theorem pick_zero_mask (n x : ℕ) : pick n 0 x = x := by
  induction n generalizing x with
  | zero => rfl
  | succ n ih =>
    rw [pick_even rfl, Nat.zero_div, ih]
    omega

theorem pick_zero (n mask : ℕ) : pick n mask 0 = 0 := by
  induction n generalizing mask with
  | zero => rfl
  | succ n ih =>
    rw [pick, Nat.zero_div, ih]
    split_ifs
    · rfl
    · rfl

theorem picked_le (k mask : ℕ) : picked k mask ≤ k := by
  induction k generalizing mask with
  | zero => exact le_rfl
  | succ k ih =>
    have htail := ih (mask / 2)
    have hbit := Nat.mod_lt mask (show 0 < 2 by decide)
    rw [picked]
    omega

theorem pick_le (n mask x : ℕ) : pick n mask x ≤ x := by
  induction n generalizing mask x with
  | zero => exact le_rfl
  | succ n ih =>
    have htail := ih (mask / 2) (x / 2)
    rw [pick]
    split_ifs
    · omega
    · omega

theorem pick_mod (hk : k ≤ n) (mask x : ℕ) :
    pick n mask (x % 2 ^ k) = pick n mask x % 2 ^ (k - picked k mask) := by
  induction k generalizing n mask x with
  | zero =>
    rw [pow_zero, Nat.mod_one, pick_zero, Nat.zero_sub, pow_zero, Nat.mod_one]
  | succ k ih =>
    obtain ⟨n, rfl⟩ : ∃ m, n = m + 1 := ⟨n - 1, by omega⟩
    have htail := ih (Nat.le_of_succ_le_succ hk) (mask / 2) (x / 2)
    have hhalf := mod_two_pow_succ_div_two x k
    have hparity := mod_two_pow_succ_mod_two x k
    have hle := picked_le k (mask / 2)
    rcases Nat.mod_two_eq_zero_or_one mask with heven | hodd
    · have hroom : k + 1 - picked (k + 1) mask = k - picked k (mask / 2) + 1 := by
        rw [picked]
        omega
      rw [pick_even heven, pick_even heven, hhalf, hparity, htail, hroom, pow_succ',
        Nat.mod_mul]
      congr 1
      · omega
      · congr 2
        omega
    · have hroom : k + 1 - picked (k + 1) mask = k - picked k (mask / 2) := by
        rw [picked]
        omega
      rw [pick_odd hodd, pick_odd hodd, hhalf, htail, hroom]

theorem pick_congr (hx : x < 2 ^ k) (hk : k ≤ n) (hmask : mask % 2 ^ k = mask' % 2 ^ k) :
    pick n mask x = pick n mask' x := by
  induction k generalizing n mask mask' x with
  | zero =>
    obtain rfl : x = 0 := by simpa using hx
    rw [pick_zero, pick_zero]
  | succ k ih =>
    obtain ⟨n, rfl⟩ : ∃ m, n = m + 1 := ⟨n - 1, by omega⟩
    obtain ⟨hparity, htail⟩ := halves_congr hmask
    have hhalf : x / 2 < 2 ^ k := by
      rw [pow_succ'] at hx
      omega
    have hsame := ih hhalf (Nat.le_of_succ_le_succ hk) htail
    rw [pick, pick, hparity, hsame]

theorem picked_succ (k mask : ℕ) :
    picked (k + 1) mask = picked k mask + (mask.testBit k).toNat := by
  induction k generalizing mask with
  | zero =>
    rw [picked, picked, picked, Nat.testBit_zero, Nat.add_zero, Nat.zero_add]
    rcases Nat.mod_two_eq_zero_or_one mask with heven | hodd
    · rw [heven]
      rfl
    · rw [hodd]
      rfl
  | succ k ih =>
    have hstep := ih (mask / 2)
    rw [picked, hstep, picked, Nat.testBit_succ, Nat.add_assoc]

theorem pick_lt (h : ∀ p, k ≤ p → x.testBit p = true → p < n ∧ mask.testBit p = true) :
    pick n mask x < 2 ^ k := by
  induction n generalizing mask x k with
  | zero =>
    rw [pick]
    by_contra hbig
    obtain ⟨p, hp, hbit⟩ := Nat.exists_ge_and_testBit_of_ge_two_pow (Nat.not_lt.mp hbig)
    exact absurd (h p hp hbit).1 (Nat.not_lt_zero p)
  | succ n ih =>
    rcases Nat.mod_two_eq_zero_or_one mask with heven | hodd
    · rw [pick_even heven]
      cases k with
      | zero =>
        have hfirst : x % 2 = 0 := by
          by_contra hone
          have hbit : x.testBit 0 = true := by
            rw [Nat.testBit_zero, decide_eq_true_eq]
            omega
          have hmask := (h 0 le_rfl hbit).2
          rw [Nat.testBit_zero, decide_eq_true_eq] at hmask
          omega
        have htail : pick n (mask / 2) (x / 2) < 2 ^ 0 := by
          apply ih
          intro p _ hbit
          have hp := h (p + 1) (Nat.zero_le _) (by rw [Nat.testBit_succ]; exact hbit)
          rw [Nat.testBit_succ] at hp
          exact ⟨by omega, hp.2⟩
        rw [pow_zero] at htail ⊢
        omega
      | succ k =>
        have htail : pick n (mask / 2) (x / 2) < 2 ^ k := by
          apply ih
          intro p hp hbit
          have hp' := h (p + 1) (by omega) (by rw [Nat.testBit_succ]; exact hbit)
          rw [Nat.testBit_succ] at hp'
          exact ⟨by omega, hp'.2⟩
        rw [pow_succ']
        omega
    · rw [pick_odd hodd]
      apply ih
      intro p hp hbit
      have hp' := h (p + 1) (by omega) (by rw [Nat.testBit_succ]; exact hbit)
      rw [Nat.testBit_succ] at hp'
      exact ⟨by omega, hp'.2⟩

theorem pick_lowest {i m : ℕ} (hi : i ≤ n) :
    pick (n + 1) (2 ^ i * (2 * m + 1)) x =
      pick n (2 ^ i * m) (x % 2 ^ i + 2 ^ i * (x / 2 ^ (i + 1))) := by
  induction i generalizing n x with
  | zero =>
    have hodd : 2 ^ 0 * (2 * m + 1) % 2 = 1 := by omega
    have hhalf : 2 ^ 0 * (2 * m + 1) / 2 = m := by omega
    rw [pick_odd hodd, hhalf, pow_zero, one_mul, Nat.mod_one, zero_add, one_mul, zero_add,
      pow_one]
  | succ i ih =>
    obtain ⟨n, rfl⟩ : ∃ k, n = k + 1 := ⟨n - 1, by omega⟩
    have htail := ih (x := x / 2) (Nat.le_of_succ_le_succ hi)
    have hmask : 2 ^ (i + 1) * (2 * m + 1) = 2 * (2 ^ i * (2 * m + 1)) := by ring
    have hmask' : 2 ^ (i + 1) * m = 2 * (2 ^ i * m) := by ring
    have hhigh : x / 2 ^ (i + 1 + 1) = x / 2 / 2 ^ (i + 1) := by
      rw [Nat.div_div_eq_div_mul, pow_succ' 2 (i + 1)]
    have hhalf := mod_two_pow_succ_div_two x i
    have hparity := mod_two_pow_succ_mod_two x i
    set high := x / 2 / 2 ^ (i + 1)
    have hsplit : x % 2 ^ (i + 1) + 2 ^ (i + 1) * high =
        x % 2 ^ (i + 1) + 2 * (2 ^ i * high) := by
      ring
    have hdiv : (x % 2 ^ (i + 1) + 2 * (2 ^ i * high)) / 2 = x / 2 % 2 ^ i + 2 ^ i * high := by
      omega
    have hmod : (x % 2 ^ (i + 1) + 2 * (2 ^ i * high)) % 2 = x % 2 := by omega
    rw [hmask, hmask', hhigh, hsplit, pick_two_mul, pick_two_mul, hdiv, hmod, htail]

end Picking

section Spreading

/-- `x` moved up out of the way of the bits that are set in the first `n` bits of `mask`. -/
def spread : ℕ → ℕ → ℕ → ℕ
  | 0, _, x => x
  | n + 1, mask, x =>
    if mask % 2 = 1 then 2 * spread n (mask / 2) x
    else x % 2 + 2 * spread n (mask / 2) (x / 2)

variable {n k mask x y : ℕ}

theorem spread_odd (h : mask % 2 = 1) : spread (n + 1) mask x = 2 * spread n (mask / 2) x := by
  rw [spread, if_pos h]

theorem spread_even (h : mask % 2 = 0) :
    spread (n + 1) mask x = x % 2 + 2 * spread n (mask / 2) (x / 2) := by
  rw [spread, if_neg (by omega)]

theorem spread_zero_mask (n x : ℕ) : spread n 0 x = x := by
  induction n generalizing x with
  | zero => rfl
  | succ n ih =>
    rw [spread_even rfl, Nat.zero_div, ih]
    omega

theorem pick_spread (n mask x : ℕ) : pick n mask (spread n mask x) = x := by
  induction n generalizing mask x with
  | zero => rfl
  | succ n ih =>
    rcases Nat.mod_two_eq_zero_or_one mask with heven | hodd
    · rw [spread_even heven, pick_even heven]
      have hhalf : (x % 2 + 2 * spread n (mask / 2) (x / 2)) / 2 =
          spread n (mask / 2) (x / 2) := by omega
      rw [hhalf, ih]
      omega
    · rw [spread_odd hodd, pick_odd hodd, Nat.mul_div_cancel_left _ Nat.two_pos, ih]

theorem spread_pick (h : ∀ p < n, mask.testBit p = true → x.testBit p = false) :
    spread n mask (pick n mask x) = x := by
  induction n generalizing mask x with
  | zero => rfl
  | succ n ih =>
    have htail : ∀ p < n, (mask / 2).testBit p = true → (x / 2).testBit p = false := by
      intro p hp hbit
      rw [← Nat.testBit_succ] at hbit ⊢
      exact h (p + 1) (by omega) hbit
    have hrest := ih htail
    rcases Nat.mod_two_eq_zero_or_one mask with heven | hodd
    · rw [pick_even heven, spread_even heven]
      have hhalf : (x % 2 + 2 * pick n (mask / 2) (x / 2)) / 2 = pick n (mask / 2) (x / 2) := by
        omega
      rw [hhalf, hrest]
      omega
    · have hfirst := h 0 (Nat.succ_pos n) (by rw [Nat.testBit_zero]; exact decide_eq_true hodd)
      rw [Nat.testBit_zero, decide_eq_false_iff_not] at hfirst
      rw [pick_odd hodd, spread_odd hodd, hrest]
      omega

theorem testBit_spread {p : ℕ} (hp : p < n) (hbit : mask.testBit p = true) :
    (spread n mask x).testBit p = false := by
  induction n generalizing p mask x with
  | zero => exact absurd hp (Nat.not_lt_zero p)
  | succ n ih =>
    cases p with
    | zero =>
      rw [Nat.testBit_zero, decide_eq_true_eq] at hbit
      rw [spread_odd hbit, Nat.testBit_zero, Nat.mul_mod_right]
      rfl
    | succ p =>
      rw [Nat.testBit_succ] at hbit ⊢
      have hrest := fun x => ih (x := x) (Nat.lt_of_succ_lt_succ hp) hbit
      rcases Nat.mod_two_eq_zero_or_one mask with heven | hodd
      · have hhalf : (x % 2 + 2 * spread n (mask / 2) (x / 2)) / 2 =
            spread n (mask / 2) (x / 2) := by omega
        rw [spread_even heven, hhalf]
        exact hrest _
      · rw [spread_odd hodd, Nat.mul_div_cancel_left _ Nat.two_pos]
        exact hrest _

theorem spread_congr (h : x % 2 ^ k = y % 2 ^ k) :
    spread n mask x % 2 ^ k = spread n mask y % 2 ^ k := by
  induction n generalizing k mask x y with
  | zero => exact h
  | succ n ih =>
    cases k with
    | zero => rw [pow_zero, Nat.mod_one, Nat.mod_one]
    | succ k =>
      rcases Nat.mod_two_eq_zero_or_one mask with heven | hodd
      · obtain ⟨hparity, htail⟩ := halves_congr h
        have hrest := @ih _ (mask / 2) _ _ htail
        have hmod : ∀ a, (y % 2 + 2 * a) % 2 = y % 2 := fun a => by omega
        have hdiv : ∀ a, (y % 2 + 2 * a) / 2 = a := fun a => by omega
        rw [spread_even heven, spread_even heven, hparity, pow_succ', Nat.mod_mul, Nat.mod_mul,
          hmod, hmod, hdiv, hdiv, hrest]
      · have hlow : x % 2 ^ k = y % 2 ^ k := by
          have hdvd : 2 ^ k ∣ 2 ^ (k + 1) := pow_dvd_pow 2 (Nat.le_succ k)
          rw [← Nat.mod_mod_of_dvd x hdvd, h, Nat.mod_mod_of_dvd y hdvd]
        rw [spread_odd hodd, spread_odd hodd, pow_succ', Nat.mul_mod_mul_left,
          Nat.mul_mod_mul_left, ih hlow]

theorem spread_lowest {i m : ℕ} (hi : i < n) :
    spread n (2 ^ i * (2 * m + 1)) x =
      spread n (2 ^ (i + 1) * m) (x % 2 ^ i + 2 ^ (i + 1) * (x / 2 ^ i)) := by
  induction i generalizing n x with
  | zero =>
    obtain ⟨n, rfl⟩ : ∃ k, n = k + 1 := ⟨n - 1, by omega⟩
    have hodd : 2 ^ 0 * (2 * m + 1) % 2 = 1 := by omega
    have hhalf : 2 ^ 0 * (2 * m + 1) / 2 = m := by omega
    have heven : 2 ^ (0 + 1) * m % 2 = 0 := by omega
    have hhalf' : 2 ^ (0 + 1) * m / 2 = m := by omega
    have hx : x % 2 ^ 0 + 2 ^ (0 + 1) * (x / 2 ^ 0) = 2 * x := by
      rw [pow_zero, Nat.mod_one, Nat.div_one, Nat.zero_add, Nat.zero_add, pow_one]
    rw [spread_odd hodd, hhalf, spread_even heven, hhalf', hx, Nat.mul_mod_right,
      Nat.mul_div_cancel_left x Nat.two_pos, Nat.zero_add]
  | succ i ih =>
    obtain ⟨n, rfl⟩ : ∃ k, n = k + 1 := ⟨n - 1, by omega⟩
    have htail := ih (x := x / 2) (Nat.lt_of_succ_lt_succ hi)
    have hmask : 2 ^ (i + 1) * (2 * m + 1) = 2 * (2 ^ i * (2 * m + 1)) := by ring
    have hmask' : 2 ^ (i + 1 + 1) * m = 2 * (2 ^ (i + 1) * m) := by ring
    have hhigh : x / 2 ^ (i + 1) = x / 2 / 2 ^ i := by
      rw [Nat.div_div_eq_div_mul, pow_succ' 2 i]
    have hhalf := mod_two_pow_succ_div_two x i
    have hparity := mod_two_pow_succ_mod_two x i
    set high := x / 2 / 2 ^ i
    have hsplit : x % 2 ^ (i + 1) + 2 ^ (i + 1 + 1) * high =
        x % 2 ^ (i + 1) + 2 * (2 ^ (i + 1) * high) := by ring
    have hdiv : (x % 2 ^ (i + 1) + 2 * (2 ^ (i + 1) * high)) / 2 =
        x / 2 % 2 ^ i + 2 ^ (i + 1) * high := by omega
    have hmod : (x % 2 ^ (i + 1) + 2 * (2 ^ (i + 1) * high)) % 2 = x % 2 := by omega
    rw [hmask, hmask', hhigh, hsplit, spread_even (Nat.mul_mod_right 2 _),
      spread_even (Nat.mul_mod_right 2 _), Nat.mul_div_cancel_left _ Nat.two_pos,
      Nat.mul_div_cancel_left _ Nat.two_pos, hdiv, hmod, htail]

end Spreading

section Smearing

/-- Each bit of `v` says whether one of the `s` bits of `n` from its place on is set. -/
def Smeared (n s v : ℕ) : Prop := ∀ p, v.testBit p = true ↔ ∃ d < s, n.testBit (p + d) = true

variable {n s v k : ℕ}

theorem smeared_one (n : ℕ) : Smeared n 1 n := by
  intro p
  constructor
  · intro hbit
    exact ⟨0, Nat.one_pos, hbit⟩
  · rintro ⟨d, hd, hbit⟩
    obtain rfl : d = 0 := by omega
    exact hbit

theorem Smeared.double (h : Smeared n s v) : Smeared n (2 * s) (v ||| v >>> s) := by
  intro p
  rw [Nat.testBit_or, Bool.or_eq_true, Nat.testBit_shiftRight, h p, h (s + p)]
  constructor
  · rintro (⟨d, hd, hbit⟩ | ⟨d, hd, hbit⟩)
    · exact ⟨d, by omega, hbit⟩
    · refine ⟨s + d, by omega, ?_⟩
      rw [← Nat.add_assoc, Nat.add_comm p s]
      exact hbit
  · rintro ⟨d, hd, hbit⟩
    rcases Nat.lt_or_ge d s with hlow | hhigh
    · exact Or.inl ⟨d, hlow, hbit⟩
    · refine Or.inr ⟨d - s, by omega, ?_⟩
      have hplace : s + p + (d - s) = p + d := by omega
      rw [hplace]
      exact hbit

theorem Smeared.eq (h : Smeared n s v) (hn : n < 2 ^ s) : v = 2 ^ n.size - 1 := by
  apply Nat.eq_of_testBit_eq
  intro p
  rw [Nat.testBit_two_pow_sub_one, Bool.eq_iff_iff, decide_eq_true_eq, h p]
  constructor
  · rintro ⟨d, -, hbit⟩
    by_contra hsize
    have hlt : n < 2 ^ (p + d) :=
      (Nat.lt_size_self n).trans_le (Nat.pow_le_pow_right Nat.two_pos (by omega))
    rw [Nat.testBit_eq_false_of_lt hlt] at hbit
    cases hbit
  · intro hp
    obtain ⟨q, hq, hbit⟩ := Nat.exists_ge_and_testBit_of_ge_two_pow (Nat.lt_size.mp hp)
    have hqs : q < s := by
      by_contra hbig
      have hlt : n < 2 ^ q := hn.trans_le (Nat.pow_le_pow_right Nat.two_pos (by omega))
      rw [Nat.testBit_eq_false_of_lt hlt] at hbit
      cases hbit
    refine ⟨q - p, by omega, ?_⟩
    rw [Nat.add_sub_cancel' hq]
    exact hbit

theorem ones_xor_half (k : ℕ) :
    (2 ^ k - 1) ^^^ (2 ^ k - 1) >>> 1 = if k = 0 then 0 else 2 ^ (k - 1) := by
  apply Nat.eq_of_testBit_eq
  intro p
  rw [Nat.testBit_xor, Nat.testBit_shiftRight, Nat.testBit_two_pow_sub_one,
    Nat.testBit_two_pow_sub_one]
  split_ifs with hk
  · subst hk
    simp
  · rw [Nat.testBit_two_pow, Bool.eq_iff_iff]
    simp only [bne_iff_ne, ne_eq, decide_eq_decide, decide_eq_true_eq]
    omega

end Smearing

section Lowest

variable {i m : ℕ}

theorem testBit_lowest (i m p : ℕ) :
    (2 ^ i * (2 * m + 1)).testBit p =
      if p < i then false else if p = i then true else m.testBit (p - i - 1) := by
  rw [Nat.testBit_two_pow_mul]
  split_ifs with hlow heq
  · rw [decide_eq_false (by omega), Bool.false_and]
  · subst heq
    rw [decide_eq_true le_rfl, Nat.sub_self, Nat.testBit_zero, Bool.true_and]
    exact decide_eq_true (by omega)
  · obtain ⟨d, rfl⟩ : ∃ d, p = i + (d + 1) := ⟨p - i - 1, by omega⟩
    have hhalf : (2 * m + 1) / 2 = m := by omega
    have hplace : i + (d + 1) - i = d + 1 := by omega
    rw [decide_eq_true (by omega), Bool.true_and, hplace, Nat.testBit_succ, hhalf]
    rfl

theorem testBit_lowest_sub_one (i m p : ℕ) :
    (2 ^ i * (2 * m + 1) - 1).testBit p =
      if p < i then true else if p = i then false else m.testBit (p - i - 1) := by
  have hpos := Nat.two_pow_pos i
  have hsplit : 2 ^ i * (2 * m + 1) - 1 = 2 ^ i * (2 * m) + (2 ^ i - 1) := by
    rw [Nat.mul_add, Nat.mul_one]
    omega
  rw [hsplit, Nat.testBit_two_pow_mul_add _ (by omega)]
  split_ifs with hlow heq
  · rw [Nat.testBit_two_pow_sub_one]
    exact decide_eq_true hlow
  · subst heq
    rw [Nat.sub_self, Nat.testBit_zero]
    exact decide_eq_false (by omega)
  · obtain ⟨d, rfl⟩ : ∃ d, p = i + (d + 1) := ⟨p - i - 1, by omega⟩
    have hplace : i + (d + 1) - i = d + 1 := by omega
    have hplace' : i + (d + 1) - i - 1 = d := by omega
    rw [hplace', hplace, Nat.testBit_succ, Nat.mul_div_cancel_left m Nat.two_pos]

theorem exists_lowest {x : ℕ} (h : x ≠ 0) : ∃ i m, x = 2 ^ i * (2 * m + 1) := by
  obtain ⟨i, m, hodd, rfl⟩ := Nat.exists_eq_two_pow_mul_odd h
  obtain ⟨k, rfl⟩ := hodd
  exact ⟨i, k, rfl⟩

theorem lowest_of_dvd {j : ℕ} (h : 2 ^ j ∣ 2 ^ i * (2 * m + 1)) : j ≤ i := by
  have hcop : Nat.Coprime (2 ^ j) (2 * m + 1) := by
    apply Nat.Coprime.pow_left
    rw [Nat.coprime_two_left]
    exact ⟨m, rfl⟩
  exact (Nat.pow_dvd_pow_iff_le_right Nat.one_lt_two).mp (hcop.dvd_of_dvd_mul_right h)

end Lowest

section Highest

/-- `x` without its highest set bit. -/
def dropHighest (x : ℕ) : ℕ := x - 2 ^ (x.size - 1)

/-- Clear the highest set bit, at most `n` times, until the value is below `len`. -/
def clearHigh : ℕ → ℕ → ℕ → ℕ
  | 0, _, x => x
  | n + 1, len, x => if x < len then x else clearHigh n len (dropHighest x)

variable {n k len x : ℕ}

theorem clearHigh_of_lt (h : x < len) : clearHigh n len x = x := by
  cases n with
  | zero => rfl
  | succ n => rw [clearHigh, if_pos h]

theorem size_bounds (h : 0 < x) : 2 ^ (x.size - 1) ≤ x ∧ x < 2 ^ (x.size - 1) * 2 := by
  have hpos : 0 < x.size := Nat.size_pos.mpr h
  constructor
  · exact Nat.lt_size.mp (by omega)
  · rw [← pow_succ, Nat.sub_add_cancel hpos]
    exact Nat.lt_size_self x

theorem size_ones (k : ℕ) : (2 ^ k - 1).size = k := by
  have hpos := Nat.two_pow_pos k
  apply Nat.le_antisymm
  · exact Nat.size_le.mpr (by omega)
  · cases k with
    | zero => exact Nat.zero_le _
    | succ k =>
      apply Nat.lt_size.mpr
      have hhalf := Nat.two_pow_pos k
      rw [pow_succ]
      omega

theorem dropHighest_lt_self (h : 0 < x) : dropHighest x < x :=
  Nat.sub_lt h (Nat.two_pow_pos _)

theorem dropHighest_le (x : ℕ) : dropHighest x ≤ x := Nat.sub_le _ _

theorem clearHigh_le (n len x : ℕ) : clearHigh n len x ≤ x := by
  induction n generalizing x with
  | zero => exact le_rfl
  | succ n ih =>
    rw [clearHigh]
    split_ifs
    · exact le_rfl
    · exact (ih _).trans (dropHighest_le x)

theorem dropHighest_eq_mod (h : 0 < x) : dropHighest x = x % 2 ^ (x.size - 1) := by
  obtain ⟨hle, hlt⟩ := size_bounds h
  rw [dropHighest, Nat.mod_eq_sub_mod hle, Nat.mod_eq_of_lt (by omega)]

theorem dropHighest_lt (h : 0 < x) : dropHighest x < 2 ^ (x.size - 1) := by
  rw [dropHighest_eq_mod h]
  exact Nat.mod_lt _ (Nat.two_pow_pos _)

/-- For a length of `k` bits the bits from `k` on are cleared, and then at most one more. -/
theorem clearHigh_eq (hx : x < 2 ^ n) (hlen : len ≤ 2 ^ k) (hlen' : 2 ^ k < 2 * len) :
    clearHigh n len x = if x % 2 ^ k < len then x % 2 ^ k else dropHighest (x % 2 ^ k) := by
  have hpos : 0 < len := by
    have := Nat.two_pow_pos k
    omega
  induction n generalizing x with
  | zero =>
    obtain rfl : x = 0 := by omega
    rw [clearHigh, Nat.zero_mod, if_pos hpos]
  | succ n ih =>
    rw [clearHigh]
    by_cases hsmall : x < len
    · have hmod : x % 2 ^ k = x := Nat.mod_eq_of_lt (by omega)
      rw [if_pos hsmall, hmod, if_pos hsmall]
    rw [if_neg hsmall]
    have hx0 : 0 < x := by omega
    obtain ⟨hle, hlt⟩ := size_bounds hx0
    have hdrop := dropHighest_eq_mod hx0
    by_cases hk : k ≤ x.size - 1
    · have hsize : x.size ≤ n + 1 := Nat.size_le.mpr hx
      have hbound : dropHighest x < 2 ^ n :=
        (dropHighest_lt hx0).trans_le (Nat.pow_le_pow_right Nat.two_pos (by omega))
      have hsame : dropHighest x % 2 ^ k = x % 2 ^ k := by
        rw [hdrop, Nat.mod_mod_of_dvd _ (pow_dvd_pow 2 hk)]
      rw [ih hbound, hsame]
    · -- the highest bit of `x` is the highest that the length has
      have hsucc : 2 ^ (x.size - 1) * 2 ≤ 2 ^ k := by
        rw [← pow_succ]
        exact Nat.pow_le_pow_right Nat.two_pos (by omega)
      have hlow : x < 2 ^ k := hlt.trans_le hsucc
      have hmod : x % 2 ^ k = x := Nat.mod_eq_of_lt hlow
      have hless : dropHighest x < len := by
        have hbound := dropHighest_lt hx0
        omega
      rw [hmod, if_neg hsmall, clearHigh_of_lt hless]

/-- Where only the low `e` bits of the value are kept first, the result is the same exactly when it
has no more bits than that. -/
theorem clearHigh_mod_iff {e : ℕ} (hx : x < 2 ^ n) (hlen : len ≤ 2 ^ k) (hlen' : 2 ^ k < 2 * len)
    (he : e ≤ k) :
    (if x % 2 ^ e < len then x % 2 ^ e else dropHighest (x % 2 ^ e)) = clearHigh n len x ↔
      clearHigh n len x < 2 ^ e := by
  have hfull := clearHigh_eq hx hlen hlen'
  rcases Nat.eq_or_lt_of_le he with rfl | hlt
  · rw [hfull]
    refine iff_of_true rfl ?_
    split_ifs
    · exact Nat.mod_lt _ (Nat.two_pow_pos _)
    · exact lt_of_le_of_lt (Nat.sub_le _ _) (Nat.mod_lt _ (Nat.two_pow_pos _))
  · have hhalf : 2 ^ e * 2 ≤ 2 ^ k := by
      rw [← pow_succ]
      exact Nat.pow_le_pow_right Nat.two_pos hlt
    have hlow : x % 2 ^ e < 2 ^ e := Nat.mod_lt _ (Nat.two_pow_pos _)
    rw [if_pos (by omega)]
    constructor
    · intro heq
      rw [← heq]
      exact hlow
    · intro hsmall
      have hagree : clearHigh n len x % 2 ^ e = x % 2 ^ e := by
        rw [hfull]
        split_ifs with hless
        · exact Nat.mod_mod_of_dvd _ (pow_dvd_pow 2 he)
        · have hv : 0 < x % 2 ^ k := by omega
          obtain ⟨hle, hlt'⟩ := size_bounds hv
          have hsize : e ≤ (x % 2 ^ k).size - 1 := by
            by_contra hshort
            have hpow : 2 ^ ((x % 2 ^ k).size - 1) * 2 ≤ 2 ^ e := by
              rw [← pow_succ]
              exact Nat.pow_le_pow_right Nat.two_pos (by omega)
            omega
          rw [dropHighest_eq_mod hv, Nat.mod_mod_of_dvd _ (pow_dvd_pow 2 hsize),
            Nat.mod_mod_of_dvd _ (pow_dvd_pow 2 he)]
      rw [← hagree]
      exact Nat.mod_eq_of_lt hsmall

end Highest

end RetroArch.Library.BitPicking
