/- Numbers as runs of seven-bit digits, low digit first, the last byte marked; no number has two codes. -/

import Mathlib.Data.List.Basic
import Mathlib.Tactic.Ring

set_option maxRecDepth 10000

namespace RetroArch.Library.Varint

/-- The number at the start of some bytes and the bytes after it. -/
def decode : List UInt8 → Option (ℕ × List UInt8)
  | [] => none
  | x :: xs =>
    if 128 ≤ x.toNat then
      some (x.toNat - 128, xs)
    else
      (decode xs).map fun (v, rest) => (x.toNat + 128 * (v + 1), rest)

def encodeWith : ℕ → ℕ → List UInt8
  | 0, n => [UInt8.ofNat (n % 128 + 128)]
  | fuel + 1, n =>
    if n < 128 then
      [UInt8.ofNat (n + 128)]
    else
      UInt8.ofNat (n % 128) :: encodeWith fuel (n / 128 - 1)

def encode (n : ℕ) : List UInt8 := encodeWith n n

theorem toNat_last {n : ℕ} (h : n < 128) : (UInt8.ofNat (n + 128)).toNat = n + 128 := by
  rw [UInt8.toNat_ofNat']
  omega

theorem toNat_digit (n : ℕ) : (UInt8.ofNat (n % 128)).toNat = n % 128 := by
  rw [UInt8.toNat_ofNat']
  omega

theorem decode_encodeWith {fuel n : ℕ} (h : n ≤ fuel) (rest : List UInt8) :
    decode (encodeWith fuel n ++ rest) = some (n, rest) := by
  induction fuel generalizing n with
  | zero =>
    obtain rfl := Nat.le_zero.mp h
    rfl
  | succ fuel ih =>
    rw [encodeWith]
    split_ifs with hlast
    · rw [List.singleton_append, decode, toNat_last hlast, if_pos (by omega), Nat.add_sub_cancel]
    · rw [List.cons_append, decode, toNat_digit, if_neg (by omega), ih (by omega), Option.map_some]
      simp only
      congr 2
      omega

theorem decode_encode (n : ℕ) (rest : List UInt8) : decode (encode n ++ rest) = some (n, rest) :=
  decode_encodeWith (Nat.le_refl n) rest

/-- A number that is complete is read the same with more bytes after it. -/
theorem decode_append {xs : List UInt8} {v : ℕ} {rest : List UInt8}
    (h : decode xs = some (v, rest)) (ys : List UInt8) :
    decode (xs ++ ys) = some (v, rest ++ ys) := by
  induction xs generalizing v rest with
  | nil => exact absurd h (Option.some_ne_none _).symm
  | cons x xs ih =>
    rw [decode] at h
    rw [List.cons_append, decode]
    split_ifs at h ⊢ with hlast
    · obtain ⟨rfl, rfl⟩ := Prod.mk.inj (Option.some.inj h)
      rfl
    · obtain ⟨⟨v', rest'⟩, hdecode, hv⟩ := Option.map_eq_some_iff.mp h
      obtain ⟨rfl, rfl⟩ := Prod.mk.inj hv
      rw [ih hdecode]
      rfl

theorem decode_length {xs : List UInt8} {v : ℕ} {rest : List UInt8}
    (h : decode xs = some (v, rest)) : rest.length < xs.length := by
  induction xs generalizing v rest with
  | nil => exact absurd h (Option.some_ne_none _).symm
  | cons x xs ih =>
    rw [decode] at h
    rw [List.length_cons]
    split_ifs at h with hlast
    · obtain ⟨-, rfl⟩ := Prod.mk.inj (Option.some.inj h)
      exact Nat.lt_succ_self _
    · obtain ⟨⟨v', rest'⟩, hdecode, hv⟩ := Option.map_eq_some_iff.mp h
      obtain ⟨-, rfl⟩ := Prod.mk.inj hv
      exact Nat.lt_succ_of_lt (ih hdecode)

theorem encodeWith_pos (fuel n : ℕ) : 0 < (encodeWith fuel n).length := by
  cases fuel with
  | zero => exact Nat.one_pos
  | succ fuel =>
    rw [encodeWith]
    split_ifs
    · exact Nat.one_pos
    · exact Nat.succ_pos _

theorem encode_pos (n : ℕ) : 0 < (encode n).length := encodeWith_pos n n

theorem length_encodeWith_le {fuel n digits : ℕ} (hfuel : n ≤ fuel) (h : n < 128 ^ (digits + 1)) :
    (encodeWith fuel n).length ≤ digits + 1 := by
  induction digits generalizing fuel n with
  | zero =>
    cases fuel with
    | zero => exact Nat.le_refl 1
    | succ fuel => rw [encodeWith, if_pos (by omega)]; exact Nat.le_refl 1
  | succ digits ih =>
    cases fuel with
    | zero => exact Nat.succ_pos _
    | succ fuel =>
      rw [encodeWith]
      split_ifs with hlast
      · exact Nat.succ_pos _
      · rw [pow_succ] at h
        have hrest : n / 128 - 1 < 128 ^ (digits + 1) := by omega
        rw [List.length_cons]
        exact Nat.succ_le_succ (ih (by omega) hrest)

theorem length_encode_le {n digits : ℕ} (h : n < 128 ^ (digits + 1)) :
    (encode n).length ≤ digits + 1 :=
  length_encodeWith_le (Nat.le_refl n) h

theorem eq_encodeWith_of_decode {xs : List UInt8} {v fuel : ℕ} {rest : List UInt8}
    (h : decode xs = some (v, rest)) (hfuel : v ≤ fuel) : xs = encodeWith fuel v ++ rest := by
  induction xs generalizing v fuel with
  | nil => exact absurd h (Option.some_ne_none _).symm
  | cons x xs ih =>
    have hx := x.toNat_lt
    rw [decode] at h
    split_ifs at h with hlast
    · obtain ⟨rfl, rfl⟩ := Prod.mk.inj (Option.some.inj h)
      have hback : UInt8.ofNat (x.toNat - 128 + 128) = x := by
        rw [Nat.sub_add_cancel hlast, UInt8.ofNat_toNat]
      cases fuel with
      | zero =>
        rw [encodeWith, Nat.mod_eq_of_lt (by omega), hback, List.singleton_append]
      | succ fuel => rw [encodeWith, if_pos (by omega), hback, List.singleton_append]
    · obtain ⟨⟨v', rest'⟩, hdecode, hv⟩ := Option.map_eq_some_iff.mp h
      obtain ⟨rfl, rfl⟩ := Prod.mk.inj hv
      cases fuel with
      | zero => omega
      | succ fuel =>
        have hdigit : (x.toNat + 128 * (v' + 1)) % 128 = x.toNat := by omega
        have hhigh : (x.toNat + 128 * (v' + 1)) / 128 - 1 = v' := by omega
        rw [encodeWith, if_neg (by omega), hdigit, hhigh, UInt8.ofNat_toNat, List.cons_append,
          ← ih hdecode (by omega)]

theorem eq_encode_of_decode {xs : List UInt8} {v : ℕ} {rest : List UInt8}
    (h : decode xs = some (v, rest)) : xs = encode v ++ rest :=
  eq_encodeWith_of_decode h (Nat.le_refl v)

theorem decode_le {xs : List UInt8} {v : ℕ} {rest : List UInt8} (h : decode xs = some (v, rest)) :
    v + 3 ≤ 2 * 128 ^ xs.length := by
  induction xs generalizing v with
  | nil => exact absurd h (Option.some_ne_none _).symm
  | cons x xs ih =>
    have hx := x.toNat_lt
    have hpos : 0 < 128 ^ xs.length := Nat.pow_pos (by decide)
    rw [decode] at h
    rw [List.length_cons, pow_succ]
    split_ifs at h with hlast
    · obtain ⟨rfl, -⟩ := Prod.mk.inj (Option.some.inj h)
      omega
    · obtain ⟨⟨v', rest'⟩, hdecode, hv⟩ := Option.map_eq_some_iff.mp h
      obtain ⟨rfl, rfl⟩ := Prod.mk.inj hv
      have hrest := ih hdecode
      omega

theorem encodeWith_last (fuel n : ℕ) :
    ∃ front last, encodeWith fuel n = front ++ [last] ∧ 128 ≤ last.toNat := by
  induction fuel generalizing n with
  | zero =>
    refine ⟨[], _, rfl, ?_⟩
    rw [toNat_last (Nat.mod_lt n (by decide))]
    exact Nat.le_add_left 128 _
  | succ fuel ih =>
    rw [encodeWith]
    split_ifs with hlast
    · refine ⟨[], _, rfl, ?_⟩
      rw [toNat_last hlast]
      exact Nat.le_add_left 128 _
    · obtain ⟨front, last, hcode, hbit⟩ := ih (n / 128 - 1)
      exact ⟨_ :: front, last, by rw [hcode]; rfl, hbit⟩

theorem digit_table : ∀ i : Fin 256, (UInt8.ofNat i.val &&& 0x80 ≠ 0 ↔ 128 ≤ i.val) ∧
    (UInt8.ofNat i.val &&& 0x7f).toNat = i.val % 128 := by
  decide

theorem digit_bits (x : UInt8) :
    (x &&& 0x80 ≠ 0 ↔ 128 ≤ x.toNat) ∧ (x &&& 0x7f).toNat = x.toNat % 128 := by
  have h := digit_table ⟨x.toNat, x.toNat_lt⟩
  simp only [UInt8.ofNat_toNat] at h
  exact h

theorem shiftLeft_seven (shift : UInt64) : shift <<< 7 = shift * 128 := by
  apply UInt64.toNat_inj.mp
  rw [UInt64.toNat_shiftLeft, UInt64.toNat_mul, Nat.shiftLeft_eq]
  rfl

theorem toUInt64_digit (x : UInt8) : (x &&& 0x7f).toUInt64 = UInt64.ofNat (x.toNat % 128) := by
  apply UInt64.toNat_inj.mp
  have hdigit := (digit_bits x).2
  rw [UInt8.toNat_toUInt64, hdigit, UInt64.toNat_ofNat']
  omega

/-- One more digit in front of a number. -/
theorem decode_digit (offset shift : UInt64) (x v : ℕ) :
    offset + UInt64.ofNat x * shift + shift * 128 + shift * 128 * UInt64.ofNat v =
      offset + shift * UInt64.ofNat (x + 128 * (v + 1)) := by
  rw [UInt64.ofNat_add, UInt64.ofNat_mul, UInt64.ofNat_add]
  grind

end RetroArch.Library.Varint
