/- Integers of either byte order in byte memory, and the view of byte memory as 16-bit words. -/

import Mathlib.Data.List.Basic
import Mathlib.Tactic.Ring

namespace RetroArch.Library.Bytes

/-- The `width` bytes of `v`, low byte first. -/
def toLE : ℕ → ℕ → List UInt8
  | 0, _ => []
  | width + 1, v => UInt8.ofNat v :: toLE width (v / 256)

def ofLE : List UInt8 → ℕ
  | [] => 0
  | b :: bs => b.toNat + 256 * ofLE bs

@[simp] theorem length_toLE (width v : ℕ) : (toLE width v).length = width := by
  induction width generalizing v with
  | zero => rfl
  | succ width ih => rw [toLE, List.length_cons, ih]

theorem ofLE_toLE {width v : ℕ} (h : v < 256 ^ width) : ofLE (toLE width v) = v := by
  induction width generalizing v with
  | zero =>
    rw [pow_zero] at h
    rw [toLE, ofLE]
    omega
  | succ width ih =>
    rw [pow_succ] at h
    have hrest : v / 256 < 256 ^ width := by omega
    rw [toLE, ofLE, ih hrest, UInt8.toNat_ofNat']
    omega

/-- The `width` bytes of `v`, high byte first. -/
def toBE (width v : ℕ) : List UInt8 := (toLE width v).reverse

def ofBE (bs : List UInt8) : ℕ := ofLE bs.reverse

@[simp] theorem length_toBE (width v : ℕ) : (toBE width v).length = width := by
  rw [toBE, List.length_reverse, length_toLE]

theorem ofBE_toBE {width v : ℕ} (h : v < 256 ^ width) : ofBE (toBE width v) = v := by
  rw [ofBE, toBE, List.reverse_reverse, ofLE_toLE h]

/-- Memory cut into runs of four bytes; fewer at the end are left out. -/
def quads : List UInt8 → List (List UInt8)
  | a :: b :: c :: d :: rest => [a, b, c, d] :: quads rest
  | _ => []

theorem quads_append {word : List UInt8} (h : word.length = 4) (rest : List UInt8) :
    quads (word ++ rest) = word :: quads rest := by
  match word with
  | [a, b, c, d] => rfl

theorem length_quads (bs : List UInt8) : (quads bs).length = bs.length / 4 := by
  fun_induction quads bs with
  | case1 a b c d rest ih =>
    rw [List.length_cons, ih]
    simp only [List.length_cons]
    omega
  | case2 bs hfew =>
    rcases bs with _ | ⟨a, _ | ⟨b, _ | ⟨c, _ | ⟨d, rest⟩⟩⟩⟩
    · rfl
    · simp
    · simp
    · simp
    · exact absurd rfl (hfew a b c d rest)

theorem quads_flatMap {α : Type*} (f : α → List UInt8) (xs : List α) (h : ∀ x, (f x).length = 4) :
    quads (xs.flatMap f) = xs.map f := by
  induction xs with
  | nil => rfl
  | cons x xs ih => rw [List.flatMap_cons, quads_append (h x), ih, List.map_cons]

/-- A `uint16_t *` view of memory; an odd byte at the end is not part of a word. -/
def words : List UInt8 → List UInt16
  | lo :: hi :: rest => UInt16.ofNat (lo.toNat + 256 * hi.toNat) :: words rest
  | _ => []

def bytes : List UInt16 → List UInt8
  | [] => []
  | w :: ws => UInt8.ofNat w.toNat :: UInt8.ofNat (w.toNat / 256) :: bytes ws

@[simp] theorem length_bytes (ws : List UInt16) : (bytes ws).length = 2 * ws.length := by
  induction ws with
  | nil => rfl
  | cons w ws ih =>
    simp only [bytes, List.length_cons, ih]
    omega

theorem bytes_append (ws vs : List UInt16) : bytes (ws ++ vs) = bytes ws ++ bytes vs := by
  induction ws with
  | nil => rfl
  | cons w ws ih => rw [List.cons_append, bytes, ih]; rfl

theorem words_bytes_append (ws : List UInt16) (rest : List UInt8) :
    words (bytes ws ++ rest) = ws ++ words rest := by
  induction ws with
  | nil => rfl
  | cons w ws ih =>
    have hw : UInt16.ofNat
        ((UInt8.ofNat w.toNat).toNat + 256 * (UInt8.ofNat (w.toNat / 256)).toNat) = w := by
      have hlt := w.toNat_lt
      apply UInt16.toNat_inj.mp
      rw [UInt16.toNat_ofNat', UInt8.toNat_ofNat', UInt8.toNat_ofNat']
      omega
    rw [bytes, List.cons_append, List.cons_append, words, ih, hw]
    rfl

theorem bytes_words {bs : List UInt8} (h : 2 ∣ bs.length) : bytes (words bs) = bs := by
  induction bs using words.induct with
  | case1 lo hi rest ih =>
    have hlo := lo.toNat_lt
    have hhi := hi.toNat_lt
    have hv : (UInt16.ofNat (lo.toNat + 256 * hi.toNat)).toNat = lo.toNat + 256 * hi.toNat := by
      rw [UInt16.toNat_ofNat']
      omega
    have hrest : 2 ∣ rest.length := by
      simp only [List.length_cons] at h
      omega
    have hlow : UInt8.ofNat (lo.toNat + 256 * hi.toNat) = lo := by
      apply UInt8.toNat_inj.mp
      rw [UInt8.toNat_ofNat']
      omega
    have hhigh : UInt8.ofNat ((lo.toNat + 256 * hi.toNat) / 256) = hi := by
      apply UInt8.toNat_inj.mp
      rw [UInt8.toNat_ofNat']
      omega
    rw [words, bytes, hv, ih hrest, hlow, hhigh]
  | case2 bs hbs =>
    match bs with
    | [] => rfl
    | [b] =>
      simp only [List.length_cons, List.length_nil] at h
      omega
    | lo :: hi :: rest => exact absurd rfl (hbs lo hi rest)

theorem length_words (bs : List UInt8) (h : 2 ∣ bs.length) :
    2 * (words bs).length = bs.length := by
  rw [← length_bytes, bytes_words h]

end RetroArch.Library.Bytes
