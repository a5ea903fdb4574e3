/- Flat memory regions and circular windows over them.
   A region is a list of cells; a window of a ring is read off one region. -/

import Mathlib.Data.List.Basic
import Mathlib.Order.Nat

namespace RetroArch.Library.Region

variable {α : Type*}

/-- The cells at positions `a ≤ i < b`. -/
def slice (d : List α) (a b : ℕ) : List α := (d.take b).drop a

/-- Overwrite the cells from `pos` on, as `memcpy` does. -/
def blit (d : List α) (pos : ℕ) (src : List α) : List α :=
  d.take pos ++ (src ++ d.drop (pos + src.length))

theorem getElem?_slice (d : List α) (a b i : ℕ) :
    (slice d a b)[i]? = if a + i < b then d[a + i]? else none := by
  rw [slice, List.getElem?_drop, List.getElem?_take]

theorem getElem?_blit (d src : List α) (pos i : ℕ) (hpos : pos ≤ d.length) :
    (blit d pos src)[i]? =
      if i < pos then d[i]? else if i < pos + src.length then src[i - pos]? else d[i]? := by
  have htake : (d.take pos).length = pos := by simp [hpos]
  rw [blit, List.getElem?_append, htake]
  split_ifs with hi hj
  · exact List.getElem?_take_of_lt hi
  · rw [List.getElem?_append_left (by omega)]
  · rw [List.getElem?_append_right (by omega), List.getElem?_drop]
    congr 1
    omega

@[simp] theorem length_slice (d : List α) (a b : ℕ) :
    (slice d a b).length = min b d.length - a := by
  simp [slice]

@[simp] theorem slice_self (d : List α) (a : ℕ) : slice d a a = [] := by
  apply List.eq_nil_of_length_eq_zero
  simp only [length_slice]
  omega

@[simp] theorem slice_zero_zero (d : List α) : slice d 0 0 = [] := slice_self d 0

theorem length_blit (d src : List α) (pos : ℕ) (h : pos + src.length ≤ d.length) :
    (blit d pos src).length = d.length := by
  simp only [blit, List.length_append, List.length_take, List.length_drop]
  omega

theorem slice_append (d : List α) {a b c : ℕ} (hab : a ≤ b) (hbc : b ≤ c) :
    slice d a b ++ slice d b c = slice d a c := by
  by_cases hb : b ≤ d.length
  · apply List.ext_getElem?
    intro i
    have hlen : (slice d a b).length = b - a := by rw [length_slice]; omega
    rw [List.getElem?_append, hlen]
    simp only [getElem?_slice]
    split_ifs <;> first | rfl | (congr 1; omega)
  · have hright : slice d b c = [] := by
      apply List.eq_nil_of_length_eq_zero
      rw [length_slice]
      omega
    rw [hright, List.append_nil, slice, slice, List.take_of_length_le (by omega),
      List.take_of_length_le (by omega)]

theorem take_slice (d : List α) (a b k : ℕ) :
    (slice d a b).take k = slice d a (min b (a + k)) := by
  apply List.ext_getElem?
  intro i
  simp only [List.getElem?_take, getElem?_slice]
  split_ifs <;> first | rfl | omega

theorem drop_slice (d : List α) (a b k : ℕ) :
    (slice d a b).drop k = slice d (a + k) b := by
  simp [slice]

theorem slice_blit_before (d src : List α) {pos a b : ℕ} (hb : b ≤ pos)
    (hpos : pos ≤ d.length) : slice (blit d pos src) a b = slice d a b := by
  apply List.ext_getElem?
  intro i
  simp only [getElem?_slice, getElem?_blit d src pos _ hpos]
  split_ifs <;> first | rfl | omega

theorem slice_blit_after (d src : List α) {pos a b : ℕ} (ha : pos + src.length ≤ a)
    (hpos : pos ≤ d.length) : slice (blit d pos src) a b = slice d a b := by
  apply List.ext_getElem?
  intro i
  simp only [getElem?_slice, getElem?_blit d src pos _ hpos]
  split_ifs <;> first | rfl | omega

theorem slice_blit_same (d src : List α) (pos : ℕ) (hpos : pos ≤ d.length) :
    slice (blit d pos src) pos (pos + src.length) = src := by
  apply List.ext_getElem?
  intro i
  simp only [getElem?_slice, getElem?_blit d src pos _ hpos]
  by_cases hi : i < src.length
  · rw [if_pos (by omega), if_neg (by omega), if_pos (by omega)]
    congr 1
    omega
  · rw [if_neg (by omega), List.getElem?_eq_none (by omega)]

/-- The window of a ring from cursor `a` to cursor `b`: straight when `a ≤ b`, and
through the end of the region otherwise. -/
def ring (d : List α) (a b : ℕ) : List α :=
  if a ≤ b then slice d a b else slice d a d.length ++ slice d 0 b

/-- Cursor `r` lies on the way from `s` to `e`. -/
def Between (s r e : ℕ) : Prop :=
  s ≤ r ∧ r ≤ e ∨ e < s ∧ s ≤ r ∨ r ≤ e ∧ e < s

@[simp] theorem ring_self (d : List α) (a : ℕ) : ring d a a = [] := by
  simp [ring]

theorem ring_straight (d : List α) {a b : ℕ} (h : a ≤ b) : ring d a b = slice d a b :=
  if_pos h

theorem ring_wrapped (d : List α) {a b : ℕ} (h : b < a) :
    ring d a b = slice d a d.length ++ slice d 0 b :=
  if_neg (by omega)

theorem length_ring_straight (d : List α) {a b : ℕ} (h : a ≤ b) (hb : b ≤ d.length) :
    (ring d a b).length = b - a := by
  rw [ring_straight d h, length_slice]
  omega

theorem length_ring_wrapped (d : List α) {a b : ℕ} (h : b < a) (ha : a ≤ d.length) :
    (ring d a b).length = b + d.length - a := by
  rw [ring_wrapped d h, List.length_append, length_slice, length_slice]
  omega

theorem ring_append (d : List α) {s r e : ℕ} (h : Between s r e)
    (hr : r ≤ d.length) : ring d s r ++ ring d r e = ring d s e := by
  rcases h with ⟨hsr, hre⟩ | ⟨hes, hsr⟩ | ⟨hre, hes⟩
  · rw [ring_straight d hsr, ring_straight d hre, ring_straight d (by omega),
      slice_append d hsr hre]
  · rw [ring_straight d hsr, ring_wrapped d (by omega), ring_wrapped d hes,
      ← List.append_assoc, slice_append d hsr hr]
  · rw [ring_wrapped d (by omega), ring_straight d hre, ring_wrapped d hes,
      List.append_assoc, slice_append d (by omega) hre]

/-- Appending at the end cursor without reaching the end of the region. -/
theorem ring_blit_straight (d src : List α) {s e : ℕ} (hse : s ≤ e)
    (hfit : e + src.length ≤ d.length) :
    ring (blit d e src) s (e + src.length) = ring d s e ++ src := by
  rw [ring_straight _ (by omega), ring_straight _ hse,
    ← slice_append _ hse (by omega), slice_blit_before d src le_rfl (by omega),
    slice_blit_same d src e (by omega)]

theorem ring_blit_full (d src : List α) {s e : ℕ} (hs : 0 < s) (hse : s ≤ e)
    (hfit : e + src.length = d.length) :
    ring (blit d e src) s 0 = ring d s e ++ src := by
  have hlen : (blit d e src).length = e + src.length := by
    rw [length_blit d src e (by omega), hfit]
  rw [ring_wrapped _ hs, slice_self, List.append_nil, hlen, ring_straight _ hse,
    ← slice_append _ hse (by omega), slice_blit_before d src le_rfl (by omega),
    slice_blit_same d src e (by omega)]

theorem ring_blit_wrapped (d src : List α) {s e : ℕ} (hfit : e + src.length < s)
    (hs : s ≤ d.length) :
    ring (blit d e src) s (e + src.length) = ring d s e ++ src := by
  rw [ring_wrapped _ hfit, ring_wrapped _ (by omega), length_blit d src e (by omega),
    slice_blit_after d src (by omega) (by omega), List.append_assoc,
    ← slice_append _ (Nat.zero_le e) (by omega), slice_blit_before d src le_rfl (by omega),
    slice_blit_same d src e (by omega)]

/-- A window that the write does not meet keeps its contents. -/
theorem ring_blit_of_disjoint (d src : List α) {s r pos : ℕ}
    (hfit : pos + src.length ≤ d.length)
    (h : (s ≤ r ∧ (r ≤ pos ∨ pos + src.length ≤ s)) ∨
      (r < s ∧ r ≤ pos ∧ pos + src.length ≤ s)) :
    ring (blit d pos src) s r = ring d s r := by
  rcases h with ⟨hsr, hr | hr⟩ | ⟨hrs, hr, hp⟩
  · rw [ring_straight _ hsr, ring_straight _ hsr, slice_blit_before d src hr (by omega)]
  · rw [ring_straight _ hsr, ring_straight _ hsr, slice_blit_after d src hr (by omega)]
  · rw [ring_wrapped _ hrs, ring_wrapped _ hrs, length_blit d src pos hfit,
      slice_blit_after d src hp (by omega), slice_blit_before d src hr (by omega)]

end RetroArch.Library.Region
