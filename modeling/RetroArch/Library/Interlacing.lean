/- A rectangle of places cut into grids, each with every so many columns of every so many rows. -/

import Mathlib.Algebra.Order.BigOperators.Group.List
import Mathlib.Data.List.Nodup
import RetroArch.Library.Memory

namespace RetroArch.Library.Interlacing

open Memory

/-- The columns `x`, `x + strideX` and so on of the rows `y`, `y + strideY` and so on. -/
structure Grid where
  x : ℕ
  y : ℕ
  strideX : ℕ
  strideY : ℕ
  column : x < strideX
  row : y < strideY

/-- How many of `start`, `start + stride` and so on are below a bound. -/
def reduced (start stride extent : ℕ) : ℕ := (extent - start + stride - 1) / stride

def Grid.width (g : Grid) (w : ℕ) : ℕ := reduced g.x g.strideX w

def Grid.height (g : Grid) (h : ℕ) : ℕ := reduced g.y g.strideY h

/-- Where pixel `i` of a grid is in a picture of width `w`. -/
def Grid.place (g : Grid) (w i : ℕ) : ℕ :=
  (g.y + i / g.width w * g.strideY) * w + (g.x + i % g.width w * g.strideX)

def Grid.places (g : Grid) (w h : ℕ) : List ℕ :=
  (List.range (g.width w * g.height h)).map (g.place w)

/-- The grid has this place of a picture. -/
def Grid.Has (g : Grid) (x y : ℕ) : Prop := x % g.strideX = g.x ∧ y % g.strideY = g.y

instance (g : Grid) (x y : ℕ) : Decidable (g.Has x y) := inferInstanceAs (Decidable (_ ∧ _))

variable {g : Grid} {w h : ℕ}

theorem lt_reduced {start stride extent i : ℕ} (hstride : 0 < stride) :
    i < reduced start stride extent ↔ start + i * stride < extent := by
  rw [reduced, ← Nat.succ_le_iff, Nat.le_div_iff_mul_le hstride, Nat.succ_mul]
  omega

theorem reduced_eq_zero {start stride extent : ℕ} (hstride : 0 < stride) :
    reduced start stride extent = 0 ↔ extent ≤ start := by
  have hfirst : 0 < reduced start stride extent ↔ start + 0 * stride < extent :=
    lt_reduced hstride
  rw [Nat.zero_mul, Nat.add_zero] at hfirst
  omega

theorem lt_width {i : ℕ} : i < g.width w ↔ g.x + i * g.strideX < w :=
  lt_reduced (Nat.zero_lt_of_lt g.column)

theorem lt_height {i : ℕ} : i < g.height h ↔ g.y + i * g.strideY < h :=
  lt_reduced (Nat.zero_lt_of_lt g.row)

theorem pixel_inside {i : ℕ} (hi : i < g.width w * g.height h) :
    g.x + i % g.width w * g.strideX < w ∧ g.y + i / g.width w * g.strideY < h := by
  have hpos : 0 < g.width w := Nat.pos_of_mul_pos_right (Nat.zero_lt_of_lt hi)
  exact ⟨lt_width.mp (Nat.mod_lt i hpos), lt_height.mp (Nat.div_lt_of_lt_mul hi)⟩

theorem place_column {i : ℕ} (hi : i < g.width w * g.height h) :
    g.place w i % w = g.x + i % g.width w * g.strideX ∧
      g.place w i / w = g.y + i / g.width w * g.strideY := by
  obtain ⟨hx, -⟩ := pixel_inside hi
  have hw : 0 < w := Nat.zero_lt_of_lt hx
  rw [Grid.place, Nat.mul_comm _ w]
  exact ⟨by rw [Nat.mul_add_mod, Nat.mod_eq_of_lt hx],
    by rw [Nat.mul_add_div hw, Nat.div_eq_of_lt hx, Nat.add_zero]⟩

theorem nodup_places : (g.places w h).Nodup := by
  apply List.Nodup.map_on _ List.nodup_range
  intro i hi j hj hplace
  have hi' := List.mem_range.mp hi
  obtain ⟨hxi, hyi⟩ := place_column hi'
  obtain ⟨hxj, hyj⟩ := place_column (List.mem_range.mp hj)
  rw [hplace, hxj] at hxi
  rw [hplace, hyj] at hyi
  have hmod : j % g.width w = i % g.width w :=
    Nat.eq_of_mul_eq_mul_right (Nat.zero_lt_of_lt g.column) (Nat.add_left_cancel hxi)
  have hdiv : j / g.width w = i / g.width w :=
    Nat.eq_of_mul_eq_mul_right (Nat.zero_lt_of_lt g.row) (Nat.add_left_cancel hyi)
  rw [← Nat.div_add_mod i (g.width w), ← Nat.div_add_mod j (g.width w), hmod, hdiv]

theorem mem_places {q : ℕ} : q ∈ g.places w h ↔ q < w * h ∧ g.Has (q % w) (q / w) := by
  rw [Grid.places, List.mem_map]
  constructor
  · rintro ⟨i, hi, rfl⟩
    have hi' := List.mem_range.mp hi
    obtain ⟨hx, hy⟩ := pixel_inside hi'
    obtain ⟨hcolumn, hrow⟩ := place_column hi'
    constructor
    · rw [Nat.mul_comm, ← Nat.div_lt_iff_lt_mul (Nat.zero_lt_of_lt hx), hrow]
      exact hy
    · rw [Grid.Has, hcolumn, hrow, Nat.add_mul_mod_self_right, Nat.add_mul_mod_self_right]
      exact ⟨Nat.mod_eq_of_lt g.column, Nat.mod_eq_of_lt g.row⟩
  · rintro ⟨hq, hx, hy⟩
    have hw : 0 < w := Nat.pos_of_mul_pos_right (Nat.zero_lt_of_lt hq)
    have hcolumn : g.x + q % w / g.strideX * g.strideX = q % w := by
      rw [Nat.mul_comm, ← hx]
      exact Nat.mod_add_div _ _
    have hrow : g.y + q / w / g.strideY * g.strideY = q / w := by
      rw [Nat.mul_comm, ← hy]
      exact Nat.mod_add_div _ _
    have ha : q % w / g.strideX < g.width w := by
      rw [lt_width, hcolumn]
      exact Nat.mod_lt q hw
    have hb : q / w / g.strideY < g.height h := by
      rw [lt_height, hrow]
      exact Nat.div_lt_of_lt_mul hq
    have hpos : 0 < g.width w := Nat.zero_lt_of_lt ha
    refine ⟨g.width w * (q / w / g.strideY) + q % w / g.strideX, List.mem_range.mpr ?_, ?_⟩
    · calc g.width w * (q / w / g.strideY) + q % w / g.strideX
          < g.width w * (q / w / g.strideY) + g.width w := Nat.add_lt_add_left ha _
        _ = g.width w * (q / w / g.strideY + 1) := (Nat.mul_succ _ _).symm
        _ ≤ g.width w * g.height h := Nat.mul_le_mul_left _ hb
    · rw [Grid.place, Nat.mul_add_mod, Nat.mod_eq_of_lt ha, Nat.mul_add_div hpos,
        Nat.div_eq_of_lt ha, Nat.add_zero, hcolumn, hrow, Nat.mul_comm]
      exact Nat.div_add_mod q w

/-- Grids of which exactly one has each place cover the picture once. -/
theorem places_perm {gs : List Grid}
    (hone : ∀ x y, (gs.map fun g => if g.Has x y then 1 else 0).sum = 1) (w h : ℕ) :
    (gs.flatMap fun g => g.places w h).Perm (List.range (w * h)) := by
  rw [List.perm_iff_count]
  intro q
  have hcount : ∀ g : Grid, (g.places w h).count q =
      if q < w * h then (if g.Has (q % w) (q / w) then 1 else 0) else 0 := by
    intro g
    by_cases hq : q < w * h
    · rw [if_pos hq]
      by_cases hhas : g.Has (q % w) (q / w)
      · rw [if_pos hhas]
        exact List.count_eq_one_of_mem nodup_places (mem_places.mpr ⟨hq, hhas⟩)
      · rw [if_neg hhas]
        exact List.count_eq_zero_of_not_mem fun hmem => hhas (mem_places.mp hmem).2
    · rw [if_neg hq]
      exact List.count_eq_zero_of_not_mem fun hmem => hq (mem_places.mp hmem).1
  rw [List.count_flatMap]
  by_cases hq : q < w * h
  · rw [List.count_eq_one_of_mem List.nodup_range (List.mem_range.mpr hq), ← hone (q % w) (q / w)]
    congr 1
    apply List.map_congr_left
    intro g _
    rw [Function.comp_apply, hcount, if_pos hq]
  · rw [List.count_eq_zero_of_not_mem fun hmem => hq (List.mem_range.mp hmem)]
    apply List.sum_eq_zero
    intro n hn
    obtain ⟨g, -, rfl⟩ := List.mem_map.mp hn
    rw [Function.comp_apply, hcount, if_neg hq]

theorem eq_of_sum_eq {α : Type*} {l : List α} {f g : α → ℕ} (hle : ∀ a ∈ l, f a ≤ g a)
    (hsum : (l.map f).sum = (l.map g).sum) : ∀ a ∈ l, f a = g a := by
  intro a ha
  apply Nat.le_antisymm (hle a ha)
  rw [← Nat.not_lt]
  intro hlt
  exact Nat.ne_of_lt (List.sum_lt_sum f g hle ⟨a, ha, hlt⟩) hsum

end RetroArch.Library.Interlacing
