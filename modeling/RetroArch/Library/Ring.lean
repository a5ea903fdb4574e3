/- A block of memory that is read and written around its end. -/

import Mathlib.Data.List.Rotate
import RetroArch.Library.Memory

namespace RetroArch.Library.Ring

open Memory

variable {α : Type*} {mem : List α} {xs : List α} {pos n : ℕ}

/-- How many of `n` elements from `pos` on are in front of the end. -/
def beforeEnd (size pos n : ℕ) : ℕ := if pos + n > size then size - pos else n

theorem beforeEnd_le {size : ℕ} : beforeEnd size pos n ≤ n := by
  unfold beforeEnd
  split_ifs with h
  · omega
  · exact Nat.le_refl n

/-- What is read in two pieces is read in one of the turned block. -/
theorem peeks_around (hpos : pos ≤ mem.length) (hn : n ≤ mem.length) :
    ∃ xs ys, peeks mem pos (beforeEnd mem.length pos n) = some xs ∧
      peeks mem 0 (n - beforeEnd mem.length pos n) = some ys ∧
      xs ++ ys = (mem.rotate pos).take n := by
  have hbefore : pos + beforeEnd mem.length pos n ≤ mem.length := by
    unfold beforeEnd
    split_ifs with h
    · omega
    · exact Nat.not_lt.mp h
  refine ⟨_, _, peeks_of_le hbefore, peeks_of_le (by omega), ?_⟩
  rw [List.rotate_eq_drop_append_take hpos, List.take_append, List.length_drop, List.drop_zero,
    List.take_take]
  unfold beforeEnd
  split_ifs with h
  · have hdrop : (mem.drop pos).length = mem.length - pos := List.length_drop
    rw [List.take_of_length_le (Nat.le_of_eq hdrop),
      @List.take_of_length_le _ n (mem.drop pos) (by omega), Nat.min_eq_left (by omega)]
  · rw [Nat.sub_self, Nat.sub_eq_zero_of_le (by omega), Nat.zero_min]

/-- What is written in two pieces replaces the first elements of the turned block. -/
theorem pokes_around (hpos : pos ≤ mem.length) (hn : xs.length ≤ mem.length) :
    ∃ mem₁ mem₂, pokes mem pos (xs.take (beforeEnd mem.length pos xs.length)) = some mem₁ ∧
      pokes mem₁ 0 (xs.drop (beforeEnd mem.length pos xs.length)) = some mem₂ ∧
      mem₂.length = mem.length ∧
      mem₂.rotate pos = xs ++ (mem.rotate pos).drop xs.length := by
  have hle : beforeEnd mem.length pos xs.length ≤ xs.length := beforeEnd_le
  have htake : (xs.take (beforeEnd mem.length pos xs.length)).length =
      beforeEnd mem.length pos xs.length := by
    rw [List.length_take, Nat.min_eq_left hle]
  have hbefore : pos + beforeEnd mem.length pos xs.length ≤ mem.length := by
    unfold beforeEnd
    split_ifs with h
    · omega
    · exact Nat.not_lt.mp h
  have hfirst : ∃ mem₁, pokes mem pos (xs.take (beforeEnd mem.length pos xs.length)) =
      some mem₁ := ⟨_, if_pos (by rw [htake]; exact hbefore)⟩
  obtain ⟨mem₁, hfirst⟩ := hfirst
  have hlen₁ := length_pokes hfirst
  have hsecond : ∃ mem₂, pokes mem₁ 0 (xs.drop (beforeEnd mem.length pos xs.length)) =
      some mem₂ := ⟨_, if_pos (by rw [hlen₁, List.length_drop]; omega)⟩
  obtain ⟨mem₂, hsecond⟩ := hsecond
  have hlen₂ := length_pokes hsecond
  refine ⟨mem₁, mem₂, hfirst, hsecond, hlen₂.trans hlen₁, ?_⟩
  rw [List.rotate_eq_drop_append_take hpos,
    List.rotate_eq_drop_append_take (by rw [hlen₂, hlen₁]; exact hpos)]
  unfold pokes at hfirst hsecond
  rw [if_pos (by rw [htake]; exact hbefore)] at hfirst
  rw [if_pos (by rw [hlen₁, List.length_drop]; omega), List.take_zero, List.nil_append,
    Nat.zero_add] at hsecond
  obtain rfl := Option.some.inj hfirst
  obtain rfl := Option.some.inj hsecond
  have hturned : (mem.take pos).length = pos := by
    rw [List.length_take, Nat.min_eq_left hpos]
  unfold beforeEnd
  split_ifs with h
  · -- the second piece stands in front of what is left of the start
    set k := mem.length - pos with hk
    have hstored : (xs.take k).length = k := by
      rw [List.length_take]
      omega
    have hrest : mem.drop (pos + (xs.take k).length) = [] :=
      List.drop_eq_nil_of_le (by omega)
    have hlast : (xs.drop k).length ≤ (mem.take pos).length := by
      rw [List.length_drop, hturned]
      omega
    rw [hrest, List.append_nil, List.drop_append_of_le_length hlast]
    have hpiece : (xs.drop k ++ (mem.take pos).drop (xs.drop k).length).length = pos := by
      rw [List.length_append, List.length_drop (l := mem.take pos), hturned]
      rw [hturned] at hlast
      omega
    have hdrop : (mem.drop pos).length = k := List.length_drop
    have hlong : (mem.drop pos).drop xs.length = [] := List.drop_eq_nil_of_le (by omega)
    have hleft : (xs.drop k).length = xs.length - k := List.length_drop
    rw [← List.append_assoc, List.drop_left' hpiece, List.take_left' hpiece, List.drop_append,
      hlong, List.nil_append, hdrop, hleft, ← List.append_assoc, List.take_append_drop]
  · have hnone : xs.drop xs.length = [] := List.drop_length
    rw [hnone, List.take_length, List.nil_append, List.length_nil, List.drop_zero,
      List.append_assoc, List.drop_left' hturned, List.take_left' hturned,
      List.drop_append_of_le_length (by rw [List.length_drop]; omega), List.drop_drop,
      List.append_assoc]

end RetroArch.Library.Ring
