/- A block of memory whose accesses have no result outside of it, and loops that fill it. -/

import Mathlib.Data.List.Basic
import Mathlib.Tactic.Ring

namespace RetroArch.Library.Memory

variable {α : Type*}

def poke (mem : List α) (i : ℕ) (x : α) : Option (List α) :=
  if i < mem.length then some (mem.set i x) else none

def peeks (mem : List α) (pos n : ℕ) : Option (List α) :=
  if pos + n ≤ mem.length then some ((mem.drop pos).take n) else none

def pokes (mem : List α) (pos : ℕ) (xs : List α) : Option (List α) :=
  if pos + xs.length ≤ mem.length then
    some (mem.take pos ++ xs ++ mem.drop (pos + xs.length))
  else
    none

/-- One store for each index in turn, of an element that may depend on the stores before. -/
def fill (place : ℕ → ℕ) (elem : List α → ℕ → Option α) : List ℕ → List α → Option (List α)
  | [], mem => some mem
  | i :: is, mem =>
    (elem mem i).bind fun x => (poke mem (place i) x).bind (fill place elem is)

variable {place : ℕ → ℕ} {elem : List α → ℕ → Option α} {mem mem' : List α} {is : List ℕ}

theorem poke_of_lt {i : ℕ} (h : i < mem.length) (x : α) : poke mem i x = some (mem.set i x) :=
  if_pos h

theorem poke_of_le {i : ℕ} (h : mem.length ≤ i) (x : α) : poke mem i x = none :=
  if_neg (Nat.not_lt.mpr h)

theorem length_poke {i : ℕ} {x : α} (h : poke mem i x = some mem') :
    mem'.length = mem.length := by
  unfold poke at h
  split_ifs at h
  obtain rfl := Option.some.inj h
  exact List.length_set

theorem length_pokes {pos : ℕ} {xs : List α} (h : pokes mem pos xs = some mem') :
    mem'.length = mem.length := by
  unfold pokes at h
  split_ifs at h with hfits
  obtain rfl := Option.some.inj h
  rw [List.length_append, List.length_append, List.length_take, List.length_drop]
  omega

theorem peeks_of_le {pos n : ℕ} (h : pos + n ≤ mem.length) :
    peeks mem pos n = some ((mem.drop pos).take n) := if_pos h

theorem length_fill (h : fill place elem is mem = some mem') : mem'.length = mem.length := by
  induction is generalizing mem with
  | nil => rw [← Option.some.inj h]
  | cons i is ih =>
    obtain ⟨x, -, hrest⟩ := Option.bind_eq_some_iff.mp h
    obtain ⟨mem₁, hpoke, hfill⟩ := Option.bind_eq_some_iff.mp hrest
    rw [ih hfill, length_poke hpoke]

theorem fill_append (is js : List ℕ) (mem : List α) :
    fill place elem (is ++ js) mem = (fill place elem is mem).bind (fill place elem js) := by
  induction is generalizing mem with
  | nil => rfl
  | cons i is ih =>
    rw [List.cons_append, fill, fill, Option.bind_assoc]
    congr 1
    funext x
    rw [Option.bind_assoc]
    congr 1
    funext mem₁
    exact ih mem₁

/-- A loop whose every element and place is there comes to its end. -/
theorem fill_isSome (place : ℕ → ℕ) (elem : List α → ℕ → Option α) (is : List ℕ)
    (mem : List α) (hplace : ∀ i ∈ is, place i < mem.length)
    (helem : ∀ mem₁ : List α, mem₁.length = mem.length → ∀ i ∈ is, (elem mem₁ i).isSome) :
    ∃ mem', fill place elem is mem = some mem' ∧ mem'.length = mem.length := by
  induction is generalizing mem with
  | nil => exact ⟨mem, rfl, rfl⟩
  | cons i is ih =>
    obtain ⟨x, hx⟩ := Option.isSome_iff_exists.mp (helem mem rfl i List.mem_cons_self)
    have hset : (mem.set (place i) x).length = mem.length := List.length_set
    have hplace' : ∀ j ∈ is, place j < (mem.set (place i) x).length := by
      intro j hj
      rw [hset]
      exact hplace j (List.mem_cons_of_mem i hj)
    obtain ⟨mem', hfill, hlen⟩ := ih _ hplace'
      (fun mem₁ hmem₁ j hj => helem mem₁ (hmem₁.trans hset) j (List.mem_cons_of_mem i hj))
    refine ⟨mem', ?_, hlen.trans hset⟩
    rw [fill, hx, Option.bind_some, poke_of_lt (hplace i List.mem_cons_self), Option.bind_some,
      hfill]

/-- One index with nothing to store or no place to store it stops the loop. -/
theorem fill_none {i : ℕ} (hi : i ∈ is)
    (hstop : mem.length ≤ place i ∨
      ∀ mem₁ : List α, mem₁.length = mem.length → elem mem₁ i = none) :
    fill place elem is mem = none := by
  induction is generalizing mem with
  | nil => exact absurd hi List.not_mem_nil
  | cons j is ih =>
    rw [fill]
    rcases hj : elem mem j with _ | x
    · rfl
    · rw [Option.bind_some]
      rcases hpoke : poke mem (place j) x with _ | mem₁
      · rfl
      · have hlen := length_poke hpoke
        rw [Option.bind_some]
        rcases List.mem_cons.mp hi with rfl | hmem
        · rcases hstop with hout | hnone
          · rw [poke_of_le hout] at hpoke
            exact nomatch hpoke
          · rw [hnone mem rfl] at hj
            exact nomatch hj
        · apply ih hmem
          rw [hlen]
          exact hstop

/-- A loop over a block from its start makes what each step stores behind what is there. -/
theorem fill_range {xs : List α} (hlen : mem.length = xs.length)
    (helem : ∀ (mem₁ : List α) (i : ℕ) (hi : i < xs.length), mem₁.length = xs.length →
      mem₁.take i = xs.take i → elem mem₁ i = some xs[i]) :
    fill id elem (List.range xs.length) mem = some xs := by
  suffices hstored : ∀ n ≤ xs.length,
      fill id elem (List.range n) mem = some (xs.take n ++ mem.drop n) by
    rw [hstored _ (Nat.le_refl _), List.take_length, ← hlen, List.drop_length, List.append_nil]
  intro n hn
  induction n with
  | zero => rfl
  | succ n ih =>
    have htake : (xs.take n).length = n := by
      rw [List.length_take]
      omega
    have hfull : (xs.take n ++ mem.drop n).length = xs.length := by
      rw [List.length_append, htake, List.length_drop]
      omega
    have hbefore : (xs.take n ++ mem.drop n).take n = xs.take n := by
      rw [List.take_left' htake]
    have hnext : n < mem.length := by omega
    rw [List.range_succ, fill_append, ih (Nat.le_of_succ_le hn), Option.bind_some, fill,
      helem _ n hn hfull hbefore, Option.bind_some, poke_of_lt (by rw [hfull]; exact hn),
      Option.bind_some, fill, List.drop_eq_getElem_cons hnext, id,
      List.set_append_right _ _ (Nat.le_of_eq htake), htake, Nat.sub_self, List.set_cons_zero,
      List.take_succ_eq_append_getElem hn, List.append_assoc]
    rfl

/-- A loop whose elements do not look at the block replaces one run of it. -/
theorem fill_run {pos : ℕ} {xs : List α} (hfits : pos + xs.length ≤ mem.length)
    {value : ℕ → Option α} (hvalue : ∀ (i : ℕ) (hi : i < xs.length), value i = some xs[i]) :
    fill (pos + ·) (fun _ => value) (List.range xs.length) mem =
      some (mem.take pos ++ xs ++ mem.drop (pos + xs.length)) := by
  suffices hstored : ∀ n ≤ xs.length, fill (pos + ·) (fun _ => value) (List.range n) mem =
      some (mem.take pos ++ xs.take n ++ mem.drop (pos + n)) by
    rw [hstored _ (Nat.le_refl _), List.take_length]
  intro n hn
  induction n with
  | zero =>
    rw [List.take_zero, List.append_nil, Nat.add_zero, List.take_append_drop]
    rfl
  | succ n ih =>
    have hleft : (mem.take pos ++ xs.take n).length = pos + n := by
      rw [List.length_append, List.length_take, List.length_take]
      omega
    have hfull : pos + n < (mem.take pos ++ xs.take n ++ mem.drop (pos + n)).length := by
      rw [List.length_append, hleft, List.length_drop]
      omega
    have hnext : pos + n < mem.length := by omega
    rw [List.range_succ, fill_append, ih (Nat.le_of_succ_le hn), Option.bind_some, fill,
      hvalue n hn, Option.bind_some, poke_of_lt hfull, Option.bind_some, fill,
      List.drop_eq_getElem_cons hnext, List.set_append_right _ _ (Nat.le_of_eq hleft), hleft,
      Nat.sub_self, List.set_cons_zero, List.take_succ_eq_append_getElem hn]
    simp only [List.append_assoc, List.cons_append, List.nil_append]
    rfl

section Rows

variable {σ : Type*} {step : σ → ℕ → Option σ} {I : σ → Prop} {s : σ}

/-- A loop each of whose rounds has a result that keeps the invariant has one. -/
theorem foldlM_total (step : σ → ℕ → Option σ) (I : σ → Prop) (is : List ℕ) (hs : I s) (hstep : ∀ s, I s → ∀ i ∈ is, ∃ t, step s i = some t ∧ I t) :
    ∃ t, is.foldlM step s = some t ∧ I t := by
  induction is generalizing s with
  | nil => exact ⟨s, rfl, hs⟩
  | cons i is ih =>
    obtain ⟨t, ht, hkept⟩ := hstep s hs i List.mem_cons_self
    obtain ⟨u, hu, hend⟩ := ih hkept fun s hs j hj => hstep s hs j (List.mem_cons_of_mem i hj)
    refine ⟨u, ?_, hend⟩
    rw [List.foldlM_cons, ht]
    exact hu

/-- One round that has none in any state stops it. -/
theorem foldlM_none (hs : I s) (hkeep : ∀ s i t, I s → step s i = some t → I t) {i : ℕ}
    (hi : i ∈ is) (hstop : ∀ s, I s → step s i = none) : is.foldlM step s = none := by
  induction is generalizing s with
  | nil => exact absurd hi List.not_mem_nil
  | cons j is ih =>
    rw [List.foldlM_cons]
    cases hj : step s j with
    | none => rfl
    | some t =>
      rcases List.mem_cons.mp hi with rfl | hmem
      · rw [hstop s hs] at hj
        exact nomatch hj
      · exact ih (hkeep s j t hs hj) hmem

end Rows

end RetroArch.Library.Memory
