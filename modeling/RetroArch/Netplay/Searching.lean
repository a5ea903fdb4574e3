/- Where `netplay_input_state_for` ends in a list of input states, and what it leaves there. -/

import RetroArch.Netplay.ReadBack

namespace RetroArch.Netplay.Searching

open Library.Bits Delta Resolve ReadBack

/-- A state as it is made for a client. -/
def fresh (client size : ℕ) : InputState := ⟨true, client, List.replicate size 0⟩

/-- A state in use that ends the search of its client: no unused state of the size stands in front
of it. -/
inductive Reached (client size : ℕ) (e : InputState) : List InputState → Prop
  | here {list : List InputState} (used : e.used = true) (num : e.clientNum = client) :
      Reached client size e (e :: list)
  | there {x : InputState} {list : List InputState} (full : x.used = false → x.size ≠ size)
      (other : x.used = true → x.clientNum ≠ client) (rest : Reached client size e list) :
      Reached client size e (x :: list)

section Search

variable {list list' : List InputState} {client size k : ℕ} {x e : InputState}

theorem search_cases (client size : ℕ) (x : InputState) :
    (x.used = false ∧ x.size = size) ∨ (x.used = true ∧ x.clientNum = client) ∨
      ((x.used = false → x.size ≠ size) ∧ (x.used = true → x.clientNum ≠ client)) := by
  cases hused : x.used with
  | false =>
    by_cases hsize : x.size = size
    · exact Or.inl ⟨rfl, hsize⟩
    · exact Or.inr (Or.inr ⟨fun _ => hsize, nofun⟩)
  | true =>
    by_cases hnum : x.clientNum = client
    · exact Or.inr (Or.inl ⟨rfl, hnum⟩)
    · exact Or.inr (Or.inr ⟨nofun, fun _ => hnum⟩)

theorem search_free (hused : x.used = false) (hsize : x.size = size) :
    netplayInputStateFor (x :: list) client size false false =
      (some 0, fresh client size :: list) := by
  rw [netplayInputStateFor, if_pos ⟨hused, rfl, hsize⟩]
  rfl

theorem search_own (hused : x.used = true) (hnum : x.clientNum = client) :
    netplayInputStateFor (x :: list) client size false false =
      (if x.size = size then some 0 else none, x :: list) := by
  rw [netplayInputStateFor, if_neg (by simp [hused]), if_pos ⟨hused, hnum⟩]
  by_cases hsize : x.size = size
  · rw [if_pos ⟨rfl, hsize⟩, if_pos hsize]
  · rw [if_neg fun h => hsize h.2, if_neg hsize]

theorem search_pass (hfull : x.used = false → x.size ≠ size)
    (hother : x.used = true → x.clientNum ≠ client) :
    netplayInputStateFor (x :: list) client size false false =
      ((netplayInputStateFor list client size false false).1.map (· + 1),
        x :: (netplayInputStateFor list client size false false).2) := by
  rw [netplayInputStateFor, if_neg fun h => hfull h.1 h.2.2, if_neg fun h => hother h.1 h.2]

theorem Reached.search (h : Reached client size e list) :
    (e.size = size → ∃ k, netplayInputStateFor list client size false false = (some k, list) ∧
      list[k]? = some e) ∧
    (e.size ≠ size → netplayInputStateFor list client size false false = (none, list)) := by
  induction h with
  | here used num =>
    rw [search_own used num]
    constructor
    · intro hsize
      exact ⟨0, by rw [if_pos hsize], rfl⟩
    · intro hsize
      rw [if_neg hsize]
  | there full other _ ih =>
    rw [search_pass full other]
    constructor
    · intro hsize
      obtain ⟨k, hsearch, hk⟩ := ih.1 hsize
      exact ⟨k + 1, by rw [hsearch]; rfl, hk⟩
    · intro hsize
      rw [ih.2 hsize]
      rfl

theorem Reached.usedOf (h : Reached client size e list) : usedOf list client = some e := by
  induction h with
  | here used num => simp [Delta.usedOf, used, num]
  | @there x list full other _ ih =>
    have hnot : (x.used && decide (x.clientNum = client)) = false := by
      simpa using other
    rw [Delta.usedOf, List.find?_cons, hnot]
    exact ih

theorem withData_self (hk : list[k]? = some e) : withData list k e.data = list := by
  apply List.ext_getElem?
  intro i
  by_cases hi : k = i
  · rw [withData, ← hi, List.getElem?_modify_eq, hk]
    rfl
  · rw [withData, List.getElem?_modify_ne _ _ hi]

theorem reached_of_search
    (h : netplayInputStateFor list client size false false = (some k, list')) :
    ∃ e, list'[k]? = some e ∧ e.size = size ∧
      ∀ data, Reached client size { e with data := data } (withData list' k data) := by
  induction list generalizing k list' with
  | nil =>
    cases h
    exact ⟨fresh client size, rfl, List.length_replicate, fun data => .here rfl rfl⟩
  | cons x list ih =>
    rcases search_cases client size x with ⟨hused, hsize⟩ | ⟨hused, hnum⟩ | ⟨hfull, hother⟩
    · rw [search_free hused hsize] at h
      cases h
      exact ⟨fresh client size, rfl, List.length_replicate, fun data => .here rfl rfl⟩
    · rw [search_own hused hnum] at h
      split_ifs at h with hsize
      · cases h
        exact ⟨x, rfl, hsize, fun data => .here hused hnum⟩
      · cases h
    · rw [search_pass hfull hother] at h
      rcases hrest : netplayInputStateFor list client size false false with ⟨_ | i, rest⟩
      · rw [hrest] at h
        cases h
      · rw [hrest] at h
        cases h
        obtain ⟨e, he, hsize, hreached⟩ := ih hrest
        exact ⟨e, he, hsize, fun data => .there hfull hother (hreached data)⟩

theorem reached_of_search_none
    (h : netplayInputStateFor list client size false false = (none, list')) :
    ∃ e, e.size ≠ size ∧ Reached client size e list := by
  induction list generalizing list' with
  | nil => cases h
  | cons x list ih =>
    rcases search_cases client size x with ⟨hused, hsize⟩ | ⟨hused, hnum⟩ | ⟨hfull, hother⟩
    · rw [search_free hused hsize] at h
      cases h
    · rw [search_own hused hnum] at h
      split_ifs at h with hsize
      · cases h
      · exact ⟨x, hsize, .here hused hnum⟩
    · rw [search_pass hfull hother] at h
      rcases hrest : netplayInputStateFor list client size false false with ⟨_ | i, rest⟩
      · obtain ⟨e, hsize, hreached⟩ := ih hrest
        exact ⟨e, hsize, .there hfull hother hreached⟩
      · rw [hrest] at h
        cases h

theorem Reached.other {client' : ℕ} (hne : client' ≠ client) (h : Reached client size e list)
    (hsearch : netplayInputStateFor list client' size false false = (some k, list'))
    (data : List UInt32) : Reached client size e (withData list' k data) := by
  induction h generalizing k list' with
  | here used num =>
    have hother : e.used = true → e.clientNum ≠ client' := fun _ heq => hne (heq ▸ num)
    rw [search_pass (fun hfree => absurd (hfree.symm.trans used) Bool.false_ne_true) hother]
      at hsearch
    rcases hrest : netplayInputStateFor _ client' size false false with ⟨_ | i, rest⟩
    · rw [hrest] at hsearch
      cases hsearch
    · rw [hrest] at hsearch
      cases hsearch
      exact .here used num
  | @there x list full other rest ih =>
    rcases search_cases client' size x with ⟨hused, hsize⟩ | ⟨hused, hnum⟩ | ⟨hfull, hother⟩
    · exact absurd hsize (full hused)
    · rw [search_own hused hnum] at hsearch
      split_ifs at hsearch
      · cases hsearch
        exact .there (fun hfree => absurd (hfree.symm.trans hused) Bool.false_ne_true) other rest
      · cases hsearch
    · rw [search_pass hfull hother] at hsearch
      rcases hrest : netplayInputStateFor list client' size false false with ⟨_ | i, list₁⟩
      · rw [hrest] at hsearch
        cases hsearch
      · rw [hrest] at hsearch
        cases hsearch
        exact .there full other (ih hrest)

theorem usedOf_other {client' : ℕ} (hne : client' ≠ client)
    (h : netplayInputStateFor list client size false false = (some k, list'))
    (data : List UInt32) : usedOf (withData list' k data) client' = usedOf list client' := by
  induction list generalizing k list' with
  | nil =>
    cases h
    simp [withData, usedOf, hne.symm]
  | cons x list ih =>
    rcases search_cases client size x with ⟨hused, hsize⟩ | ⟨hused, hnum⟩ | ⟨hfull, hother⟩
    · rw [search_free hused hsize] at h
      cases h
      simp [withData, usedOf, fresh, hused, hne.symm]
    · rw [search_own hused hnum] at h
      split_ifs at h with hsize
      · cases h
        simp [withData, usedOf, hnum, hne.symm]
      · cases h
    · rw [search_pass hfull hother] at h
      rcases hrest : netplayInputStateFor list client size false false with ⟨_ | i, rest⟩
      · rw [hrest] at h
        cases h
      · rw [hrest] at h
        cases h
        have hkept := ih hrest
        rw [withData] at hkept
        rw [withData, List.modify_succ_cons, usedOf, usedOf, List.find?_cons, List.find?_cons]
        cases x.used && decide (x.clientNum = client') with
        | true => rfl
        | false => exact hkept

theorem search_fresh (size : ℕ) (h : usedOf list client = none) :
    ∃ k list', netplayInputStateFor list client size false false = (some k, list') ∧
      list'[k]? = some (fresh client size) := by
  induction list with
  | nil => exact ⟨0, [fresh client size], rfl, rfl⟩
  | cons x list ih =>
    rw [usedOf, List.find?_cons] at h
    rcases search_cases client size x with ⟨hused, hsize⟩ | ⟨hused, hnum⟩ | ⟨hfull, hother⟩
    · exact ⟨0, _, search_free hused hsize, rfl⟩
    · simp [hused, hnum] at h
    · have hnot : (x.used && decide (x.clientNum = client)) = false := by
        simpa using hother
      rw [hnot] at h
      obtain ⟨k, list', hsearch, hk⟩ := ih h
      refine ⟨k + 1, x :: list', ?_, hk⟩
      rw [search_pass hfull hother, hsearch]
      rfl

end Search

section Packed

/-- No unused state of a size stands in front of one in use. -/
def Packed (size : ℕ) (list : List InputState) : Prop :=
  list.Pairwise fun a b => a.used = false → a.size = size → b.used = false

variable {list list' : List InputState} {client size k : ℕ} {e : InputState}

theorem Packed.reached (h : Packed size list) (he : usedOf list client = some e) :
    Reached client size e list := by
  induction list with
  | nil => exact nomatch he
  | cons x list ih =>
    obtain ⟨hfirst, hrest⟩ := List.pairwise_cons.mp h
    rw [usedOf, List.find?_cons] at he
    rcases search_cases client size x with ⟨hused, hsize⟩ | ⟨hused, hnum⟩ | ⟨hfull, hother⟩
    · have hnone : list.find? (fun i => i.used && decide (i.clientNum = client)) = none := by
        rw [List.find?_eq_none]
        intro y hy
        simp [hfirst y hy hused hsize]
      simp [hused, hnone] at he
    · simp only [hused, hnum, decide_true, Bool.and_self] at he
      cases he
      exact .here hused hnum
    · have hnot : (x.used && decide (x.clientNum = client)) = false := by
        simpa using hother
      rw [hnot] at he
      exact .there hfull hother (ih hrest he)

theorem Packed.search (h : Packed size list)
    (hsearch : netplayInputStateFor list client size false false = (some k, list'))
    (data : List UInt32) : Packed size (withData list' k data) := by
  induction list generalizing k list' with
  | nil =>
    cases hsearch
    exact List.pairwise_singleton ..
  | cons x list ih =>
    obtain ⟨hfirst, hrest⟩ := List.pairwise_cons.mp h
    rcases search_cases client size x with ⟨hused, hsize⟩ | ⟨hused, hnum⟩ | ⟨hfull, hother⟩
    · rw [search_free hused hsize] at hsearch
      cases hsearch
      exact List.pairwise_cons.mpr ⟨fun _ _ hfree => (nomatch hfree), hrest⟩
    · rw [search_own hused hnum] at hsearch
      split_ifs at hsearch
      · cases hsearch
        exact List.pairwise_cons.mpr
          ⟨fun _ _ hfree => absurd (hfree.symm.trans hused) Bool.false_ne_true, hrest⟩
      · cases hsearch
    · rw [search_pass hfull hother] at hsearch
      rcases hsub : netplayInputStateFor list client size false false with ⟨_ | i, rest⟩
      · rw [hsub] at hsearch
        cases hsearch
      · rw [hsub] at hsearch
        cases hsearch
        exact List.pairwise_cons.mpr
          ⟨fun _ _ hfree hsize => absurd hsize (hfull hfree), ih hrest hsub⟩

end Packed

end RetroArch.Netplay.Searching
