/- Sorting a playlist by the names its entries are shown under. -/

import RetroArch.File.Pathname
import RetroArch.Playlist.Entry

namespace RetroArch.Playlist

open File.Config (pathMaxLength)
open File.Pathname Library.Casing

/-- The text of a string that is there and not empty. -/
def nonempty (s : Option Str) : Option Text := (s.map Str.text).filter fun text => text ≠ []

/-- The label, or what the path is shown as where there is none. -/
def sortName (e : PlaylistEntry) : Option Text :=
  match nonempty e.label with
  | some label => some label
  | none =>
    (nonempty e.path).bind fun path =>
      let fallbackLabel := fillShortPathnameRepresentation path pathMaxLength
      if fallbackLabel = [] then none else some fallbackLabel

def playlistQsortFunc (a b : PlaylistEntry) : Ordering :=
  match sortName a with
  | none => .eq
  | some aStr =>
    match sortName b with
    | none => .eq
    | some bStr => strcasecmp aStr bStr

section Statement

variable {α : Type}

/-- A comparison that `qsort` may be called with: a strict weak ordering of what is sorted. -/
structure Consistent (compar : α → α → Ordering) (base : List α) : Prop where
  antisymmetric : ∀ a ∈ base, ∀ b ∈ base, compar b a = (compar a b).swap
  transitive : ∀ a ∈ base, ∀ b ∈ base, ∀ c ∈ base,
    compar a b = .lt → compar b c = .lt → compar a c = .lt
  equal : ∀ a ∈ base, ∀ b ∈ base, ∀ c ∈ base,
    compar a b = .eq → compar b c = .eq → compar a c = .eq

/-- What `qsort` may leave: anything, unless the comparison is consistent. -/
def Qsort (compar : α → α → Ordering) (base sorted : List α) : Prop :=
  Consistent compar base → sorted.Perm base ∧ sorted.Pairwise fun a b => compar a b ≠ .gt

/-- `a` may stand before `b` in a list that is sorted by displayed name. -/
def NamedBefore (a b : PlaylistEntry) : Prop :=
  ∀ aStr bStr, sortName a = some aStr → sortName b = some bStr → strcasecmp aStr bStr ≠ .gt

structure SortsByName (entries : List PlaylistEntry) : Prop where
  consistent : Consistent playlistQsortFunc entries
  sorted : ∀ sorted, Qsort playlistQsortFunc entries sorted →
    sorted.Perm entries ∧ sorted.Pairwise NamedBefore

/-- No two names differ, or no entry is without one. -/
def Comparable (entries : List PlaylistEntry) : Prop :=
  (∀ e ∈ entries, sortName e ≠ none) ∨
    ∀ a ∈ entries, ∀ b ∈ entries, ∀ aStr bStr,
      sortName a = some aStr → sortName b = some bStr → strcasecmp aStr bStr = .eq

end Statement

section Ordered

variable {a b c : PlaylistEntry} {entries : List PlaylistEntry} {aStr bStr : Text}

theorem compare_named (ha : sortName a = some aStr) (hb : sortName b = some bStr) :
    playlistQsortFunc a b = strcasecmp aStr bStr := by
  rw [playlistQsortFunc, ha, hb]

theorem compare_blank_left (ha : sortName a = none) : playlistQsortFunc a b = .eq := by
  rw [playlistQsortFunc, ha]

theorem compare_blank_right (hb : sortName b = none) : playlistQsortFunc a b = .eq := by
  rw [playlistQsortFunc, hb]
  cases sortName a <;> rfl

theorem compare_swap (a b : PlaylistEntry) :
    playlistQsortFunc b a = (playlistQsortFunc a b).swap := by
  cases ha : sortName a with
  | none => rw [compare_blank_left ha, compare_blank_right ha, Ordering.swap_eq]
  | some aStr =>
    cases hb : sortName b with
    | none => rw [compare_blank_left hb, compare_blank_right hb, Ordering.swap_eq]
    | some bStr => rw [compare_named ha hb, compare_named hb ha, strcasecmp_swap]

theorem consistent_of_named (h : ∀ e ∈ entries, sortName e ≠ none) :
    Consistent playlistQsortFunc entries := by
  have hnamed : ∀ e ∈ entries, sortName e = some ((sortName e).getD []) := fun e he =>
    (Option.getD_of_ne_none (h e he) []).symm
  have hcompare : ∀ a ∈ entries, ∀ b ∈ entries, playlistQsortFunc a b =
      strcasecmp ((sortName a).getD []) ((sortName b).getD []) := fun a ha b hb =>
    compare_named (hnamed a ha) (hnamed b hb)
  constructor
  · intro a _ b _
    exact compare_swap a b
  · intro a ha b hb c hc hab hbc
    rw [hcompare a ha b hb] at hab
    rw [hcompare b hb c hc] at hbc
    rw [hcompare a ha c hc]
    exact strcasecmp_lt_trans hab hbc
  · intro a ha b hb c hc hab hbc
    rw [hcompare a ha b hb] at hab
    rw [hcompare b hb c hc] at hbc
    rw [hcompare a ha c hc]
    exact strcasecmp_eq_trans hab hbc

theorem compare_of_same (h : ∀ a ∈ entries, ∀ b ∈ entries, ∀ aStr bStr,
    sortName a = some aStr → sortName b = some bStr → strcasecmp aStr bStr = .eq)
    (ha : a ∈ entries) (hb : b ∈ entries) : playlistQsortFunc a b = .eq := by
  cases haStr : sortName a with
  | none => exact compare_blank_left haStr
  | some aStr =>
    cases hbStr : sortName b with
    | none => exact compare_blank_right hbStr
    | some bStr =>
      rw [compare_named haStr hbStr]
      exact h a ha b hb aStr bStr haStr hbStr

theorem consistent_of_comparable (h : Comparable entries) :
    Consistent playlistQsortFunc entries := by
  rcases h with hnamed | hsame
  · exact consistent_of_named hnamed
  · constructor
    · intro a _ b _
      exact compare_swap a b
    · intro a ha b hb c hc hab hbc
      rw [compare_of_same hsame ha hb] at hab
      cases hab
    · intro a ha b hb c hc hab hbc
      exact compare_of_same hsame ha hc

theorem comparable_of_consistent (h : Consistent playlistQsortFunc entries) :
    Comparable entries := by
  by_cases hnamed : ∀ e ∈ entries, sortName e ≠ none
  · exact .inl hnamed
  · push Not at hnamed
    obtain ⟨e, he, hblank⟩ := hnamed
    right
    intro a ha b hb aStr bStr haStr hbStr
    rw [← compare_named haStr hbStr]
    exact h.equal a ha e he b hb (compare_blank_right hblank) (compare_blank_left hblank)

/-- Sorting by displayed name is well defined exactly when every entry has a displayed name, or
all the names there are compare equal. -/
theorem sortsByName_iff (entries : List PlaylistEntry) :
    SortsByName entries ↔ Comparable entries := by
  constructor
  · intro h
    exact comparable_of_consistent h.consistent
  · intro h
    have hconsistent := consistent_of_comparable h
    refine ⟨hconsistent, ?_⟩
    intro sorted hsorted
    obtain ⟨hperm, hpairwise⟩ := hsorted hconsistent
    refine ⟨hperm, hpairwise.imp ?_⟩
    intro a b hab aStr bStr haStr hbStr
    rw [← compare_named haStr hbStr]
    exact hab

/-- An entry that has a label and nothing else. -/
def labelled (text : Text) : PlaylistEntry := { PlaylistEntry.empty with label := some ⟨0, text⟩ }

/-- An entry without a name between two that differ. -/
theorem blank_entry_inconsistent :
    ¬ SortsByName [labelled [97], PlaylistEntry.empty, labelled [98]] := by
  intro h
  have hequal := h.consistent.equal (labelled [97]) (by simp) PlaylistEntry.empty (by simp)
    (labelled [98]) (by simp) (by decide) (by decide)
  revert hequal
  decide

end Ordered

end RetroArch.Playlist
