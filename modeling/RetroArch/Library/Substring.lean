/- The first place of a word in a text, the places of its bytes, and the tokens between its
   delimiters. A place is what of the text lies from it on. -/

import Mathlib.Data.List.Infix
import Mathlib.Data.List.TakeWhile
import Mathlib.Tactic.Ring

namespace RetroArch.Library.Substring

variable {α : Type*}

section Search

variable [DecidableEq α]

/-- The text from the first match on. -/
def strstr (text word : List α) : Option (List α) :=
  if word <+: text then some text
  else
    match text with
    | [] => none
    | _ :: rest => strstr rest word

variable {text tail word found : List α}

theorem strstr_begins (h : word <+: text) : strstr text word = some text := by
  rw [strstr.eq_def, if_pos h]

theorem strstr_cons_of_not {a : α} (h : ¬word <+: a :: text) :
    strstr (a :: text) word = strstr text word := by
  rw [strstr, if_neg h]

theorem strstr_suffix (h : strstr text word = some found) : found <:+ text := by
  induction text with
  | nil =>
    rw [strstr] at h
    split_ifs at h
    exact Option.some.inj h ▸ List.suffix_refl _
  | cons a text ih =>
    by_cases hhere : word <+: a :: text
    · rw [strstr_begins hhere] at h
      exact Option.some.inj h ▸ List.suffix_refl _
    · rw [strstr_cons_of_not hhere] at h
      exact (ih h).trans (List.suffix_cons a text)

theorem begins_strstr (h : strstr text word = some found) : word <+: found := by
  induction text with
  | nil =>
    rw [strstr] at h
    split_ifs at h with hhere
    exact Option.some.inj h ▸ hhere
  | cons a text ih =>
    by_cases hhere : word <+: a :: text
    · rw [strstr_begins hhere] at h
      exact Option.some.inj h ▸ hhere
    · rw [strstr_cons_of_not hhere] at h
      exact ih h

theorem strstr_eq_self (h : strstr text word = some found) : strstr found word = some found :=
  strstr_begins (begins_strstr h)

theorem strstr_of_suffix (h : strstr text word = some found) (htail : tail <:+ text)
    (hle : found.length ≤ tail.length) : strstr tail word = some found := by
  induction text with
  | nil => rwa [List.suffix_nil.mp htail]
  | cons a text ih =>
    rcases List.suffix_cons_iff.mp htail with rfl | hrest
    · exact h
    · have hhere : ¬word <+: a :: text := by
        intro hhere
        rw [strstr_begins hhere] at h
        have hlen := congrArg List.length (Option.some.inj h)
        have hshort := hrest.length_le
        rw [List.length_cons] at hlen
        omega
      rw [strstr_cons_of_not hhere] at h
      exact ih h hrest

theorem strstr_none_of_suffix (h : strstr text word = none) (htail : tail <:+ text) :
    strstr tail word = none := by
  induction text with
  | nil => rwa [List.suffix_nil.mp htail]
  | cons a text ih =>
    rcases List.suffix_cons_iff.mp htail with rfl | hrest
    · exact h
    · by_cases hhere : word <+: a :: text
      · rw [strstr_begins hhere] at h
        exact nomatch h
      · rw [strstr_cons_of_not hhere] at h
        exact ih h hrest

end Search

section Places

/-- The places of the first `n` elements. -/
def places (text : List α) (n : ℕ) : List (List α) := text.tails.take n

/-- What lies at the places. -/
def elements (places : List (List α)) : List α := places.filterMap List.head?

variable {text tail place : List α} {n : ℕ}

@[simp] theorem places_zero (text : List α) : places text 0 = [] := rfl

theorem places_cons_succ (a : α) (text : List α) (n : ℕ) :
    places (a :: text) (n + 1) = (a :: text) :: places text n := by
  rw [places, List.tails_cons, List.take_succ_cons, places]

theorem elements_append (xs ys : List (List α)) :
    elements (xs ++ ys) = elements xs ++ elements ys := List.filterMap_append

theorem elements_places (text : List α) {n : ℕ} (h : n ≤ text.length) :
    elements (places text n) = text.take n := by
  induction text generalizing n with
  | nil => rw [Nat.le_zero.mp h, places_zero, List.take_nil]; rfl
  | cons a text ih =>
    cases n with
    | zero => rfl
    | succ n =>
      rw [places_cons_succ, List.take_succ_cons, ← ih (Nat.le_of_succ_le_succ h)]
      rfl

theorem mem_places (h : place ∈ places text n) : place <:+ text :=
  (List.mem_tails _ _).mp (List.mem_of_mem_take h)

theorem head_places (hne : text ≠ []) (hpos : 0 < n) : (places text n).head? = some text := by
  obtain ⟨n, rfl⟩ := Nat.exists_eq_add_one.mpr hpos
  cases text with
  | nil => exact absurd rfl hne
  | cons a text => rw [places_cons_succ, List.head?_cons]

theorem places_suffix (h : tail <:+ text) :
    places text text.length =
      places text (text.length - tail.length) ++ places tail tail.length := by
  obtain ⟨front, rfl⟩ := h
  rw [List.length_append, Nat.add_sub_cancel]
  induction front with
  | nil => simp
  | cons a front ih =>
    rw [List.length_cons, List.cons_append, Nat.add_right_comm, places_cons_succ,
      places_cons_succ, ih, List.cons_append]

end Places

section Tokens

variable [DecidableEq α] {delim : α} {text tok rest : List α}

def strchr (text : List α) (a : α) : Option (List α) :=
  match text.dropWhile (· ≠ a) with
  | [] => none
  | found => some found

/-- The first token, and what is left behind the delimiter that ends it. -/
def strtok (text : List α) (delim : α) : Option (List α × List α) :=
  let start := text.dropWhile (· = delim)
  if start = [] then none
  else some (start.takeWhile (· ≠ delim), (start.dropWhile (· ≠ delim)).drop 1)

theorem strtok_none_iff : strtok text delim = none ↔ ∀ a ∈ text, a = delim := by
  have hnil : text.dropWhile (· = delim) = [] ↔ ∀ a ∈ text, a = delim := by
    rw [List.dropWhile_eq_nil_iff]
    simp
  rw [← hnil, strtok]
  simp

/-- Where no delimiter is first, the token is what is up to the first one. -/
theorem strtok_cons {a : α} (h : a ≠ delim) (text : List α) :
    strtok (a :: text) delim = some ((a :: text).takeWhile (· ≠ delim),
      ((a :: text).dropWhile (· ≠ delim)).drop 1) := by
  have hskip : (a :: text).dropWhile (· = delim) = a :: text :=
    List.dropWhile_cons_of_neg (by simpa using h)
  rw [strtok, hskip, if_neg (List.cons_ne_nil a text)]

theorem strtok_delim (delim : α) (text : List α) :
    strtok (delim :: text) delim = strtok text delim := by
  rw [strtok, strtok, List.dropWhile_cons_of_pos (by simp)]

theorem strtok_token (hne : tok ≠ []) (htok : delim ∉ tok) :
    strtok (tok ++ delim :: rest) delim = some (tok, rest) := by
  have hall : ∀ a ∈ tok, decide (a ≠ delim) = true := by
    intro a ha
    exact decide_eq_true fun h => htok (h ▸ ha)
  have htake : (tok ++ delim :: rest).takeWhile (· ≠ delim) = tok := by
    rw [List.takeWhile_append_of_pos hall, List.takeWhile_cons_of_neg (by simp), List.append_nil]
  have hdrop : (tok ++ delim :: rest).dropWhile (· ≠ delim) = delim :: rest := by
    rw [List.dropWhile_append_of_pos hall, List.dropWhile_cons_of_neg (by simp)]
  cases tok with
  | nil => exact absurd rfl hne
  | cons a tok =>
    have ha : a ≠ delim := fun h => htok (h ▸ List.mem_cons_self)
    rw [List.cons_append] at htake hdrop ⊢
    rw [strtok_cons ha, htake, hdrop, List.drop_succ_cons, List.drop_zero]

theorem strchr_of_not_mem {front : List α} (h : delim ∉ front) (rest : List α) :
    strchr (front ++ delim :: rest) delim = some (delim :: rest) := by
  have hall : ∀ a ∈ front, decide (a ≠ delim) = true := by
    intro a ha
    exact decide_eq_true fun heq => h (heq ▸ ha)
  rw [strchr, List.dropWhile_append_of_pos hall, List.dropWhile_cons_of_neg (by simp)]

/-- There are two tokens where a delimiter has other elements on both of its sides. -/
theorem two_tokens_iff :
    (∃ first second, strtok text delim = some first ∧ strtok first.2 delim = some second) ↔
      ∃ before after, text = before ++ delim :: after ∧ (∃ a ∈ before, a ≠ delim) ∧
        ∃ a ∈ after, a ≠ delim := by
  have hsome : ∀ text : List α, (∃ found, strtok text delim = some found) ↔
      ∃ a ∈ text, a ≠ delim := by
    intro text
    rw [← Option.ne_none_iff_exists', ne_eq, strtok_none_iff]
    simp
  constructor
  · rintro ⟨first, second, hfirst, hsecond⟩
    obtain ⟨b, hb, hbne⟩ := (hsome _).mp ⟨second, hsecond⟩
    have hskip : text.takeWhile (· = delim) ++ text.dropWhile (· = delim) = text :=
      List.takeWhile_append_dropWhile
    have hsplit : (text.dropWhile (· = delim)).takeWhile (· ≠ delim) ++
        (text.dropWhile (· = delim)).dropWhile (· ≠ delim) = text.dropWhile (· = delim) :=
      List.takeWhile_append_dropWhile
    rw [strtok] at hfirst
    split_ifs at hfirst with hnil
    obtain rfl := Option.some.inj hfirst
    cases hrest : (text.dropWhile (· = delim)).dropWhile (· ≠ delim) with
    | nil =>
      rw [hrest] at hb
      exact absurd hb List.not_mem_nil
    | cons d rest =>
      have hd := List.head_dropWhile_not (fun a => decide (a ≠ delim))
        (by rw [hrest]; exact List.cons_ne_nil d rest)
      simp only [hrest, List.head_cons, decide_eq_false_iff_not, not_not] at hd
      rw [hrest] at hsplit hb
      rw [hd] at hsplit
      refine ⟨text.takeWhile (· = delim) ++ (text.dropWhile (· = delim)).takeWhile (· ≠ delim),
        rest, ?_, ?_, ⟨b, hb, hbne⟩⟩
      · rw [List.append_assoc, hsplit, hskip]
      · cases hstart : text.dropWhile (· = delim) with
        | nil => exact absurd hstart hnil
        | cons c start =>
          have hc := List.head_dropWhile_not (fun a => decide (a = delim)) hnil
          simp only [hstart, List.head_cons, decide_eq_false_iff_not] at hc
          refine ⟨c, List.mem_append_right _ ?_, hc⟩
          rw [List.takeWhile_cons_of_pos (by simpa using hc)]
          exact List.mem_cons_self
  · rintro ⟨before, after, rfl, ⟨a, ha, hane⟩, b, hb, hbne⟩
    obtain ⟨first, hfirst⟩ := (hsome (before ++ delim :: after)).mpr
      ⟨a, List.mem_append_left _ ha, hane⟩
    have hin : after <:+ first.2 := by
      rw [strtok] at hfirst
      split_ifs at hfirst with hnil
      obtain rfl := Option.some.inj hfirst
      have hbefore : ¬(before.dropWhile (· = delim)).isEmpty := by
        rw [List.isEmpty_iff, List.dropWhile_eq_nil_iff]
        intro hall
        exact hane (by simpa using hall a ha)
      rw [List.dropWhile_append, if_neg hbefore, List.dropWhile_append]
      have hdrop : ∀ front : List α, after <:+ (front ++ delim :: after).drop 1 := by
        intro front
        cases front with
        | nil => exact List.suffix_refl _
        | cons c front => exact ⟨front ++ [delim], by simp⟩
      split_ifs
      · rw [List.dropWhile_cons_of_neg (by simp)]
        exact hdrop []
      · exact hdrop _
    obtain ⟨second, hsecond⟩ := (hsome first.2).mpr ⟨b, hin.subset hb, hbne⟩
    exact ⟨first, second, hfirst, hsecond⟩

end Tokens

end RetroArch.Library.Substring
