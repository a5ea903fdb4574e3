/- `compat_fnmatch.c` and `query_func_glob`: the words a pattern stands for. -/

import RetroArch.LibretroDb.Query

namespace RetroArch.LibretroDb.Query

def asterisk : UInt8 := 0x2a

def question : UInt8 := 0x3f

def bracketOpen : UInt8 := 0x5b

def backslash : UInt8 := 0x5c

def bracketClose : UInt8 := 0x5d

/-- The loop of an asterisk, which ignores more and more characters but never all of them. -/
def fromEvery (rest : List UInt8 → Bool) : List UInt8 → Bool
  | [] => false
  | c :: string => rest (c :: string) || fromEvery rest string

/-- Whether `rl_fnmatch` returns zero. -/
def rlFnmatch : List UInt8 → List UInt8 → Bool
  | [], string => string.isEmpty
  | c :: pattern, string =>
    if c = asterisk then
      let pattern := pattern.dropWhile (· == asterisk)
      pattern.isEmpty || fromEvery (rlFnmatch pattern) string
    else
      match string with
      | [] => false
      | d :: string =>
        if c = bracketOpen then
          let rest := pattern.dropWhile (· != bracketClose)
          !rest.isEmpty && (pattern.takeWhile (· != bracketClose)).contains d &&
            rlFnmatch rest.tail string
        else if c = question then rlFnmatch pattern string
        else if c = backslash then pattern.head? == some d && rlFnmatch pattern.tail string
        else c == d && rlFnmatch pattern string
termination_by pattern => pattern.length
decreasing_by
  · exact Nat.lt_succ_of_le (List.dropWhile_suffix _).length_le
  · exact Nat.lt_succ_of_le (((List.tail_suffix _).trans (List.dropWhile_suffix _)).length_le)
  · exact Nat.lt_succ_self _
  · exact Nat.lt_succ_of_le (List.tail_suffix _).length_le
  · exact Nat.lt_succ_self _

/-- Strings are taken up to their terminators. -/
def queryFuncGlob (input : Value) (argv : List Argument) : Bool :=
  match argv, input with
  | [.value (.string pattern)], .string s =>
    rlFnmatch (pattern.buff.takeWhile (· ≠ 0)) (s.buff.takeWhile (· ≠ 0))
  | _, _ => false

section Words

/-- The words of a pattern. In a list, and behind a backslash, every character stands for itself. -/
inductive Globs : List UInt8 → List UInt8 → Prop
  | nil : Globs [] []
  | asterisk {p s : List UInt8} (u : List UInt8) (h : Globs p s) : Globs (asterisk :: p) (u ++ s)
  | question {p s : List UInt8} (c : UInt8) (h : Globs p s) : Globs (question :: p) (c :: s)
  | list {c : UInt8} {l p s : List UInt8} (hl : bracketClose ∉ l) (hc : c ∈ l) (h : Globs p s) :
      Globs (bracketOpen :: (l ++ bracketClose :: p)) (c :: s)
  | escaped {p s : List UInt8} (c : UInt8) (h : Globs p s) : Globs (backslash :: c :: p) (c :: s)
  | plain {c : UInt8} {p s : List UInt8}
      (hc : c ∉ [Query.asterisk, Query.question, bracketOpen, backslash]) (h : Globs p s) :
      Globs (c :: p) (c :: s)

variable {c d : UInt8} {p s : List UInt8}

theorem globs_nil : Globs [] s ↔ s = [] := by
  constructor
  · intro h
    cases h
    rfl
  · rintro rfl
    exact .nil

theorem globs_cons : Globs (c :: p) s ↔ (c = asterisk ∧ ∃ t, t <:+ s ∧ Globs p t) ∨
    ∃ d t, s = d :: t ∧
      ((c = bracketOpen ∧ ∃ l q, p = l ++ bracketClose :: q ∧ bracketClose ∉ l ∧ d ∈ l ∧
          Globs q t) ∨
        (c = question ∧ Globs p t) ∨ (c = backslash ∧ ∃ q, p = d :: q ∧ Globs q t) ∨
        c ∉ [asterisk, question, bracketOpen, backslash] ∧ c = d ∧ Globs p t) := by
  constructor
  · intro h
    cases h with
    | asterisk u h => exact .inl ⟨rfl, _, List.suffix_append u _, h⟩
    | list hl hc h => exact .inr ⟨_, _, rfl, .inl ⟨rfl, _, _, rfl, hl, hc, h⟩⟩
    | question d h => exact .inr ⟨d, _, rfl, .inr (.inl ⟨rfl, h⟩)⟩
    | escaped d h => exact .inr ⟨d, _, rfl, .inr (.inr (.inl ⟨rfl, _, rfl, h⟩))⟩
    | plain hc h => exact .inr ⟨_, _, rfl, .inr (.inr (.inr ⟨hc, rfl, h⟩))⟩
  · rintro (⟨rfl, t, ⟨u, rfl⟩, h⟩ | ⟨d, t, rfl, ⟨rfl, l, q, rfl, hl, hd, h⟩ | ⟨rfl, h⟩ |
      ⟨rfl, q, rfl, h⟩ | ⟨hc, rfl, h⟩⟩)
    · exact .asterisk u h
    · exact .list hl hd h
    · exact .question d h
    · exact .escaped d h
    · exact .plain hc h

theorem globs_asterisk : Globs (asterisk :: p) s ↔ ∃ t, t <:+ s ∧ Globs p t := by
  rw [globs_cons]
  simp +decide

theorem globs_asterisks : Globs (asterisk :: p.dropWhile (· == asterisk)) s ↔
    Globs (asterisk :: p) s := by
  induction p with
  | nil => rfl
  | cons c p ih =>
    by_cases hc : c = asterisk
    · subst hc
      rw [List.dropWhile_cons, if_pos (beq_self_eq_true _), ih,
        globs_asterisk (p := _ :: p)]
      constructor
      · intro h
        exact ⟨s, List.suffix_rfl, h⟩
      · rintro ⟨t, ht, h⟩
        obtain ⟨u, hu, h⟩ := globs_asterisk.mp h
        exact globs_asterisk.mpr ⟨u, hu.trans ht, h⟩
    · rw [List.dropWhile_cons, if_neg (by simpa using hc)]

theorem fromEvery_iff {rest : List UInt8 → Bool} :
    fromEvery rest s = true ↔ ∃ t, t <:+ s ∧ t ≠ [] ∧ rest t = true := by
  induction s with
  | nil => simp [fromEvery]
  | cons c s ih =>
    simp only [fromEvery, Bool.or_eq_true, ih, List.suffix_cons_iff]
    constructor
    · rintro (h | ⟨t, ht, h⟩)
      · exact ⟨_, .inl rfl, List.cons_ne_nil c s, h⟩
      · exact ⟨t, .inr ht, h⟩
    · rintro ⟨t, rfl | ht, hne, h⟩
      · exact .inl h
      · exact .inr ⟨t, ht, hne, h⟩

theorem list_iff : (∃ l q, p = l ++ bracketClose :: q ∧ bracketClose ∉ l ∧ d ∈ l ∧ Globs q s) ↔
    (p.dropWhile (· != bracketClose) ≠ [] ∧ d ∈ p.takeWhile (· != bracketClose)) ∧
      Globs (p.dropWhile (· != bracketClose)).tail s := by
  constructor
  · rintro ⟨l, q, rfl, hl, hd, h⟩
    have hall : ∀ x ∈ l, (x != bracketClose) = true := by
      intro x hx
      exact bne_iff_ne.mpr (ne_of_mem_of_not_mem hx hl)
    rw [List.dropWhile_append_of_pos hall, List.takeWhile_append_of_pos hall]
    exact ⟨⟨List.cons_ne_nil _ _, List.mem_append_left _ hd⟩, h⟩
  · rintro ⟨⟨hne, hd⟩, h⟩
    have hsplit := List.takeWhile_append_dropWhile (p := (· != bracketClose)) (l := p)
    have hhead := List.head_dropWhile_not (· != bracketClose) hne
    obtain ⟨e, q, hq⟩ := List.exists_cons_of_ne_nil hne
    simp only [hq, List.head_cons, bne_eq_false_iff_eq] at hhead
    subst hhead
    rw [hq] at h hsplit
    refine ⟨_, q, hsplit.symm, fun hmem => ?_, hd, h⟩
    exact absurd (List.all_eq_true.mp List.all_takeWhile _ hmem) (by decide)

theorem globs_rest (hp : p.dropWhile (· == asterisk) ≠ []) {t : List UInt8}
    (h : Globs (p.dropWhile (· == asterisk)) t) : t ≠ [] := by
  rintro rfl
  have hhead := List.head_dropWhile_not (· == asterisk) hp
  obtain ⟨c, q, hq⟩ := List.exists_cons_of_ne_nil hp
  simp only [hq, List.head_cons, beq_eq_false_iff_ne] at hhead
  rw [hq, globs_cons] at h
  rcases h with ⟨hc, -⟩ | ⟨d, t, ht, -⟩
  · exact hhead hc
  · exact absurd ht (List.cons_ne_nil d t).symm

theorem rlFnmatch_iff (p s : List UInt8) : rlFnmatch p s = true ↔ Globs p s := by
  induction hn : p.length using Nat.strong_induction_on generalizing p s with
  | _ n ih =>
    subst hn
    cases p with
    | nil => rw [rlFnmatch.eq_def, globs_nil, List.isEmpty_iff]
    | cons c p =>
      have hshort : ∀ {q : List UInt8}, q <:+ p → ∀ t, rlFnmatch q t = true ↔ Globs q t :=
        fun hq t => ih _ (Nat.lt_succ_of_le hq.length_le) _ t rfl
      have hafter := hshort (List.dropWhile_suffix (· == asterisk))
      rw [rlFnmatch.eq_def]
      by_cases hstar : c = asterisk
      · subst hstar
        rw [← globs_asterisks, globs_asterisk]
        simp only [if_true, Bool.or_eq_true, fromEvery_iff, List.isEmpty_iff, hafter]
        constructor
        · rintro (hp | ⟨t, ht, _, h⟩)
          · exact ⟨[], List.nil_suffix, hp ▸ .nil⟩
          · exact ⟨t, ht, h⟩
        · rintro ⟨t, ht, h⟩
          by_cases hp : p.dropWhile (· == asterisk) = []
          · exact .inl hp
          · exact .inr ⟨t, ht, globs_rest hp h, h⟩
      · cases s with
        | nil => simp [globs_cons, hstar]
        | cons d s =>
          have hself := hshort List.suffix_rfl s
          have htail := hshort (List.tail_suffix p) s
          have hlist := hshort ((List.tail_suffix _).trans
            (List.dropWhile_suffix (· != bracketClose))) s
          have hescape : (∃ q, p = d :: q ∧ Globs q s) ↔ p.head? = some d ∧ Globs p.tail s := by
            cases p <;> simp
          have hone : Globs (c :: p) (d :: s) ↔ _ := globs_cons
          simp only [hstar, false_and, false_or, List.cons.injEq, and_assoc, exists_and_left,
            exists_eq_left', list_iff, hescape] at hone
          rw [hone]
          simp only [if_neg hstar]
          by_cases hopen : c = bracketOpen
          · subst hopen
            simp [hlist, and_assoc, show bracketOpen ≠ question by decide,
              show bracketOpen ≠ backslash by decide]
          · by_cases hquestion : c = question
            · subst hquestion
              simp [hopen, hself, show question ≠ backslash by decide]
            · by_cases hback : c = backslash
              · subst hback
                simp [hopen, hquestion, htail]
              · simp [hopen, hquestion, hback, hstar, hself]

theorem funcGlob_iff (input : Value) (argv : List Argument) : queryFuncGlob input argv = true ↔
    ∃ pattern text : LibretroDb.Buffer, argv = [.value (.string pattern)] ∧ input = .string text ∧
      Globs (pattern.buff.takeWhile (· ≠ 0)) (text.buff.takeWhile (· ≠ 0)) := by
  constructor
  · intro h
    unfold queryFuncGlob at h
    split at h
    · exact ⟨_, _, rfl, rfl, (rlFnmatch_iff _ _).mp h⟩
    · exact absurd h Bool.false_ne_true
  · rintro ⟨pattern, text, rfl, rfl, h⟩
    exact (rlFnmatch_iff _ _).mpr h

end Words

end RetroArch.LibretroDb.Query
