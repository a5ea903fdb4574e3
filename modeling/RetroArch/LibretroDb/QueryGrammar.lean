/- The texts that are queries, and that only such texts are compiled. -/

import Mathlib.Data.List.TakeWhile
import RetroArch.LibretroDb.Query

namespace RetroArch.LibretroDb.Query

/-- What two languages of queries may differ in: the names of functions, the characters of a string
with a `b`, whether an argument may be missing, and how many arguments and pairs there may be. -/
structure Rules where
  name : List UInt8 → Prop
  binary : List UInt8 → Prop
  missing : Prop
  args : ℕ → Prop
  pairs : ℕ → Prop

/-- White space leads from one text to the other. -/
def Spaces (l t : List UInt8) : Prop :=
  ∃ ws : List UInt8, (∀ c ∈ ws, isSpace c = true) ∧ l = ws ++ t

/-- A letter, and letters, digits and underscores behind it. -/
def IsIdent (name : List UInt8) : Prop :=
  ∃ c cs, name = c :: cs ∧ isAlpha c = true ∧ ∀ d ∈ cs, isIdentChar d = true

def IsQuote (q : UInt8) : Prop := q = quote ∨ q = apostrophe

/-- A key of a table. -/
inductive KeySpelled : List UInt8 → List UInt8 → Prop
  | ident {name t : List UInt8} (hname : IsIdent name) : KeySpelled (name ++ t) t
  | string {q : UInt8} {chars t : List UInt8} (hq : IsQuote q) (hchars : q ∉ chars) :
      KeySpelled (q :: (chars ++ q :: t)) t

/-- An argument that is a value. -/
inductive ValueSpelled (R : Rules) : List UInt8 → List UInt8 → Prop
  | word {word t : List UInt8} (hword : word ∈ [wordNil, wordTrue, wordFalse]) :
      ValueSpelled R (word ++ t) t
  | string {q : UInt8} {chars t : List UInt8} (hq : IsQuote q) (hchars : q ∉ chars) :
      ValueSpelled R (q :: (chars ++ q :: t)) t
  | binary {q : UInt8} {chars t : List UInt8} (hq : IsQuote q) (hchars : q ∉ chars)
      (hbinary : R.binary chars) : ValueSpelled R (letterB :: q :: (chars ++ q :: t)) t
  | integer {digits t : List UInt8} (hdigits : ∀ d ∈ digits, isDigit d = true)
      (hsome : digits ≠ []) : ValueSpelled R (digits ++ t) t

inductive Node
  | query
  | argument
  | args (count : ℕ)
  | pairs (count : ℕ)

/-- Arguments and pairs stand between white space; behind the last one there may be a comma. -/
inductive Spelled (R : Rules) : Node → List UInt8 → List UInt8 → Prop
  | call {name l l' t : List UInt8} {k : ℕ} (hident : IsIdent name) (hname : R.name name)
      (hopen : Spaces l (parenOpen :: l')) (hcount : R.args k)
      (hargs : Spelled R (.args k) l' (parenClose :: t)) : Spelled R .query (name ++ l) t
  | table {l t : List UInt8} {k : ℕ} (hcount : R.pairs k)
      (hpairs : Spelled R (.pairs k) l (braceClose :: t)) : Spelled R .query (braceOpen :: l) t
  | nested {l t : List UInt8} (h : Spelled R .query l t) : Spelled R .argument l t
  | value {l t : List UInt8} (h : ValueSpelled R l t) : Spelled R .argument l t
  | missing {l : List UInt8} (h : R.missing) : Spelled R .argument l l
  | argsNil {l t : List UInt8} (h : Spaces l t) : Spelled R (.args 0) l t
  | argsLast {l l₁ l₂ t : List UInt8} (h₁ : Spaces l l₁) (harg : Spelled R .argument l₁ l₂)
      (hsome : l₁ ≠ l₂) (h₂ : Spaces l₂ t) : Spelled R (.args 1) l t
  | argsCons {l l₁ l₂ l₃ t : List UInt8} {k : ℕ} (h₁ : Spaces l l₁)
      (harg : Spelled R .argument l₁ l₂) (h₂ : Spaces l₂ (comma :: l₃))
      (hrest : Spelled R (.args k) l₃ t) : Spelled R (.args (k + 1)) l t
  | pairsNil {l t : List UInt8} (h : Spaces l t) : Spelled R (.pairs 0) l t
  | pairsLast {l l₁ l₂ l₃ l₄ l₅ t : List UInt8} (h₁ : Spaces l l₁) (hkey : KeySpelled l₁ l₂)
      (h₂ : Spaces l₂ (colon :: l₃)) (h₃ : Spaces l₃ l₄) (harg : Spelled R .argument l₄ l₅)
      (h₅ : Spaces l₅ t) : Spelled R (.pairs 1) l t
  | pairsCons {l l₁ l₂ l₃ l₄ l₅ l₆ t : List UInt8} {k : ℕ} (h₁ : Spaces l l₁)
      (hkey : KeySpelled l₁ l₂) (h₂ : Spaces l₂ (colon :: l₃)) (h₃ : Spaces l₃ l₄)
      (harg : Spelled R .argument l₄ l₅) (h₅ : Spaces l₅ (comma :: l₆))
      (hrest : Spelled R (.pairs k) l₆ t) : Spelled R (.pairs (k + 1)) l t

/-- A text that is a query up to the white space around it. -/
def IsQuery (R : Rules) (s : List UInt8) : Prop :=
  ∃ l t, Spaces s l ∧ Spelled R .query l t ∧ Spaces t []

def functionNames : List (List UInt8) := registeredFunctions.map RegisteredFunc.name

def IsHex (c : UInt8) : Prop :=
  isDigit c = true ∨ (0x41 ≤ c ∧ c ≤ 0x46) ∨ (0x61 ≤ c ∧ c ≤ 0x66)

/-- The language that is meant. -/
def queryRules : Rules where
  name name := name ∈ functionNames
  binary chars := ∀ c ∈ chars, IsHex c
  missing := False
  args _ := True
  pairs _ := True

/-- The language that is compiled: names may be cut short, the characters of a string with a `b` are
not looked at, and calls have arguments, which are fifty at most with the keys. -/
def compiledRules (missing : Prop) : Rules where
  name name := ∃ full ∈ functionNames, name <+: full
  binary _ := True
  missing := missing
  args k := 0 < k ∧ k ≤ 50
  pairs k := k ≤ 25

mutual

/-- Whether every node of an argument was stored. -/
def Argument.initialized : Argument → Bool
  | .value _ => true
  | .uninitialized => false
  | .invocation _ argv => allInitialized argv

def allInitialized : List Argument → Bool
  | [] => true
  | arg :: args => arg.initialized && allInitialized args

end

theorem Spaces.refl (l : List UInt8) : Spaces l l := ⟨[], by simp, rfl⟩

theorem Spaces.chomp (l : List UInt8) : Spaces l (l.dropWhile isSpace) := by
  refine ⟨l.takeWhile isSpace, fun c hc => List.mem_takeWhile_imp hc, ?_⟩
  exact (List.takeWhile_append_dropWhile).symm

theorem Spaces.trans {l m t : List UInt8} (h : Spaces l m) (h' : Spaces m t) : Spaces l t := by
  obtain ⟨ws, hws, rfl⟩ := h
  obtain ⟨ws', hws', rfl⟩ := h'
  refine ⟨ws ++ ws', ?_, (List.append_assoc _ _ _).symm⟩
  intro c hc
  rcases List.mem_append.mp hc with hmem | hmem
  · exact hws c hmem
  · exact hws' c hmem

/-- No white space is in front. -/
def Chomped (l : List UInt8) : Prop := l.dropWhile isSpace = l

theorem chomped_dropWhile (l : List UInt8) : Chomped (l.dropWhile isSpace) := by
  unfold Chomped
  induction l with
  | nil => rfl
  | cons c l ih =>
    rw [List.dropWhile_cons]
    split_ifs with hc
    · exact ih
    · rw [List.dropWhile_cons, if_neg hc]

theorem chomped_cons {c : UInt8} {l : List UInt8} (hc : isSpace c = false) : Chomped (c :: l) := by
  rw [Chomped, List.dropWhile_cons, hc]
  rfl

theorem Spaces.dropWhile_eq {l t : List UInt8} (h : Spaces l t) :
    l.dropWhile isSpace = t.dropWhile isSpace := by
  obtain ⟨ws, hws, rfl⟩ := h
  induction ws with
  | nil => rfl
  | cons c ws ih =>
    rw [List.cons_append, List.dropWhile_cons, if_pos (hws c List.mem_cons_self)]
    exact ih fun d hd => hws d (List.mem_cons_of_mem _ hd)

theorem Spaces.length_le {l t : List UInt8} (h : Spaces l t) : t.length ≤ l.length := by
  obtain ⟨ws, _, rfl⟩ := h
  rw [List.length_append]
  exact Nat.le_add_left _ _

theorem andThen_ok {α β : Type} {r : Parsed α} {f : Buffer → α → Parsed β} {buff : Buffer} {b : β}
    (h : andThen r f = (buff, .ok b)) :
    ∃ buff' a, r = (buff', .ok a) ∧ f buff' a = (buff, .ok b) := by
  obtain ⟨buff', _ | a⟩ := r
  · cases h
  · exact ⟨buff', a, rfl, h⟩

theorem char_eq {buff : Buffer} {c : UInt8} (hc : c ≠ 0) (h : buff.char = c) :
    buff.rest = c :: buff.rest.tail := by
  unfold Buffer.char at h
  cases hrest : buff.rest with
  | nil =>
    rw [hrest] at h
    exact absurd h.symm hc
  | cons d rest =>
    rw [hrest] at h
    rw [show d = c from h]
    rfl

theorem expectChar_ok {buff buff' : Buffer} {c : UInt8} (hc : c ≠ 0)
    (h : queryExpectChar buff c = (buff', .ok ())) :
    buff'.len = buff.len ∧ buff.rest = c :: buff'.rest := by
  unfold queryExpectChar at h
  split_ifs at h with _ hchar
  · cases h
  · cases h
  · cases h
    exact ⟨rfl, char_eq hc (not_not.mp hchar)⟩

theorem expectChar_error {buff buff' : Buffer} {c : UInt8} {e : QueryError}
    (h : queryExpectChar buff c = (buff', .error e)) : buff' = buff := by
  unfold queryExpectChar at h
  split_ifs at h <;> cases h <;> rfl

theorem scanString_some {q : UInt8} {l chars rest : List UInt8} :
    scanString q l = some (chars, rest) ↔ l = chars ++ q :: rest ∧ q ∉ chars := by
  induction l generalizing chars with
  | nil => simp [scanString]
  | cons c l ih =>
    rw [scanString]
    split_ifs with hc
    · subst hc
      constructor
      · intro h
        cases h
        simp
      · rintro ⟨h, hnot⟩
        cases chars with
        | nil =>
          cases h
          rfl
        | cons d chars =>
          cases h
          exact absurd List.mem_cons_self hnot
    · constructor
      · intro h
        obtain ⟨⟨chars', rest'⟩, hscan, heq⟩ := Option.map_eq_some_iff.mp h
        cases heq
        obtain ⟨rfl, hnot⟩ := ih.mp hscan
        refine ⟨rfl, ?_⟩
        simp only [List.mem_cons, not_or]
        exact ⟨fun heq => hc heq.symm, hnot⟩
      · rintro ⟨h, hnot⟩
        cases chars with
        | nil =>
          cases h
          exact absurd rfl hc
        | cons d chars =>
          cases h
          rw [ih.mpr ⟨rfl, fun hmem => hnot (List.mem_cons_of_mem _ hmem)⟩]
          rfl

theorem getIdent_ok {buff buff' : Buffer} {name : List UInt8} (halpha : isAlpha buff.char = true)
    (h : queryGetIdent buff = (buff', .ok name)) :
    buff'.len = buff.len ∧ IsIdent name ∧ buff.rest = name ++ buff'.rest := by
  have hne : buff.char ≠ 0 := by
    intro hzero
    rw [hzero] at halpha
    exact absurd halpha (by decide)
  unfold queryGetIdent at h
  simp only [halpha, Bool.not_true, Bool.false_eq_true, if_false] at h
  split_ifs at h
  · cases h
  · cases h
  cases h
  refine ⟨rfl, ⟨_, _, rfl, halpha, fun d hd => List.mem_takeWhile_imp hd⟩, ?_⟩
  rw [List.cons_append, List.takeWhile_append_dropWhile]
  exact char_eq hne rfl

theorem getChar_ok {buff buff' : Buffer} {c : UInt8} (hc : c ≠ 0)
    (h : queryGetChar buff = (buff', .ok c)) :
    buff'.len = buff.len ∧ buff.rest = c :: buff'.rest := by
  unfold queryGetChar at h
  split_ifs at h
  · cases h
  · cases h
    exact ⟨rfl, char_eq hc rfl⟩

theorem parseQuoted_ok {isBinstr : Bool} {buff buff' : Buffer} {q : UInt8} {v : Value}
    (h : queryParseQuoted isBinstr buff q = (buff', .ok v)) :
    IsQuote q ∧ buff'.len = buff.len ∧
      ∃ chars, q ∉ chars ∧ buff.rest = chars ++ q :: buff'.rest := by
  unfold queryParseQuoted at h
  split_ifs at h with hq
  · cases h
  have hquote : IsQuote q := by
    unfold IsQuote
    tauto
  cases hscan : scanString q buff.rest with
  | none =>
    rw [hscan] at h
    cases h
  | some r =>
    obtain ⟨chars, rest⟩ := r
    rw [hscan] at h
    cases h
    obtain ⟨hrest, hnot⟩ := scanString_some.mp hscan
    exact ⟨hquote, rfl, chars, hnot, hrest⟩

theorem IsQuote.ne_zero {q : UInt8} (h : IsQuote q) : q ≠ 0 := by
  rcases h with rfl | rfl <;> decide

theorem parseString_ok {buff buff' : Buffer} {v : Value}
    (h : queryParseString buff = (buff', .ok v)) :
    buff'.len = buff.len ∧ ∃ q chars, IsQuote q ∧ q ∉ chars ∧
      (buff.rest = q :: (chars ++ q :: buff'.rest) ∨
        buff.rest = letterB :: q :: (chars ++ q :: buff'.rest)) := by
  obtain ⟨buff₁, c, hget, h⟩ := andThen_ok h
  split_ifs at h with hb
  · subst hb
    obtain ⟨hlen, hrest⟩ := getChar_ok (by decide) hget
    rcases hget₂ : queryGetChar buff₁ with ⟨buff₂, e | q⟩
    · rw [hget₂] at h
      obtain ⟨hq, _⟩ := parseQuoted_ok h
      rcases hq with hq | hq <;> exact absurd hq (by decide)
    · rw [hget₂] at h
      obtain ⟨hq, hlen', chars, hnot, hrest'⟩ := parseQuoted_ok h
      obtain ⟨hlen₂, hrest₂⟩ := getChar_ok hq.ne_zero hget₂
      refine ⟨by rw [hlen', hlen₂, hlen], q, chars, hq, hnot, .inr ?_⟩
      rw [hrest, hrest₂, hrest']
  · obtain ⟨hq, hlen', chars, hnot, hrest'⟩ := parseQuoted_ok h
    obtain ⟨hlen, hrest⟩ := getChar_ok hq.ne_zero hget
    refine ⟨by rw [hlen', hlen], c, chars, hq, hnot, .inl ?_⟩
    rw [hrest, hrest']

section SoundParse

variable {M : Prop}

theorem peek_rest {buff : Buffer} {word : List UInt8} (h : queryPeek buff word = true) :
    buff.rest = word ++ buff.rest.drop word.length := by
  obtain ⟨t, ht⟩ := List.isPrefixOf_iff_prefix.mp h
  rw [← ht, List.drop_left]

theorem parseInteger_ok {buff buff' : Buffer} {v : Value} (hdigit : isDigit buff.char = true)
    (h : queryParseInteger buff = (buff', .ok v)) :
    buff'.len = buff.len ∧ ValueSpelled (compiledRules M) buff.rest buff'.rest := by
  have hne : buff.char ≠ 0 := by
    intro hzero
    rw [hzero] at hdigit
    exact absurd hdigit (by decide)
  rw [queryParseInteger, if_pos hdigit] at h
  cases h
  refine ⟨rfl, ?_⟩
  have hspelled : ValueSpelled (compiledRules M)
      (buff.rest.takeWhile isDigit ++ buff.rest.dropWhile isDigit)
      (buff.rest.dropWhile isDigit) := by
    refine .integer (fun d hd => List.mem_takeWhile_imp hd) ?_
    rw [char_eq hne rfl, List.takeWhile_cons, hdigit]
    exact List.cons_ne_nil _ _
  rwa [List.takeWhile_append_dropWhile] at hspelled

theorem parseValue_ok {buff buff' : Buffer} {v : Option Value}
    (h : queryParseValue buff = (buff', .ok v)) :
    buff'.len = buff.len ∧
      (v.isSome → ValueSpelled (compiledRules M) (buff.rest.dropWhile isSpace) buff'.rest) ∧
      (v = none → buff'.rest = buff.rest.dropWhile isSpace) := by
  have hword : ∀ word : List UInt8, word ∈ [wordNil, wordTrue, wordFalse] →
      queryPeek (queryChomp buff) word = true →
      ValueSpelled (compiledRules M) (buff.rest.dropWhile isSpace)
        ((buff.rest.dropWhile isSpace).drop word.length) := by
    intro word hmem hpeek
    have hrest := peek_rest hpeek
    change buff.rest.dropWhile isSpace = word ++ (buff.rest.dropWhile isSpace).drop word.length
      at hrest
    have hspelled := ValueSpelled.word (R := compiledRules M)
      (t := (buff.rest.dropWhile isSpace).drop word.length) hmem
    rwa [← hrest] at hspelled
  unfold queryParseValue at h
  dsimp only at h
  split_ifs at h with hnil htrue hfalse hstring hdigit
  · cases h
    exact ⟨rfl, fun _ => hword wordNil (by simp) hnil, fun hv => nomatch hv⟩
  · cases h
    exact ⟨rfl, fun _ => hword wordTrue (by simp) htrue, fun hv => nomatch hv⟩
  · cases h
    exact ⟨rfl, fun _ => hword wordFalse (by simp) hfalse, fun hv => nomatch hv⟩
  · obtain ⟨buff₁, value, hparse, h⟩ := andThen_ok h
    cases h
    obtain ⟨hlen, q, chars, hq, hnot, hrest⟩ := parseString_ok hparse
    refine ⟨hlen, fun _ => ?_, fun hv => nomatch hv⟩
    change (buff.rest.dropWhile isSpace = _ ∨ buff.rest.dropWhile isSpace = _) at hrest
    rcases hrest with hrest | hrest
    · rw [hrest]
      exact .string hq hnot
    · rw [hrest]
      exact .binary hq hnot trivial
  · obtain ⟨buff₁, value, hparse, h⟩ := andThen_ok h
    cases h
    obtain ⟨hlen, hspelled⟩ := parseInteger_ok (M := M) hdigit hparse
    exact ⟨hlen, fun _ => hspelled, fun hv => nomatch hv⟩
  · cases h
    exact ⟨rfl, (fun hv => nomatch hv), fun _ => rfl⟩

theorem allInitialized_cons {M : Prop} {arg : Argument} {args : List Argument}
    (h : allInitialized (arg :: args) = true ∨ M) :
    (arg.initialized = true ∨ M) ∧ (allInitialized args = true ∨ M) := by
  rcases h with h | hM
  · rw [allInitialized, Bool.and_eq_true] at h
    exact ⟨.inl h.1, .inl h.2⟩
  · exact ⟨.inr hM, .inr hM⟩

theorem Spelled.skip_args {R : Rules} {k : ℕ} {l m t : List UInt8} (h : Spelled R (.args k) m t)
    (hl : Spaces l m) : Spelled R (.args k) l t := by
  cases h with
  | argsNil h => exact .argsNil (hl.trans h)
  | argsLast h₁ harg hsome h₂ => exact .argsLast (hl.trans h₁) harg hsome h₂
  | argsCons h₁ harg h₂ hrest => exact .argsCons (hl.trans h₁) harg h₂ hrest

theorem Spelled.skip_pairs {R : Rules} {k : ℕ} {l m t : List UInt8}
    (h : Spelled R (.pairs k) m t) (hl : Spaces l m) : Spelled R (.pairs k) l t := by
  cases h with
  | pairsNil h => exact .pairsNil (hl.trans h)
  | pairsLast h₁ hkey h₂ h₃ harg h₅ => exact .pairsLast (hl.trans h₁) hkey h₂ h₃ harg h₅
  | pairsCons h₁ hkey h₂ h₃ harg h₅ hrest =>
    exact .pairsCons (hl.trans h₁) hkey h₂ h₃ harg h₅ hrest

/-- What a parser of arguments takes is an argument behind white space. -/
def ArgumentSound (parse : Buffer → Parsed Argument) : Prop :=
  ∀ buff buff' arg, parse buff = (buff', .ok arg) → buff'.len = buff.len ∧
    ∀ M : Prop, (arg.initialized = true ∨ M) → ∃ l, Spaces buff.rest l ∧
      Spelled (compiledRules M) .argument l buff'.rest

theorem callArgs_sound {parse : Buffer → Parsed Argument} (hparse : ArgumentSound parse)
    {slots : ℕ} {acc args : List Argument} {buff buff' : Buffer} (hchomped : Chomped buff.rest)
    (h : queryCallArgs parse slots acc buff = (buff', .ok args)) :
    ∃ new, args = acc ++ new ∧ new.length ≤ slots ∧ buff'.len = buff.len ∧
      ∀ t, buff'.rest = parenClose :: t → ∀ M : Prop, (allInitialized new = true ∨ M) →
        Spelled (compiledRules M) (.args new.length) buff.rest buff'.rest := by
  induction slots generalizing acc buff with
  | zero =>
    unfold queryCallArgs at h
    split_ifs at h with hpeek
    · cases h
      exact ⟨[], (List.append_nil _).symm, le_rfl, rfl, fun _ _ _ _ => .argsNil (Spaces.refl _)⟩
    · cases h
  | succ slots ih =>
    unfold queryCallArgs at h
    split_ifs at h with hpeek
    · cases h
      exact ⟨[], (List.append_nil _).symm, Nat.zero_le _, rfl,
        fun _ _ _ _ => .argsNil (Spaces.refl _)⟩
    obtain ⟨buff₁, arg, hone, h⟩ := andThen_ok h
    obtain ⟨hlen₁, hspelled⟩ := hparse _ _ _ hone
    dsimp only at h
    rcases hcomma : queryExpectChar (queryChomp buff₁) comma with ⟨buff₂, e | u⟩
    · -- this argument is the last one
      rw [hcomma] at h
      cases h
      have hsame := expectChar_error hcomma
      subst hsame
      refine ⟨[arg], rfl, Nat.succ_le_succ (Nat.zero_le _), hlen₁, fun t ht M hM => ?_⟩
      obtain ⟨l, hl, harg⟩ := hspelled M (by simpa [allInitialized] using hM)
      refine .argsLast hl harg ?_ (Spaces.chomp _)
      rintro rfl
      have hrest : buff.rest = parenClose :: t := by
        rw [← ht]
        have hdrop := hl.dropWhile_eq
        rw [hchomped] at hdrop
        exact hdrop
      rw [queryPeek, hrest] at hpeek
      exact hpeek rfl
    · rw [hcomma] at h
      obtain ⟨hlen₂, hrest₂⟩ := expectChar_ok (by decide) hcomma
      obtain ⟨new, rfl, hslots, hlen, hrest⟩ := ih (chomped_dropWhile _) h
      refine ⟨arg :: new, by rw [List.append_assoc]; rfl, Nat.succ_le_succ hslots,
        by rw [hlen]; exact hlen₂.trans hlen₁, fun t ht M hM => ?_⟩
      obtain ⟨hinit, hnew⟩ := allInitialized_cons hM
      obtain ⟨l, hl, harg⟩ := hspelled M hinit
      have hcommas : Spaces buff₁.rest (comma :: buff₂.rest) := hrest₂ ▸ Spaces.chomp _
      exact .argsCons hl harg hcommas ((hrest t ht M hnew).skip_args (Spaces.chomp _))

theorem parseKey_ok {buff buff' : Buffer} {key : Value}
    (h : queryParseKey buff = (buff', .ok key)) :
    buff'.len = buff.len ∧ KeySpelled buff.rest buff'.rest := by
  unfold queryParseKey at h
  split_ifs at h with halpha
  · obtain ⟨buff₁, name, hident, h⟩ := andThen_ok h
    cases h
    obtain ⟨hlen, hname, hrest⟩ := getIdent_ok halpha hident
    rw [hrest]
    exact ⟨hlen, .ident hname⟩
  · obtain ⟨hlen, q, chars, hq, hnot, hrest | hrest⟩ := parseString_ok h
    · rw [hrest]
      exact ⟨hlen, .string hq hnot⟩
    · rw [Buffer.char, hrest] at halpha
      exact absurd (show isAlpha letterB = true by decide) halpha

theorem tableArgs_sound {parse : Buffer → Parsed Argument} (hparse : ArgumentSound parse)
    (slots : ℕ) {acc args : List Argument} {buff buff' : Buffer}
    (h : queryTableArgs parse slots acc buff = (buff', .ok args)) :
    ∃ new k, args = acc ++ new ∧ 2 * k ≤ slots ∧ buff'.len = buff.len ∧
      ∀ M : Prop, (allInitialized new = true ∨ M) →
        Spelled (compiledRules M) (.pairs k) buff.rest buff'.rest := by
  induction slots using Nat.strong_induction_on generalizing acc buff with
  | h slots ih =>
    unfold queryTableArgs at h
    split_ifs at h with hpeek
    · cases h
      exact ⟨[], 0, (List.append_nil _).symm, Nat.zero_le _, rfl,
        fun _ _ => .pairsNil (Spaces.refl _)⟩
    match slots, h, ih with
    | 0, h, _ => cases h
    | 1, h, _ =>
      obtain ⟨buff₁, key, hkey, h⟩ := andThen_ok h
      obtain ⟨buff₂, u, hcolon, h⟩ := andThen_ok h
      cases h
    | slots + 2, h, ih =>
      obtain ⟨buff₁, key, hkey, h⟩ := andThen_ok h
      obtain ⟨buff₂, u, hcolon, h⟩ := andThen_ok h
      obtain ⟨buff₃, arg, hone, h⟩ := andThen_ok h
      obtain ⟨hlen₁, hkeys⟩ := parseKey_ok hkey
      obtain ⟨hlen₂, hrest₂⟩ := expectChar_ok (by decide) hcolon
      obtain ⟨hlen₃, hspelled⟩ := hparse _ _ _ hone
      have hcolons : Spaces buff₁.rest (colon :: buff₂.rest) := hrest₂ ▸ Spaces.chomp _
      dsimp only at h
      rcases hcomma : queryExpectChar (queryChomp buff₃) comma with ⟨buff₄, e | u⟩
      · rw [hcomma] at h
        cases h
        have hsame := expectChar_error hcomma
        subst hsame
        refine ⟨[.value key, arg], 1, rfl, by omega,
          hlen₃.trans (hlen₂.trans hlen₁), fun M hM => ?_⟩
        obtain ⟨l, hl, harg⟩ := hspelled M
          (by simpa [allInitialized, Argument.initialized] using hM)
        exact .pairsLast (Spaces.refl _) hkeys hcolons ((Spaces.chomp _).trans hl) harg
          (Spaces.chomp _)
      · rw [hcomma] at h
        obtain ⟨hlen₄, hrest₄⟩ := expectChar_ok (by decide) hcomma
        obtain ⟨new, k, rfl, hslots, hlen, hrest⟩ := ih slots (by omega) h
        refine ⟨.value key :: arg :: new, k + 1, by rw [List.append_assoc]; rfl, by omega,
          by rw [hlen]; exact hlen₄.trans (hlen₃.trans (hlen₂.trans hlen₁)), fun M hM => ?_⟩
        -- a key is a value, which is always initialized
        obtain ⟨hinit, hnew⟩ := allInitialized_cons (allInitialized_cons hM).2
        obtain ⟨l, hl, harg⟩ := hspelled M hinit
        have hcommas : Spaces buff₃.rest (comma :: buff₄.rest) := hrest₄ ▸ Spaces.chomp _
        exact .pairsCons (Spaces.refl _) hkeys hcolons ((Spaces.chomp _).trans hl) harg hcommas
          ((hrest M hnew).skip_pairs (Spaces.chomp _))

theorem methodCall_sound {parse : Buffer → Parsed Argument} (hparse : ArgumentSound parse)
    {buff buff' : Buffer} {inv : Invocation} (halpha : isAlpha buff.char = true)
    (h : queryParseMethodCall parse buff = (buff', .ok inv)) :
    buff'.len = buff.len ∧ ∀ M : Prop, (allInitialized inv.argv = true ∨ M) →
      Spelled (compiledRules M) .query buff.rest buff'.rest := by
  obtain ⟨buff₁, name, hident, h⟩ := andThen_ok h
  obtain ⟨hlen₁, hname, hrest₁⟩ := getIdent_ok halpha hident
  obtain ⟨buff₂, u, hopen, h⟩ := andThen_ok h
  obtain ⟨hlen₂, hrest₂⟩ := expectChar_ok (by decide) hopen
  cases hfind : findFunction name with
  | none =>
    rw [hfind] at h
    cases h
  | some func =>
    rw [hfind] at h
    obtain ⟨buff₃, args, hargs, h⟩ := andThen_ok h
    obtain ⟨buff₄, u, hclose, h⟩ := andThen_ok h
    obtain ⟨hlen₄, hrest₄⟩ := expectChar_ok (by decide) hclose
    split_ifs at h with hsome
    · cases h
    cases h
    obtain ⟨new, hnew, hslots, hlen₃, hspelled⟩ :=
      callArgs_sound hparse (chomped_dropWhile _) hargs
    rw [List.nil_append] at hnew
    subst hnew
    refine ⟨hlen₄.trans (hlen₃.trans (hlen₂.trans hlen₁)), fun M hM => ?_⟩
    have hfound : ∃ full ∈ functionNames, name <+: full := by
      obtain ⟨rf, hrf, _⟩ := Option.map_eq_some_iff.mp hfind
      have hmem := List.mem_of_find?_eq_some hrf
      have hpre := List.find?_some hrf
      exact ⟨rf.name, List.mem_map_of_mem hmem, List.isPrefixOf_iff_prefix.mp hpre⟩
    have hparen : Spaces buff₁.rest (parenOpen :: buff₂.rest) := hrest₂ ▸ Spaces.chomp _
    have hall := hspelled buff'.rest hrest₄ M hM
    rw [hrest₄] at hall
    rw [hrest₁]
    exact .call hname hfound hparen ⟨List.length_pos_iff.mpr hsome, hslots⟩
      (hall.skip_args (Spaces.chomp _))

theorem table_sound {parse : Buffer → Parsed Argument} (hparse : ArgumentSound parse)
    {buff buff' : Buffer} {inv : Invocation}
    (h : queryParseTable parse buff = (buff', .ok inv)) :
    buff'.len = buff.len ∧ ∀ M : Prop, (allInitialized inv.argv = true ∨ M) →
      ∃ l, Spaces buff.rest l ∧ Spelled (compiledRules M) .query l buff'.rest := by
  obtain ⟨buff₁, u, hopen, h⟩ := andThen_ok h
  obtain ⟨hlen₁, hrest₁⟩ := expectChar_ok (by decide) hopen
  obtain ⟨buff₂, args, hargs, h⟩ := andThen_ok h
  obtain ⟨buff₃, u, hclose, h⟩ := andThen_ok h
  obtain ⟨hlen₃, hrest₃⟩ := expectChar_ok (by decide) hclose
  cases h
  obtain ⟨new, k, hnew, hslots, hlen₂, hspelled⟩ := tableArgs_sound hparse _ hargs
  rw [List.nil_append] at hnew
  subst hnew
  refine ⟨hlen₃.trans (hlen₂.trans hlen₁), fun M hM => ?_⟩
  have hall := hspelled M hM
  rw [hrest₃] at hall
  refine ⟨_, hrest₁ ▸ Spaces.chomp _, .table ?_ (hall.skip_pairs (Spaces.chomp _))⟩
  change k ≤ 25
  have hmax : queryMaxArgs = 50 := rfl
  omega

theorem argument_sound (depth : ℕ) : ArgumentSound (queryParseArgument depth) := by
  induction depth with
  | zero =>
    intro buff buff' arg h
    cases h
  | succ depth ih =>
    intro buff buff' arg h
    unfold queryParseArgument at h
    dsimp only at h
    split_ifs at h with hcall htable
    · obtain ⟨buff₁, inv, hone, h⟩ := andThen_ok h
      cases h
      obtain ⟨hlen, hspelled⟩ := methodCall_sound ih (Bool.and_eq_true_iff.mp hcall).1 hone
      refine ⟨hlen, fun M hM => ⟨_, Spaces.chomp _, .nested (hspelled M ?_)⟩⟩
      rwa [Invocation.argument, Argument.initialized] at hM
    · obtain ⟨buff₁, inv, hone, h⟩ := andThen_ok h
      cases h
      obtain ⟨hlen, hspelled⟩ := table_sound ih hone
      refine ⟨hlen, fun M hM => ?_⟩
      rw [Invocation.argument, Argument.initialized] at hM
      obtain ⟨l, hl, hquery⟩ := hspelled M hM
      exact ⟨l, (Spaces.chomp _).trans hl, .nested hquery⟩
    · obtain ⟨buff₁, value, hone, h⟩ := andThen_ok h
      cases h
      obtain ⟨hlen, -, hmissing⟩ := parseValue_ok (M := True) hone
      refine ⟨hlen, fun M hM => ?_⟩
      obtain ⟨-, hvalue, -⟩ := parseValue_ok (M := M) hone
      cases value with
      | some value => exact ⟨_, (Spaces.chomp _).trans (Spaces.chomp _), .value (hvalue rfl)⟩
      | none =>
        refine ⟨_, (Spaces.chomp _).trans (Spaces.chomp _), ?_⟩
        rw [hmissing rfl]
        refine .missing (hM.resolve_left ?_)
        exact Bool.false_ne_true

end SoundParse

end RetroArch.LibretroDb.Query
