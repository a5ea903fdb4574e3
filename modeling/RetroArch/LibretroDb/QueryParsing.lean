/- The query compiler accepts what is spelled, and exactly when that is what is meant. -/

import RetroArch.LibretroDb.QueryGrammar

namespace RetroArch.LibretroDb.Query

section Completeness

variable {M : Prop} {n : ℕ}

theorem isEot_cons {c : UInt8} {l : List UInt8} (hl : (c :: l).length ≤ n) :
    queryIsEot ⟨n, c :: l⟩ = false := by
  have hpos : 0 < (c :: l).length := Nat.succ_pos _
  change decide (n ≤ (n - (c :: l).length) % 2 ^ 32) = false
  have hmod := Nat.mod_le (n - (c :: l).length) (2 ^ 32)
  exact decide_eq_false (by omega)

theorem expectChar_cons {c : UInt8} {l : List UInt8}
    (hl : (c :: l).length ≤ n) : queryExpectChar ⟨n, c :: l⟩ c = (⟨n, l⟩, .ok ()) := by
  rw [queryExpectChar, isEot_cons hl]
  simp [Buffer.char, Buffer.next]

theorem expectChar_ne {c d : UInt8} {l : List UInt8} (hne : d ≠ c) :
    ∃ e, queryExpectChar ⟨n, d :: l⟩ c = (⟨n, d :: l⟩, .error e) := by
  unfold queryExpectChar
  split_ifs with heot hchar
  · exact ⟨_, rfl⟩
  · exact ⟨_, rfl⟩
  · exact absurd hne (not_not.mpr (not_not.mp hchar))

theorem getChar_cons {c : UInt8} {l : List UInt8} (hl : (c :: l).length ≤ n) :
    queryGetChar ⟨n, c :: l⟩ = (⟨n, l⟩, .ok c) := by
  rw [queryGetChar, isEot_cons hl]
  rfl

theorem Spaces.head {l t : List UInt8} {c : UInt8} (h : Spaces l (c :: t)) :
    ∃ d r, l = d :: r ∧ (d = c ∨ isSpace d = true) := by
  obtain ⟨ws, hws, rfl⟩ := h
  cases ws with
  | nil => exact ⟨c, t, rfl, .inl rfl⟩
  | cons d ws => exact ⟨d, ws ++ c :: t, rfl, .inr (hws d List.mem_cons_self)⟩

theorem isSpace_cases {c : UInt8} (h : isSpace c = true) :
    c = 0x20 ∨ c = 0x09 ∨ c = 0x0a ∨ c = 0x0b ∨ c = 0x0c ∨ c = 0x0d := by
  simp only [isSpace, Bool.or_eq_true, Bool.and_eq_true, beq_iff_eq, decide_eq_true_eq,
    UInt8.le_iff_toNat_le] at h
  simp only [← UInt8.toNat_inj]
  rcases h with h | ⟨hlo, hhi⟩
  · exact .inl (congrArg UInt8.toNat h)
  · right
    change 9 ≤ c.toNat at hlo
    change c.toNat ≤ 13 at hhi
    change c.toNat = 9 ∨ c.toNat = 10 ∨ c.toNat = 11 ∨ c.toNat = 12 ∨ c.toNat = 13
    omega

theorem isSpace_not_ident {c : UInt8} (h : isSpace c = true) : isIdentChar c = false := by
  rcases isSpace_cases h with rfl | rfl | rfl | rfl | rfl | rfl <;> decide

theorem getIdent_complete {name l : List UInt8} {d : UInt8}
    (hname : IsIdent name) (hd : isIdentChar d = false) (hl : (name ++ d :: l).length ≤ n) :
    queryGetIdent ⟨n, name ++ d :: l⟩ = (⟨n, d :: l⟩, .ok name) := by
  obtain ⟨c, cs, rfl, hc, hcs⟩ := hname
  have htake : (cs ++ d :: l).takeWhile isIdentChar = cs := by
    rw [List.takeWhile_append_of_pos hcs, List.takeWhile_cons, hd]
    simp
  have hdrop : (cs ++ d :: l).dropWhile isIdentChar = d :: l := by
    rw [List.dropWhile_append_of_pos hcs, List.dropWhile_cons, hd]
    simp
  rw [List.cons_append] at hl ⊢
  rw [List.length_cons, List.length_append] at hl
  rw [queryGetIdent, isEot_cons (by rw [List.length_cons, List.length_append]; exact hl)]
  simp only [Bool.false_eq_true, if_false, Buffer.char, List.headD_cons, hc, Bool.not_true,
    List.tail_cons, htake, hdrop]
  rw [isEot_cons (by omega)]
  rfl

theorem parseQuoted_complete {isBinstr : Bool} {q : UInt8} {chars t : List UInt8} (hq : IsQuote q)
    (hchars : q ∉ chars) :
    queryParseQuoted isBinstr ⟨n, chars ++ q :: t⟩ q =
      (⟨n, t⟩, .ok (stringValue isBinstr q chars)) := by
  have hnot : ¬ (q ≠ quote ∧ q ≠ apostrophe) := by
    rcases hq with rfl | rfl
    · exact fun h => h.1 rfl
    · exact fun h => h.2 rfl
  rw [queryParseQuoted, if_neg hnot]
  simp only [scanString_some.mpr ⟨rfl, hchars⟩]

theorem parseString_complete {q : UInt8} {chars t : List UInt8}
    (hq : IsQuote q) (hchars : q ∉ chars) (hl : (q :: (chars ++ q :: t)).length ≤ n) :
    queryParseString ⟨n, q :: (chars ++ q :: t)⟩ =
      (⟨n, t⟩, .ok (stringValue false q chars)) := by
  have hb : q ≠ letterB := by rcases hq with rfl | rfl <;> decide
  rw [queryParseString, getChar_cons hl]
  simp only [andThen, if_neg hb]
  exact parseQuoted_complete hq hchars

theorem parseBinary_complete {q : UInt8} {chars t : List UInt8}
    (hq : IsQuote q) (hchars : q ∉ chars)
    (hl : (letterB :: q :: (chars ++ q :: t)).length ≤ n) :
    queryParseString ⟨n, letterB :: q :: (chars ++ q :: t)⟩ =
      (⟨n, t⟩, .ok (stringValue true q chars)) := by
  have hl' : (q :: (chars ++ q :: t)).length ≤ n := by
    rw [List.length_cons] at hl
    omega
  rw [queryParseString, getChar_cons hl]
  simp only [andThen, if_true, getChar_cons hl']
  exact parseQuoted_complete hq hchars

/-- What stands behind an argument. -/
def Follow (t : List UInt8) : Prop :=
  ∃ c r, t.dropWhile isSpace = c :: r ∧ c ∈ [comma, parenClose, braceClose]

theorem Follow.of_spaces {l t : List UInt8} {c : UInt8} (h : Spaces l (c :: t))
    (hc : c ∈ [comma, parenClose, braceClose]) : Follow l := by
  have hspace : isSpace c = false := by
    simp only [List.mem_cons, List.not_mem_nil, or_false] at hc
    rcases hc with rfl | rfl | rfl <;> decide
  exact ⟨c, t, h.dropWhile_eq.trans (chomped_cons hspace), hc⟩

theorem Follow.head {t : List UInt8} (h : Follow t) :
    ∃ d r, t = d :: r ∧ (d ∈ [comma, parenClose, braceClose] ∨ isSpace d = true) := by
  obtain ⟨c, r, hdrop, hc⟩ := h
  have hspaces := Spaces.chomp t
  rw [hdrop] at hspaces
  obtain ⟨d, r', heq, hd⟩ := hspaces.head
  rcases hd with rfl | hd
  · exact ⟨d, r', heq, .inl hc⟩
  · exact ⟨d, r', heq, .inr hd⟩

theorem Follow.not_digit {t : List UInt8} (h : Follow t) : t.dropWhile isDigit = t := by
  obtain ⟨d, r, rfl, hd⟩ := h.head
  have hdigit : isDigit d = false := by
    rcases hd with hd | hd
    · simp only [List.mem_cons, List.not_mem_nil, or_false] at hd
      rcases hd with rfl | rfl | rfl <;> decide
    · rcases isSpace_cases hd with rfl | rfl | rfl | rfl | rfl | rfl <;> decide
  rw [List.dropWhile_cons, hdigit]
  rfl

/-- What an argument begins with, if it is there. -/
def Starts (l : List UInt8) : Prop :=
  ∃ c r, l = c :: r ∧ isSpace c = false ∧ c ∉ [comma, parenClose, braceClose]

theorem Starts.chomped {l : List UInt8} (h : Starts l) : Chomped l := by
  obtain ⟨c, r, rfl, hspace, _⟩ := h
  exact chomped_cons hspace

theorem starts_of {p : UInt8 → Bool} {c : UInt8} {l : List UInt8}
    (hp : [0x20, 0x09, 0x0a, 0x0b, 0x0c, 0x0d, comma, parenClose, braceClose].all (!p ·) = true)
    (hc : p c = true) : Starts (c :: l) := by
  have hnot : ∀ d ∈ [0x20, 0x09, 0x0a, 0x0b, 0x0c, 0x0d, comma, parenClose, braceClose], c ≠ d := by
    rintro d hd rfl
    have hfalse := List.all_eq_true.mp hp c hd
    rw [hc] at hfalse
    cases hfalse
  refine ⟨c, l, rfl, ?_, ?_⟩
  · by_contra hspace
    rw [Bool.not_eq_false] at hspace
    rcases isSpace_cases hspace with h | h | h | h | h | h <;> exact hnot _ (by simp) h
  · intro hmem
    simp only [List.mem_cons, List.not_mem_nil, or_false] at hmem
    rcases hmem with h | h | h <;> exact hnot _ (by simp) h

theorem starts_alpha {c : UInt8} {l : List UInt8} (hc : isAlpha c = true) : Starts (c :: l) :=
  starts_of (by decide) hc

theorem starts_digit {c : UInt8} {l : List UInt8} (hc : isDigit c = true) : Starts (c :: l) :=
  starts_of (by decide) hc

theorem starts_quote {q : UInt8} {l : List UInt8} (hq : IsQuote q) : Starts (q :: l) := by
  refine ⟨q, l, rfl, ?_, ?_⟩ <;> rcases hq with rfl | rfl <;> decide

end Completeness

section CompleteParse

variable {M : Prop} {n : ℕ}

theorem KeySpelled.starts {l t : List UInt8} (h : KeySpelled l t) : Starts l := by
  cases h with
  | ident hname =>
    obtain ⟨c, cs, rfl, hc, _⟩ := hname
    exact starts_alpha hc
  | string hq _ => exact starts_quote hq

theorem ValueSpelled.starts {R : Rules} {l t : List UInt8} (h : ValueSpelled R l t) : Starts l := by
  cases h with
  | word hword =>
    simp only [List.mem_cons, List.not_mem_nil, or_false] at hword
    rcases hword with rfl | rfl | rfl <;> exact starts_alpha (by decide)
  | string hq _ => exact starts_quote hq
  | binary hq _ _ => exact starts_alpha (by decide)
  | @integer digits _ hdigits hsome =>
    cases digits with
    | nil => exact absurd rfl hsome
    | cons d digits => exact starts_digit (hdigits d List.mem_cons_self)

theorem Spelled.starts_query {R : Rules} {l t : List UInt8} (h : Spelled R .query l t) :
    Starts l := by
  cases h with
  | call hident =>
    obtain ⟨c, cs, rfl, hc, _⟩ := hident
    exact starts_alpha hc
  | table => exact ⟨_, _, rfl, by decide, by decide⟩

theorem Spelled.starts {R : Rules} {l t : List UInt8} (h : Spelled R .argument l t) :
    l = t ∨ Starts l := by
  cases h with
  | nested h => exact .inr h.starts_query
  | value h => exact .inr h.starts
  | missing _ => exact .inl rfl

theorem KeySpelled.length_le {l t : List UInt8} (h : KeySpelled l t) : t.length ≤ l.length := by
  cases h with
  | ident => simp
  | string =>
    simp only [List.length_cons, List.length_append]
    omega

theorem ValueSpelled.length_le {R : Rules} {l t : List UInt8} (h : ValueSpelled R l t) :
    t.length ≤ l.length := by
  cases h <;> simp only [List.length_cons, List.length_append] <;> omega

theorem Spelled.length_le {R : Rules} {node : Node} {l t : List UInt8} (h : Spelled R node l t) :
    t.length ≤ l.length := by
  induction h with
  | call hident hname hopen hcount hargs ih =>
    have hlen := hopen.length_le
    simp only [List.length_cons, List.length_append] at *
    omega
  | table hcount hpairs ih =>
    simp only [List.length_cons] at *
    omega
  | nested h ih => exact ih
  | value h => exact h.length_le
  | missing h => exact le_rfl
  | argsNil h => exact h.length_le
  | argsLast h₁ harg hsome h₂ ih => exact h₂.length_le.trans (ih.trans h₁.length_le)
  | argsCons h₁ harg h₂ hrest ih₁ ih₂ =>
    have hlen₁ := h₁.length_le
    have hlen₂ := h₂.length_le
    simp only [List.length_cons] at *
    omega
  | pairsNil h => exact h.length_le
  | pairsLast h₁ hkey h₂ h₃ harg h₅ ih =>
    have hlen₁ := h₁.length_le
    have hlen₂ := h₂.length_le
    have hlen₃ := h₃.length_le
    have hlen₅ := h₅.length_le
    have hlenk := hkey.length_le
    simp only [List.length_cons] at *
    omega
  | pairsCons h₁ hkey h₂ h₃ harg h₅ hrest ih₁ ih₂ =>
    have hlen₁ := h₁.length_le
    have hlen₂ := h₂.length_le
    have hlen₃ := h₃.length_le
    have hlen₅ := h₅.length_le
    have hlenk := hkey.length_le
    simp only [List.length_cons] at *
    omega

theorem queryChomp_of {l : List UInt8} (h : Chomped l) : queryChomp ⟨n, l⟩ = ⟨n, l⟩ := by
  rw [queryChomp]
  exact congrArg _ h

theorem parseArgument_value {l t : List UInt8} {v : Value} (depth : ℕ) (hchomped : Chomped l)
    (hcall : (isAlpha (Buffer.char ⟨n, l⟩) && !isValueWord ⟨n, l⟩) = false)
    (htable : queryPeek ⟨n, l⟩ [braceOpen] = false)
    (hvalue : queryParseValue ⟨n, l⟩ = (⟨n, t⟩, .ok (some v))) :
    queryParseArgument (depth + 1) ⟨n, l⟩ = (⟨n, t⟩, .ok (.value v)) := by
  rw [queryParseArgument]
  simp only [queryChomp_of hchomped, hcall, htable, hvalue, Bool.false_eq_true, if_false, andThen]

theorem value_complete {R : Rules} {l t : List UInt8} (h : ValueSpelled R l t)
    (hfollow : Follow t) (hl : l.length ≤ n) (depth : ℕ) :
    ∃ v, queryParseArgument (depth + 1) ⟨n, l⟩ = (⟨n, t⟩, .ok (.value v)) := by
  have hchomped := h.starts.chomped
  cases h with
  | word hword =>
    simp only [List.mem_cons, List.not_mem_nil, or_false] at hword
    rcases hword with rfl | rfl | rfl
    · exact ⟨.null, rfl⟩
    · exact ⟨.bool true, rfl⟩
    · exact ⟨.bool false, rfl⟩
  | @string q chars _ hq hchars =>
    have hparse := parseString_complete hq hchars hl
    refine ⟨stringValue false q chars, ?_⟩
    generalize chars ++ q :: t = x at *
    have hvalue : queryParseValue ⟨n, q :: x⟩ =
        (⟨n, t⟩, .ok (some (stringValue false q chars))) := by
      have hfacts : queryPeek ⟨n, q :: x⟩ wordNil = false ∧
          queryPeek ⟨n, q :: x⟩ wordTrue = false ∧ queryPeek ⟨n, q :: x⟩ wordFalse = false ∧
          (queryPeek ⟨n, q :: x⟩ [letterB] || queryPeek ⟨n, q :: x⟩ [quote] ||
            queryPeek ⟨n, q :: x⟩ [apostrophe]) = true := by
        rcases hq with rfl | rfl <;> exact ⟨rfl, rfl, rfl, rfl⟩
      obtain ⟨hnil, htrue, hfalse, hquotes⟩ := hfacts
      rw [queryParseValue]
      simp only [queryChomp_of hchomped, hnil, htrue, hfalse, hquotes, hparse,
        Bool.false_eq_true, if_false, if_true, andThen]
    refine parseArgument_value depth hchomped ?_ ?_ hvalue <;> rcases hq with rfl | rfl <;> rfl
  | @binary q chars _ hq hchars hbinary =>
    have hparse := parseBinary_complete hq hchars hl
    refine ⟨stringValue true q chars, ?_⟩
    generalize chars ++ q :: t = x at *
    have hvalue : queryParseValue ⟨n, letterB :: q :: x⟩ =
        (⟨n, t⟩, .ok (some (stringValue true q chars))) := by
      rw [queryParseValue]
      simp only [queryChomp_of hchomped]
      rw [if_neg (by exact Bool.false_ne_true), if_neg (by exact Bool.false_ne_true),
        if_neg (by exact Bool.false_ne_true), if_pos (by rfl), hparse]
      rfl
    refine parseArgument_value depth hchomped ?_ rfl hvalue
    rcases hq with rfl | rfl <;> rfl
  | @integer digits _ hdigits hsome =>
    have hdrop : (digits ++ t).dropWhile isDigit = t := by
      rw [List.dropWhile_append_of_pos hdigits, hfollow.not_digit]
    cases digits with
    | nil => exact absurd rfl hsome
    | cons d digits =>
      have hd := hdigits d List.mem_cons_self
      refine ⟨.int (digitsValue ((d :: digits ++ t).takeWhile isDigit)), ?_⟩
      have hne : ∀ c : UInt8, isDigit c = false → ∀ word,
          queryPeek ⟨n, d :: digits ++ t⟩ (c :: word) = false := by
        intro c hc word
        have hcd : (c == d) = false := by
          rw [beq_eq_false_iff_ne]
          rintro rfl
          rw [hd] at hc
          cases hc
        simp [queryPeek, List.isPrefixOf, hcd]
      have hint : queryParseInteger ⟨n, d :: digits ++ t⟩ =
          (⟨n, t⟩, .ok (.int (digitsValue ((d :: digits ++ t).takeWhile isDigit)))) := by
        rw [queryParseInteger, if_pos (by exact hd)]
        rw [hdrop]
      have hvalue : queryParseValue ⟨n, d :: digits ++ t⟩ =
          (⟨n, t⟩, .ok (some (.int (digitsValue ((d :: digits ++ t).takeWhile isDigit))))) := by
        rw [queryParseValue]
        simp only [queryChomp_of hchomped, wordNil, wordTrue, wordFalse]
        rw [hne _ (by decide), hne _ (by decide), hne _ (by decide), hne _ (by decide),
          hne _ (by decide), hne _ (by decide), if_neg (by exact Bool.false_ne_true),
          if_neg (by exact Bool.false_ne_true), if_neg (by exact Bool.false_ne_true),
          if_neg (by exact Bool.false_ne_true), if_pos (by exact hd), hint]
        rfl
      refine parseArgument_value depth hchomped ?_ (hne _ (by decide) _) hvalue
      have halpha : isAlpha d = false := by
        revert hd
        simp only [isDigit, isAlpha, Bool.and_eq_true, decide_eq_true_eq, UInt8.le_iff_toNat_le,
          Bool.or_eq_false_iff, Bool.and_eq_false_iff, decide_eq_false_iff_not]
        rintro ⟨hlo, hhi⟩
        change 48 ≤ d.toNat at hlo
        change d.toNat ≤ 57 at hhi
        refine ⟨.inl ?_, .inl ?_⟩
        · change ¬ 65 ≤ d.toNat
          omega
        · change ¬ 97 ≤ d.toNat
          omega
      change (isAlpha d && _) = false
      rw [halpha, Bool.false_and]

end CompleteParse

section CompleteQuery

variable {M : Prop} {n : ℕ}

theorem isValueWord_call {name l : List UInt8} {d : UInt8} (hident : IsIdent name)
    (hname : ∃ full ∈ functionNames, name <+: full) (hd : d ≠ quote ∧ d ≠ apostrophe) :
    isValueWord ⟨n, name ++ d :: l⟩ = false := by
  obtain ⟨full, hfull, t, ht⟩ := hname
  obtain ⟨c, cs, rfl, hc, hcs⟩ := hident
  have hquote : ∀ q : UInt8, IsQuote q → queryPeek ⟨n, c :: cs ++ d :: l⟩ [letterB, q] = false := by
    intro q hq
    have hne : ∀ e : UInt8, isIdentChar e = true ∨ e = d → (q == e) = false := by
      intro e he
      rw [beq_eq_false_iff_ne]
      rintro rfl
      rcases hq with rfl | rfl
      · rcases he with he | he
        · exact absurd he (by decide)
        · exact hd.1 he.symm
      · rcases he with he | he
        · exact absurd he (by decide)
        · exact hd.2 he.symm
    cases cs with
    | nil => simp [queryPeek, List.isPrefixOf, hne d (.inr rfl)]
    | cons e cs =>
      simp [queryPeek, List.isPrefixOf, hne e (.inl (hcs e List.mem_cons_self))]
  have hfirst : c ≠ 0x6e ∧ c ≠ 0x74 ∧ c ≠ 0x66 := by
    have hcases : c = 0x69 ∨ c = 0x6f ∨ c = 0x61 ∨ c = 0x62 ∨ c = 0x67 := by
      simp only [functionNames, registeredFunctions, List.map_cons, List.map_nil, List.mem_cons,
        List.not_mem_nil, or_false] at hfull
      rw [List.cons_append] at ht
      rcases hfull with rfl | rfl | rfl | rfl | rfl <;>
        simp only [List.cons.injEq] at ht <;> simp [ht.1]
    rcases hcases with rfl | rfl | rfl | rfl | rfl <;> decide
  have hword : ∀ (e : UInt8) (word : List UInt8), c ≠ e →
      queryPeek ⟨n, c :: cs ++ d :: l⟩ (e :: word) = false := by
    intro e word hne
    have hbeq : (e == c) = false := by
      rw [beq_eq_false_iff_ne]
      exact hne.symm
    simp [queryPeek, List.isPrefixOf, hbeq]
  rw [isValueWord, wordNil, wordTrue, wordFalse, hword _ _ hfirst.1, hword _ _ hfirst.2.1,
    hword _ _ hfirst.2.2, hquote quote (.inl rfl), hquote apostrophe (.inr rfl)]
  rfl

/-- What the parser makes of a node, behind the white space in front of it. -/
def Parses (M : Prop) (n : ℕ) : Node → List UInt8 → List UInt8 → Prop
  | .query, l, t => ∀ d, l.length ≤ d → l.length ≤ n → ∃ inv,
      (M ∨ allInitialized inv.argv = true) ∧
        ((isAlpha (Buffer.char ⟨n, l⟩) = true ∧ isValueWord ⟨n, l⟩ = false ∧
            queryParseMethodCall (queryParseArgument d) ⟨n, l⟩ = (⟨n, t⟩, .ok inv)) ∨
          (queryPeek ⟨n, l⟩ [braceOpen] = true ∧
            queryParseTable (queryParseArgument d) ⟨n, l⟩ = (⟨n, t⟩, .ok inv)))
  | .argument, l, t => ∀ d, l.length < d → l.length ≤ n → Follow t → ∀ l₀ : List UInt8,
      l₀.dropWhile isSpace = l.dropWhile isSpace → ∃ t' arg,
        (M ∨ arg.initialized = true) ∧ t'.dropWhile isSpace = t.dropWhile isSpace ∧
          queryParseArgument d ⟨n, l₀⟩ = (⟨n, t'⟩, .ok arg)
  | .args k, l, t => ∀ d slots acc, l.length < d → l.length ≤ n → k ≤ slots →
      ∀ t', t = parenClose :: t' → ∃ new, new.length = k ∧
        (M ∨ allInitialized new = true) ∧
          queryCallArgs (queryParseArgument d) slots acc ⟨n, l.dropWhile isSpace⟩ =
            (⟨n, t⟩, .ok (acc ++ new))
  | .pairs k, l, t => ∀ d slots acc, l.length < d → l.length ≤ n → 2 * k ≤ slots →
      ∀ t', t = braceClose :: t' → ∃ new,
        (M ∨ allInitialized new = true) ∧
          queryTableArgs (queryParseArgument d) slots acc ⟨n, l.dropWhile isSpace⟩ =
            (⟨n, t⟩, .ok (acc ++ new))

theorem parses_call {name l l' t : List UInt8} {k : ℕ} (hident : IsIdent name)
    (hname : (compiledRules M).name name) (hopen : Spaces l (parenOpen :: l'))
    (hcount : (compiledRules M).args k) (hargs : (parenClose :: t).length ≤ l'.length)
    (ih : Parses M n (.args k) l' (parenClose :: t)) :
    Parses M n .query (name ++ l) t := by
  intro d hd hl
  obtain ⟨e, r, rfl, he⟩ := hopen.head
  have hlen := hopen.length_le
  have hpos : 0 < name.length := by
    obtain ⟨c, cs, rfl, _⟩ := hident
    exact Nat.succ_pos _
  rw [List.length_append] at hd hl
  simp only [List.length_cons] at hlen hd hl
  have hechar : isIdentChar e = false := by
    rcases he with rfl | he
    · decide
    · exact isSpace_not_ident he
  have hequote : e ≠ quote ∧ e ≠ apostrophe := by
    rcases he with rfl | he
    · decide
    · constructor
      · rintro rfl
        exact absurd he (by decide)
      · rintro rfl
        exact absurd he (by decide)
  obtain ⟨new, hnew, hinit, hparsed⟩ := ih d queryMaxArgs [] (by omega) (by omega) hcount.2 t rfl
  obtain ⟨func, hfind⟩ : ∃ func, findFunction name = some func := by
    obtain ⟨full, hfull, hpre⟩ := hname
    obtain ⟨rf, hrf, rfl⟩ := List.mem_map.mp hfull
    have hsome : (registeredFunctions.find? fun rf => name.isPrefixOf rf.name).isSome := by
      rw [List.find?_isSome]
      exact ⟨rf, hrf, List.isPrefixOf_iff_prefix.mpr hpre⟩
    obtain ⟨rf', hrf'⟩ := Option.isSome_iff_exists.mp hsome
    exact ⟨rf'.func, by rw [findFunction, hrf']; rfl⟩
  refine ⟨⟨func, new⟩, hinit, .inl ⟨?_, isValueWord_call hident hname hequote, ?_⟩⟩
  · obtain ⟨c, cs, rfl, hc, _⟩ := hident
    exact hc
  · have hne : new ≠ [] := by
      rintro rfl
      exact absurd hnew (Nat.ne_of_lt hcount.1)
    have hchomp : queryChomp ⟨n, e :: r⟩ = ⟨n, parenOpen :: l'⟩ :=
      congrArg (Buffer.mk n) (hopen.dropWhile_eq.trans (chomped_cons (by decide)))
    have hclose : (parenClose :: t).length ≤ n := by omega
    rw [queryParseMethodCall, getIdent_complete hident hechar (by
      rw [List.length_append, List.length_cons]; omega)]
    simp only [andThen, hchomp]
    rw [expectChar_cons (by rw [List.length_cons]; omega)]
    simp only [hfind]
    change andThen (queryCallArgs _ _ _ ⟨n, l'.dropWhile isSpace⟩) _ = _
    rw [hparsed]
    simp only [andThen, List.nil_append]
    rw [expectChar_cons hclose]
    simp only [if_neg hne]

theorem parses_table {l t : List UInt8} {k : ℕ}
    (hcount : (compiledRules M).pairs k) (hpairs : (braceClose :: t).length ≤ l.length)
    (ih : Parses M n (.pairs k) l (braceClose :: t)) :
    Parses M n .query (braceOpen :: l) t := by
  intro d hd hl
  have hlen : l.length + 1 ≤ n := hl
  have hdepth : l.length < d := hd
  have hmax : 2 * k ≤ queryMaxArgs := by
    have hk : k ≤ 25 := hcount
    have hmax : queryMaxArgs = 50 := rfl
    omega
  obtain ⟨new, hinit, hparsed⟩ := ih d queryMaxArgs [] hdepth (by omega) hmax t rfl
  refine ⟨⟨.allMap, new⟩, hinit, .inr ⟨rfl, ?_⟩⟩
  have hchomp : queryChomp ⟨n, braceOpen :: l⟩ = ⟨n, braceOpen :: l⟩ :=
    queryChomp_of (chomped_cons (by decide))
  rw [queryParseTable, hchomp, expectChar_cons hl]
  simp only [andThen]
  change andThen (queryTableArgs _ _ _ ⟨n, l.dropWhile isSpace⟩) _ = _
  rw [hparsed]
  simp only [andThen, List.nil_append]
  rw [expectChar_cons (by omega)]

theorem parseArgument_chomp (d : ℕ) {l l' : List UInt8}
    (h : l.dropWhile isSpace = l'.dropWhile isSpace) :
    queryParseArgument (d + 1) ⟨n, l⟩ = queryParseArgument (d + 1) ⟨n, l'⟩ := by
  have hchomp : queryChomp ⟨n, l⟩ = queryChomp ⟨n, l'⟩ := congrArg (Buffer.mk n) h
  rw [queryParseArgument, queryParseArgument, hchomp]

theorem parses_nested {l t : List UInt8} (h : Spelled (compiledRules M) .query l t)
    (ih : Parses M n .query l t) : Parses M n .argument l t := by
  intro d hd hl _ l₀ hl₀
  obtain ⟨d, rfl⟩ : ∃ d', d = d' + 1 := ⟨d - 1, by omega⟩
  obtain ⟨inv, hinit, hparsed⟩ := ih d (Nat.le_of_lt_succ hd) hl
  refine ⟨t, inv.argument, ?_, rfl, ?_⟩
  · rwa [Invocation.argument, Argument.initialized]
  · rw [parseArgument_chomp d hl₀, queryParseArgument, queryChomp_of h.starts_query.chomped]
    rcases hparsed with ⟨halpha, hword, hparsed⟩ | ⟨htable, hparsed⟩
    · simp only [halpha, hword, Bool.not_false, Bool.and_self, if_true, hparsed, andThen]
    · have hrest := peek_rest htable
      have halpha : isAlpha (Buffer.char ⟨n, l⟩) = false := by
        rw [Buffer.char, hrest]
        rfl
      simp only [halpha, htable, Bool.false_and, Bool.false_eq_true, if_false, if_true, hparsed,
        andThen]

theorem parses_value {l t : List UInt8}
    (h : ValueSpelled (compiledRules M) l t) : Parses M n .argument l t := by
  intro d hd hl hfollow l₀ hl₀
  obtain ⟨d, rfl⟩ : ∃ d', d = d' + 1 := ⟨d - 1, by omega⟩
  obtain ⟨v, hparsed⟩ := value_complete h hfollow hl d
  exact ⟨t, .value v, .inr rfl, rfl, by rw [parseArgument_chomp d hl₀, hparsed]⟩

theorem parses_missing {l : List UInt8} (h : M) : Parses M n .argument l l := by
  intro d hd _ hfollow l₀ hl₀
  obtain ⟨d, rfl⟩ : ∃ d', d = d' + 1 := ⟨d - 1, by omega⟩
  obtain ⟨c, r, hdrop, hc⟩ := hfollow
  refine ⟨c :: r, .uninitialized, .inl h, ?_, ?_⟩
  · rw [← hdrop]
    exact chomped_dropWhile l
  · have hsame : l₀.dropWhile isSpace = (c :: r).dropWhile isSpace := by
      rw [hl₀, ← hdrop]
      exact (chomped_dropWhile l).symm
    rw [parseArgument_chomp d hsame]
    simp only [List.mem_cons, List.not_mem_nil, or_false] at hc
    rcases hc with rfl | rfl | rfl <;> rfl

theorem parses_args_nil {l t : List UInt8} (h : Spaces l t) : Parses M n (.args 0) l t := by
  intro d slots acc _ _ _ t' ht
  subst ht
  refine ⟨[], rfl, .inr rfl, ?_⟩
  have hdrop : l.dropWhile isSpace = parenClose :: t' :=
    h.dropWhile_eq.trans (chomped_cons (by decide))
  rw [hdrop, List.append_nil]
  unfold queryCallArgs
  exact if_pos rfl

theorem peek_starts {l : List UInt8} {c : UInt8} (h : Starts l)
    (hc : c ∈ [comma, parenClose, braceClose]) : queryPeek ⟨n, l⟩ [c] = false := by
  obtain ⟨e, r, rfl, _, he⟩ := h
  have hbeq : (c == e) = false := by
    rw [beq_eq_false_iff_ne]
    rintro rfl
    exact he hc
  simp [queryPeek, List.isPrefixOf, hbeq]

theorem parses_args_last {l l₁ l₂ t : List UInt8} (h₁ : Spaces l l₁)
    (harg : Spelled (compiledRules M) .argument l₁ l₂) (hsome : l₁ ≠ l₂) (h₂ : Spaces l₂ t)
    (ih : Parses M n .argument l₁ l₂) : Parses M n (.args 1) l t := by
  intro d slots acc hd hl hk t' ht
  subst ht
  obtain ⟨slots, rfl⟩ : ∃ s, slots = s + 1 := ⟨slots - 1, by omega⟩
  have hstarts := harg.starts.resolve_left hsome
  have hlen := h₁.length_le
  have hdrop : l.dropWhile isSpace = l₁ := h₁.dropWhile_eq.trans hstarts.chomped
  obtain ⟨t₂, arg, hinit, ht₂, hparsed⟩ :=
    ih d (by omega) (by omega) (Follow.of_spaces h₂ (by decide)) l₁ rfl
  have hchomp : queryChomp ⟨n, t₂⟩ = ⟨n, parenClose :: t'⟩ :=
    congrArg (Buffer.mk n) ((ht₂.trans h₂.dropWhile_eq).trans (chomped_cons (by decide)))
  obtain ⟨e, hcomma⟩ := expectChar_ne (n := n) (c := comma) (d := parenClose) (l := t') (by decide)
  refine ⟨[arg], rfl, ?_, ?_⟩
  · simpa [allInitialized] using hinit
  · rw [hdrop]
    unfold queryCallArgs
    rw [peek_starts hstarts (by decide), if_neg Bool.false_ne_true, hparsed]
    simp only [andThen, hchomp, hcomma]

theorem parses_args_cons {l l₁ l₂ l₃ t : List UInt8} {k : ℕ}
    (h₁ : Spaces l l₁) (harg : Spelled (compiledRules M) .argument l₁ l₂)
    (h₂ : Spaces l₂ (comma :: l₃)) (ih : Parses M n .argument l₁ l₂)
    (ihrest : Parses M n (.args k) l₃ t) : Parses M n (.args (k + 1)) l t := by
  intro d slots acc hd hl hk t' ht
  obtain ⟨slots, rfl⟩ : ∃ s, slots = s + 1 := ⟨slots - 1, by omega⟩
  have hlen₁ := h₁.length_le
  have hlen := harg.length_le
  have hlen₂ := h₂.length_le
  rw [List.length_cons] at hlen₂
  have hpeek : queryPeek ⟨n, l.dropWhile isSpace⟩ [parenClose] = false := by
    rw [h₁.dropWhile_eq]
    rcases harg.starts with rfl | hstarts
    · rw [h₂.dropWhile_eq, show (comma :: l₃).dropWhile isSpace = comma :: l₃ from
        chomped_cons (by decide)]
      rfl
    · rw [hstarts.chomped]
      exact peek_starts hstarts (by decide)
  obtain ⟨t₂, arg, hinit, ht₂, hparsed⟩ :=
    ih d (by omega) (by omega) (Follow.of_spaces h₂ (by decide)) (l.dropWhile isSpace)
      (by rw [h₁.dropWhile_eq]; exact chomped_dropWhile _)
  have hchomp : queryChomp ⟨n, t₂⟩ = ⟨n, comma :: l₃⟩ :=
    congrArg (Buffer.mk n) ((ht₂.trans h₂.dropWhile_eq).trans (chomped_cons (by decide)))
  obtain ⟨new, hnew, hinit', hrest⟩ :=
    ihrest d slots (acc ++ [arg]) (by omega) (by omega) (by omega) t' ht
  refine ⟨arg :: new, by rw [List.length_cons, hnew], ?_, ?_⟩
  · rcases hinit with hM | harg'
    · exact .inl hM
    · rcases hinit' with hM | hnew'
      · exact .inl hM
      · exact .inr (by rw [allInitialized, harg', hnew']; rfl)
  · unfold queryCallArgs
    rw [hpeek, if_neg Bool.false_ne_true, hparsed]
    simp only [andThen, hchomp]
    rw [expectChar_cons (by rw [List.length_cons]; omega)]
    change queryCallArgs _ slots _ ⟨n, l₃.dropWhile isSpace⟩ = _
    rw [hrest, List.append_assoc]
    rfl

end CompleteQuery

section CompleteTable

variable {M : Prop} {n : ℕ}

theorem key_complete {l t r : List UInt8} (h : KeySpelled l t)
    (hcolon : Spaces t (colon :: r)) (hl : l.length ≤ n) :
    ∃ key, queryParseKey ⟨n, l⟩ = (⟨n, t⟩, .ok key) := by
  cases h with
  | @ident name _ hname =>
    obtain ⟨e, r', rfl, he⟩ := hcolon.head
    have hechar : isIdentChar e = false := by
      rcases he with rfl | he
      · decide
      · exact isSpace_not_ident he
    have halpha : isAlpha (Buffer.char ⟨n, name ++ e :: r'⟩) = true := by
      obtain ⟨c, cs, rfl, hc, _⟩ := hname
      exact hc
    refine ⟨.string (.ofBytes name), ?_⟩
    rw [queryParseKey, if_pos halpha, getIdent_complete hname hechar hl]
    rfl
  | @string q chars _ hq hchars =>
    refine ⟨stringValue false q chars, ?_⟩
    have halpha : isAlpha (Buffer.char ⟨n, q :: (chars ++ q :: t)⟩) = false := by
      rcases hq with rfl | rfl <;> rfl
    rw [queryParseKey, halpha, if_neg Bool.false_ne_true]
    exact parseString_complete hq hchars hl

theorem parses_pairs_nil {l t : List UInt8} (h : Spaces l t) : Parses M n (.pairs 0) l t := by
  intro d slots acc _ _ _ t' ht
  subst ht
  refine ⟨[], .inr rfl, ?_⟩
  have hdrop : l.dropWhile isSpace = braceClose :: t' :=
    h.dropWhile_eq.trans (chomped_cons (by decide))
  rw [hdrop, List.append_nil]
  unfold queryTableArgs
  exact if_pos rfl

/-- A pair up to its argument: the key and the colon are taken, and the argument is parsed. -/
theorem pair_complete {l l₁ l₂ l₃ l₄ l₅ : List UInt8} (h₁ : Spaces l l₁)
    (hkey : KeySpelled l₁ l₂) (h₂ : Spaces l₂ (colon :: l₃)) (h₃ : Spaces l₃ l₄)
    (ih : Parses M n .argument l₄ l₅) (hfollow : Follow l₅) {d : ℕ} (hd : l.length < d)
    (hl : l.length ≤ n) (slots : ℕ) (acc : List Argument) :
    ∃ key t' arg, (M ∨ arg.initialized = true) ∧
      t'.dropWhile isSpace = l₅.dropWhile isSpace ∧
      queryTableArgs (queryParseArgument d) (slots + 2) acc ⟨n, l.dropWhile isSpace⟩ =
        match queryExpectChar (queryChomp ⟨n, t'⟩) comma with
        | (buff, .ok _) => queryTableArgs (queryParseArgument d) slots
            (acc ++ [.value key, arg]) (queryChomp buff)
        | (buff, .error _) => (buff, .ok (acc ++ [.value key, arg])) := by
  have hlen₁ := h₁.length_le
  have hlenk := hkey.length_le
  have hlen₂ := h₂.length_le
  have hlen₃ := h₃.length_le
  rw [List.length_cons] at hlen₂
  have hdrop : l.dropWhile isSpace = l₁ := h₁.dropWhile_eq.trans hkey.starts.chomped
  have hchomp : queryChomp ⟨n, l₂⟩ = ⟨n, colon :: l₃⟩ :=
    congrArg (Buffer.mk n) (h₂.dropWhile_eq.trans (chomped_cons (by decide)))
  obtain ⟨key, hparsed⟩ := key_complete (n := n) hkey h₂ (by omega)
  obtain ⟨t', arg, hinit, ht', harg⟩ := ih d (by omega) (by omega) hfollow
    (l₃.dropWhile isSpace) (by rw [h₃.dropWhile_eq]; exact chomped_dropWhile _)
  refine ⟨key, t', arg, hinit, ht', ?_⟩
  rw [hdrop]
  conv_lhs => unfold queryTableArgs
  rw [peek_starts hkey.starts (by decide), if_neg Bool.false_ne_true, hparsed]
  simp only [andThen, hchomp]
  rw [expectChar_cons (by rw [List.length_cons]; omega)]
  change andThen (queryParseArgument d ⟨n, l₃.dropWhile isSpace⟩) _ = _
  rw [harg]
  rfl

theorem parses_pairs_last {l l₁ l₂ l₃ l₄ l₅ t : List UInt8} (h₁ : Spaces l l₁)
    (hkey : KeySpelled l₁ l₂) (h₂ : Spaces l₂ (colon :: l₃)) (h₃ : Spaces l₃ l₄)
    (h₅ : Spaces l₅ t) (ih : Parses M n .argument l₄ l₅) : Parses M n (.pairs 1) l t := by
  intro d slots acc hd hl hk t' ht
  subst ht
  obtain ⟨slots, rfl⟩ : ∃ s, slots = s + 2 := ⟨slots - 2, by omega⟩
  obtain ⟨key, t₅, arg, hinit, ht₅, hparsed⟩ := pair_complete h₁ hkey h₂ h₃ ih
    (Follow.of_spaces h₅ (by decide)) hd hl slots acc
  have hchomp : queryChomp ⟨n, t₅⟩ = ⟨n, braceClose :: t'⟩ :=
    congrArg (Buffer.mk n) ((ht₅.trans h₅.dropWhile_eq).trans (chomped_cons (by decide)))
  obtain ⟨e, hcomma⟩ := expectChar_ne (n := n) (c := comma) (d := braceClose) (l := t') (by decide)
  refine ⟨[.value key, arg], ?_, ?_⟩
  · simpa [allInitialized, Argument.initialized] using hinit
  · rw [hparsed, hchomp, hcomma]

theorem parses_pairs_cons {l l₁ l₂ l₃ l₄ l₅ l₆ t : List UInt8} {k : ℕ}
    (h₁ : Spaces l l₁) (hkey : KeySpelled l₁ l₂) (h₂ : Spaces l₂ (colon :: l₃))
    (h₃ : Spaces l₃ l₄) (harg : Spelled (compiledRules M) .argument l₄ l₅)
    (h₅ : Spaces l₅ (comma :: l₆)) (ih : Parses M n .argument l₄ l₅)
    (ihrest : Parses M n (.pairs k) l₆ t) : Parses M n (.pairs (k + 1)) l t := by
  intro d slots acc hd hl hk t' ht
  obtain ⟨slots, rfl⟩ : ∃ s, slots = s + 2 := ⟨slots - 2, by omega⟩
  obtain ⟨key, t₅, arg, hinit, ht₅, hparsed⟩ := pair_complete h₁ hkey h₂ h₃ ih
    (Follow.of_spaces h₅ (by decide)) hd hl slots acc
  have hchomp : queryChomp ⟨n, t₅⟩ = ⟨n, comma :: l₆⟩ :=
    congrArg (Buffer.mk n) ((ht₅.trans h₅.dropWhile_eq).trans (chomped_cons (by decide)))
  have hlen₁ := h₁.length_le
  have hlenk := hkey.length_le
  have hlen₂ := h₂.length_le
  have hlen₃ := h₃.length_le
  have hlena := harg.length_le
  have hlen₅ := h₅.length_le
  rw [List.length_cons] at hlen₂ hlen₅
  obtain ⟨new, hinit', hrest⟩ :=
    ihrest d slots (acc ++ [.value key, arg]) (by omega) (by omega) (by omega) t' ht
  refine ⟨.value key :: arg :: new, ?_, ?_⟩
  · rcases hinit with hM | harg'
    · exact .inl hM
    · rcases hinit' with hM | hnew'
      · exact .inl hM
      · exact .inr (by simp [allInitialized, Argument.initialized, harg', hnew'])
  · rw [hparsed, hchomp, expectChar_cons (by rw [List.length_cons]; omega)]
    change queryTableArgs _ slots _ ⟨n, l₆.dropWhile isSpace⟩ = _
    rw [hrest, List.append_assoc]
    rfl

theorem parses_of_spelled {node : Node} {l t : List UInt8}
    (h : Spelled (compiledRules M) node l t) : Parses M n node l t := by
  induction h with
  | call hident hname hopen hcount hargs ih =>
    exact parses_call hident hname hopen hcount hargs.length_le ih
  | table hcount hpairs ih => exact parses_table hcount hpairs.length_le ih
  | nested h ih => exact parses_nested h ih
  | value h => exact parses_value h
  | missing h => exact parses_missing h
  | argsNil h => exact parses_args_nil h
  | argsLast h₁ harg hsome h₂ ih => exact parses_args_last h₁ harg hsome h₂ ih
  | argsCons h₁ harg h₂ _ ih ihrest => exact parses_args_cons h₁ harg h₂ ih ihrest
  | pairsNil h => exact parses_pairs_nil h
  | pairsLast h₁ hkey h₂ h₃ _ h₅ ih => exact parses_pairs_last h₁ hkey h₂ h₃ h₅ ih
  | pairsCons h₁ hkey h₂ h₃ harg h₅ _ ih ihrest =>
    exact parses_pairs_cons h₁ hkey h₂ h₃ harg h₅ ih ihrest

end CompleteTable

section Statement

variable {M : Prop}

theorem expectEof_ok {buff buff' : Buffer} (hlen : buff.rest.length ≤ buff.len)
    (h : queryExpectEof buff = (buff', .ok ())) : buff.len < 2 ^ 32 ∧ Spaces buff.rest [] := by
  unfold queryExpectEof at h
  dsimp only at h
  split_ifs at h with heot
  · have hchomp := (Spaces.chomp buff.rest).length_le
    have hend : buff.len ≤ (buff.len - (buff.rest.dropWhile isSpace).length) % 2 ^ 32 :=
      of_decide_eq_true heot
    have hmod := Nat.mod_lt (buff.len - (buff.rest.dropWhile isSpace).length)
      (show 0 < 2 ^ 32 by decide)
    have hle := Nat.mod_le (buff.len - (buff.rest.dropWhile isSpace).length) (2 ^ 32)
    refine ⟨by omega, ?_⟩
    have hnil : (buff.rest.dropWhile isSpace).length = 0 := by omega
    have hspaces := Spaces.chomp buff.rest
    rwa [List.length_eq_zero_iff.mp hnil] at hspaces
  · cases h

theorem expectEof_nil {n : ℕ} (hn : n < 2 ^ 32) {t : List UInt8} (h : Spaces t []) :
    ∃ buff, queryExpectEof ⟨n, t⟩ = (buff, .ok ()) := by
  have hdrop : t.dropWhile isSpace = [] := h.dropWhile_eq
  have heot : queryIsEot (queryChomp ⟨n, t⟩) = true := by
    change decide (n ≤ (n - (t.dropWhile isSpace).length) % 2 ^ 32) = true
    rw [hdrop, List.length_nil, Nat.sub_zero, Nat.mod_eq_of_lt hn]
    exact decide_eq_true le_rfl
  rw [queryExpectEof]
  simp only [heot, if_true]
  exact ⟨_, rfl⟩

/-- What is compiled is short and a query, but arguments may be missing that were not stored. -/
theorem compile_sound {s : List UInt8} {q : Invocation} (h : libretrodbQueryCompile s = .ok q) :
    s.length < 2 ^ 32 ∧ ∀ M : Prop, (allInitialized q.argv = true ∨ M) →
      IsQuery (compiledRules M) s := by
  unfold libretrodbQueryCompile at h
  dsimp only at h
  rcases hroot : queryRoot s (queryChomp ⟨s.length, s⟩) with ⟨buff, e | root⟩
  · rw [hroot] at h
    cases h
  rw [hroot] at h
  cases root with
  | none => cases h
  | some root =>
    cases h
    have hspaces := Spaces.chomp s
    -- the end of the text is reached behind a query
    have hend : ∀ {buff₁ buff₂ : Buffer}, buff₁.len = s.length →
        queryExpectEof buff₁ = (buff₂, .ok ()) →
        (∀ M : Prop, (allInitialized q.argv = true ∨ M) → ∃ l, Spaces s l ∧
          Spelled (compiledRules M) .query l buff₁.rest) →
        s.length < 2 ^ 32 ∧ ∀ M : Prop, (allInitialized q.argv = true ∨ M) →
          IsQuery (compiledRules M) s := by
      intro buff₁ buff₂ hlen heof hspelled
      have hle : buff₁.rest.length ≤ buff₁.len := by
        obtain ⟨l, hl, hquery⟩ := hspelled True (.inr trivial)
        rw [hlen]
        exact hquery.length_le.trans hl.length_le
      obtain ⟨hshort, hnil⟩ := expectEof_ok hle heof
      refine ⟨hlen ▸ hshort, fun M hM => ?_⟩
      obtain ⟨l, hl, hquery⟩ := hspelled M hM
      exact ⟨l, _, hl, hquery, hnil⟩
    unfold queryRoot at hroot
    dsimp only at hroot
    split_ifs at hroot with htable halpha
    · obtain ⟨buff₁, inv, hparsed, hroot⟩ := andThen_ok hroot
      obtain ⟨buff₂, u, heof, hroot⟩ := andThen_ok hroot
      cases hroot
      obtain ⟨hlen, hspelled⟩ := table_sound (argument_sound _) hparsed
      refine hend hlen heof fun M hM => ?_
      obtain ⟨l, hl, hquery⟩ := hspelled M hM
      exact ⟨l, hspaces.trans hl, hquery⟩
    · rcases hparsed : queryParseMethodCall (queryParseArgument (s.length + 1))
        (queryChomp ⟨s.length, s⟩) with ⟨buff₁, e | inv⟩
      · rw [hparsed] at hroot
        obtain ⟨buff₂, u, heof, hroot⟩ := andThen_ok hroot
        cases hroot
      · rw [hparsed] at hroot
        obtain ⟨buff₂, u, heof, hroot⟩ := andThen_ok hroot
        cases hroot
        obtain ⟨hlen, hspelled⟩ := methodCall_sound (argument_sound _) halpha hparsed
        exact hend hlen heof fun M hM => ⟨_, hspaces, hspelled M hM⟩
    · obtain ⟨buff₂, u, heof, hroot⟩ := andThen_ok hroot
      cases hroot

theorem compile_complete {s : List UInt8} (hs : s.length < 2 ^ 32)
    (h : IsQuery (compiledRules M) s) :
    ∃ q, libretrodbQueryCompile s = .ok q ∧ (M ∨ allInitialized q.argv = true) := by
  obtain ⟨l, t, hl, hquery, ht⟩ := h
  have hstarts := hquery.starts_query
  have hlen := hl.length_le
  obtain ⟨inv, hinit, hparsed⟩ := parses_of_spelled hquery (s.length + 1) (by omega) hlen
  obtain ⟨buff, heof⟩ := expectEof_nil hs ht
  have hchomp : queryChomp ⟨s.length, s⟩ = ⟨s.length, l⟩ :=
    congrArg (Buffer.mk s.length) (hl.dropWhile_eq.trans hstarts.chomped)
  refine ⟨inv, ?_, hinit⟩
  rw [libretrodbQueryCompile, hchomp]
  rcases hparsed with ⟨halpha, _, hparsed⟩ | ⟨htable, hparsed⟩
  · have htable : queryPeek ⟨s.length, l⟩ [braceOpen] = false := by
      obtain ⟨c, r, rfl, _⟩ := hstarts
      have hbeq : (braceOpen == c) = false := by
        rw [beq_eq_false_iff_ne]
        rintro rfl
        exact absurd halpha (show ¬ isAlpha braceOpen = true by decide)
      simp [queryPeek, List.isPrefixOf, hbeq]
    rw [queryRoot]
    simp only [htable, Bool.false_eq_true, if_false, halpha, if_true, hparsed, andThen, heof]
  · rw [queryRoot]
    simp only [htable, if_true, hparsed, andThen, heof]

/-- `is_true()` -/
def isTrueCall : List UInt8 := [0x69, 0x73, 0x5f, 0x74, 0x72, 0x75, 0x65, 0x28, 0x29]

/-- `or(,1)` -/
def missingArgument : List UInt8 := [0x6f, 0x72, 0x28, 0x2c, 0x31, 0x29]

end Statement

end RetroArch.LibretroDb.Query
