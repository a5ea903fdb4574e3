/- JSON as it is written down, and which of it the small parser accepts. -/

import RetroArch.Formats.Jsonsax

namespace RetroArch.Formats.JsonGrammar

open Library.CString (isSpace startsWith)
open Library.Emitting Jsonsax

mutual

/-- A value, its strings and numbers as they stand in the text. -/
inductive Json
  | null
  | boolean (b : Bool)
  | number (raw : List UInt8)
  | string (raw : List UInt8)
  | array (elems : Elems)
  | object (members : Members)

inductive Elems
  | nil
  | cons (head : Json) (tail : Elems)

inductive Members
  | nil
  | cons (name : List UInt8) (value : Json) (tail : Members)

end

mutual

/-- The events of a value in document order. -/
def Json.events : Json → List Event
  | .null => [.null]
  | .boolean b => [.boolean b]
  | .number raw => [.number raw]
  | .string raw => [.string raw]
  | .array elems => .startArray :: elems.events 0
  | .object members => .startObject :: members.events

/-- The events of the elements from an index on, with the end of the array. -/
def Elems.events : Elems → UInt32 → List Event
  | .nil, _ => [.endArray]
  | .cons head tail, ndx => .arrayIndex ndx :: (head.events ++ tail.events (ndx + 1))

def Members.events : Members → List Event
  | .nil => [.endObject]
  | .cons name value tail => .key name :: (value.events ++ tail.events)

end

/-- White space between the tokens. -/
def White (text : List UInt8) : Prop := ∀ c ∈ text, c = 32 ∨ c = 9 ∨ c = 10 ∨ c = 13

def isHex (c : UInt8) : Bool :=
  (48 ≤ c && c ≤ 57) || (65 ≤ c && c ≤ 70) || (97 ≤ c && c ≤ 102)

/-- What stands between two quotes: bytes other than control codes, quotes and backslashes, and
escapes. -/
inductive Chars : List UInt8 → Prop
  | nil : Chars []
  | plain {c : UInt8} {rest : List UInt8} (hc : 32 ≤ c) (hquote : c ≠ 34) (hslash : c ≠ 92)
      (hrest : Chars rest) : Chars (c :: rest)
  | escape {c : UInt8} {rest : List UInt8} (hc : c ∈ [34, 92, 47, 98, 102, 110, 114, 116])
      (hrest : Chars rest) : Chars (92 :: c :: rest)
  | unicode {a b c d : UInt8} {rest : List UInt8}
      (hhex : isHex a ∧ isHex b ∧ isHex c ∧ isHex d) (hrest : Chars rest) :
      Chars (92 :: 117 :: a :: b :: c :: d :: rest)

/-- One digit at least. -/
def DigitRun (ds : List UInt8) : Prop := ds ≠ [] ∧ ∀ d ∈ ds, isDigit d

/-- `[ minus ] int [ frac ] [ exp ]` -/
inductive IsNumber : List UInt8 → Prop
  | mk {minus int frac exp : List UInt8} (hminus : minus = [] ∨ minus = [45])
      (hint : int = [48] ∨ DigitRun int ∧ int.head? ≠ some 48)
      (hfrac : frac = [] ∨ ∃ ds, DigitRun ds ∧ frac = 46 :: ds)
      (hexp : exp = [] ∨ ∃ e sign ds, (e = 101 ∨ e = 69) ∧
        (sign = [] ∨ sign = [43] ∨ sign = [45]) ∧ DigitRun ds ∧ exp = e :: (sign ++ ds)) :
      IsNumber (minus ++ (int ++ (frac ++ exp)))

mutual

/-- A text of a value, without the white space around it. -/
inductive Json.Spelled : Json → List UInt8 → Prop
  | null : Json.Spelled .null [110, 117, 108, 108]
  | true' : Json.Spelled (.boolean true) [116, 114, 117, 101]
  | false' : Json.Spelled (.boolean false) [102, 97, 108, 115, 101]
  | number {raw : List UInt8} (h : IsNumber raw) : Json.Spelled (.number raw) raw
  | string {raw : List UInt8} (h : Chars raw) : Json.Spelled (.string raw) (34 :: (raw ++ [34]))
  | emptyArray {a : List UInt8} (ha : White a) :
      Json.Spelled (.array .nil) (91 :: (a ++ [93]))
  | array {elems : Elems} {w : List UInt8} (h : Elems.Spelled elems w) :
      Json.Spelled (.array elems) (91 :: (w ++ [93]))
  | emptyObject {a : List UInt8} (ha : White a) :
      Json.Spelled (.object .nil) (123 :: (a ++ [125]))
  | object {members : Members} {w : List UInt8} (h : Members.Spelled members w) :
      Json.Spelled (.object members) (123 :: (w ++ [125]))

/-- A text of one element or more, with the white space around each. -/
inductive Elems.Spelled : Elems → List UInt8 → Prop
  | last {v : Json} {a w b : List UInt8} (ha : White a) (hv : Json.Spelled v w) (hb : White b) :
      Elems.Spelled (.cons v .nil) (a ++ (w ++ b))
  | more {v : Json} {tail : Elems} {a w b rest : List UInt8} (ha : White a)
      (hv : Json.Spelled v w) (hb : White b) (htail : Elems.Spelled tail rest) :
      Elems.Spelled (.cons v tail) (a ++ (w ++ (b ++ 44 :: rest)))

inductive Members.Spelled : Members → List UInt8 → Prop
  | last {name : List UInt8} {v : Json} {a b c w d : List UInt8} (ha : White a)
      (hname : Chars name) (hb : White b) (hc : White c) (hv : Json.Spelled v w)
      (hd : White d) :
      Members.Spelled (.cons name v .nil)
        (a ++ 34 :: (name ++ 34 :: (b ++ 58 :: (c ++ (w ++ d)))))
  | more {name : List UInt8} {v : Json} {tail : Members} {a b c w d rest : List UInt8}
      (ha : White a) (hname : Chars name) (hb : White b) (hc : White c)
      (hv : Json.Spelled v w) (hd : White d) (htail : Members.Spelled tail rest) :
      Members.Spelled (.cons name v tail)
        (a ++ 34 :: (name ++ 34 :: (b ++ 58 :: (c ++ (w ++ (d ++ 44 :: rest))))))

end

/-- A text that is a JSON value. -/
def IsText (v : Json) (text : List UInt8) : Prop :=
  ∃ a w b, White a ∧ v.Spelled w ∧ White b ∧ text = a ++ (w ++ b)

/-- Whether the last byte between the quotes is a backslash. -/
def EndsInBackslash (raw : List UInt8) : Prop := raw.getLast? = some 92

mutual

/-- No string and no key ends in a backslash. -/
def Json.Clean : Json → Prop
  | .null => True
  | .boolean _ => True
  | .number _ => True
  | .string raw => ¬ EndsInBackslash raw
  | .array elems => elems.Clean
  | .object members => members.Clean

def Elems.Clean : Elems → Prop
  | .nil => True
  | .cons head tail => head.Clean ∧ tail.Clean

def Members.Clean : Members → Prop
  | .nil => True
  | .cons name value tail => ¬ EndsInBackslash name ∧ value.Clean ∧ tail.Clean

end

section Tokens

variable {a raw t : List UInt8}

theorem White.append_skip (ha : White a) (t : Memory) : skipSpaces (a ++ t) = skipSpaces t := by
  induction a with
  | nil => rfl
  | cons c a ih =>
    have hc : isSpace c = true := by
      rcases ha c List.mem_cons_self with rfl | rfl | rfl | rfl <;> rfl
    rw [List.cons_append, skipSpaces, List.dropWhile_cons, if_pos hc]
    exact ih fun d hd => ha d (List.mem_cons_of_mem c hd)

theorem skipSpaces_cons {c : UInt8} (hc : isSpace c = false) (t : Memory) :
    skipSpaces (c :: t) = c :: t := by
  rw [skipSpaces, List.dropWhile_cons, if_neg (by rw [hc]; decide)]

theorem White.skip_to (ha : White a) {c : UInt8} (hc : isSpace c = false) (t : Memory) :
    skipSpaces (a ++ c :: t) = c :: t := by
  rw [ha.append_skip, skipSpaces_cons hc]

private theorem closeQuote_step (e : JsonsaxError) {c : UInt8} {rest : List UInt8}
    (before : UInt8) (hzero : c ≠ 0) (hquote : c = 34 → before = 92)
    (hrest : closeQuote e c (rest ++ t) = (closeQuote e (rest.getLast?.getD c) t).map
      fun (more, left) => (rest ++ more, left)) :
    closeQuote e before (c :: rest ++ t) =
      (closeQuote e ((c :: rest).getLast?.getD before) t).map
        fun (more, left) => (c :: rest ++ more, left) := by
  have hlast : (c :: rest).getLast?.getD before = rest.getLast?.getD c := by
    cases rest with
    | nil => rfl
    | cons d rest => simp [List.getLast?_cons]
  rw [List.cons_append, closeQuote, if_neg hzero, if_neg (fun hend => hend.2 (hquote hend.1)),
    hrest, hlast]
  cases closeQuote e (rest.getLast?.getD c) t with
  | error e' => rfl
  | ok found => rfl

private theorem isHex_plain {c : UInt8} (h : isHex c = true) : c ≠ 0 ∧ c ≠ 34 := by
  constructor
  · rintro rfl
    exact absurd h (by decide)
  · rintro rfl
    exact absurd h (by decide)

theorem Chars.closeQuote_append (h : Chars raw) (e : JsonsaxError) (before : UInt8)
    (t : Memory) :
    closeQuote e before (raw ++ t) = (closeQuote e (raw.getLast?.getD before) t).map
      fun (more, rest) => (raw ++ more, rest) := by
  induction h generalizing before with
  | nil =>
    show closeQuote e before t = (closeQuote e before t).map fun (more, rest) => (more, rest)
    cases closeQuote e before t with
    | error e' => rfl
    | ok found => rfl
  | @plain c rest hc hquote hslash hrest ih =>
    have hzero : c ≠ 0 := by
      rintro rfl
      exact absurd hc (by decide)
    exact closeQuote_step e before hzero (fun heq => absurd heq hquote) (ih c)
  | @escape c rest hc hrest ih =>
    have hzero : c ≠ 0 := by
      rintro rfl
      exact absurd hc (by decide)
    have hescaped := closeQuote_step e 92 hzero (fun _ => rfl) (ih c)
    exact closeQuote_step e before (by decide) (fun heq => absurd heq (by decide)) hescaped
  | @unicode a b c d rest hhex hrest ih =>
    obtain ⟨ha, hb, hc, hd⟩ := hhex
    have hlast := closeQuote_step e c (isHex_plain hd).1
      (fun heq => absurd heq (isHex_plain hd).2) (ih d)
    have hthird := closeQuote_step e b (isHex_plain hc).1
      (fun heq => absurd heq (isHex_plain hc).2) hlast
    have hsecond := closeQuote_step e a (isHex_plain hb).1
      (fun heq => absurd heq (isHex_plain hb).2) hthird
    have hfirst := closeQuote_step e 117 (isHex_plain ha).1
      (fun heq => absurd heq (isHex_plain ha).2) hsecond
    have hmark := closeQuote_step e 92 (by decide) (fun _ => rfl) hfirst
    exact closeQuote_step e before (by decide) (fun heq => absurd heq (by decide)) hmark

theorem Chars.closeQuote_clean (h : Chars raw) (hclean : ¬ EndsInBackslash raw)
    (e : JsonsaxError) (t : Memory) : closeQuote e 34 (raw ++ 34 :: t) = .ok (raw, t) := by
  have hlast : raw.getLast?.getD 34 ≠ 92 := by
    cases hraw : raw.getLast? with
    | none => decide
    | some c =>
      rintro rfl
      exact hclean hraw
  rw [h.closeQuote_append, closeQuote, if_neg (by decide), if_pos ⟨rfl, hlast⟩]
  simp [Except.map]

theorem Chars.closeQuote_unclean (h : Chars raw) (hends : EndsInBackslash raw)
    (e : JsonsaxError) (t : Memory) :
    (∃ e', closeQuote e 34 (raw ++ 34 :: t) = .error e') ∨
      ∃ more rest, closeQuote e 34 (raw ++ 34 :: t) = .ok (raw ++ 34 :: more, rest) := by
  rw [h.closeQuote_append, hends, Option.getD_some, closeQuote, if_neg (by decide),
    if_neg (fun hend => hend.2 rfl)]
  cases closeQuote e 34 t with
  | error e' => exact .inl ⟨e', rfl⟩
  | ok found => exact .inr ⟨found.1, found.2, rfl⟩

/-- What can stand behind a value. -/
def Follow (t : Memory) : Prop :=
  ∃ c rest, t = c :: rest ∧ (c = 0 ∨ isSpace c = true ∨ c = 44 ∨ c = 93 ∨ c = 125)

theorem White.follow (ha : White a) (ht : Follow t) : Follow (a ++ t) := by
  cases a with
  | nil => exact ht
  | cons c a =>
    refine ⟨c, a ++ t, rfl, .inr (.inl ?_)⟩
    rcases ha c List.mem_cons_self with rfl | rfl | rfl | rfl <;> rfl

theorem Follow.stops (ht : Follow t) : ∃ c rest, t = c :: rest ∧ isDigit c = false ∧ c ≠ 46 ∧
    c ≠ 101 ∧ c ≠ 69 := by
  obtain ⟨c, rest, rfl, hc⟩ := ht
  refine ⟨c, rest, rfl, ?_⟩
  rcases hc with rfl | hspace | rfl | rfl | rfl
  · decide
  · simp only [isSpace, isDigit, Bool.or_eq_true, Bool.and_eq_true, decide_eq_true_eq] at hspace ⊢
    simp only [UInt8.le_iff_toNat_le, ← UInt8.toNat_inj, ne_eq, Bool.and_eq_false_iff,
      decide_eq_false_iff_not] at hspace ⊢
    simp at hspace ⊢
    omega
  · decide
  · decide
  · decide

theorem DigitRun.digits {ds : List UInt8} (h : DigitRun ds) {c : UInt8}
    (hc : isDigit c = false) (t : Memory) : digits (ds ++ c :: t) = .ok (c :: t) := by
  have hskip : ∀ ds : List UInt8, (∀ d ∈ ds, isDigit d) → skipDigits (ds ++ c :: t) = c :: t := by
    intro ds hds
    induction ds with
    | nil =>
      rw [List.nil_append, skipDigits, List.dropWhile_cons, if_neg (by rw [hc]; decide)]
    | cons d ds ih =>
      rw [List.cons_append, skipDigits, List.dropWhile_cons,
        if_pos (hds d List.mem_cons_self)]
      exact ih fun d' hd' => hds d' (List.mem_cons_of_mem d hd')
  cases ds with
  | nil => exact absurd rfl h.1
  | cons d ds =>
    rw [List.cons_append, Jsonsax.digits, if_pos (h.2 d List.mem_cons_self),
      hskip ds fun d' hd' => h.2 d' (List.mem_cons_of_mem d hd')]

theorem digit_head {ds : List UInt8} (h : DigitRun ds) :
    ∃ d rest, ds = d :: rest ∧ isDigit d = true := by
  cases ds with
  | nil => exact absurd rfl h.1
  | cons d ds => exact ⟨d, ds, rfl, h.2 d List.mem_cons_self⟩

theorem skipMinus_digit {d : UInt8} (hd : isDigit d = true) (t : Memory) :
    skipMinus (d :: t) = d :: t := by
  unfold skipMinus
  split
  · rename_i heq
    rw [(List.cons.inj heq).1] at hd
    exact absurd hd (by decide)
  · rfl

theorem skipSign_digit {d : UInt8} (hd : isDigit d = true) (t : Memory) :
    skipSign (d :: t) = d :: t := by
  unfold skipSign
  split
  · rename_i heq
    rw [(List.cons.inj heq).1] at hd
    exact absurd hd (by decide)
  · rename_i heq
    rw [(List.cons.inj heq).1] at hd
    exact absurd hd (by decide)
  · rfl

theorem IsNumber.parse (h : IsNumber raw) (ht : Follow t) :
    parseNumber (raw ++ t) = ([.number raw], .ok t) := by
  obtain ⟨hminus, hint, hfrac, hexp⟩ := h
  rename_i minus int frac exp
  obtain ⟨c, rest, hhead, hdigit, hpoint, he, hE⟩ := ht.stops
  have hrun : DigitRun int := by
    rcases hint with rfl | ⟨hrun, -⟩
    · exact ⟨by simp, by simp [isDigit]⟩
    · exact hrun
  have hexponent : skipExponent (exp ++ t) = .ok t ∧
      ∃ c rest, exp ++ t = c :: rest ∧ isDigit c = false ∧ c ≠ 46 := by
    rcases hexp with rfl | ⟨e, sign, ds, hletter, hsign, hds, rfl⟩
    · refine ⟨?_, c, rest, hhead, hdigit, hpoint⟩
      rw [List.nil_append, hhead, skipExponent, if_neg (by simp [he, hE])]
    · obtain ⟨d, ds', hd, hdd⟩ := digit_head hds
      have hscan : digits (ds ++ t) = .ok t := by
        rw [hhead]
        exact hds.digits hdigit rest
      refine ⟨?_, e, sign ++ ds ++ t, rfl, ?_⟩
      · rw [List.cons_append, skipExponent, if_pos hletter, List.append_assoc]
        rcases hsign with rfl | rfl | rfl
        · rw [List.nil_append, hd, List.cons_append, skipSign_digit hdd, ← List.cons_append,
            ← hd, hscan]
        · exact hscan
        · exact hscan
      · rcases hletter with rfl | rfl <;> decide
  obtain ⟨hexponent, c', rest', hhead', hdigit', hpoint'⟩ := hexponent
  have hfraction : skipFraction (frac ++ (exp ++ t)) = .ok (exp ++ t) ∧
      ∃ c rest, frac ++ (exp ++ t) = c :: rest ∧ isDigit c = false := by
    rcases hfrac with rfl | ⟨ds, hds, rfl⟩
    · refine ⟨?_, c', rest', hhead', hdigit'⟩
      rw [List.nil_append, hhead', skipFraction, if_neg hpoint']
    · refine ⟨?_, 46, ds ++ (exp ++ t), rfl, by decide⟩
      rw [List.cons_append, skipFraction, if_pos rfl, hhead']
      exact hds.digits hdigit' rest'
  obtain ⟨hfraction, c'', rest'', hhead'', hdigit''⟩ := hfraction
  have hinteger : digits (int ++ (frac ++ (exp ++ t))) = .ok (frac ++ (exp ++ t)) := by
    rw [hhead'']
    exact hrun.digits hdigit'' rest''
  have hsign : skipMinus (minus ++ (int ++ (frac ++ exp)) ++ t) =
      int ++ (frac ++ (exp ++ t)) := by
    simp only [List.append_assoc]
    rcases hminus with rfl | rfl
    · obtain ⟨d, int', hd, hdd⟩ := digit_head hrun
      rw [List.nil_append, hd, List.cons_append, skipMinus_digit hdd]
    · rfl
  have hlen : (minus ++ (int ++ (frac ++ exp)) ++ t).length - t.length =
      (minus ++ (int ++ (frac ++ exp))).length := by
    rw [List.length_append, Nat.add_sub_cancel]
  rw [parseNumber, hsign, hinteger]
  simp only [Except.bind, hfraction, hexponent]
  rw [hlen, List.take_left]

theorem IsNumber.head (h : IsNumber raw) :
    ∃ c rest, raw = c :: rest ∧ (isDigit c = true ∨ c = 45) := by
  obtain ⟨hminus, hint, -, -⟩ := h
  rename_i minus int frac exp
  rcases hminus with rfl | rfl
  · rcases hint with rfl | ⟨hrun, -⟩
    · exact ⟨48, _, rfl, .inl (by decide)⟩
    · obtain ⟨d, int', rfl, hd⟩ := digit_head hrun
      exact ⟨d, _, rfl, .inl hd⟩
  · exact ⟨45, _, rfl, .inr rfl⟩

theorem digit_not_space {c : UInt8} (h : isDigit c = true ∨ c = 45) :
    isSpace c = false ∧ c ≠ 0 ∧ c ≠ 93 ∧ c ≠ 123 ∧ c ≠ 91 ∧ c ≠ 34 ∧ c ≠ 116 ∧ c ≠ 102 ∧
      c ≠ 110 := by
  rcases h with hdigit | rfl
  · simp only [isDigit, isSpace, Bool.and_eq_true, decide_eq_true_eq, UInt8.le_iff_toNat_le,
      ← UInt8.toNat_inj, ne_eq, Bool.or_eq_false_iff, Bool.and_eq_false_iff,
      decide_eq_false_iff_not] at hdigit ⊢
    simp at hdigit ⊢
    omega
  · decide

end Tokens

section Values

/-- A part of the parser delivers what is expected and leaves `t`, or where the part of the text
is not clean, goes wrong. -/
def Meets (clean : Prop) (m : Parse) (expected : List Event) (t : Memory) : Prop :=
  (clean → m = (expected, .ok t)) ∧ (¬ clean → Diverges m expected)

variable {clean clean' : Prop} {m : Parse} {expected expected' : List Event} {s t : Memory}
  {f : Memory → Parse}

theorem meets_ok (expected : List Event) (t : Memory) :
    Meets True (expected, .ok t) expected t :=
  ⟨fun _ => rfl, fun h => absurd trivial h⟩

theorem Meets.emit (h : Meets clean m expected t) (a : Event) :
    Meets clean (emit a m) (a :: expected) t := by
  refine ⟨fun hclean => ?_, fun hunclean => (h.2 hunclean).emit a⟩
  rw [h.1 hclean]
  rfl

theorem Meets.andThen (hm : Meets clean m expected s) (hf : Meets clean' (f s) expected' t) :
    Meets (clean ∧ clean') (andThen m f) (expected ++ expected') t := by
  by_cases hclean : clean
  · have hok := hm.1 hclean
    subst hok
    refine ⟨fun h => ?_, fun h => ?_⟩
    · rw [andThen_ok rfl, hf.1 h.2]
    · exact Diverges.behind rfl (hf.2 fun h' => h ⟨hclean, h'⟩)
  · exact ⟨fun h => absurd h.1 hclean, fun _ => (hm.2 hclean).andThen f expected'⟩

theorem Meets.congr (h : Meets clean m expected t) (hiff : clean ↔ clean') :
    Meets clean' m expected t :=
  ⟨fun hclean => h.1 (hiff.mpr hclean), fun hunclean => h.2 fun h' => hunclean (hiff.mp h')⟩

theorem Chars.meets {raw : List UInt8} (h : Chars raw) (t : Memory) :
    Meets (¬ EndsInBackslash raw) (parseString (raw ++ 34 :: t)) [.string raw] t := by
  rw [parseString]
  refine ⟨fun hclean => by rw [h.closeQuote_clean hclean], fun hunclean => ?_⟩
  rcases h.closeQuote_unclean (not_not.mp hunclean) .unterminatedString t with
    ⟨e, herror⟩ | ⟨more, rest, hok⟩
  · rw [herror]
    exact .inl ⟨e, rfl⟩
  · rw [hok]
    exact .inr ⟨[], _, _, [], [], rfl, rfl, by simp⟩

theorem Json.Spelled.head {v : Json} {w : List UInt8} (h : v.Spelled w) :
    ∃ c rest, w = c :: rest ∧ isSpace c = false ∧ c ≠ 93 := by
  cases h with
  | null => exact ⟨_, _, rfl, by decide, by decide⟩
  | true' => exact ⟨_, _, rfl, by decide, by decide⟩
  | false' => exact ⟨_, _, rfl, by decide, by decide⟩
  | number h =>
    obtain ⟨c, rest, hw, hc⟩ := h.head
    obtain ⟨hspace, -, hbracket, -⟩ := digit_not_space hc
    exact ⟨c, rest, hw, hspace, hbracket⟩
  | string h => exact ⟨_, _, rfl, by decide, by decide⟩
  | emptyArray ha => exact ⟨_, _, rfl, by decide, by decide⟩
  | array h => exact ⟨_, _, rfl, by decide, by decide⟩
  | emptyObject ha => exact ⟨_, _, rfl, by decide, by decide⟩
  | object h => exact ⟨_, _, rfl, by decide, by decide⟩

/-- What the parser does with a value in front of `t`. -/
def ValueMeets (v : Json) (w : List UInt8) : Prop :=
  ∀ fuel t, Follow t → (w ++ t).length < fuel →
    Meets v.Clean (parseValue fuel (w ++ t)) v.events t

theorem parseValue_white {a : List UInt8} (ha : White a) (fuel : ℕ) (json : Memory) :
    parseValue fuel (a ++ json) = parseValue fuel json := by
  cases fuel with
  | zero => rfl
  | succ fuel => rw [parseValue, parseValue, ha.append_skip]

theorem follow_cons {c : UInt8} (hc : c = 0 ∨ isSpace c = true ∨ c = 44 ∨ c = 93 ∨ c = 125)
    (t : Memory) : Follow (c :: t) := ⟨c, t, rfl, hc⟩

/-- The elements of an array, from the first one on. -/
def ElemsMeet (elems : Elems) (w : List UInt8) : Prop :=
  ∀ limit fuel ndx t, (w ++ 93 :: t).length < limit → (w ++ 93 :: t).length ≤ fuel →
    Meets elems.Clean
      (parseElements (parseValue limit) fuel ndx (skipSpaces (w ++ 93 :: t)))
      (elems.events ndx) t

/-- One element and what comes behind its separator. -/
theorem elems_step {v : Json} {tail : Elems} {a w b : List UInt8} {limit fuel : ℕ}
    {ndx : UInt32} {t : Memory} {c : UInt8} {left : Memory} (ha : White a) (hv : v.Spelled w)
    (hb : White b) (hmeets : ValueMeets v w) (hc : c = 44 ∨ c = 93)
    (hlimit : (a ++ (w ++ (b ++ c :: left))).length < limit)
    (hrest : Meets tail.Clean
      (if c = 44 then parseElements (parseValue limit) fuel (ndx + 1) (skipSpaces left)
        else if c = 93 then ([.endArray], .ok left) else fail .unterminatedArray)
      (tail.events (ndx + 1)) t) :
    Meets (Elems.Clean (.cons v tail))
      (parseElements (parseValue limit) (fuel + 1) ndx (skipSpaces (a ++ (w ++ (b ++ c :: left)))))
      (Elems.events (.cons v tail) ndx) t := by
  obtain ⟨d, w', hw, hspace, hbracket⟩ := hv.head
  have hstart : skipSpaces (a ++ (w ++ (b ++ c :: left))) = w ++ (b ++ c :: left) := by
    rw [hw]
    exact ha.skip_to hspace _
  have hsep : isSpace c = false := by rcases hc with rfl | rfl <;> rfl
  have hfollow : Follow (b ++ c :: left) :=
    hb.follow (follow_cons (by rcases hc with rfl | rfl <;> simp) left)
  have hvalue := hmeets limit (b ++ c :: left) hfollow (by
    simp only [List.length_append] at hlimit ⊢
    omega)
  rw [hstart]
  rw [hw, List.cons_append] at hvalue ⊢
  rw [parseElements, if_neg hbracket, Elems.events]
  refine (hvalue.andThen ?_).emit _
  rw [hb.skip_to hsep]
  exact hrest

/-- The members of an object, from the first one on. -/
def MembersMeet (members : Members) (w : List UInt8) : Prop :=
  ∀ limit fuel t, (w ++ 125 :: t).length < limit → (w ++ 125 :: t).length ≤ fuel →
    Meets members.Clean
      (parseMembers (parseValue limit) fuel (skipSpaces (w ++ 125 :: t))) members.events t

/-- One member and what comes behind its separator. -/
theorem members_step {name : List UInt8} {v : Json} {tail : Members}
    {a b c w d : List UInt8} {limit fuel : ℕ} {t : Memory} {sep : UInt8} {left : Memory}
    (ha : White a) (hname : Chars name) (hb : White b) (hc : White c) (hv : v.Spelled w)
    (hd : White d) (hmeets : ValueMeets v w) (hsep : sep = 44 ∨ sep = 125)
    (hlimit : (w ++ (d ++ sep :: left)).length < limit)
    (hrest : Meets tail.Clean
      (if sep = 44 then parseMembers (parseValue limit) fuel (skipSpaces left)
        else if sep = 125 then ([.endObject], .ok left) else fail .unterminatedObject)
      tail.events t) :
    Meets (Members.Clean (.cons name v tail))
      (parseMembers (parseValue limit) (fuel + 1)
        (skipSpaces (a ++ 34 :: (name ++ 34 :: (b ++ 58 :: (c ++ (w ++ (d ++ sep :: left))))))))
      (Members.events (.cons name v tail)) t := by
  obtain ⟨e, w', hw, hspace, -⟩ := hv.head
  have hstart : skipSpaces (c ++ (w ++ (d ++ sep :: left))) = w ++ (d ++ sep :: left) := by
    rw [hw]
    exact hc.skip_to hspace _
  have hnext : isSpace sep = false := by rcases hsep with rfl | rfl <;> rfl
  have hfollow : Follow (d ++ sep :: left) :=
    hd.follow (follow_cons (by rcases hsep with rfl | rfl <;> simp) left)
  have hvalue := hmeets limit (d ++ sep :: left) hfollow hlimit
  rw [ha.skip_to rfl, parseMembers, if_neg (by decide), if_neg (by decide), Members.events]
  by_cases hclean : EndsInBackslash name
  · refine ⟨fun h => absurd hclean h.1, fun _ => ?_⟩
    rcases hname.closeQuote_unclean hclean .unterminatedKey
        (b ++ 58 :: (c ++ (w ++ (d ++ sep :: left)))) with
      ⟨e, herror⟩ | ⟨more, rest, hok⟩
    · rw [herror]
      exact .inl ⟨e, rfl⟩
    · rw [hok]
      exact .inr ⟨[], _, _, _, _, rfl, rfl, by simp⟩
  · rw [hname.closeQuote_clean hclean]
    simp only [hb.skip_to (rfl : isSpace 58 = false), hstart]
    refine ((hvalue.andThen (?_ : Meets tail.Clean _ tail.events t)).emit (.key name)).congr ?_
    · rw [hd.skip_to hnext]
      exact hrest
    · rw [Members.Clean]
      exact ⟨fun h => ⟨hclean, h⟩, fun h => h.2⟩

theorem parseValue_array (fuel : ℕ) (w t : List UInt8) :
    parseValue (fuel + 1) (91 :: (w ++ [93]) ++ t) =
      emit .startArray (parseElements (parseValue fuel) ((w ++ 93 :: t).length + 1) 0
        (skipSpaces (w ++ 93 :: t))) := by
  rw [List.cons_append, List.append_assoc]
  rfl

theorem parseValue_object (fuel : ℕ) (w t : List UInt8) :
    parseValue (fuel + 1) (123 :: (w ++ [125]) ++ t) =
      emit .startObject (parseMembers (parseValue fuel) ((w ++ 125 :: t).length + 1)
        (skipSpaces (w ++ 125 :: t))) := by
  rw [List.cons_append, List.append_assoc]
  rfl

mutual

theorem Json.Spelled.meets : ∀ (v : Json) {w : List UInt8}, v.Spelled w → ValueMeets v w
  | .null, _, .null => by
    intro fuel t _ hfuel
    obtain ⟨fuel, rfl⟩ : ∃ k, fuel = k + 1 := ⟨fuel - 1, by omega⟩
    exact meets_ok [.null] t
  | .boolean true, _, .true' => by
    intro fuel t _ hfuel
    obtain ⟨fuel, rfl⟩ : ∃ k, fuel = k + 1 := ⟨fuel - 1, by omega⟩
    exact meets_ok [.boolean true] t
  | .boolean false, _, .false' => by
    intro fuel t _ hfuel
    obtain ⟨fuel, rfl⟩ : ∃ k, fuel = k + 1 := ⟨fuel - 1, by omega⟩
    exact meets_ok [.boolean false] t
  | .number raw, _, .number h => by
    intro fuel t ht hfuel
    obtain ⟨fuel, rfl⟩ : ∃ k, fuel = k + 1 := ⟨fuel - 1, by omega⟩
    obtain ⟨c, rest, hw, hc⟩ := h.head
    obtain ⟨hspace, -, -, hobject, harray, hquote, htrue, hfalse, hnull⟩ := digit_not_space hc
    have hrun : parseValue (fuel + 1) (raw ++ t) = ([.number raw], .ok t) := by
      rw [← h.parse ht, hw, List.cons_append, parseValue, skipSpaces_cons hspace]
      dsimp only
      rw [if_neg hobject, if_neg harray, if_neg hquote, if_neg (by simp [htrue, hfalse]),
        if_neg hnull, if_pos hc]
    rw [hrun]
    exact meets_ok [.number raw] t
  | .string raw, _, .string h => by
    intro fuel t _ hfuel
    obtain ⟨fuel, rfl⟩ : ∃ k, fuel = k + 1 := ⟨fuel - 1, by omega⟩
    have hmeets := h.meets t
    have hrun : parseValue (fuel + 1) (34 :: (raw ++ [34]) ++ t) =
        parseString (raw ++ 34 :: t) := by
      rw [List.cons_append, List.append_assoc]
      rfl
    rw [hrun]
    exact hmeets
  | .array .nil, _, .emptyArray ha => by
    intro fuel t _ hfuel
    obtain ⟨fuel, rfl⟩ : ∃ k, fuel = k + 1 := ⟨fuel - 1, by omega⟩
    rw [parseValue_array, ha.skip_to rfl]
    exact (meets_ok [.endArray] t).emit _
  | .array elems, _, .array h => by
    intro fuel t _ hfuel
    obtain ⟨fuel, rfl⟩ : ∃ k, fuel = k + 1 := ⟨fuel - 1, by omega⟩
    have helems := Elems.Spelled.meets elems h
    rw [List.cons_append, List.append_assoc, List.length_cons] at hfuel
    rw [parseValue_array]
    exact (helems fuel _ 0 t (Nat.lt_of_succ_lt_succ hfuel) (Nat.le_succ _)).emit _
  | .object .nil, _, .emptyObject ha => by
    intro fuel t _ hfuel
    obtain ⟨fuel, rfl⟩ : ∃ k, fuel = k + 1 := ⟨fuel - 1, by omega⟩
    rw [parseValue_object, ha.skip_to rfl]
    exact (meets_ok [.endObject] t).emit _
  | .object members, _, .object h => by
    intro fuel t _ hfuel
    obtain ⟨fuel, rfl⟩ : ∃ k, fuel = k + 1 := ⟨fuel - 1, by omega⟩
    have hmembers := Members.Spelled.meets members h
    rw [List.cons_append, List.append_assoc, List.length_cons] at hfuel
    rw [parseValue_object]
    exact (hmembers fuel _ t (Nat.lt_of_succ_lt_succ hfuel) (Nat.le_succ _)).emit _

theorem Elems.Spelled.meets : ∀ (elems : Elems) {w : List UInt8}, elems.Spelled w →
    ElemsMeet elems w
  | .cons v .nil, _, .last ha hv hb => by
    intro limit fuel ndx t hlimit hfuel
    have hvalue := Json.Spelled.meets v hv
    obtain ⟨fuel, rfl⟩ : ∃ k, fuel = k + 1 :=
      ⟨fuel - 1, by simp only [List.length_append, List.length_cons] at hfuel; omega⟩
    simp only [List.append_assoc] at hlimit ⊢
    exact elems_step ha hv hb hvalue (.inr rfl) hlimit (meets_ok [.endArray] t)
  | .cons v tail, _, .more ha hv hb htail => by
    intro limit fuel ndx t hlimit hfuel
    have hvalue := Json.Spelled.meets v hv
    have hrest := Elems.Spelled.meets tail htail
    obtain ⟨fuel, rfl⟩ : ∃ k, fuel = k + 1 :=
      ⟨fuel - 1, by simp only [List.length_append, List.length_cons] at hfuel; omega⟩
    simp only [List.append_assoc, List.cons_append] at hlimit hfuel ⊢
    refine elems_step ha hv hb hvalue (.inl rfl) hlimit ?_
    simp only [List.length_append, List.length_cons] at hlimit hfuel
    exact hrest limit fuel (ndx + 1) t
      (by simp only [List.length_append, List.length_cons]; omega)
      (by simp only [List.length_append, List.length_cons]; omega)

theorem Members.Spelled.meets : ∀ (members : Members) {w : List UInt8}, members.Spelled w →
    MembersMeet members w
  | .cons name v .nil, _, .last ha hname hb hc hv hd => by
    intro limit fuel t hlimit hfuel
    have hvalue := Json.Spelled.meets v hv
    obtain ⟨fuel, rfl⟩ : ∃ k, fuel = k + 1 :=
      ⟨fuel - 1, by simp only [List.length_append, List.length_cons] at hfuel; omega⟩
    simp only [List.append_assoc, List.cons_append] at hlimit ⊢
    simp only [List.length_append, List.length_cons] at hlimit
    exact members_step ha hname hb hc hv hd hvalue (.inr rfl)
      (by simp only [List.length_append, List.length_cons]; omega) (meets_ok [.endObject] t)
  | .cons name v tail, _, .more ha hname hb hc hv hd htail => by
    intro limit fuel t hlimit hfuel
    have hvalue := Json.Spelled.meets v hv
    have hrest := Members.Spelled.meets tail htail
    obtain ⟨fuel, rfl⟩ : ∃ k, fuel = k + 1 :=
      ⟨fuel - 1, by simp only [List.length_append, List.length_cons] at hfuel; omega⟩
    simp only [List.append_assoc, List.cons_append] at hlimit ⊢
    simp only [List.length_append, List.length_cons] at hlimit hfuel
    refine members_step ha hname hb hc hv hd hvalue (.inl rfl)
      (by simp only [List.length_append, List.length_cons]; omega) ?_
    exact hrest limit fuel t (by simp only [List.length_append, List.length_cons]; omega)
      (by simp only [List.length_append, List.length_cons]; omega)

end

end Values

/-- Handlers that write down what they are called with and return zero. -/
def record (ud : List Event) (e : Event) : List Event × Bool := (ud ++ [e], false)

theorem deliver_record (events ud : List Event) :
    deliver record events ud = some (ud ++ events) := by
  induction events generalizing ud with
  | nil => simp [deliver]
  | cons e events ih =>
    have hgo : ¬ ((record ud e).2 = true ∧ e ≠ .startDocument ∧ e ≠ .endDocument) :=
      fun h => Bool.false_ne_true h.1
    rw [deliver, if_neg hgo, ih, record, List.append_assoc, List.singleton_append]

theorem jsonsaxParse_record (json : Memory) :
    jsonsaxParse record json [] = (delivers json).2.map fun _ => (delivers json).1 := by
  rw [jsonsaxParse, deliver_record, List.nil_append]

/-- The parser reports a text as parsed and delivers the events of its value, and whatever the
text and the handlers are, it ends, reads nothing behind the terminator, and reports only
balanced events as parsed. -/
def Accepts (text : List UInt8) : Prop :=
  (∀ v, IsText v text → jsonsaxParse record (text ++ [0]) [] =
      .ok (.startDocument :: (v.events ++ [.endDocument]))) ∧
    ∀ (σ : Type) (handlers : σ → Event → σ × Bool) (ud : σ),
      jsonsaxParse handlers (text ++ [0]) ud ≠ .error .stuck ∧
      jsonsaxParse handlers (text ++ [0]) ud ≠ .error .overrun ∧
      ∀ ud', jsonsaxParse handlers (text ++ [0]) ud = .ok ud' →
        Balanced (delivers (text ++ [0])).1

theorem jsonsaxParse_total {σ : Type} (handlers : σ → Event → σ × Bool) {text : List UInt8}
    (hzero : 0 ∉ text) (ud : σ) :
    jsonsaxParse handlers (text ++ [0]) ud ≠ .error .stuck ∧
      jsonsaxParse handlers (text ++ [0]) ud ≠ .error .overrun ∧
      ∀ ud', jsonsaxParse handlers (text ++ [0]) ud = .ok ud' →
        Balanced (delivers (text ++ [0])).1 := by
  have hends := delivers_ends (⟨text, hzero, rfl⟩ : Terminated (text ++ [0]))
  rw [jsonsaxParse]
  cases deliver handlers (delivers (text ++ [0])).1 ud with
  | none => exact ⟨by simp, by simp, fun ud' h => nomatch h⟩
  | some ud₁ =>
    cases hend : (delivers (text ++ [0])).2 with
    | error e =>
      obtain ⟨hstuck, hoverrun⟩ := hends.1 e hend
      exact ⟨by simpa [Except.map] using hstuck, by simpa [Except.map] using hoverrun,
        fun ud' h => nomatch h⟩
    | ok rest =>
      exact ⟨by simp [Except.map], by simp [Except.map], fun _ _ => delivers_balanced hend⟩

/-- The parser accepts a text exactly where no string and no key ends in an escaped
backslash. -/
theorem accepts_iff (text : List UInt8) (hzero : 0 ∉ text) :
    Accepts text ↔ ∀ v, IsText v text → v.Clean := by
  have hmeets : ∀ v, IsText v text → ∃ rest, Meets v.Clean (delivers (text ++ [0]))
      (.startDocument :: (v.events ++ [.endDocument])) rest := by
    rintro v ⟨a, w, b, ha, hv, hb, rfl⟩
    have hfollow : Follow (b ++ [0]) := hb.follow (follow_cons (.inl rfl) [])
    have hvalue := Json.Spelled.meets v hv
      ((a ++ (w ++ b) ++ [0]).length + 1) (b ++ [0]) hfollow
      (by simp only [List.length_append]; omega)
    refine ⟨b ++ [0], ?_⟩
    have hdoc : Meets (v.Clean ∧ True) (delivers (a ++ (w ++ b) ++ [0]))
        (.startDocument :: (v.events ++ [.endDocument])) (b ++ [0]) := by
      rw [delivers, List.append_assoc, parseValue_white ha, List.append_assoc]
      rw [List.append_assoc, List.append_assoc] at hvalue
      exact (hvalue.andThen (meets_ok [.endDocument] (b ++ [0]))).emit _
    exact hdoc.congr (and_iff_left trivial)
  constructor
  · intro h v hv
    by_contra hunclean
    obtain ⟨rest, hmeet⟩ := hmeets v hv
    have hok := h.1 v hv
    rw [jsonsaxParse_record] at hok
    cases hend : (delivers (text ++ [0])).2 with
    | error e =>
      rw [hend] at hok
      exact nomatch hok
    | ok rest' =>
      rw [hend] at hok
      have hevents := Except.ok.inj hok
      exact (hmeet.2 hunclean).not_delivered rest' (Prod.ext hevents hend)
  · intro hclean
    refine ⟨fun v hv => ?_, fun σ handlers ud => jsonsaxParse_total handlers hzero ud⟩
    obtain ⟨rest, hmeet⟩ := hmeets v hv
    rw [jsonsaxParse_record, hmeet.1 (hclean v hv)]
    rfl

theorem accepts_iff_brackets :
    0 ∉ ([91, 93] : List UInt8) ∧ (Accepts [91, 93] ↔ ∀ v, IsText v [91, 93] → v.Clean) :=
  ⟨by decide, accepts_iff [91, 93] (by decide)⟩

/-- The string of one backslash. -/
theorem backslash_rejected : ¬ Accepts [34, 92, 92, 34] := by
  intro h
  have htext : IsText (.string [92, 92]) [34, 92, 92, 34] :=
    ⟨[], [34, 92, 92, 34], [], by simp [White], .string (.escape (by decide) .nil),
      by simp [White], rfl⟩
  have hok := h.1 _ htext
  have hrun : jsonsaxParse record ([34, 92, 92, 34] ++ [0]) [] = .error .unterminatedString := by
    rw [jsonsaxParse_record]
    rfl
  rw [hrun] at hok
  exact nomatch hok

end RetroArch.Formats.JsonGrammar
