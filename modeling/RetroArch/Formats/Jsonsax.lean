/- The small JSON parser: it delivers the events of a text as it goes. -/

import RetroArch.Library.CString
import RetroArch.Library.Emitting

namespace RetroArch.Formats.Jsonsax

open Library.CString Library.Emitting

/-- The codes other than `JSONSAX_OK`; `stuck` stands for a parser that does not come to an end,
`overrun` for a read behind the memory. -/
inductive JsonsaxError
  | interrupted
  | missingKey
  | unterminatedKey
  | missingValue
  | unterminatedObject
  | unterminatedArray
  | unterminatedString
  | invalidValue
  | stuck
  | overrun
  deriving DecidableEq

/-- The calls of the handlers. A key, a string or a number is given as it stands in the text. -/
inductive Event
  | startDocument
  | endDocument
  | startObject
  | endObject
  | startArray
  | endArray
  | key (name : List UInt8)
  | arrayIndex (index : UInt32)
  | string (string : List UInt8)
  | number (number : List UInt8)
  | boolean (istrue : Bool)
  | null
  deriving DecidableEq

/-- The memory from `state->json` on: the rest of the text, its terminator, and more. -/
abbrev Memory := List UInt8

abbrev Parse := Emits Event JsonsaxError Memory

def fail (e : JsonsaxError) : Parse := ([], .error e)

def isDigit (c : UInt8) : Bool := 48 ≤ c && c ≤ 57

def skipSpaces (json : Memory) : Memory := json.dropWhile isSpace

def skipDigits (json : Memory) : Memory := json.dropWhile isDigit

/-- The search for the closing quote: every quote is tried whose preceding byte is no backslash.
What stands in front of it and what is behind it. -/
def closeQuote (unterminated : JsonsaxError) :
    UInt8 → Memory → Except JsonsaxError (Memory × Memory)
  | _, [] => .error .overrun
  | before, c :: json =>
    if c = 0 then .error unterminated
    else if c = 34 ∧ before ≠ 92 then .ok ([], json)
    else (closeQuote unterminated c json).map fun (raw, json) => (c :: raw, json)

/-- `jsonx_parse_string`, behind the opening quote -/
def parseString (json : Memory) : Parse :=
  match closeQuote .unterminatedString 34 json with
  | .error e => fail e
  | .ok (raw, json) => ([.string raw], .ok json)

/-- `jsonx_parse_boolean` -/
def parseBoolean (json : Memory) : Parse :=
  match startsWith [116, 114, 117, 101] json with
  | none => fail .overrun
  | some true => ([.boolean true], .ok (json.drop 4))
  | some false =>
    match startsWith [102, 97, 108, 115, 101] json with
    | none => fail .overrun
    | some true => ([.boolean false], .ok (json.drop 5))
    | some false => fail .invalidValue

/-- `jsonx_parse_null` -/
def parseNull (json : Memory) : Parse :=
  match startsWith [117, 108, 108] (json.drop 1) with
  | none => fail .overrun
  | some true => ([.null], .ok (json.drop 4))
  | some false => fail .invalidValue

/-- One digit at least, and all that follow it. -/
def digits : Memory → Except JsonsaxError Memory
  | [] => .error .overrun
  | c :: json => if isDigit c then .ok (skipDigits json) else .error .invalidValue

def skipMinus : Memory → Memory
  | 45 :: json => json
  | json => json

/-- The fraction, if there is a point. -/
def skipFraction : Memory → Except JsonsaxError Memory
  | [] => .error .overrun
  | c :: json => if c = 46 then digits json else .ok (c :: json)

def skipSign : Memory → Memory
  | 45 :: json => json
  | 43 :: json => json
  | json => json

/-- The exponent, if there is an `e` or an `E`. -/
def skipExponent : Memory → Except JsonsaxError Memory
  | [] => .error .overrun
  | c :: json => if c = 101 ∨ c = 69 then digits (skipSign json) else .ok (c :: json)

/-- `jsonx_parse_number` -/
def parseNumber (number : Memory) : Parse :=
  match ((digits (skipMinus number)).bind skipFraction).bind skipExponent with
  | .ok json => ([.number (number.take (number.length - json.length))], .ok json)
  | .error e => fail e

/-- The loop of `jsonx_parse_object`, one round for each member. -/
def parseMembers (value : Memory → Parse) : ℕ → Memory → Parse
  | 0, _ => fail .stuck
  | _ + 1, [] => fail .overrun
  | fuel + 1, c :: json =>
    if c = 125 then ([.endObject], .ok json)
    else if c ≠ 34 then fail .missingKey
    else
      match closeQuote .unterminatedKey 34 json with
      | .error e => fail e
      | .ok (name, json) =>
        emit (.key name)
          (match skipSpaces json with
          | [] => fail .overrun
          | c :: json =>
            if c ≠ 58 then fail .missingValue
            else
              andThen (value (skipSpaces json)) fun json =>
                match skipSpaces json with
                | [] => fail .overrun
                | c :: json =>
                  if c = 44 then parseMembers value fuel (skipSpaces json)
                  else if c = 125 then ([.endObject], .ok json)
                  else fail .unterminatedObject)

/-- The loop of `jsonx_parse_array`, one round for each element. -/
def parseElements (value : Memory → Parse) : ℕ → UInt32 → Memory → Parse
  | 0, _, _ => fail .stuck
  | _ + 1, _, [] => fail .overrun
  | fuel + 1, ndx, c :: json =>
    if c = 93 then ([.endArray], .ok json)
    else
      emit (.arrayIndex ndx)
        (andThen (value (c :: json)) fun json =>
          match skipSpaces json with
          | [] => fail .overrun
          | c :: json =>
            if c = 44 then parseElements value fuel (ndx + 1) (skipSpaces json)
            else if c = 93 then ([.endArray], .ok json)
            else fail .unterminatedArray)

/-- `jsonx_parse_value`. Each value inside another one begins later in the text, which bounds
the depth. -/
def parseValue : ℕ → Memory → Parse
  | 0, _ => fail .stuck
  | fuel + 1, json =>
    match skipSpaces json with
    | [] => fail .overrun
    | c :: json =>
      if c = 123 then
        emit .startObject (parseMembers (parseValue fuel) (json.length + 1) (skipSpaces json))
      else if c = 91 then
        emit .startArray
          (parseElements (parseValue fuel) (json.length + 1) 0 (skipSpaces json))
      else if c = 34 then parseString json
      else if c = 116 ∨ c = 102 then parseBoolean (c :: json)
      else if c = 110 then parseNull (c :: json)
      else if isDigit c ∨ c = 45 then parseNumber (c :: json)
      else fail .invalidValue

/-- What `jsonsax_parse` delivers while every handler returns zero. -/
def delivers (json : Memory) : Parse :=
  emit .startDocument
    (andThen (parseValue (json.length + 1) json) fun json => ([.endDocument], .ok json))

/-- The calls in turn. A handler that returns something else than zero ends the parser where it
is; those of the document are not asked. -/
def deliver {σ : Type*} (handlers : σ → Event → σ × Bool) : List Event → σ → Option σ
  | [], ud => some ud
  | e :: es, ud =>
    if (handlers ud e).2 ∧ e ≠ .startDocument ∧ e ≠ .endDocument then none
    else deliver handlers es (handlers ud e).1

/-- `jsonsax_parse` -/
def jsonsaxParse {σ : Type*} (handlers : σ → Event → σ × Bool) (json : Memory) (ud : σ) :
    Except JsonsaxError σ :=
  match deliver handlers (delivers json).1 ud with
  | none => .error .interrupted
  | some ud => (delivers json).2.map fun _ => ud

section Nesting

inductive Frame
  | object
  | array
  deriving DecidableEq

/-- What a start event opens, and an end event closes if it is open. -/
def nestStep : List Frame → Event → Option (List Frame)
  | open', .startObject => some (.object :: open')
  | open', .startArray => some (.array :: open')
  | .object :: open', .endObject => some open'
  | .array :: open', .endArray => some open'
  | _, .endObject => none
  | _, .endArray => none
  | open', _ => some open'

/-- Every start event has its end event. -/
def Balanced (events : List Event) : Prop := events.foldlM nestStep [] = some []

/-- A parser that has delivered a part of a text in which the frames `before` were open leaves
the frames `after` open. -/
def Nests (before after : List Frame) (m : Parse) : Prop :=
  ∀ rest, m.2 = .ok rest → m.1.foldlM nestStep before = some after

variable {before mid after : List Frame} {m : Parse} {f : Memory → Parse}

theorem nests_fail (e : JsonsaxError) : Nests before after (fail e) := fun _ h => nomatch h

theorem Nests.emit {a : Event} (ha : nestStep before a = some mid) (h : Nests mid after m) :
    Nests before after (emit a m) := by
  intro rest hrest
  show (a :: m.1).foldlM nestStep before = some after
  rw [List.foldlM_cons, ha]
  exact h rest hrest

theorem Nests.andThen (hm : Nests before mid m) (hf : ∀ rest, Nests mid after (f rest)) :
    Nests before after (andThen m f) := by
  intro rest hrest
  obtain ⟨s, hs, hfs, heq⟩ := andThen_eq_ok hrest
  rw [heq, List.foldlM_append, hm s hs]
  exact hf s rest hfs

theorem nests_members {value : Memory → Parse}
    (hvalue : ∀ before json, Nests before before (value json)) (fuel : ℕ)
    (before : List Frame) (json : Memory) :
    Nests (.object :: before) before (parseMembers value fuel json) := by
  have hend : ∀ json, Nests (.object :: before) before ([.endObject], .ok json) :=
    fun json rest _ => rfl
  induction fuel generalizing json with
  | zero => exact nests_fail _
  | succ fuel ih =>
    cases json with
    | nil => exact nests_fail _
    | cons c json =>
      rw [parseMembers]
      split_ifs with hclose hquote
      · exact hend json
      · exact nests_fail _
      · cases closeQuote .unterminatedKey 34 json with
        | error e => exact nests_fail e
        | ok key =>
          obtain ⟨name, json⟩ := key
          refine Nests.emit rfl ?_
          cases skipSpaces json with
          | nil => exact nests_fail _
          | cons c json =>
            dsimp only
            split_ifs with hcolon
            · exact nests_fail _
            · refine (hvalue _ _).andThen fun json => ?_
              cases skipSpaces json with
              | nil => exact nests_fail _
              | cons c json =>
                dsimp only
                split_ifs
                · exact ih _
                · exact hend json
                · exact nests_fail _

theorem nests_elements {value : Memory → Parse}
    (hvalue : ∀ before json, Nests before before (value json)) (fuel : ℕ) (ndx : UInt32)
    (before : List Frame) (json : Memory) :
    Nests (.array :: before) before (parseElements value fuel ndx json) := by
  have hend : ∀ json, Nests (.array :: before) before ([.endArray], .ok json) :=
    fun json rest _ => rfl
  induction fuel generalizing json ndx with
  | zero => exact nests_fail _
  | succ fuel ih =>
    cases json with
    | nil => exact nests_fail _
    | cons c json =>
      rw [parseElements]
      split_ifs with hclose
      · exact hend json
      · refine Nests.emit rfl ((hvalue _ _).andThen fun json => ?_)
        cases skipSpaces json with
        | nil => exact nests_fail _
        | cons c json =>
          dsimp only
          split_ifs
          · exact ih _ _
          · exact hend json
          · exact nests_fail _

theorem nests_string (before : List Frame) (json : Memory) :
    Nests before before (parseString json) := by
  rw [parseString]
  cases closeQuote .unterminatedString 34 json with
  | error e => exact nests_fail e
  | ok key => exact fun rest _ => rfl

theorem nests_boolean (before : List Frame) (json : Memory) :
    Nests before before (parseBoolean json) := by
  rw [parseBoolean]
  split
  · exact nests_fail _
  · exact fun rest _ => rfl
  · split
    · exact nests_fail _
    · exact fun rest _ => rfl
    · exact nests_fail _

theorem nests_null (before : List Frame) (json : Memory) :
    Nests before before (parseNull json) := by
  rw [parseNull]
  split
  · exact nests_fail _
  · exact fun rest _ => rfl
  · exact nests_fail _

theorem nests_number (before : List Frame) (json : Memory) :
    Nests before before (parseNumber json) := by
  rw [parseNumber]
  split
  · exact fun rest _ => rfl
  · exact nests_fail _

theorem nests_value (fuel : ℕ) (before : List Frame) (json : Memory) :
    Nests before before (parseValue fuel json) := by
  induction fuel generalizing before json with
  | zero => exact nests_fail _
  | succ fuel ih =>
    rw [parseValue]
    cases skipSpaces json with
    | nil => exact nests_fail _
    | cons c json =>
      dsimp only
      split_ifs
      · exact Nests.emit rfl (nests_members ih _ before _)
      · exact Nests.emit rfl (nests_elements ih _ _ before _)
      · exact nests_string before _
      · exact nests_boolean before _
      · exact nests_null before _
      · exact nests_number before _
      · exact nests_fail _

theorem delivers_balanced {json rest : Memory} (h : (delivers json).2 = .ok rest) :
    Balanced (delivers json).1 := by
  have hnests : Nests [] [] (delivers json) := by
    refine Nests.emit rfl ((nests_value _ [] json).andThen fun json => ?_)
    exact fun rest _ => rfl
  exact hnests rest h

end Nesting

section Termination

/-- Memory that is one text with its terminator. -/
def Terminated (json : Memory) : Prop := ∃ text, 0 ∉ text ∧ json = text ++ [0]

/-- An end other than a read behind the memory or no end at all; behind a success the text goes
on, in no more than `bound` bytes. -/
def Ends (bound : ℕ) (m : Parse) : Prop :=
  (∀ e, m.2 = .error e → e ≠ .stuck ∧ e ≠ .overrun) ∧
    ∀ rest, m.2 = .ok rest → Terminated rest ∧ rest.length ≤ bound

variable {json rest : Memory} {bound : ℕ} {m : Parse}

theorem Terminated.ne_nil (h : Terminated json) : json ≠ [] := by
  obtain ⟨text, -, rfl⟩ := h
  simp

theorem Terminated.tail {c : UInt8} (h : Terminated (c :: json)) (hc : c ≠ 0) :
    Terminated json := by
  obtain ⟨text, hzero, heq⟩ := h
  cases text with
  | nil =>
    rw [List.nil_append] at heq
    exact absurd (List.cons.inj heq).1 hc
  | cons c' text =>
    rw [List.cons_append] at heq
    obtain ⟨rfl, rfl⟩ := List.cons.inj heq
    exact ⟨text, fun hmem => hzero (List.mem_cons_of_mem c hmem), rfl⟩

theorem Terminated.dropWhile {p : UInt8 → Bool} (hp : p 0 = false) (h : Terminated json) :
    Terminated (json.dropWhile p) ∧ (json.dropWhile p).length ≤ json.length := by
  refine ⟨?_, (List.dropWhile_sublist _).length_le⟩
  induction json with
  | nil => exact absurd rfl h.ne_nil
  | cons c json ih =>
    rw [List.dropWhile_cons]
    split_ifs with hskip
    · have hc : c ≠ 0 := by
        rintro rfl
        rw [hp] at hskip
        exact Bool.false_ne_true hskip
      exact ih (h.tail hc)
    · exact h

theorem Terminated.skipSpaces (h : Terminated json) :
    Terminated (skipSpaces json) ∧ (skipSpaces json).length ≤ json.length :=
  h.dropWhile rfl

theorem closeQuote_ends (unterminated : JsonsaxError) (h : Terminated json) (before : UInt8) :
    closeQuote unterminated before json = .error unterminated ∨
      ∃ raw rest, closeQuote unterminated before json = .ok (raw, rest) ∧ Terminated rest ∧
        rest.length < json.length := by
  induction json generalizing before with
  | nil => exact absurd rfl h.ne_nil
  | cons c json ih =>
    rw [closeQuote]
    split_ifs with hzero hclose
    · exact .inl rfl
    · exact .inr ⟨[], json, rfl, h.tail hzero, Nat.lt_succ_self _⟩
    · rcases ih (h.tail hzero) c with herror | ⟨raw, rest, hok, hrest, hlen⟩
      · exact .inl (by rw [herror]; rfl)
      · exact .inr ⟨c :: raw, rest, by rw [hok]; rfl, hrest, Nat.lt_succ_of_lt hlen⟩

theorem startsWith_ends (lit : List UInt8) (hlit : 0 ∉ lit) (h : Terminated json) :
    startsWith lit json = some false ∨
      startsWith lit json = some true ∧ Terminated (json.drop lit.length) := by
  induction lit generalizing json with
  | nil => exact .inr ⟨by cases json <;> rfl, h⟩
  | cons l lit ih =>
    cases json with
    | nil => exact absurd rfl h.ne_nil
    | cons c json =>
      rw [startsWith]
      split_ifs with heq
      · subst heq
        have hc : c ≠ 0 := fun hzero => hlit (hzero ▸ List.mem_cons_self)
        exact ih (fun hmem => hlit (List.mem_cons_of_mem c hmem)) (h.tail hc)
      · exact .inl rfl

theorem ends_fail {e : JsonsaxError} (hstuck : e ≠ .stuck) (hoverrun : e ≠ .overrun) :
    Ends bound (fail e) :=
  ⟨fun _ h => Except.error.inj h ▸ ⟨hstuck, hoverrun⟩, fun _ h => nomatch h⟩

theorem ends_ok {events : List Event} (h : Terminated rest) (hlen : rest.length ≤ bound) :
    Ends bound (events, .ok rest) :=
  ⟨fun _ hrest => (nomatch hrest), fun _ hrest => Except.ok.inj hrest ▸ ⟨h, hlen⟩⟩

theorem Ends.emit {a : Event} (h : Ends bound m) : Ends bound (emit a m) := h

theorem Ends.andThen {mid : ℕ} {f : Memory → Parse} (hm : Ends mid m)
    (hf : ∀ rest, Terminated rest → rest.length ≤ mid → Ends bound (f rest)) :
    Ends bound (andThen m f) := by
  constructor
  · intro e he
    rcases andThen_eq_error he with hfirst | ⟨s, hs, hsecond⟩
    · exact hm.1 e hfirst
    · obtain ⟨hterm, hlen⟩ := hm.2 s hs
      exact (hf s hterm hlen).1 e hsecond
  · intro rest hrest
    obtain ⟨s, hs, hsecond, -⟩ := andThen_eq_ok hrest
    obtain ⟨hterm, hlen⟩ := hm.2 s hs
    exact (hf s hterm hlen).2 rest hsecond

theorem Ends.mono {bound' : ℕ} (h : Ends bound m) (hle : bound ≤ bound') : Ends bound' m :=
  ⟨h.1, fun rest hrest => ⟨(h.2 rest hrest).1, le_trans (h.2 rest hrest).2 hle⟩⟩

theorem ends_string (h : Terminated json) : Ends json.length (parseString json) := by
  rw [parseString]
  rcases closeQuote_ends .unterminatedString h 34 with
    herror | ⟨raw, rest, hok, hrest, hlen⟩
  · rw [herror]
    exact ends_fail (by decide) (by decide)
  · rw [hok]
    exact ends_ok hrest hlen.le

theorem ends_boolean (h : Terminated json) : Ends (json.length - 1) (parseBoolean json) := by
  have hpos := List.length_pos_of_ne_nil h.ne_nil
  have htrue := startsWith_ends [116, 114, 117, 101] (by decide) h
  have hfalse := startsWith_ends [102, 97, 108, 115, 101] (by decide) h
  rw [parseBoolean]
  rcases htrue with hno | ⟨hyes, hrest⟩
  · rw [hno]
    rcases hfalse with hno' | ⟨hyes', hrest'⟩
    · rw [hno']
      exact ends_fail (by decide) (by decide)
    · rw [hyes']
      exact ends_ok hrest' (by rw [List.length_drop]; omega)
  · rw [hyes]
    exact ends_ok hrest (by rw [List.length_drop]; omega)

theorem ends_null {c : UInt8} (h : Terminated (c :: json)) (hc : c ≠ 0) :
    Ends json.length (parseNull (c :: json)) := by
  have hull := startsWith_ends [117, 108, 108] (by decide) (h.tail hc)
  rw [parseNull, List.drop_succ_cons, List.drop_zero]
  rcases hull with hno | ⟨hyes, hrest⟩
  · rw [hno]
    exact ends_fail (by decide) (by decide)
  · rw [hyes]
    exact ends_ok hrest (by simp)

/-- The scans of a number, each of which goes on in the text or finds no digit. -/
def Scans (bound : ℕ) (scan : Except JsonsaxError Memory) : Prop :=
  scan = .error .invalidValue ∨
    ∃ rest, scan = .ok rest ∧ Terminated rest ∧ rest.length ≤ bound

theorem scans_digits (h : Terminated json) : Scans (json.length - 1) (digits json) := by
  cases json with
  | nil => exact absurd rfl h.ne_nil
  | cons c json =>
    rw [digits]
    split_ifs with hdigit
    · have hc : c ≠ 0 := by
        rintro rfl
        exact absurd hdigit (by decide)
      obtain ⟨hrest, hlen⟩ := (h.tail hc).dropWhile (p := isDigit) rfl
      exact .inr ⟨_, rfl, hrest, hlen⟩
    · exact .inl rfl

theorem Scans.bind {mid : ℕ} {scan : Except JsonsaxError Memory}
    {f : Memory → Except JsonsaxError Memory} (hscan : Scans mid scan)
    (hf : ∀ rest, Terminated rest → rest.length ≤ mid → Scans bound (f rest)) :
    Scans bound (scan.bind f) := by
  rcases hscan with herror | ⟨rest, hok, hrest, hlen⟩
  · rw [herror]
    exact .inl rfl
  · rw [hok]
    exact hf rest hrest hlen

theorem Scans.mono {bound' : ℕ} {scan : Except JsonsaxError Memory} (h : Scans bound scan)
    (hle : bound ≤ bound') : Scans bound' scan := by
  rcases h with herror | ⟨rest, hok, hrest, hlen⟩
  · exact .inl herror
  · exact .inr ⟨rest, hok, hrest, le_trans hlen hle⟩

theorem terminated_skipMinus (h : Terminated json) :
    Terminated (skipMinus json) ∧ (skipMinus json).length ≤ json.length := by
  unfold skipMinus
  split
  · exact ⟨h.tail (by decide), Nat.le_succ _⟩
  · exact ⟨h, Nat.le_refl _⟩

theorem terminated_skipSign (h : Terminated json) :
    Terminated (skipSign json) ∧ (skipSign json).length ≤ json.length := by
  unfold skipSign
  split
  · exact ⟨h.tail (by decide), Nat.le_succ _⟩
  · exact ⟨h.tail (by decide), Nat.le_succ _⟩
  · exact ⟨h, Nat.le_refl _⟩

theorem scans_skipFraction (h : Terminated json) : Scans json.length (skipFraction json) := by
  cases json with
  | nil => exact absurd rfl h.ne_nil
  | cons c json =>
    rw [skipFraction]
    split_ifs with hpoint
    · have htail := h.tail (by rw [hpoint]; decide)
      exact (scans_digits htail).mono (by rw [List.length_cons]; omega)
    · exact .inr ⟨_, rfl, h, Nat.le_refl _⟩

theorem scans_skipExponent (h : Terminated json) : Scans json.length (skipExponent json) := by
  cases json with
  | nil => exact absurd rfl h.ne_nil
  | cons c json =>
    rw [skipExponent]
    split_ifs with hexp
    · have hc : c ≠ 0 := by rcases hexp with rfl | rfl <;> decide
      obtain ⟨hsign, hlen⟩ := terminated_skipSign (h.tail hc)
      exact (scans_digits hsign).mono (by rw [List.length_cons]; omega)
    · exact .inr ⟨_, rfl, h, Nat.le_refl _⟩

theorem ends_number (h : Terminated json) : Ends (json.length - 1) (parseNumber json) := by
  obtain ⟨hminus, hlen⟩ := terminated_skipMinus h
  have hscan : Scans (json.length - 1)
      (((digits (skipMinus json)).bind skipFraction).bind skipExponent) := by
    have hfraction : Scans (json.length - 1) ((digits (skipMinus json)).bind skipFraction) :=
      ((scans_digits hminus).mono (by omega)).bind fun rest hrest hle =>
        (scans_skipFraction hrest).mono hle
    exact hfraction.bind fun rest hrest hle => (scans_skipExponent hrest).mono hle
  rw [parseNumber]
  rcases hscan with herror | ⟨rest, hok, hrest, hle⟩
  · rw [herror]
    exact ends_fail (by decide) (by decide)
  · rw [hok]
    exact ends_ok hrest hle

/-- A value takes at least one byte of the text. -/
def Takes (value : Memory → Parse) (limit : ℕ) : Prop :=
  ∀ json, Terminated json → json.length < limit → Ends (json.length - 1) (value json)

theorem ends_members {value : Memory → Parse} {limit fuel : ℕ} (hvalue : Takes value limit)
    (h : Terminated json) (hlimit : json.length < limit) (hfuel : json.length ≤ fuel) :
    Ends json.length (parseMembers value fuel json) := by
  induction fuel generalizing json with
  | zero =>
    have hpos := List.length_pos_of_ne_nil h.ne_nil
    omega
  | succ fuel ih =>
    cases json with
    | nil => exact absurd rfl h.ne_nil
    | cons c json =>
      rw [List.length_cons] at hlimit hfuel
      rw [parseMembers]
      split_ifs with hclose hquote
      · exact ends_ok (h.tail (by rw [hclose]; decide)) (Nat.le_succ _)
      · exact ends_fail (by decide) (by decide)
      · have hc : c = 34 := by simpa using hquote
        have hjson := h.tail (by rw [hc]; decide)
        rcases closeQuote_ends .unterminatedKey hjson 34 with
          herror | ⟨name, rest, hok, hrest, hlen⟩
        · rw [herror]
          exact ends_fail (by decide) (by decide)
        · rw [hok]
          obtain ⟨hspaces, hle⟩ := hrest.skipSpaces
          refine Ends.emit ?_
          cases hcolon : skipSpaces rest with
          | nil => exact absurd hcolon hspaces.ne_nil
          | cons c json' =>
            rw [hcolon, List.length_cons] at hle
            rw [hcolon] at hspaces
            dsimp only
            split_ifs with hmissing
            · exact ends_fail (by decide) (by decide)
            · have hc' : c = 58 := by simpa using hmissing
              obtain ⟨hstart, hle'⟩ := (hspaces.tail (by rw [hc']; decide)).skipSpaces
              have hval := hvalue _ hstart (by omega)
              refine hval.andThen fun rest' hrest' hlen' => ?_
              obtain ⟨hnext, hle''⟩ := hrest'.skipSpaces
              cases hsep : skipSpaces rest' with
              | nil => exact absurd hsep hnext.ne_nil
              | cons c json'' =>
                rw [hsep, List.length_cons] at hle''
                rw [hsep] at hnext
                dsimp only
                split_ifs with hcomma hbrace
                · obtain ⟨hmore, hle₃⟩ :=
                    (hnext.tail (by rw [hcomma]; decide)).skipSpaces
                  exact (ih hmore (by omega) (by omega)).mono
                    (by rw [List.length_cons]; omega)
                · exact ends_ok (hnext.tail (by rw [hbrace]; decide))
                    (by rw [List.length_cons]; omega)
                · exact ends_fail (by decide) (by decide)

theorem ends_elements {value : Memory → Parse} {limit fuel : ℕ} (hvalue : Takes value limit)
    (ndx : UInt32) (h : Terminated json) (hlimit : json.length < limit)
    (hfuel : json.length ≤ fuel) : Ends json.length (parseElements value fuel ndx json) := by
  induction fuel generalizing json ndx with
  | zero =>
    have hpos := List.length_pos_of_ne_nil h.ne_nil
    omega
  | succ fuel ih =>
    cases json with
    | nil => exact absurd rfl h.ne_nil
    | cons c json =>
      rw [parseElements]
      split_ifs with hclose
      · exact ends_ok (h.tail (by rw [hclose]; decide)) (Nat.le_succ _)
      · have hval := hvalue _ h hlimit
        refine Ends.emit (hval.andThen fun rest hrest hlen => ?_)
        obtain ⟨hnext, hle⟩ := hrest.skipSpaces
        rw [List.length_cons] at hlimit hfuel hlen
        cases hsep : skipSpaces rest with
        | nil => exact absurd hsep hnext.ne_nil
        | cons c' json' =>
          rw [hsep, List.length_cons] at hle
          rw [hsep] at hnext
          dsimp only
          split_ifs with hcomma hbracket
          · obtain ⟨hmore, hle'⟩ := (hnext.tail (by rw [hcomma]; decide)).skipSpaces
            exact (ih _ hmore (by omega) (by omega)).mono
              (by rw [List.length_cons]; omega)
          · exact ends_ok (hnext.tail (by rw [hbracket]; decide))
              (by rw [List.length_cons]; omega)
          · exact ends_fail (by decide) (by decide)

theorem ends_value (fuel : ℕ) : Takes (parseValue fuel) fuel := by
  induction fuel with
  | zero => exact fun json _ hlen => absurd hlen (Nat.not_lt_zero _)
  | succ fuel ih =>
    intro json h hlen
    obtain ⟨hspaces, hle⟩ := h.skipSpaces
    rw [parseValue]
    cases hjson : skipSpaces json with
    | nil => exact absurd hjson hspaces.ne_nil
    | cons c rest =>
      rw [hjson] at hspaces
      rw [hjson, List.length_cons] at hle
      dsimp only
      split_ifs with hobject harray hstring hboolean hnull hnumber
      · obtain ⟨hmore, hle'⟩ := (hspaces.tail (by rw [hobject]; decide)).skipSpaces
        exact (ends_members ih hmore (by omega) (by omega)).mono (by omega)
      · obtain ⟨hmore, hle'⟩ := (hspaces.tail (by rw [harray]; decide)).skipSpaces
        exact (ends_elements ih 0 hmore (by omega) (by omega)).mono (by omega)
      · exact (ends_string (hspaces.tail (by rw [hstring]; decide))).mono (by omega)
      · exact (ends_boolean hspaces).mono (by rw [List.length_cons]; omega)
      · exact (ends_null hspaces (by rw [hnull]; decide)).mono (by omega)
      · exact (ends_number hspaces).mono (by rw [List.length_cons]; omega)
      · exact ends_fail (by decide) (by decide)

theorem delivers_ends (h : Terminated json) : Ends json.length (delivers json) := by
  have hvalue := ends_value (json.length + 1) json h (Nat.lt_succ_self _)
  refine Ends.emit (hvalue.andThen fun rest hrest hlen => ?_)
  exact ends_ok hrest (by omega)

end Termination

end RetroArch.Formats.Jsonsax
