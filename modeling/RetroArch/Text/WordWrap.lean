/- Breaking a text into lines at its spaces. -/

import Mathlib.Data.List.GetD
import Mathlib.Data.List.TakeWhile
import RetroArch.Library.While

namespace RetroArch.Text.WordWrap

open Library.While

/-- `string[i]`; the terminator stands behind the string. -/
def byteAt (string : List UInt8) (i : ℕ) : UInt8 := string.getD i 0

/-- `utf8skip(&string[i], 1) - &string[i]`. -/
def charLen (string : List UInt8) (i : ℕ) : ℕ :=
  1 + ((string.drop (i + 1)).takeWhile fun b => b &&& 0xC0 = 0x80).length

def write (buffer : ℕ → UInt8) (i : ℕ) (b : UInt8) : ℕ → UInt8 := fun j =>
  if j = i then b else buffer j

/-- One round of the loop that copies a character. -/
def copyByte (string : List UInt8) (p : (ℕ → UInt8) × ℕ) : (ℕ → UInt8) × ℕ :=
  (write p.1 p.2 (byteAt string p.2), (p.2 + 1) % 2 ^ 32)

/-- The rounds of a `do` loop that counts an `unsigned` down. -/
def doRounds (n : ℕ) : ℕ := if n % 2 ^ 32 = 0 then 2 ^ 32 else n % 2 ^ 32

inductive Place
  | outer
  | inner
  | done
deriving DecidableEq

/-- The variables of `word_wrap`, with the loop whose head is next. The string is not in the buffer,
and `lines` is counted without bound. -/
structure State where
  place : Place
  buffer : ℕ → UInt8
  i : ℕ
  pos : ℕ
  counter : ℕ
  lines : ℕ

def State.start (buffer : ℕ → UInt8) : State := ⟨.outer, buffer, 0, 0, 1, 1⟩

/-- `max_lines == 0 || lines < max_lines`. -/
def Open (maxLines lines : ℕ) : Prop := maxLines = 0 ∨ lines < maxLines

instance (maxLines lines : ℕ) : Decidable (Open maxLines lines) :=
  inferInstanceAs (Decidable (_ ∨ _))

/-- The nearest space, from `k` down to 1. -/
def spaceBack (string : List UInt8) : ℕ → Option ℕ
  | 0 => none
  | k + 1 => if byteAt string (k + 1) = 32 then some (k + 1) else spaceBack string k

/-- The counter behind a character; a newline resets it. -/
def nextCounter (string : List UInt8) (unicode : Bool) (i counter : ℕ) : ℕ :=
  let counter :=
    if unicode then counter else (counter + (charLen string i % 2 ^ 32 + 2 ^ 32 - 1)) % 2 ^ 32
  ((if byteAt string i = 10 then 1 else counter) + 1) % 2 ^ 32

/-- The nearest space back, where a line may still be broken. An index from `2^31` on is negative
as an `int`. -/
def nearest (string : List UInt8) (maxLines i lines : ℕ) : Option ℕ :=
  if Open maxLines lines ∧ i < 2 ^ 31 then spaceBack string i else none

/-- `if (&buffer[i] - buffer == pos) return buffer`. -/
def goOn (st : State) : State :=
  if st.i = st.pos ∧ st.pos < 2 ^ 31 then { st with place := .done }
  else { st with place := .outer }

/-- What is done where a line is full. -/
def lineFull (string : List UInt8) (maxLines : ℕ) (st : State) : State :=
  if byteAt string st.i = 32 then
    if Open maxLines st.lines then
      { st with place := .outer, buffer := write st.buffer st.i 10, i := (st.i + 1) % 2 ^ 32,
                lines := st.lines + 1 }
    else { st with place := .outer }
  else
    match nearest string maxLines st.i st.lines with
    | some k =>
      goOn { st with buffer := write st.buffer k 10, i := k + 1, lines := st.lines + 1 }
    | none => goOn st

/-- One round of a loop of `word_wrap`. -/
def step (string : List UInt8) (lineWidth : ℕ) (unicode : Bool) (maxLines : ℕ) (st : State) :
    State :=
  let len := string.length % 2 ^ 32
  match st.place with
  | .outer =>
    if st.i < len then { st with place := .inner, pos := st.i, counter := 1 }
    else { st with place := .done, buffer := write st.buffer st.i 0 }
  | .inner =>
    if st.counter ≤ lineWidth then
      if st.i = len then { st with place := .done, buffer := write st.buffer st.i 0 }
      else
        let copied := (copyByte string)^[doRounds (charLen string st.i)] (st.buffer, st.i)
        { st with buffer := copied.1, i := copied.2,
                  counter := nextCounter string unicode st.i st.counter,
                  lines := if copied.1 st.i = 10 then st.lines + 1 else st.lines }
    else lineFull string maxLines st
  | .done => st

/-- The function has not returned. -/
def Running (st : State) : Prop := st.place ≠ .done

instance : DecidablePred Running := fun st => inferInstanceAs (Decidable (st.place ≠ .done))

section Statement

/-- A terminated string of the same length, with newlines for some of the spaces. -/
structure Wrapped (string : List UInt8) (buffer : ℕ → UInt8) : Prop where
  bytes : ∀ j < string.length, buffer j = byteAt string j ∨
    byteAt string j = 32 ∧ buffer j = 10
  terminated : buffer string.length = 0

variable (string : List UInt8) (lineWidth : ℕ) (unicode : Bool) (maxLines : ℕ)

/-- Whatever the buffer held, the function returns and leaves the wrapped string in it. -/
def Wraps : Prop :=
  ∀ former, ∃ st, Ends Running (step string lineWidth unicode maxLines) (.start former) st ∧
    Wrapped string st.buffer

/-- Where the next line starts, when the one before is full at `i`. -/
def lineBreak (i lines : ℕ) : ℕ × ℕ :=
  if byteAt string i = 32 then if Open maxLines lines then (i + 1, lines + 1) else (i, lines)
  else
    match nearest string maxLines i lines with
    | some k => (k + 1, lines + 1)
    | none => (i, lines)

/-- The text is laid out in lines of `lineWidth`, each as long as it can be: the line that starts
at `pos` has come to `i`, with the counter and the number of lines. -/
inductive Laid : ℕ → ℕ → ℕ → ℕ → Prop
  | start (h : string ≠ []) : Laid 0 0 1 1
  | char {pos i counter lines : ℕ} (h : Laid pos i counter lines) (hroom : counter ≤ lineWidth)
      (hi : i < string.length) :
      Laid pos (i + charLen string i) (nextCounter string unicode i counter)
        (if byteAt string i = 10 then lines + 1 else lines)
  | line {pos i counter lines : ℕ} (h : Laid pos i counter lines) (hfull : lineWidth < counter)
      (hnew : pos < (lineBreak string maxLines i lines).1)
      (hi : (lineBreak string maxLines i lines).1 < string.length) :
      Laid (lineBreak string maxLines i lines).1 (lineBreak string maxLines i lines).1 1
        (lineBreak string maxLines i lines).2

/-- Some line that starts behind a space is full and has no other space to break at. -/
def Stuck : Prop :=
  ∃ pos i counter lines, Laid string lineWidth unicode maxLines pos i counter lines ∧
    lineWidth < counter ∧ Open maxLines lines ∧ i < 2 ^ 31 ∧ 2 ≤ pos ∧
    byteAt string (pos - 1) = 32 ∧ ∀ k, pos ≤ k → k ≤ i → byteAt string k ≠ 32

end Statement

section Bytes

variable {string : List UInt8}

theorem lt_of_byteAt {i : ℕ} {b : UInt8} (hb : b ≠ 0) (h : byteAt string i = b) :
    i < string.length := by
  by_contra hge
  rw [byteAt, List.getD_eq_default _ _ (Nat.le_of_not_lt hge)] at h
  exact hb h.symm

theorem charLen_le {i : ℕ} (hi : i < string.length) :
    1 ≤ charLen string i ∧ i + charLen string i ≤ string.length := by
  have hle := (List.takeWhile_sublist
    (fun b => decide (b &&& 0xC0 = 0x80)) (l := string.drop (i + 1))).length_le
  rw [List.length_drop] at hle
  rw [charLen]
  omega

theorem copy_spec (hlen : string.length < 2 ^ 32) {n i : ℕ} (hi : i + n ≤ string.length)
    (buffer : ℕ → UInt8) :
    ((copyByte string)^[n] (buffer, i)).2 = i + n ∧
      ∀ j, ((copyByte string)^[n] (buffer, i)).1 j =
        if i ≤ j ∧ j < i + n then byteAt string j else buffer j := by
  induction n with
  | zero =>
    refine ⟨rfl, fun j => ?_⟩
    rw [if_neg (by omega)]
    rfl
  | succ n ih =>
    obtain ⟨hplace, hbytes⟩ := ih (by omega)
    rw [Function.iterate_succ_apply']
    refine ⟨?_, fun j => ?_⟩
    · rw [copyByte, hplace]
      exact Nat.mod_eq_of_lt (by omega)
    · rw [copyByte, hplace]
      dsimp only [write]
      by_cases hj : j = i + n
      · rw [if_pos hj, if_pos (by omega), hj]
      · rw [if_neg hj, hbytes]
        by_cases hin : i ≤ j ∧ j < i + n
        · rw [if_pos hin, if_pos (by omega)]
        · rw [if_neg hin, if_neg (by omega)]

theorem copy_below {n i : ℕ} (hi : i < 2 ^ 32) (buffer : ℕ → UInt8) :
    ((copyByte string)^[n] (buffer, i)).2 < 2 ^ 32 ∧
      ∀ j, 2 ^ 32 ≤ j → ((copyByte string)^[n] (buffer, i)).1 j = buffer j := by
  induction n with
  | zero => exact ⟨hi, fun _ _ => rfl⟩
  | succ n ih =>
    rw [Function.iterate_succ_apply']
    refine ⟨Nat.mod_lt _ (by decide), fun j hj => ?_⟩
    have hne : j ≠ ((copyByte string)^[n] (buffer, i)).2 := by omega
    rw [copyByte]
    dsimp only [write]
    rw [if_neg hne, ih.2 j hj]

theorem spaceBack_some {n k : ℕ} (h : spaceBack string n = some k) :
    1 ≤ k ∧ k ≤ n ∧ byteAt string k = 32 ∧ ∀ m, k < m → m ≤ n → byteAt string m ≠ 32 := by
  induction n with
  | zero => cases h
  | succ n ih =>
    rw [spaceBack] at h
    split_ifs at h with hspace
    · cases h
      exact ⟨Nat.le_add_left 1 n, le_rfl, hspace, fun m hlt hle => by omega⟩
    · obtain ⟨hpos, hle, hk, hafter⟩ := ih h
      refine ⟨hpos, by omega, hk, fun m hlt hm => ?_⟩
      rcases Nat.le_succ_iff.mp hm with hm | rfl
      · exact hafter m hlt hm
      · exact hspace

theorem spaceBack_none {n : ℕ} (h : spaceBack string n = none) :
    ∀ k, 1 ≤ k → k ≤ n → byteAt string k ≠ 32 := by
  induction n with
  | zero => exact fun k hpos hle => by omega
  | succ n ih =>
    rw [spaceBack] at h
    split_ifs at h with hspace
    intro k hpos hle
    rcases Nat.le_succ_iff.mp hle with hle | rfl
    · exact ih h k hpos hle
    · exact hspace

end Bytes

section Layout

variable {string : List UInt8} {lineWidth : ℕ} {unicode : Bool} {maxLines : ℕ}
variable {pos i counter lines : ℕ}

/-- The four ways in which a line comes to start at `pos`. -/
inductive Starts (string : List UInt8) (maxLines pos lines : ℕ) : Prop
  | space (hpos : 1 ≤ pos) (h : byteAt string (pos - 1) = 32)
  | solid (h : ∀ k, 1 ≤ k → k ≤ pos → byteAt string k ≠ 32)
  | closed (h : ¬Open maxLines lines)
  | far (h : 2 ^ 31 ≤ pos)

theorem nearest_some {k : ℕ} (h : nearest string maxLines i lines = some k) :
    Open maxLines lines ∧ i < 2 ^ 31 ∧ 1 ≤ k ∧ k ≤ i ∧ byteAt string k = 32 ∧
      ∀ m, k < m → m ≤ i → byteAt string m ≠ 32 := by
  rw [nearest] at h
  split_ifs at h with hsearch
  exact ⟨hsearch.1, hsearch.2, spaceBack_some h⟩

theorem nearest_none (h : nearest string maxLines i lines = none) :
    ¬Open maxLines lines ∨ 2 ^ 31 ≤ i ∨ ∀ k, 1 ≤ k → k ≤ i → byteAt string k ≠ 32 := by
  rw [nearest] at h
  split_ifs at h with hsearch
  · exact .inr (.inr (spaceBack_none h))
  · by_cases hopen : Open maxLines lines
    · exact .inr (.inl (Nat.le_of_not_lt fun h => hsearch ⟨hopen, h⟩))
    · exact .inl hopen

/-- The cases of a line break. -/
inductive Breaks (string : List UInt8) (maxLines i lines : ℕ) : ℕ × ℕ → Prop
  | here (hspace : byteAt string i = 32) (hopen : Open maxLines lines) :
      Breaks string maxLines i lines (i + 1, lines + 1)
  | closed (hspace : byteAt string i = 32) (hclosed : ¬Open maxLines lines) :
      Breaks string maxLines i lines (i, lines)
  | back {k : ℕ} (hspace : byteAt string i ≠ 32) (hk : nearest string maxLines i lines = some k) :
      Breaks string maxLines i lines (k + 1, lines + 1)
  | none (hspace : byteAt string i ≠ 32) (hk : nearest string maxLines i lines = none) :
      Breaks string maxLines i lines (i, lines)

theorem breaks (string : List UInt8) (maxLines i lines : ℕ) :
    Breaks string maxLines i lines (lineBreak string maxLines i lines) := by
  rw [lineBreak]
  split_ifs with hspace hopen
  · exact .here hspace hopen
  · exact .closed hspace hopen
  · cases hk : nearest string maxLines i lines with
    | some k => exact .back hspace hk
    | none => exact .none hspace hk

theorem Starts.mono {lines' : ℕ} (h : Starts string maxLines pos lines) (hle : lines ≤ lines') :
    Starts string maxLines pos lines' := by
  cases h with
  | space hpos h => exact .space hpos h
  | solid h => exact .solid h
  | closed h => exact .closed fun hopen => h (hopen.imp_right (lt_of_le_of_lt hle))
  | far h => exact .far h

theorem starts_lineBreak (string : List UInt8) (maxLines i lines : ℕ) :
    Starts string maxLines (lineBreak string maxLines i lines).1
      (lineBreak string maxLines i lines).2 := by
  have hbreaks := breaks string maxLines i lines
  generalize lineBreak string maxLines i lines = next at hbreaks
  cases hbreaks with
  | here hspace => exact .space (Nat.le_add_left 1 i) hspace
  | closed _ hclosed => exact .closed hclosed
  | @back k _ hk =>
    obtain ⟨-, -, -, -, hkspace, -⟩ := nearest_some hk
    exact .space (Nat.le_add_left 1 k) hkspace
  | none _ hk =>
    rcases nearest_none hk with hclosed | hfar | hnone
    · exact .closed hclosed
    · exact .far hfar
    · exact .solid hnone

/-- What holds wherever the layout comes. -/
structure Within (string : List UInt8) (maxLines pos i counter lines : ℕ) : Prop where
  first : i = pos ∧ counter = 1 ∨ pos < i
  inside : i ≤ string.length
  pos_lt : pos < string.length
  starts : Starts string maxLines pos lines

theorem Laid.within (h : Laid string lineWidth unicode maxLines pos i counter lines) :
    Within string maxLines pos i counter lines := by
  induction h with
  | start hne =>
    exact ⟨.inl ⟨rfl, rfl⟩, Nat.zero_le _, List.length_pos_iff.mpr hne,
      .solid fun k hpos hle => by omega⟩
  | char h hroom hi ih =>
    obtain ⟨hpos, hle⟩ := charLen_le hi
    refine ⟨.inr ?_, hle, ih.pos_lt, ih.starts.mono ?_⟩
    · have hfirst := ih.first
      omega
    · split_ifs
      · exact Nat.le_succ _
      · exact le_rfl
  | line h hfull hnew hi ih =>
    exact ⟨.inl ⟨rfl, rfl⟩, hi.le, hi, starts_lineBreak string maxLines _ _⟩

/-- A line starts behind the one before, unless that one is stuck. -/
theorem break_forward (hwidth : 1 ≤ lineWidth)
    (h : Laid string lineWidth unicode maxLines pos i counter lines) (hfull : lineWidth < counter)
    (hstuck : ¬Stuck string lineWidth unicode maxLines) :
    pos < (lineBreak string maxLines i lines).1 := by
  have hwithin := h.within
  have hpos : pos < i := by
    have hfirst := hwithin.first
    omega
  have hbreaks := breaks string maxLines i lines
  generalize lineBreak string maxLines i lines = next at hbreaks
  cases hbreaks with
  | here => exact Nat.lt_succ_of_lt hpos
  | closed => exact hpos
  | none => exact hpos
  | @back k _ hk =>
    obtain ⟨hopen, hnear, hk1, hki, hkspace, hafter⟩ := nearest_some hk
    by_contra hback
    have hback : k + 1 ≤ pos := Nat.le_of_not_lt hback
    cases hwithin.starts with
    | space hpos1 hlast =>
      have heq : k = pos - 1 := by
        by_contra hne
        exact hafter (pos - 1) (by omega) (by omega) hlast
      exact hstuck ⟨pos, i, counter, lines, h, hfull, hopen, hnear, by omega, hlast,
        fun m hm hmi => hafter m (by omega) hmi⟩
    | solid hnone => exact hnone k hk1 (by omega) hkspace
    | closed hclosed => exact hclosed hopen
    | far hfar => omega

end Layout

section Steps

variable {string : List UInt8} {lineWidth : ℕ} {unicode : Bool} {maxLines : ℕ} {st : State}

/-- The bytes below `n` are there, with newlines for some of the spaces. -/
def Copied (string : List UInt8) (buffer : ℕ → UInt8) (n : ℕ) : Prop :=
  ∀ j < n, buffer j = byteAt string j ∨ byteAt string j = 32 ∧ buffer j = 10

theorem Copied.newline {buffer : ℕ → UInt8} {k n : ℕ} (h : Copied string buffer n) (hk : k ≤ n)
    (hspace : byteAt string k = 32) : Copied string (write buffer k 10) (k + 1) := by
  intro j hj
  rw [write]
  split_ifs with heq
  · exact .inr ⟨heq ▸ hspace, rfl⟩
  · exact h j (by omega)

theorem Copied.mono {buffer : ℕ → UInt8} {m n : ℕ} (h : Copied string buffer n) (hle : m ≤ n) :
    Copied string buffer m := fun j hj => h j (lt_of_lt_of_le hj hle)

/-- A round of the inner loop that copies a character. -/
theorem step_char (hlen : string.length < 2 ^ 32) (hplace : st.place = .inner)
    (hroom : st.counter ≤ lineWidth) (hi : st.i < string.length) :
    ∃ buffer, step string lineWidth unicode maxLines st =
        ⟨.inner, buffer, st.i + charLen string st.i, st.pos,
          nextCounter string unicode st.i st.counter,
          if byteAt string st.i = 10 then st.lines + 1 else st.lines⟩ ∧
      (Copied string st.buffer st.i → Copied string buffer (st.i + charLen string st.i)) ∧
      buffer string.length = st.buffer string.length := by
  obtain ⟨hpos, hle⟩ := charLen_le hi
  have hmod : string.length % 2 ^ 32 = string.length := Nat.mod_eq_of_lt hlen
  have hrounds : doRounds (charLen string st.i) = charLen string st.i := by
    rw [doRounds, Nat.mod_eq_of_lt (by omega), if_neg (by omega)]
  obtain ⟨hend, hbytes⟩ := copy_spec hlen hle st.buffer
  refine ⟨((copyByte string)^[charLen string st.i] (st.buffer, st.i)).1, ?_,
    fun hcopied j hj => ?_, ?_⟩
  · rw [step, hplace]
    dsimp only
    have hfirst : ((copyByte string)^[charLen string st.i] (st.buffer, st.i)).1 st.i =
        byteAt string st.i := by
      rw [hbytes, if_pos ⟨le_rfl, by omega⟩]
    rw [if_pos hroom, hmod, if_neg hi.ne, hrounds, hend, hfirst]
  · rw [hbytes]
    split_ifs with hin
    · exact .inl rfl
    · exact hcopied j (by omega)
  · rw [hbytes, if_neg (by omega)]

/-- A round of the inner loop at a full line goes on to the next line. -/
theorem step_line (hlen : string.length < 2 ^ 32) (hplace : st.place = .inner)
    (hfull : lineWidth < st.counter) (hi : st.i ≤ string.length)
    (hnew : st.pos < (lineBreak string maxLines st.i st.lines).1) :
    ∃ buffer, step string lineWidth unicode maxLines st =
        ⟨.outer, buffer, (lineBreak string maxLines st.i st.lines).1, st.pos, st.counter,
          (lineBreak string maxLines st.i st.lines).2⟩ ∧
      (lineBreak string maxLines st.i st.lines).1 ≤ string.length ∧
      (Copied string st.buffer st.i →
        Copied string buffer (lineBreak string maxLines st.i st.lines).1) ∧
      buffer string.length = st.buffer string.length := by
  have hstep : step string lineWidth unicode maxLines st = lineFull string maxLines st := by
    rw [step, hplace]
    exact if_neg (Nat.not_le_of_lt hfull)
  rw [hstep]
  have hgo : ∀ t : State, st.pos < t.i → t.pos = st.pos → goOn t = { t with place := .outer } :=
    fun t hlt heq => if_neg fun h => (heq ▸ hlt).ne' h.1
  have hbreaks := breaks string maxLines st.i st.lines
  rw [lineFull]
  generalize lineBreak string maxLines st.i st.lines = next at hbreaks hnew
  cases hbreaks with
  | here hspace hopen =>
    have hlt := lt_of_byteAt (by decide) hspace
    refine ⟨write st.buffer st.i 10, ?_, hlt, fun hcopied => hcopied.newline le_rfl hspace,
      if_neg hlt.ne'⟩
    rw [if_pos hspace, if_pos hopen, Nat.mod_eq_of_lt (by omega)]
  | closed hspace hclosed =>
    refine ⟨st.buffer, ?_, hi, id, rfl⟩
    rw [if_pos hspace, if_neg hclosed]
  | @back k hspace hk =>
    obtain ⟨-, -, -, hki, hkspace, -⟩ := nearest_some hk
    have hlt := lt_of_byteAt (by decide) hkspace
    refine ⟨write st.buffer k 10, ?_, hlt,
      fun hcopied => (hcopied.mono hki).newline le_rfl hkspace, if_neg hlt.ne'⟩
    rw [if_neg hspace, hk]
    exact hgo _ hnew rfl
  | none hspace hk =>
    refine ⟨st.buffer, ?_, hi, id, rfl⟩
    rw [if_neg hspace, hk]
    exact hgo _ hnew rfl

end Steps

section Ending

variable {string : List UInt8} {lineWidth : ℕ} {unicode : Bool} {maxLines : ℕ}

theorem step_done {st : State} (hplace : st.place = .done) :
    step string lineWidth unicode maxLines st = st := by
  rw [step, hplace]

/-- What holds before every round of a run that is never stuck. -/
def Holds (string : List UInt8) (lineWidth : ℕ) (unicode : Bool) (maxLines : ℕ) (st : State) :
    Prop :=
  match st.place with
  | .outer => st.i ≤ string.length ∧ Copied string st.buffer st.i ∧
      (st.i < string.length → Laid string lineWidth unicode maxLines st.i st.i 1 st.lines)
  | .inner => Laid string lineWidth unicode maxLines st.pos st.i st.counter st.lines ∧
      Copied string st.buffer st.i
  | .done => Wrapped string st.buffer

/-- Every line starts behind the one before, and every character is behind the one before. -/
def remaining (len : ℕ) (st : State) : ℕ :=
  match st.place with
  | .outer => (len + 1 - st.i) * (len + 3)
  | .inner => (len - st.pos) * (len + 3) + (len - st.i) + 1
  | .done => 0

theorem wrapped_terminated {buffer : ℕ → UInt8} (h : Copied string buffer string.length) :
    Wrapped string (write buffer string.length 0) :=
  ⟨fun j hj => by rw [write, if_neg hj.ne]; exact h j hj, if_pos rfl⟩

theorem outer_lower (hlen : string.length < 2 ^ 32) {st : State} (hplace : st.place = .outer)
    (h : Holds string lineWidth unicode maxLines st) :
    Holds string lineWidth unicode maxLines (step string lineWidth unicode maxLines st) ∧
      remaining string.length (step string lineWidth unicode maxLines st) <
        remaining string.length st := by
  rw [Holds, hplace] at h
  obtain ⟨hi, hcopied, hlaid⟩ := h
  have hmod : string.length % 2 ^ 32 = string.length := Nat.mod_eq_of_lt hlen
  rw [step, hplace]
  dsimp only
  rw [hmod]
  split_ifs with hlt
  · refine ⟨⟨hlaid hlt, hcopied⟩, ?_⟩
    have hsplit : string.length + 1 - st.i = string.length - st.i + 1 := by omega
    simp only [remaining, hplace, hsplit, Nat.add_mul, Nat.one_mul]
    omega
  · have hend : st.i = string.length := by omega
    rw [hend] at hcopied ⊢
    refine ⟨wrapped_terminated hcopied, ?_⟩
    simp only [remaining, hplace, hend, Nat.add_sub_cancel_left, Nat.one_mul]
    omega

theorem inner_lower (hlen : string.length < 2 ^ 32) (hwidth : 1 ≤ lineWidth)
    (hstuck : ¬Stuck string lineWidth unicode maxLines) {st : State} (hplace : st.place = .inner)
    (h : Holds string lineWidth unicode maxLines st) :
    Holds string lineWidth unicode maxLines (step string lineWidth unicode maxLines st) ∧
      remaining string.length (step string lineWidth unicode maxLines st) <
        remaining string.length st := by
  rw [Holds, hplace] at h
  obtain ⟨hlaid, hcopied⟩ := h
  have hwithin := hlaid.within
  have hbefore : remaining string.length st =
      (string.length - st.pos) * (string.length + 3) + (string.length - st.i) + 1 := by
    rw [remaining, hplace]
  by_cases hroom : st.counter ≤ lineWidth
  · rcases hwithin.inside.eq_or_lt with hend | hi
    · have hstep : step string lineWidth unicode maxLines st =
          { st with place := .done, buffer := write st.buffer st.i 0 } := by
        rw [step, hplace]
        dsimp only
        rw [if_pos hroom, Nat.mod_eq_of_lt hlen, if_pos hend]
      rw [hstep, hbefore]
      rw [hend] at hcopied ⊢
      exact ⟨wrapped_terminated hcopied, Nat.succ_pos _⟩
    · obtain ⟨buffer, hstep, hnext, -⟩ :=
        @step_char string lineWidth unicode maxLines st hlen hplace hroom hi
      obtain ⟨hpos, hle⟩ := charLen_le hi
      rw [hstep, hbefore]
      refine ⟨⟨hlaid.char hroom hi, hnext hcopied⟩, ?_⟩
      simp only [remaining]
      omega
  · have hfull := Nat.lt_of_not_le hroom
    have hforward := break_forward hwidth hlaid hfull hstuck
    obtain ⟨buffer, hstep, hinside, hnext, -⟩ :=
      @step_line string lineWidth unicode maxLines st hlen hplace hfull hwithin.inside hforward
    rw [hstep, hbefore]
    refine ⟨⟨hinside, hnext hcopied, fun hi => hlaid.line hfull hforward hi⟩, ?_⟩
    have hmul := Nat.mul_le_mul_right (string.length + 3) (show string.length + 1 -
      (lineBreak string maxLines st.i st.lines).1 ≤ string.length - st.pos by omega)
    simp only [remaining]
    omega

theorem wraps_of_free (hlen : string.length < 2 ^ 32) (hwidth : 1 ≤ lineWidth)
    (hstuck : ¬Stuck string lineWidth unicode maxLines) :
    Wraps string lineWidth unicode maxLines := by
  intro former
  have hstart : Holds string lineWidth unicode maxLines (.start former) :=
    ⟨Nat.zero_le _, fun j hj => absurd hj (Nat.not_lt_zero j),
      fun hpos => .start (List.length_pos_iff.mp hpos)⟩
  have hlower : ∀ st, Holds string lineWidth unicode maxLines st → Running st →
      Holds string lineWidth unicode maxLines (step string lineWidth unicode maxLines st) ∧
        remaining string.length (step string lineWidth unicode maxLines st) <
          remaining string.length st := fun st h hrun => by
    cases hplace : st.place with
    | outer => exact outer_lower hlen hplace h
    | inner => exact inner_lower hlen hwidth hstuck hplace h
    | done => exact absurd hplace hrun
  have hends := ends_of_measure (remaining string.length) hlower hstart le_rfl
  have hend := hends.keeps hstart fun st h => by
    by_cases hrun : Running st
    · exact (hlower st h hrun).1
    · rwa [step_done (not_not.mp hrun)]
  rw [Holds, not_not.mp hends.stopped] at hend
  exact ⟨_, hends, hend⟩

end Ending

section Stopping

variable {string : List UInt8} {lineWidth : ℕ} {unicode : Bool} {maxLines : ℕ}

theorem step_below (hlen : 2 ^ 32 ≤ string.length) {st : State} (hi : st.i < 2 ^ 32) :
    (step string lineWidth unicode maxLines st).i < 2 ^ 32 ∧
      (step string lineWidth unicode maxLines st).buffer string.length =
        st.buffer string.length := by
  have hwrite : ∀ k b, k ≤ st.i → write st.buffer k b string.length = st.buffer string.length :=
    fun k b hk => if_neg (by omega)
  have hgo : ∀ t : State, (goOn t).i = t.i ∧ (goOn t).buffer = t.buffer := fun t => by
    rw [goOn]
    split_ifs <;> exact ⟨rfl, rfl⟩
  cases hplace : st.place with
  | outer =>
    rw [step, hplace]
    dsimp only
    split_ifs
    · exact ⟨hi, rfl⟩
    · exact ⟨hi, hwrite _ _ le_rfl⟩
  | done =>
    rw [step_done hplace]
    exact ⟨hi, rfl⟩
  | inner =>
    rw [step, hplace]
    dsimp only
    by_cases hroom : st.counter ≤ lineWidth
    · rw [if_pos hroom]
      by_cases hend : st.i = string.length % 2 ^ 32
      · rw [if_pos hend]
        exact ⟨hi, hwrite _ _ le_rfl⟩
      · obtain ⟨hbelow, hkeep⟩ :=
          @copy_below string (doRounds (charLen string st.i)) st.i hi st.buffer
        rw [if_neg hend]
        exact ⟨hbelow, hkeep _ hlen⟩
    · rw [if_neg hroom, lineFull]
      split_ifs
      · exact ⟨Nat.mod_lt _ (by decide), hwrite _ _ le_rfl⟩
      · exact ⟨hi, rfl⟩
      · cases hk : nearest string maxLines st.i st.lines with
        | none => exact ⟨(hgo st).1 ▸ hi, congrFun (hgo st).2 _⟩
        | some k =>
          obtain ⟨-, hnear, -, hki, -⟩ := nearest_some hk
          refine ⟨?_, ?_⟩
          · rw [(hgo _).1]
            exact lt_of_le_of_lt (Nat.succ_le_succ hki) (by omega : st.i + 1 < 2 ^ 32)
          · rw [(hgo _).2]
            exact hwrite k _ hki

theorem short_of_wraps (h : Wraps string lineWidth unicode maxLines) :
    string.length < 2 ^ 32 := by
  by_contra hlen
  have hlen : 2 ^ 32 ≤ string.length := Nat.le_of_not_lt hlen
  obtain ⟨st, hends, hwrapped⟩ := h fun _ => 1
  have hkept := hends.keeps (I := fun st => st.i < 2 ^ 32 ∧ st.buffer string.length = 1)
    ⟨by decide, rfl⟩ fun st hst => by
      obtain ⟨hi, hbuffer⟩ := @step_below string lineWidth unicode maxLines hlen st hst.1
      exact ⟨hi, hbuffer.trans hst.2⟩
  rw [hwrapped.terminated] at hkept
  exact absurd hkept.2 (by decide)

theorem reached (hlen : string.length < 2 ^ 32) {pos i counter lines : ℕ}
    (h : Laid string lineWidth unicode maxLines pos i counter lines) (former : ℕ → UInt8) :
    ∃ n buffer, (step string lineWidth unicode maxLines)^[n] (.start former) =
        ⟨.inner, buffer, i, pos, counter, lines⟩ ∧
      buffer string.length = former string.length := by
  have henter : ∀ (buffer : ℕ → UInt8) (i pos counter lines : ℕ), i < string.length →
      step string lineWidth unicode maxLines ⟨.outer, buffer, i, pos, counter, lines⟩ =
        ⟨.inner, buffer, i, i, 1, lines⟩ := fun buffer i pos counter lines hi => by
    rw [step, Nat.mod_eq_of_lt hlen]
    exact if_pos hi
  induction h with
  | start hne => exact ⟨1, former, henter _ _ _ _ _ (List.length_pos_iff.mpr hne), rfl⟩
  | char h hroom hi ih =>
    obtain ⟨n, buffer, hrun, hkept⟩ := ih
    obtain ⟨buffer', hstep, -, hkept'⟩ := @step_char string lineWidth unicode maxLines
      ⟨.inner, buffer, _, _, _, _⟩ hlen rfl hroom hi
    refine ⟨n + 1, buffer', ?_, hkept'.trans hkept⟩
    rw [Function.iterate_succ_apply', hrun, hstep]
  | line h hfull hnew hi ih =>
    obtain ⟨n, buffer, hrun, hkept⟩ := ih
    obtain ⟨buffer', hstep, -, -, hkept'⟩ := @step_line string lineWidth unicode maxLines
      ⟨.inner, buffer, _, _, _, _⟩ hlen rfl hfull h.within.inside hnew
    refine ⟨n + 2, buffer', ?_, hkept'.trans hkept⟩
    rw [Function.iterate_succ_apply', Function.iterate_succ_apply', hrun, hstep,
      henter _ _ _ _ _ hi]

/-- A stuck line leaves the loop before the terminator is written. -/
theorem not_stuck (hlen : string.length < 2 ^ 32) (h : Wraps string lineWidth unicode maxLines) :
    ¬Stuck string lineWidth unicode maxLines := by
  rintro ⟨pos, i, counter, lines, hlaid, hfull, hopen, hnear, hpos, hspace, hsolid⟩
  obtain ⟨st, hends, hwrapped⟩ := h fun _ => 1
  obtain ⟨n, buffer, hrun, hkept⟩ := reached hlen hlaid fun _ => 1
  have hle : pos ≤ i := by
    have hfirst := hlaid.within.first
    omega
  have hk : nearest string maxLines i lines = some (pos - 1) := by
    cases hk : nearest string maxLines i lines with
    | none =>
      rcases nearest_none hk with hclosed | hfar | hnone
      · exact absurd hopen hclosed
      · omega
      · exact absurd hspace (hnone (pos - 1) (by omega) (by omega))
    | some k =>
      obtain ⟨-, -, -, hki, hkspace, hafter⟩ := nearest_some hk
      rcases lt_trichotomy k (pos - 1) with hlt | rfl | hgt
      · exact absurd hspace (hafter _ hlt (by omega))
      · rfl
      · exact absurd hkspace (hsolid k (by omega) hki)
  have hexit : step string lineWidth unicode maxLines ⟨.inner, buffer, i, pos, counter, lines⟩ =
      ⟨.done, write buffer (pos - 1) 10, pos, pos, counter, lines + 1⟩ := by
    have hback : pos - 1 + 1 = pos := by omega
    rw [step]
    dsimp only
    rw [if_neg (Nat.not_le_of_lt hfull), lineFull, if_neg (hsolid i hle le_rfl), hk]
    dsimp only
    rw [hback]
    exact if_pos ⟨rfl, lt_of_le_of_lt hle hnear⟩
  have hdone : ¬Running ((step string lineWidth unicode maxLines)^[n + 1] (.start fun _ => 1)) := by
    rw [Function.iterate_succ_apply', hrun, hexit]
    exact not_not.mpr rfl
  have hst := hends.eq_iterate (fun u hu => step_done (not_not.mp hu)) hdone
  rw [Function.iterate_succ_apply', hrun, hexit] at hst
  have hzero := hwrapped.terminated
  rw [hst] at hzero
  have hend : write buffer (pos - 1) 10 string.length = 1 := by
    have hinside := hlaid.within.inside
    rw [write, if_neg (by omega), hkept]
  exact absurd (hend.symm.trans hzero) (by decide)

/-- When the text is wrapped. -/
theorem wraps_iff (string : List UInt8) (lineWidth : ℕ) (unicode : Bool) (maxLines : ℕ)
    (hwidth : 1 ≤ lineWidth) :
    Wraps string lineWidth unicode maxLines ↔
      string.length < 2 ^ 32 ∧ ¬Stuck string lineWidth unicode maxLines := by
  constructor
  · intro h
    exact ⟨short_of_wraps h, not_stuck (short_of_wraps h) h⟩
  · rintro ⟨hlen, hstuck⟩
    exact wraps_of_free hlen hwidth hstuck

/-- A line without a space. -/
theorem word_wraps : Wraps [98, 98] 1 true 0 := by
  refine (wraps_iff _ _ _ _ le_rfl).mpr ⟨by decide, ?_⟩
  rintro ⟨pos, i, counter, lines, -, -, -, -, -, hspace, -⟩
  have hlt : pos - 1 < 2 := lt_of_byteAt (by decide) hspace
  rcases Nat.le_one_iff_eq_zero_or_eq_one.mp (Nat.le_of_lt_succ hlt) with hzero | hone
  · rw [hzero] at hspace
    exact absurd hspace (by decide)
  · rw [hone] at hspace
    exact absurd hspace (by decide)

/-- Behind the space the line is full again: no terminator is written. -/
theorem full_word_not_wrapped :
    ¬∀ (string : List UInt8) (lineWidth : ℕ) (unicode : Bool) (maxLines : ℕ),
      (∀ b ∈ string, b ≠ 0) → 1 ≤ lineWidth → Wraps string lineWidth unicode maxLines := by
  intro hall
  obtain ⟨st, hends, hwrapped⟩ :=
    hall [97, 32, 98, 98, 98, 98] 3 true 0 (by simp) (by decide) fun _ => 1
  have hdone : ¬Running ((step [97, 32, 98, 98, 98, 98] 3 true 0)^[10] (.start fun _ => 1)) := by
    decide
  have hst := hends.eq_iterate (fun u hu => step_done (not_not.mp hu)) hdone
  have hzero := hwrapped.terminated
  rw [hst] at hzero
  exact absurd hzero (by decide)

end Stopping

end RetroArch.Text.WordWrap
