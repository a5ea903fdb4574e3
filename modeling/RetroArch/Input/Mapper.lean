/- The input mapper: every control of a pad stands in for the control it is mapped to. -/

import Mathlib.Algebra.Order.Ring.Rat
import Mathlib.Data.List.Basic

namespace RetroArch.Input.Mapper

abbrev RARCH_FIRST_CUSTOM_BIND : ℕ := 16
abbrev RARCH_ANALOG_BIND_LIST_END : ℕ := 24
def RARCH_UNMAPPED : ℕ := 1024

/-- `input_remap_ids` of one user: control numbers, or `RARCH_UNMAPPED`. -/
structure RemapIds where
  ids : ℕ → ℕ
  valid : ∀ k < RARCH_ANALOG_BIND_LIST_END,
    ids k < RARCH_ANALOG_BIND_LIST_END ∨ ids k = RARCH_UNMAPPED

/-- What the drivers say about the pad of one user: the answers to the joypad queries, one button
at a time and all at once, the axis and the key behind every button, and the four axes of the
sticks. -/
structure Pad where
  press : ℕ → Int16
  mask : Int16
  axis : ℕ → Int16
  key : ℕ → Bool
  stick : ℕ → Int16
  mask_bits : ∀ id < RARCH_FIRST_CUSTOM_BIND, mask &&& (1 <<< Int16.ofNat id) ≠ 0 ↔ press id ≠ 0

/-- `input_joypad_analog` of a button. -/
def inputJoypadAnalog (pad : Pad) (ident : ℕ) : Int16 :=
  let res := Int16.ofInt (pad.axis ident).toInt.natAbs
  if res = 0 then if pad.key ident then 0x7fff else 0 else res

/-- `analog_buttons` of `input_get_state_for_port`; the member is an `uint16_t`. -/
def analogButtons (pad : Pad) (i : ℕ) : UInt16 :=
  if pad.press i ≠ 0 then (inputJoypadAnalog pad i).toUInt16 else 0

/-- `analogs` of `input_get_state_for_port`: two halves for each axis. -/
def analogs (pad : Pad) (j : ℕ) : Int16 :=
  let val := pad.stick (j / 2)
  if j % 2 = 0 then if 0 ≤ val then val else 0 else if 0 ≤ val then 0 else val

/-- One user's part of the `input_mapper_t`. -/
structure Row where
  buttons : ℕ → Bool
  analogValue : ℕ → Int16

def Row.clear : Row := ⟨fun _ => false, fun _ => 0⟩

def Row.setButton (row : Row) (b : ℕ) : Row :=
  { row with buttons := fun i => if i = b then true else row.buttons i }

def Row.setAnalog (row : Row) (a : ℕ) (val : Int16) : Row :=
  { row with analogValue := fun i => if i = a then val else row.analogValue i }

/-- What a button is worth on the half axis it is mapped to. -/
def buttonValue (pad : Pad) (j remapButton : ℕ) : Int16 :=
  let invert : ℤ := if remapButton % 2 ≠ 0 then -1 else 1
  Int16.ofInt ((if analogButtons pad j ≠ 0 then ((analogButtons pad j).toNat : ℤ) else 32767) *
    invert)

def pollButton (ids : ℕ → ℕ) (pad : Pad) (row : Row) (j : ℕ) : Row :=
  let remapButton := ids j
  if pad.press j ≠ 0 ∧ j ≠ remapButton ∧ remapButton ≠ RARCH_UNMAPPED then
    if remapButton < RARCH_FIRST_CUSTOM_BIND then row.setButton remapButton
    else row.setAnalog (remapButton - RARCH_FIRST_CUSTOM_BIND) (buttonValue pad j remapButton)
  else row

/-- What a half axis is worth on another one. -/
def axisValue (pad : Pad) (k remapAxis : ℕ) : Int16 :=
  let invert : ℤ :=
    if k % 2 = 0 ∧ remapAxis % 2 ≠ 0 ∨ k % 2 ≠ 0 ∧ remapAxis % 2 = 0 then -1 else 1
  Int16.ofInt ((analogs pad (k - RARCH_FIRST_CUSTOM_BIND)).toInt * invert)

/-- The value of the axis is beyond the threshold; `limit` is `threshold * 32767`. -/
def Beyond (limit : ℚ) (val : Int16) : Prop := limit < val.toInt.natAbs

instance (limit : ℚ) (val : Int16) : Decidable (Beyond limit val) :=
  inferInstanceAs (Decidable (_ < _))

/-- The number of a bind below the first one wraps, to one that is not below the size of
`analog_value[i]` in bytes. -/
def pollAxis (ids : ℕ → ℕ) (limit : ℚ) (pad : Pad) (row : Row) (j : ℕ) : Row :=
  let k := j + RARCH_FIRST_CUSTOM_BIND
  let remapAxis := ids k
  if 0 < (analogs pad j).toInt.natAbs ∧ k ≠ remapAxis ∧ remapAxis ≠ RARCH_UNMAPPED then
    if remapAxis < RARCH_FIRST_CUSTOM_BIND ∧ Beyond limit (analogs pad j) then
      row.setButton remapAxis
    else
      let bind := (remapAxis + 2 ^ 32 - RARCH_FIRST_CUSTOM_BIND) % 2 ^ 32
      if bind < 8 * 2 then row.setAnalog bind (axisValue pad k remapAxis) else row
  else row

/-- What `input_mapper_poll` does for a user with a gamepad. -/
def pollGamepad (ids : ℕ → ℕ) (limit : ℚ) (pad : Pad) : Row :=
  (List.range 8).foldl (pollAxis ids limit pad)
    ((List.range RARCH_FIRST_CUSTOM_BIND).foldl (pollButton ids pad) .clear)

/-- `input_libretro_device` without its subclass. -/
inductive LibretroDevice
  | keyboard
  | joypad
  | analog
  | other
deriving DecidableEq

structure User where
  device : LibretroDevice
  table : RemapIds
  pad : Pad

/-- `input_mapper_poll`, as far as it is about gamepads. -/
def inputMapperPoll (limit : ℚ) (users : ℕ → User) (maxUsers : ℕ) (handle : ℕ → Row) : ℕ → Row :=
  (List.range maxUsers).foldl (fun handle i =>
    if (users i).device = .joypad ∨ (users i).device = .analog then
      fun k => if k = i then pollGamepad (users i).table.ids limit (users i).pad else handle k
    else handle) handle

inductive Device
  | joypad
  | analog

/-- `input_mapper_state` for the devices of a gamepad. -/
def inputMapperState (row : Row) (ret : Int16) : Device → ℕ → ℕ → Int16
  | .joypad, _, id => if row.buttons id then 1 else ret
  | .analog, idx, id =>
    if idx < 2 ∧ id < 2 then
      let offset := idx * 4 + id * 2
      let val1 := row.analogValue offset
      let val2 := row.analogValue (offset + 1)
      let val := if val1 ≠ 0 then val1 else val2
      if val1 ≠ 0 ∨ val2 ≠ 0 then ret ||| val else ret
    else ret

/-- `input_state_device` with remapping enabled and all binds valid, without overlay, remote pad or
turbo. -/
def inputStateDevice (ids : ℕ → ℕ) (row : Row) (ret : Int16) (device : Device) (idx id : ℕ)
    (buttonMask : Bool) : Int16 :=
  let res : Int16 :=
    match device with
    | .joypad =>
      if id ≠ ids id then 0
      else if buttonMask then
        if ret &&& (1 <<< Int16.ofNat id) ≠ 0 then 1 <<< Int16.ofNat id else 0
      else ret
    | .analog =>
      let offset := RARCH_FIRST_CUSTOM_BIND + idx * 4 + id * 2
      if idx < 2 ∧ id < 2 ∧ (ids offset ≠ offset ∨ ids (offset + 1) ≠ offset + 1) then 0
      else ret
  inputMapperState row res device idx id

section Statement

variable (ids : ℕ → ℕ) (limit : ℚ) (pad : Pad)

def Deflected (k : ℕ) : Prop := analogs pad (k - RARCH_FIRST_CUSTOM_BIND) ≠ 0

/-- The control is in use: a pressed button or a deflected half axis. -/
def Live (c : ℕ) : Prop := if c < RARCH_FIRST_CUSTOM_BIND then pad.press c ≠ 0 else Deflected pad c

/-- The control acts on its target; only beyond the threshold does a half axis on a button. -/
def Acts (c : ℕ) : Prop :=
  Live pad c ∧ (RARCH_FIRST_CUSTOM_BIND ≤ c → ids c < RARCH_FIRST_CUSTOM_BIND →
    Beyond limit (analogs pad (c - RARCH_FIRST_CUSTOM_BIND)))

/-- A control that is used has the target. -/
def Hit (target : ℕ) : Prop :=
  ∃ c < RARCH_ANALOG_BIND_LIST_END, Acts ids limit pad c ∧ ids c = target

/-- The answer to the query for a button. -/
def buttonState (row : Row) (b : ℕ) (buttonMask : Bool) : Int16 :=
  inputStateDevice ids row (if buttonMask then pad.mask else pad.press b) .joypad 0 b buttonMask

/-- The answer to the query for the axis number `x`, of two sticks with two axes each. -/
def axisState (row : Row) (x : ℕ) : Int16 :=
  inputStateDevice ids row (pad.stick x) .analog (x / 2) (x % 2) false

/-- The half axis is reported in its own direction. -/
def Reported (row : Row) (a : ℕ) : Prop :=
  let val := axisState ids pad row ((a - RARCH_FIRST_CUSTOM_BIND) / 2)
  if a % 2 = 0 then 0 < val.toInt else val.toInt < 0

/-- Every control is moved to its own target. -/
structure Moved (row : Row) : Prop where
  buttons : ∀ b < RARCH_FIRST_CUSTOM_BIND, ∀ buttonMask,
    buttonState ids pad row b buttonMask ≠ 0 ↔ Hit ids limit pad b
  axes : ∀ a, RARCH_FIRST_CUSTOM_BIND ≤ a → a < RARCH_ANALOG_BIND_LIST_END →
    (Reported ids pad row a ↔ Hit ids limit pad a)

end Statement

section Condition

variable (ids : ℕ → ℕ) (limit : ℚ) (pad : Pad)

/-- Another control that is used has the target. -/
def Aims (c target : ℕ) : Prop := Acts ids limit pad c ∧ ids c = target ∧ c ≠ target

def Aimed (target : ℕ) : Prop :=
  ∃ c < RARCH_ANALOG_BIND_LIST_END, Aims ids limit pad c target

/-- The control is as far out as a negative `int16_t` goes. -/
def Full (c : ℕ) : Prop :=
  if c < RARCH_FIRST_CUSTOM_BIND then pad.axis c = -32768
  else c % 2 = 1 ∧ pad.stick ((c - RARCH_FIRST_CUSTOM_BIND) / 2) = -32768

/-- The last control with this target is full. -/
def Turned (target : ℕ) : Prop :=
  ∃ c < RARCH_ANALOG_BIND_LIST_END, Aims ids limit pad c target ∧ Full pad c ∧
    ∀ c', c < c' → c' < RARCH_ANALOG_BIND_LIST_END → ¬Aims ids limit pad c' target

/-- The condition for the axis with the halves `e` and `e + 1`: nothing acts on both halves, a
half that is mapped to itself and used is acted on by another control unless both are mapped to
themselves, and the last control that acts on the positive half is not full. -/
structure Sound (e : ℕ) : Prop where
  apart : ¬(Hit ids limit pad e ∧ Hit ids limit pad (e + 1))
  plus : ids e = e → Live pad e → Aimed ids limit pad e ∨ ids (e + 1) = e + 1
  minus : ids (e + 1) = e + 1 → Live pad (e + 1) → Aimed ids limit pad (e + 1) ∨ ids e = e
  unturned : ¬Turned ids limit pad e

end Condition

theorem toInt_or_neg (x y : Int16) : (x ||| y).toInt < 0 ↔ x.toInt < 0 ∨ y.toInt < 0 := by
  have hmsb : ∀ z : Int16, z.toInt < 0 ↔ z.toBitVec.msb = true := fun z => by
    rw [BitVec.msb_eq_toInt, decide_eq_true_eq]
    rfl
  rw [hmsb, hmsb, hmsb, Int16.toBitVec_or, BitVec.msb_or, Bool.or_eq_true]

theorem or_eq_zero (x y : Int16) : x ||| y = 0 ↔ x = 0 ∧ y = 0 := by
  rw [← Int16.toBitVec_inj, ← Int16.toBitVec_inj, ← Int16.toBitVec_inj, Int16.toBitVec_or]
  exact BitVec.or_eq_zero_iff

theorem toInt_eq_zero (x : Int16) : x.toInt = 0 ↔ x = 0 := by
  rw [← Int16.toInt_inj]
  rfl

theorem toInt_or_pos (x y : Int16) :
    0 < (x ||| y).toInt ↔ 0 ≤ x.toInt ∧ 0 ≤ y.toInt ∧ (0 < x.toInt ∨ 0 < y.toInt) := by
  have hneg := toInt_or_neg x y
  have hzero := or_eq_zero x y
  rw [← toInt_eq_zero, ← toInt_eq_zero, ← toInt_eq_zero] at hzero
  omega

section Polling

variable {ids : ℕ → ℕ} {limit : ℚ} {pad : Pad}

theorem binds : RARCH_FIRST_CUSTOM_BIND = 16 ∧ RARCH_ANALOG_BIND_LIST_END = 24 ∧
    RARCH_UNMAPPED = 1024 := ⟨rfl, rfl, rfl⟩

/-- What a control is worth on the half axis it is mapped to. -/
def worth (pad : Pad) (c target : ℕ) : Int16 :=
  if c < RARCH_FIRST_CUSTOM_BIND then buttonValue pad c target else axisValue pad c target

def pollControl (ids : ℕ → ℕ) (limit : ℚ) (pad : Pad) (row : Row) (c : ℕ) : Row :=
  if c < RARCH_FIRST_CUSTOM_BIND then pollButton ids pad row c
  else pollAxis ids limit pad row (c - RARCH_FIRST_CUSTOM_BIND)

theorem pollGamepad_eq (ids : ℕ → ℕ) (limit : ℚ) (pad : Pad) :
    pollGamepad ids limit pad =
      (List.range RARCH_ANALOG_BIND_LIST_END).foldl (pollControl ids limit pad) .clear := by
  have hsplit : List.range RARCH_ANALOG_BIND_LIST_END =
      List.range RARCH_FIRST_CUSTOM_BIND ++
        (List.range 8).map (RARCH_FIRST_CUSTOM_BIND + ·) := rfl
  have hbuttons : (List.range RARCH_FIRST_CUSTOM_BIND).foldl (pollControl ids limit pad) .clear =
      (List.range RARCH_FIRST_CUSTOM_BIND).foldl (pollButton ids pad) .clear :=
    List.foldl_ext _ _ _ fun row c hc => if_pos (List.mem_range.mp hc)
  rw [hsplit, List.foldl_append, hbuttons, List.foldl_map, pollGamepad]
  refine List.foldl_ext _ _ _ fun row j _ => ?_
  rw [pollControl, if_neg (by omega), Nat.add_sub_cancel_left]

theorem aims_button {c : ℕ} (hc : c < RARCH_FIRST_CUSTOM_BIND) (target : ℕ) :
    Aims ids limit pad c target ↔ pad.press c ≠ 0 ∧ ids c = target ∧ c ≠ target := by
  rw [Aims, Acts, Live, if_pos hc]
  have hvacuous : ¬RARCH_FIRST_CUSTOM_BIND ≤ c := Nat.not_le_of_lt hc
  tauto

theorem aims_axis {c : ℕ} (hc : RARCH_FIRST_CUSTOM_BIND ≤ c) (target : ℕ) :
    Aims ids limit pad c target ↔ analogs pad (c - RARCH_FIRST_CUSTOM_BIND) ≠ 0 ∧
      (ids c < RARCH_FIRST_CUSTOM_BIND →
        Beyond limit (analogs pad (c - RARCH_FIRST_CUSTOM_BIND))) ∧ ids c = target ∧
      c ≠ target := by
  rw [Aims, Acts, Live, if_neg (Nat.not_lt_of_le hc), Deflected]
  tauto

/-- What one control does to the row. -/
structure Steps (ids : ℕ → ℕ) (limit : ℚ) (pad : Pad) (c : ℕ) (row row' : Row) : Prop where
  buttons : ∀ b < RARCH_FIRST_CUSTOM_BIND,
    row'.buttons b = true ↔ Aims ids limit pad c b ∨ row.buttons b = true
  worth : ∀ x < 8, Aims ids limit pad c (x + RARCH_FIRST_CUSTOM_BIND) →
    row'.analogValue x = worth pad c (x + RARCH_FIRST_CUSTOM_BIND)
  kept : ∀ x < 8, ¬Aims ids limit pad c (x + RARCH_FIRST_CUSTOM_BIND) →
    row'.analogValue x = row.analogValue x

theorem steps_button {c : ℕ} (hc : c < RARCH_FIRST_CUSTOM_BIND) (row : Row) :
    Steps ids limit pad c row (pollButton ids pad row c) := by
  have haims := @aims_button ids limit pad c hc
  have hbinds := binds
  rw [pollButton]
  split_ifs with hlive htarget
  · refine ⟨fun b hb => ?_, fun x hx h => ?_, fun x hx h => rfl⟩
    · simp only [Row.setButton, haims]
      grind
    · have := (haims _).mp h
      omega
  · refine ⟨fun b hb => ?_, fun x hx h => ?_, fun x hx h => ?_⟩
    · simp only [Row.setAnalog, haims]
      grind
    · obtain ⟨-, hids, -⟩ := (haims _).mp h
      simp only [Row.setAnalog, worth, if_pos hc, hids, Nat.add_sub_cancel, if_true]
    · rw [haims] at h
      exact if_neg fun heq => h ⟨hlive.1, by omega, by omega⟩
  · refine ⟨fun b hb => ?_, fun x hx h => ?_, fun x hx h => rfl⟩
    · have hnot : ¬Aims ids limit pad c b := fun h => by
        obtain ⟨hpress, hids, hne⟩ := (haims b).mp h
        exact hlive ⟨hpress, by omega, by omega⟩
      exact (or_iff_right hnot).symm
    · obtain ⟨hpress, hids, hne⟩ := (haims _).mp h
      exact absurd ⟨hpress, by omega, by omega⟩ hlive

theorem natAbs_pos (x : Int16) : 0 < x.toInt.natAbs ↔ x ≠ 0 := by
  rw [Int.natAbs_pos, Ne, toInt_eq_zero]

theorem steps_axis (table : RemapIds) {c : ℕ} (hc : RARCH_FIRST_CUSTOM_BIND ≤ c)
    (hlast : c < RARCH_ANALOG_BIND_LIST_END) (row : Row) :
    Steps table.ids limit pad c row
      (pollAxis table.ids limit pad row (c - RARCH_FIRST_CUSTOM_BIND)) := by
  have haims := @aims_axis table.ids limit pad c hc
  have hbinds := binds
  have hworth : ∀ target, worth pad c target = axisValue pad c target := fun target =>
    if_neg (Nat.not_lt_of_le hc)
  have hvalid := table.valid c hlast
  rw [pollAxis, Nat.sub_add_cancel hc]
  simp only [natAbs_pos]
  split_ifs with hlive hbeyond hbind
  · refine ⟨fun b hb => ?_, fun x hx h => ?_, fun x hx h => rfl⟩
    · simp only [Row.setButton, haims]
      grind
    · have := (haims _).mp h
      omega
  · have htarget : RARCH_FIRST_CUSTOM_BIND ≤ table.ids c := by omega
    have hplace : (table.ids c + 2 ^ 32 - RARCH_FIRST_CUSTOM_BIND) % 2 ^ 32 =
        table.ids c - RARCH_FIRST_CUSTOM_BIND := by
      omega
    rw [hplace]
    refine ⟨fun b hb => ?_, fun x hx h => ?_, fun x hx h => ?_⟩
    · have hnot : ¬Aims table.ids limit pad c b := fun h => by
        have := (haims b).mp h
        omega
      exact (or_iff_right hnot).symm
    · obtain ⟨-, -, hids, -⟩ := (haims _).mp h
      simp only [Row.setAnalog, hworth, hids, Nat.add_sub_cancel, if_true]
    · rw [haims] at h
      exact if_neg fun heq => h ⟨hlive.1, fun hlow => by omega, by omega, by omega⟩
  · have hlow : table.ids c < RARCH_FIRST_CUSTOM_BIND := by
      rcases hvalid with hvalid | hvalid
      · omega
      · exact absurd hvalid hlive.2.2
    have hnot : ∀ target, ¬Aims table.ids limit pad c target := fun target h =>
      hbeyond ⟨hlow, ((haims target).mp h).2.1 hlow⟩
    exact ⟨fun b hb => (or_iff_right (hnot b)).symm, fun x hx h => absurd h (hnot _),
      fun x hx h => rfl⟩
  · have hnot : ∀ target < RARCH_ANALOG_BIND_LIST_END, ¬Aims table.ids limit pad c target :=
      fun target htarget h => by
        obtain ⟨hval, -, hids, hne⟩ := (haims target).mp h
        exact hlive ⟨hval, by omega, by omega⟩
    exact ⟨fun b hb => (or_iff_right (hnot b (by omega))).symm,
      fun x hx h => absurd h (hnot _ (by omega)), fun x hx h => rfl⟩

theorem steps_control (table : RemapIds) {c : ℕ} (hlast : c < RARCH_ANALOG_BIND_LIST_END)
    (row : Row) : Steps table.ids limit pad c row (pollControl table.ids limit pad row c) := by
  rw [pollControl]
  split_ifs with hc
  · exact steps_button hc row
  · exact steps_axis table (Nat.le_of_not_lt hc) hlast row

/-- The row when the controls below `n` have been polled: the last control with a target says what
a half axis is worth. -/
structure Polled (ids : ℕ → ℕ) (limit : ℚ) (pad : Pad) (n : ℕ) (row : Row) : Prop where
  buttons : ∀ b < RARCH_FIRST_CUSTOM_BIND,
    row.buttons b = true ↔ ∃ c < n, Aims ids limit pad c b
  zero : ∀ x < 8, (∀ c < n, ¬Aims ids limit pad c (x + RARCH_FIRST_CUSTOM_BIND)) →
    row.analogValue x = 0
  last : ∀ x < 8, ∀ c < n, Aims ids limit pad c (x + RARCH_FIRST_CUSTOM_BIND) →
    (∀ c', c < c' → c' < n → ¬Aims ids limit pad c' (x + RARCH_FIRST_CUSTOM_BIND)) →
    row.analogValue x = worth pad c (x + RARCH_FIRST_CUSTOM_BIND)

theorem Polled.step {n : ℕ} {row row' : Row} (h : Polled ids limit pad n row)
    (hstep : Steps ids limit pad n row row') : Polled ids limit pad (n + 1) row' where
  buttons b hb := by
    rw [hstep.buttons b hb, h.buttons b hb, Nat.exists_lt_succ_right, or_comm]
  zero x hx hnone := by
    rw [hstep.kept x hx (hnone n n.lt_succ_self)]
    exact h.zero x hx fun c hc => hnone c (Nat.lt_succ_of_lt hc)
  last x hx c hc haims hlast := by
    rcases Nat.lt_succ_iff_lt_or_eq.mp hc with hlt | rfl
    · rw [hstep.kept x hx (hlast n hlt n.lt_succ_self)]
      exact h.last x hx c hlt haims fun c' hc' hn => hlast c' hc' (Nat.lt_succ_of_lt hn)
    · exact hstep.worth x hx haims

theorem polled (table : RemapIds) (limit : ℚ) (pad : Pad) :
    Polled table.ids limit pad RARCH_ANALOG_BIND_LIST_END
      (pollGamepad table.ids limit pad) := by
  have hrun : ∀ n ≤ RARCH_ANALOG_BIND_LIST_END, Polled table.ids limit pad n
      ((List.range n).foldl (pollControl table.ids limit pad) .clear) := by
    intro n hn
    induction n with
    | zero =>
      exact ⟨fun b _ => by simp [Row.clear], fun x _ _ => rfl,
        fun x _ c hc => absurd hc (Nat.not_lt_zero c)⟩
    | succ n ih =>
      rw [List.range_succ, List.foldl_append]
      exact (ih (Nat.le_of_succ_le hn)).step (steps_control table hn _)
  rw [pollGamepad_eq]
  exact hrun _ le_rfl

end Polling

section Worth

variable {pad : Pad}

theorem toInt_bounds (v : Int16) : -32768 ≤ v.toInt ∧ v.toInt ≤ 32767 :=
  ⟨v.le_toInt, Int.le_of_lt_add_one v.toInt_lt⟩

theorem toInt_eq_least (v : Int16) : v.toInt = -32768 ↔ v = -32768 :=
  Int16.toInt_inj (y := -32768)

theorem toNat_natAbs (v : Int16) :
    (Int16.ofInt v.toInt.natAbs).toUInt16.toNat = v.toInt.natAbs := by
  have hbounds := toInt_bounds v
  have hsmall : v.toInt.natAbs < 2 ^ 16 := by omega
  calc (Int16.ofInt v.toInt.natAbs).toUInt16.toNat
      = (BitVec.ofInt 16 (v.toInt.natAbs : ℤ)).toNat := rfl
    _ = v.toInt.natAbs := by
        rw [BitVec.ofInt_natCast, BitVec.toNat_ofNat, Nat.mod_eq_of_lt hsmall]

/-- How far a button is pressed. -/
def depth (pad : Pad) (j : ℕ) : ℕ :=
  if analogButtons pad j ≠ 0 then (analogButtons pad j).toNat else 32767

theorem depth_spec {j : ℕ} (hpress : pad.press j ≠ 0) :
    1 ≤ depth pad j ∧ depth pad j ≤ 32768 ∧ (depth pad j = 32768 ↔ pad.axis j = -32768) := by
  have hbounds := toInt_bounds (pad.axis j)
  have hleast := toInt_eq_least (pad.axis j)
  have hnat := toNat_natAbs (pad.axis j)
  rw [depth, analogButtons, if_pos hpress, inputJoypadAnalog]
  by_cases hzero : Int16.ofInt (pad.axis j).toInt.natAbs = 0
  · have hflat : (pad.axis j).toInt.natAbs = 0 := by
      rw [← hnat, hzero]
      rfl
    rw [if_pos hzero, ← hleast]
    cases pad.key j with
    | true =>
      have hkey : (0x7fff : Int16).toUInt16.toNat = 32767 := rfl
      rw [if_pos rfl, if_pos (by decide), hkey]
      omega
    | false =>
      rw [if_neg Bool.false_ne_true, if_neg (show ¬Int16.toUInt16 0 ≠ 0 from not_not.mpr rfl)]
      omega
  · have hne : (Int16.ofInt (pad.axis j).toInt.natAbs).toUInt16 ≠ 0 := fun h =>
      hzero (congrArg UInt16.toInt16 h)
    have hpos : (pad.axis j).toInt.natAbs ≠ 0 := fun h => by
      rw [← hnat] at h
      exact hne (UInt16.toNat_inj.mp h)
    rw [if_neg hzero, if_pos hne, hnat, ← hleast]
    omega

theorem buttonValue_eq (pad : Pad) (c target : ℕ) :
    buttonValue pad c target =
      Int16.ofInt ((depth pad c : ℤ) * if target % 2 ≠ 0 then -1 else 1) := by
  rw [buttonValue, depth]
  split_ifs <;> rfl

theorem ofInt_sign {n : ℤ} (hlow : -32768 ≤ n) :
    (n ≤ 32767 → (Int16.ofInt n).toInt = n) ∧ (n = 32768 → (Int16.ofInt n).toInt = -32768) := by
  refine ⟨fun h => Int16.toInt_ofInt_of_le hlow (Int.lt_add_one_of_le h), fun h => ?_⟩
  rw [h]
  rfl

theorem analogs_sign {c : ℕ} (hc : RARCH_FIRST_CUSTOM_BIND ≤ c)
    (hval : analogs pad (c - RARCH_FIRST_CUSTOM_BIND) ≠ 0) :
    analogs pad (c - RARCH_FIRST_CUSTOM_BIND) = pad.stick ((c - RARCH_FIRST_CUSTOM_BIND) / 2) ∧
      (c % 2 = 0 → 0 < (analogs pad (c - RARCH_FIRST_CUSTOM_BIND)).toInt) ∧
      (c % 2 = 1 → (analogs pad (c - RARCH_FIRST_CUSTOM_BIND)).toInt < 0) := by
  have hbinds := binds
  have hparity : (c - RARCH_FIRST_CUSTOM_BIND) % 2 = c % 2 := by omega
  have hsign := mt (toInt_eq_zero (analogs pad (c - RARCH_FIRST_CUSTOM_BIND))).mp hval
  revert hval hsign
  rw [analogs, hparity]
  simp only [Int16.le_iff_toInt_le]
  have hz : (0 : Int16).toInt = 0 := rfl
  split_ifs with heven hle hle
  · exact fun _ hsign => ⟨rfl, fun _ => by omega, fun _ => by omega⟩
  · exact fun hval => absurd rfl hval
  · exact fun hval => absurd rfl hval
  · exact fun _ hsign => ⟨rfl, fun _ => by omega, fun _ => by omega⟩

theorem worth_sign {c : ℕ} (hlive : Live pad c) (target : ℕ) :
    (target % 2 = 1 → (worth pad c target).toInt < 0) ∧
      (target % 2 = 0 → ¬Full pad c → 0 < (worth pad c target).toInt) ∧
      (target % 2 = 0 → Full pad c → (worth pad c target).toInt < 0) := by
  rw [Live] at hlive
  rw [worth, Full]
  split_ifs at hlive ⊢ with hc
  · obtain ⟨hpos, hle, hfull⟩ := depth_spec hlive
    rw [buttonValue_eq, ← hfull]
    refine ⟨fun h => ?_, fun h hnot => ?_, fun h hfull => ?_⟩
    · have hvalue := (ofInt_sign (n := (depth pad c : ℤ) * -1) (by omega)).1 (by omega)
      rw [if_pos (by omega), hvalue]
      omega
    · have hvalue := (ofInt_sign (n := (depth pad c : ℤ) * 1) (by omega)).1 (by omega)
      rw [if_neg (by omega), hvalue]
      omega
    · have hvalue := (ofInt_sign (n := (depth pad c : ℤ) * 1) (by omega)).2 (by omega)
      rw [if_neg (by omega), hvalue]
      omega
  · have hbinds := binds
    obtain ⟨hstick, heven, hodd⟩ := analogs_sign (Nat.le_of_not_lt hc) hlive
    rw [← hstick, ← toInt_eq_least, axisValue]
    generalize analogs pad (c - RARCH_FIRST_CUSTOM_BIND) = val at heven hodd
    have hbounds := toInt_bounds val
    have hsame := (ofInt_sign (n := val.toInt * 1) (by omega)).1 (by omega)
    have hturn := ofInt_sign (n := val.toInt * -1) (by omega)
    split_ifs with hinvert
    · refine ⟨fun h => ?_, fun h hnot => ?_, fun h hfull => ?_⟩
      · rw [hturn.1 (by omega)]
        omega
      · rw [hturn.1 (by omega)]
        omega
      · rw [hturn.2 (by omega)]
        omega
    · rw [hsame]
      omega

end Worth

end RetroArch.Input.Mapper
