/- The buttons of a pad asked for one by one and all at once, with every source of input. -/

import Mathlib.Data.BitVec
import RetroArch.Input.Mapper

namespace RetroArch.Input.ButtonMask

open Mapper

abbrev RARCH_FIRST_META_KEY : ℕ := 35
abbrev RETRO_DEVICE_ID_JOYPAD_UP : ℕ := 4
abbrev RETRO_DEVICE_ID_JOYPAD_RIGHT : ℕ := 7

structure Overlay where
  alive : Bool
  keyPressed : ℕ → Bool

/-- What the queries for one port read, out of a movie's playback. -/
structure Sources where
  port : ℕ
  pad : Pad
  flushingInput : Bool
  blockLibretroInput : Bool
  bindValid : ℕ → Bool
  remapBindsEnable : Bool
  remapIds : ℕ → ℕ
  mapper : Option Row
  overlay : Option Overlay
  remote : Option (ℕ → Bool)
  turboPeriod : ℕ
  turboDutyCycle : ℕ
  turboCount : ℕ
  frameEnable : Bool

/-- What is left of the driver's answer; the answer for all buttons is cut down to one of them. -/
def driverState (ret : Int16) (id : ℕ) (buttonMask : Bool) : Int16 :=
  if buttonMask then
    if ret &&& (1 <<< Int16.ofNat id) ≠ 0 then 1 <<< Int16.ofNat id else 0
  else ret

def overlayState (s : Sources) (res : Int16) (id : ℕ) : Int16 :=
  match s.overlay with
  | some overlay =>
    if s.port = 0 ∧ overlay.alive ∧ overlay.keyPressed id then res ||| 1 else res
  | none => res

/-- The part of `input_state_device` before the mapper. -/
def bindState (s : Sources) (ret : Int16) (id : ℕ) (buttonMask : Bool) : Int16 :=
  if s.remote.any fun buttons => buttons id then 1
  else if id < RARCH_FIRST_META_KEY then
    if s.remapBindsEnable ∧ id ≠ s.remapIds id then 0
    else if s.bindValid id then overlayState s (driverState ret id buttonMask) id
    else 0
  else 0

/-- The part before turbo. -/
def mappedState (s : Sources) (ret : Int16) (id : ℕ) (buttonMask : Bool) : Int16 :=
  let res := bindState s ret id buttonMask
  if s.remapBindsEnable then
    match s.mapper with
    | some row => inputMapperState row res .joypad 0 id
    | none => res
  else res

def dpad (id : ℕ) : Prop := RETRO_DEVICE_ID_JOYPAD_UP ≤ id ∧ id ≤ RETRO_DEVICE_ID_JOYPAD_RIGHT

instance (id : ℕ) : Decidable (dpad id) := inferInstanceAs (Decidable (_ ∧ _))

def turboEnable (s : Sources) (res : Int16) (id : ℕ) (enable : BitVec 16) : BitVec 16 :=
  if res ≠ 0 ∧ s.frameEnable then enable ||| 1#16 <<< id
  else if res = 0 then enable &&& ~~~(1#16 <<< id)
  else enable

/-- `input_state_device` for a joypad, with the port's `enable` of the turbo buttons; dividing by a
period of zero has no result. -/
def inputStateDevice (s : Sources) (ret : Int16) (id : ℕ) (buttonMask : Bool)
    (enable : BitVec 16) : Option (Int16 × BitVec 16) :=
  let res := mappedState s ret id buttonMask
  if dpad id then some (res, enable)
  else
    let enable := turboEnable s res id enable
    if enable &&& 1#16 <<< id ≠ 0 ∧ res ≠ 0 then
      if s.turboPeriod = 0 then none
      else some (if s.turboCount % s.turboPeriod < s.turboDutyCycle then 1 else 0, enable)
    else some (res, enable)

/-- `RETRO_DEVICE_ID_JOYPAD_MASK`, or the id of a button. -/
inductive Query
  | mask
  | button (id : Fin RARCH_FIRST_CUSTOM_BIND)
deriving DecidableEq

/-- One round of the loop that makes the mask. -/
def maskRound (s : Sources) (state : Int16 × BitVec 16) (i : ℕ) : Option (Int16 × BitVec 16) :=
  (inputStateDevice s s.pad.mask i true state.2).map fun (res, enable) =>
    (if res ≠ 0 then state.1 ||| 1 <<< Int16.ofNat i else state.1, enable)

def inputState (s : Sources) (enable : BitVec 16) : Query → Option (Int16 × BitVec 16)
  | .mask =>
    if s.flushingInput ∨ s.blockLibretroInput then some (0, enable)
    else (List.range RARCH_FIRST_CUSTOM_BIND).foldlM (maskRound s) (0, enable)
  | .button id =>
    if s.flushingInput ∨ s.blockLibretroInput then some (0, enable)
    else inputStateDevice s (s.pad.press id) id false enable

/-- The turbo state after some queries. -/
def readAll (s : Sources) : List Query → BitVec 16 → Option (BitVec 16)
  | [], enable => some enable
  | q :: qs, enable => (inputState s enable q).bind fun (_, enable) => readAll s qs enable

/-- Every button is read, in whatever way. -/
def ReadsFrame (qs : List Query) : Prop := ∀ id, .mask ∈ qs ∨ .button id ∈ qs

structure MaskAgrees (s : Sources) (enable : BitVec 16) : Prop where
  defined : inputState s enable .mask = none ↔ ∃ id, inputState s enable (.button id) = none
  bits : ∀ mask enable', inputState s enable .mask = some (mask, enable') →
    ∀ id res enable'', inputState s enable (.button id) = some (res, enable'') →
      (mask &&& (1 <<< Int16.ofNat id) ≠ 0 ↔ res ≠ 0)
  turbo : ∀ qs qs', ReadsFrame qs → ReadsFrame qs' → readAll s qs enable = readAll s qs' enable

section Bits

variable {i j : ℕ}

theorem getLsbD_shift (hi : i < 16) (j : ℕ) : (1#16 <<< i).getLsbD j = decide (i = j) := by
  rw [← BitVec.twoPow_eq, BitVec.getLsbD_twoPow, decide_eq_true hi, Bool.true_and]

theorem and_shift_ne_zero (x : BitVec 16) (hi : i < 16) :
    x &&& 1#16 <<< i ≠ 0 ↔ x.getLsbD i = true := by
  constructor
  · intro h
    by_contra hbit
    apply h
    apply BitVec.eq_of_getLsbD_eq
    intro k hk
    rw [BitVec.getLsbD_and, getLsbD_shift hi]
    by_cases hik : i = k
    · subst hik
      rw [Bool.not_eq_true] at hbit
      rw [hbit]
      exact (Bool.false_and _).trans BitVec.getLsbD_zero.symm
    · rw [decide_eq_false hik]
      exact (Bool.and_false _).trans BitVec.getLsbD_zero.symm
  · intro hbit hzero
    have h : (x &&& 1#16 <<< i).getLsbD i = (0 : BitVec 16).getLsbD i := by rw [hzero]
    rw [BitVec.getLsbD_and, getLsbD_shift hi, hbit, decide_eq_true rfl] at h
    exact Bool.true_eq_false.mp (h.trans BitVec.getLsbD_zero)

theorem toBitVec_shift (hi : i < 16) : ((1 : Int16) <<< Int16.ofNat i).toBitVec = 1#16 <<< i := by
  have htable : ∀ k : Fin 16, ((1 : Int16) <<< Int16.ofNat k.val).toBitVec = 1#16 <<< k.val := by
    decide
  exact htable ⟨i, hi⟩

theorem bit_iff (v : Int16) (hi : i < 16) :
    v &&& (1 <<< Int16.ofNat i) ≠ 0 ↔ v.toBitVec.getLsbD i = true := by
  rw [← and_shift_ne_zero v.toBitVec hi, ← toBitVec_shift hi, ← Int16.toBitVec_and, ne_eq, ne_eq,
    ← Int16.toBitVec_inj]
  rfl

theorem bit_or (v : Int16) (hi : i < 16) (hj : j < 16) :
    (v ||| 1 <<< Int16.ofNat j) &&& (1 <<< Int16.ofNat i) ≠ 0 ↔
      v &&& (1 <<< Int16.ofNat i) ≠ 0 ∨ i = j := by
  rw [bit_iff _ hi, bit_iff _ hi, Int16.toBitVec_or, toBitVec_shift hj, BitVec.getLsbD_or,
    getLsbD_shift hj, Bool.or_eq_true, decide_eq_true_eq, eq_comm (a := j)]

/-- The word with one bit replaced. -/
def withBit (x : BitVec 16) (i : ℕ) (b : Bool) : BitVec 16 :=
  if b then x ||| 1#16 <<< i else x &&& ~~~(1#16 <<< i)

theorem getLsbD_withBit (x : BitVec 16) (hi : i < 16) (b : Bool) (hj : j < 16) :
    (withBit x i b).getLsbD j = if i = j then b else x.getLsbD j := by
  cases b with
  | true =>
    rw [withBit, if_pos rfl, BitVec.getLsbD_or, getLsbD_shift hi]
    split_ifs with hij
    · rw [decide_eq_true hij, Bool.or_true]
    · rw [decide_eq_false hij, Bool.or_false]
  | false =>
    rw [withBit, if_neg Bool.false_ne_true, BitVec.getLsbD_and, BitVec.getLsbD_not,
      getLsbD_shift hi, decide_eq_true hj, Bool.true_and]
    split_ifs with hij
    · rw [decide_eq_true hij, Bool.not_true, Bool.and_false]
    · rw [decide_eq_false hij, Bool.not_false, Bool.and_true]

theorem withBit_self (x : BitVec 16) (hi : i < 16) : withBit x i (x.getLsbD i) = x := by
  apply BitVec.eq_of_getLsbD_eq
  intro j hj
  rw [getLsbD_withBit x hi _ hj]
  split_ifs with hij
  · rw [hij]
  · rfl

end Bits

section Buttons

variable (s : Sources)

/-- The button is held, before turbo. -/
def live (id : ℕ) : Bool := mappedState s (s.pad.press id) id false ≠ 0

/-- What a query makes of the turbo bit of its button. -/
def turboBit (id : ℕ) (b : Bool) : Bool :=
  if dpad id then b else live s id && (b || s.frameEnable)

def divides (id : ℕ) (b : Bool) : Bool :=
  !decide (dpad id) && live s id && turboBit s id b && decide (s.turboPeriod = 0)

/-- The answer to a query for a button with this turbo bit. -/
def answer (id : ℕ) (b : Bool) : Bool :=
  live s id && (decide (dpad id) || !turboBit s id b ||
    decide (s.turboCount % s.turboPeriod < s.turboDutyCycle))

/-- What a query for one button does to the turbo state. -/
def step (enable : BitVec 16) (id : ℕ) : Option (BitVec 16) :=
  if divides s id (enable.getLsbD id) then none
  else some (withBit enable id (turboBit s id (enable.getLsbD id)))

theorem turboBit_idem (id : ℕ) (b : Bool) : turboBit s id (turboBit s id b) = turboBit s id b := by
  unfold turboBit
  split_ifs
  · rfl
  · cases live s id <;> cases b <;> cases s.frameEnable <;> rfl

theorem divides_turboBit (id : ℕ) (b : Bool) :
    divides s id (turboBit s id b) = divides s id b := by
  rw [divides, turboBit_idem, divides]

variable {s} {id : ℕ}

theorem overlayState_congr {res res' : Int16} (h : res ≠ 0 ↔ res' ≠ 0) :
    overlayState s res id ≠ 0 ↔ overlayState s res' id ≠ 0 := by
  have hor : ∀ v : Int16, v ||| 1 ≠ 0 := by
    intro v hzero
    have hbit : (v ||| 1).toBitVec.getLsbD 0 = true := by
      rw [Int16.toBitVec_or, BitVec.getLsbD_or]
      exact Bool.or_true _
    rw [hzero] at hbit
    cases hbit
  rw [overlayState, overlayState]
  cases s.overlay with
  | none => exact h
  | some overlay =>
    dsimp only
    split_ifs
    · exact ⟨fun _ => hor _, fun _ => hor _⟩
    · exact h

theorem mappedState_mask (hid : id < RARCH_FIRST_CUSTOM_BIND) :
    mappedState s s.pad.mask id true ≠ 0 ↔ live s id = true := by
  have hshift : (1 : Int16) <<< Int16.ofNat id ≠ 0 := by
    have h := (bit_iff (1 <<< Int16.ofNat id) hid).mpr (by
      rw [toBitVec_shift hid, getLsbD_shift hid, decide_eq_true rfl])
    rwa [Int16.and_self] at h
  have hdriver : driverState s.pad.mask id true ≠ 0 ↔
      driverState (s.pad.press id) id false ≠ 0 := by
    have hbits := s.pad.mask_bits id hid
    rw [driverState, driverState, if_pos rfl, if_neg Bool.false_ne_true, ← hbits]
    split_ifs with hbit
    · exact ⟨fun _ => hbit, fun _ => hshift⟩
    · exact ⟨fun h => absurd rfl h, fun h => absurd h hbit⟩
  have hbind : bindState s s.pad.mask id true ≠ 0 ↔ bindState s (s.pad.press id) id false ≠ 0 := by
    rw [bindState, bindState]
    split_ifs
    · rfl
    · rfl
    · exact overlayState_congr hdriver
    · rfl
    · rfl
  rw [live, decide_eq_true_eq]
  simp only [mappedState]
  split_ifs
  · cases s.mapper with
    | none => exact hbind
    | some row =>
      simp only [inputMapperState]
      split_ifs
      · rfl
      · exact hbind
  · exact hbind

theorem turboBit_dpad (h : dpad id) (b : Bool) : turboBit s id b = b := if_pos h

theorem turboBit_of_not_dpad (h : ¬dpad id) (b : Bool) :
    turboBit s id b = (live s id && (b || s.frameEnable)) := if_neg h

theorem turboEnable_eq (hid : id < RARCH_FIRST_CUSTOM_BIND) (hdpad : ¬dpad id) {res : Int16}
    (hlive : res ≠ 0 ↔ live s id = true) (enable : BitVec 16) :
    turboEnable s res id enable = withBit enable id (turboBit s id (enable.getLsbD id)) := by
  rw [turboEnable, turboBit_of_not_dpad hdpad]
  by_cases hres : res = 0
  · have hdead : live s id = false := by
      rw [← Bool.not_eq_true, ← hlive]
      exact not_not.mpr hres
    rw [if_neg (fun h => h.1 hres), if_pos hres, hdead, Bool.false_and]
    rfl
  · rw [hlive.mp hres, Bool.true_and]
    cases s.frameEnable with
    | true =>
      rw [if_pos ⟨hres, rfl⟩, Bool.or_true]
      rfl
    | false =>
      rw [if_neg (fun h => Bool.false_ne_true h.2), if_neg hres, Bool.or_false,
        withBit_self enable hid]

theorem inputStateDevice_spec (hid : id < RARCH_FIRST_CUSTOM_BIND) {ret : Int16} {buttonMask : Bool}
    (hlive : mappedState s ret id buttonMask ≠ 0 ↔ live s id = true) (enable : BitVec 16) :
    (inputStateDevice s ret id buttonMask enable).map Prod.snd = step s enable id ∧
    ∀ res enable', inputStateDevice s ret id buttonMask enable = some (res, enable') →
      (res ≠ 0 ↔ answer s id (enable.getLsbD id) = true) := by
  simp only [inputStateDevice]
  by_cases hdpad : dpad id
  · have hstep : step s enable id = some enable := by
      rw [step, divides, turboBit_dpad hdpad, decide_eq_true hdpad, withBit_self enable hid]
      rfl
    have hanswer : answer s id (enable.getLsbD id) = live s id := by
      rw [answer, decide_eq_true hdpad, Bool.true_or, Bool.true_or, Bool.and_true]
    rw [if_pos hdpad, hstep, hanswer]
    refine ⟨rfl, ?_⟩
    intro res enable' h
    obtain ⟨rfl, -⟩ := Prod.mk.inj (Option.some.inj h)
    exact hlive
  · rw [if_neg hdpad, turboEnable_eq hid hdpad hlive]
    have hturbo : withBit enable id (turboBit s id (enable.getLsbD id)) &&& 1#16 <<< id ≠ 0 ↔
        turboBit s id (enable.getLsbD id) = true := by
      rw [and_shift_ne_zero _ hid, getLsbD_withBit _ hid _ hid, if_pos rfl]
    simp only [hturbo, step, divides, answer, decide_eq_false hdpad, Bool.not_false, Bool.true_and,
      Bool.false_or]
    cases hbit : turboBit s id (enable.getLsbD id) with
    | false =>
      rw [if_neg (fun h => Bool.false_ne_true h.1), Bool.and_false, Bool.false_and, Bool.not_false,
        Bool.true_or, Bool.and_true]
      refine ⟨rfl, ?_⟩
      intro res enable' h
      obtain ⟨rfl, -⟩ := Prod.mk.inj (Option.some.inj h)
      exact hlive
    | true =>
      have hheld : live s id = true := by
        rw [turboBit_of_not_dpad hdpad, Bool.and_eq_true] at hbit
        exact hbit.1
      rw [if_pos ⟨rfl, hlive.mpr hheld⟩, hheld, Bool.true_and, Bool.true_and, Bool.not_true,
        Bool.false_or, Bool.true_and]
      by_cases hperiod : s.turboPeriod = 0
      · rw [if_pos hperiod, if_pos (decide_eq_true hperiod)]
        exact ⟨rfl, fun _ _ h => absurd h (Option.some_ne_none _).symm⟩
      · rw [if_neg hperiod, if_neg (fun h => hperiod (of_decide_eq_true h))]
        refine ⟨rfl, ?_⟩
        intro res enable' h
        obtain ⟨rfl, -⟩ := Prod.mk.inj (Option.some.inj h)
        rw [decide_eq_true_eq]
        split_ifs with hduty
        · exact ⟨fun _ => hduty, fun _ => by decide⟩
        · exact ⟨fun h => absurd rfl h, fun h => absurd h hduty⟩

end Buttons

section Frames

variable {s : Sources} {ids : List ℕ}

/-- The buttons a query asks for. -/
def asked : Query → List ℕ
  | .mask => List.range RARCH_FIRST_CUSTOM_BIND
  | .button id => [id.val]

theorem step_spec {enable enable' : BitVec 16} {i : ℕ} (hi : i < 16)
    (h : step s enable i = some enable') : divides s i (enable.getLsbD i) = false ∧
      ∀ j < 16, enable'.getLsbD j =
        if i = j then turboBit s i (enable.getLsbD i) else enable.getLsbD j := by
  rw [step] at h
  split_ifs at h with hdivides
  obtain rfl := Option.some.inj h
  exact ⟨Bool.not_eq_true _ ▸ hdivides, fun j hj => getLsbD_withBit enable hi _ hj⟩

/-- After some buttons the turbo bits are what each makes of its own, however often it was read. -/
theorem foldlM_step (hids : ∀ i ∈ ids, i < 16) (enable : BitVec 16) :
    (ids.foldlM (step s) enable = none ↔ ∃ i ∈ ids, divides s i (enable.getLsbD i) = true) ∧
    ∀ enable', ids.foldlM (step s) enable = some enable' → ∀ j < 16, enable'.getLsbD j =
      if j ∈ ids then turboBit s j (enable.getLsbD j) else enable.getLsbD j := by
  induction ids generalizing enable with
  | nil =>
    refine ⟨⟨fun h => absurd h (Option.some_ne_none _), ?_⟩, ?_⟩
    · rintro ⟨i, hi, -⟩
      exact absurd hi List.not_mem_nil
    · intro enable' h j _
      obtain rfl := Option.some.inj h
      rw [if_neg List.not_mem_nil]
  | cons i ids ih =>
    have hi := hids i List.mem_cons_self
    have hrest := fun j hj => hids j (List.mem_cons_of_mem i hj)
    rw [List.foldlM_cons]
    cases hstep : step s enable i with
    | none =>
      have hdivides : divides s i (enable.getLsbD i) = true := by
        rw [step] at hstep
        by_contra hno
        rw [if_neg hno] at hstep
        cases hstep
      exact ⟨⟨fun _ => ⟨i, List.mem_cons_self, hdivides⟩, fun _ => rfl⟩,
        fun _ h => absurd h (Option.some_ne_none _).symm⟩
    | some middle =>
      obtain ⟨hquiet, hbits⟩ := step_spec hi hstep
      have hsame : ∀ j < 16, divides s j (middle.getLsbD j) = divides s j (enable.getLsbD j) := by
        intro j hj
        rw [hbits j hj]
        split_ifs with hij
        · subst hij
          exact divides_turboBit s i _
        · rfl
      obtain ⟨hnone, hsome⟩ := ih hrest middle
      change (ids.foldlM (step s) middle = none ↔ _) ∧
        ∀ enable', ids.foldlM (step s) middle = some enable' → _
      constructor
      · rw [hnone]
        constructor
        · rintro ⟨j, hj, hdivides⟩
          exact ⟨j, List.mem_cons_of_mem i hj, hsame j (hrest j hj) ▸ hdivides⟩
        · rintro ⟨j, hj, hdivides⟩
          rcases List.mem_cons.mp hj with rfl | hj
          · rw [hquiet] at hdivides
            cases hdivides
          · exact ⟨j, hj, (hsame j (hrest j hj)).trans hdivides⟩
      · intro enable' h j hj
        rw [hsome enable' h j hj, hbits j hj]
        by_cases hij : i = j
        · subst hij
          rw [if_pos rfl, turboBit_idem, ite_self, if_pos List.mem_cons_self]
        · simp only [if_neg hij, List.mem_cons, (Ne.symm hij : ¬j = i), false_or]

theorem maskRound_snd {i : ℕ} (hi : i < RARCH_FIRST_CUSTOM_BIND) (state : Int16 × BitVec 16) :
    (maskRound s state i).map Prod.snd = step s state.2 i := by
  rw [← (inputStateDevice_spec hi (mappedState_mask hi) state.2).1, maskRound, Option.map_map]
  rfl

theorem maskRound_fst {i : ℕ} (hi : i < RARCH_FIRST_CUSTOM_BIND) {state state' : Int16 × BitVec 16}
    (h : maskRound s state i = some state') {j : ℕ} (hj : j < 16) :
    state'.1 &&& (1 <<< Int16.ofNat j) ≠ 0 ↔ state.1 &&& (1 <<< Int16.ofNat j) ≠ 0 ∨
      j = i ∧ answer s i (state.2.getLsbD i) = true := by
  obtain ⟨⟨res, enable⟩, hdevice, rfl⟩ := Option.map_eq_some_iff.mp h
  rw [← (inputStateDevice_spec hi (mappedState_mask hi) state.2).2 res enable hdevice]
  dsimp only
  by_cases hres : res = 0
  · rw [if_neg (not_not.mpr hres)]
    exact ⟨Or.inl, fun h => h.resolve_right fun h => h.2 hres⟩
  · rw [if_pos hres, bit_or _ hj hi]
    exact or_congr_right ⟨fun h => ⟨h, hres⟩, And.left⟩

theorem foldlM_maskRound (hids : ∀ i ∈ ids, i < 16) (hnodup : ids.Nodup)
    (state : Int16 × BitVec 16) :
    (ids.foldlM (maskRound s) state).map Prod.snd = ids.foldlM (step s) state.2 ∧
    ∀ state', ids.foldlM (maskRound s) state = some state' → ∀ j < 16,
      (state'.1 &&& (1 <<< Int16.ofNat j) ≠ 0 ↔ state.1 &&& (1 <<< Int16.ofNat j) ≠ 0 ∨
        j ∈ ids ∧ answer s j (state.2.getLsbD j) = true) := by
  induction ids generalizing state with
  | nil =>
    refine ⟨rfl, ?_⟩
    intro state' h j _
    obtain rfl := Option.some.inj h
    exact ⟨Or.inl, fun h => h.resolve_right fun h => List.not_mem_nil h.1⟩
  | cons i ids ih =>
    have hi := hids i List.mem_cons_self
    have hsnd := maskRound_snd (s := s) hi state
    obtain ⟨hnew, hnodup⟩ := List.nodup_cons.mp hnodup
    rw [List.foldlM_cons, List.foldlM_cons, ← hsnd]
    cases hround : maskRound s state i with
    | none => exact ⟨rfl, fun _ h => absurd h (Option.some_ne_none _).symm⟩
    | some middle =>
      rw [hround] at hsnd
      obtain ⟨hfold, hbits⟩ := ih (fun j hj => hids j (List.mem_cons_of_mem i hj)) hnodup middle
      refine ⟨hfold, ?_⟩
      intro state' h j hj
      rw [hbits state' h j hj, maskRound_fst hi hround hj, List.mem_cons, or_assoc]
      have hkept : j ∈ ids → middle.2.getLsbD j = state.2.getLsbD j := by
        intro hmem
        rw [(step_spec hi hsnd.symm).2 j hj, if_neg fun hij : i = j => hnew (hij ▸ hmem)]
      constructor
      · rintro (hbit | ⟨rfl, hanswer⟩ | ⟨hmem, hanswer⟩)
        · exact Or.inl hbit
        · exact Or.inr ⟨Or.inl rfl, hanswer⟩
        · exact Or.inr ⟨Or.inr hmem, hkept hmem ▸ hanswer⟩
      · rintro (hbit | ⟨rfl | hmem, hanswer⟩)
        · exact Or.inl hbit
        · exact Or.inr (Or.inl ⟨rfl, hanswer⟩)
        · exact Or.inr (Or.inr ⟨hmem, (hkept hmem).symm ▸ hanswer⟩)

theorem asked_lt (q : Query) : ∀ i ∈ asked q, i < 16 := by
  intro i hi
  cases q with
  | mask => exact List.mem_range.mp hi
  | button id =>
    rw [List.mem_singleton.mp hi]
    exact id.isLt

theorem inputState_snd (h : ¬(s.flushingInput ∨ s.blockLibretroInput)) (enable : BitVec 16)
    (q : Query) : (inputState s enable q).map Prod.snd = (asked q).foldlM (step s) enable := by
  cases q with
  | mask =>
    rw [inputState, if_neg h]
    exact (foldlM_maskRound (asked_lt .mask) List.nodup_range (0, enable)).1
  | button id =>
    rw [inputState, if_neg h, (inputStateDevice_spec id.isLt (by rw [live, decide_eq_true_eq])
      enable).1, asked, List.foldlM_cons]
    exact (Option.bind_fun_some _).symm

theorem readAll_eq (h : ¬(s.flushingInput ∨ s.blockLibretroInput)) (qs : List Query)
    (enable : BitVec 16) : readAll s qs enable = (qs.flatMap asked).foldlM (step s) enable := by
  induction qs generalizing enable with
  | nil => rfl
  | cons q qs ih =>
    rw [readAll, List.flatMap_cons, List.foldlM_append, ← inputState_snd h]
    cases inputState s enable q with
    | none => rfl
    | some state => exact ih state.2

theorem readAll_blocked (h : s.flushingInput ∨ s.blockLibretroInput) (qs : List Query)
    (enable : BitVec 16) : readAll s qs enable = some enable := by
  induction qs with
  | nil => rfl
  | cons q qs ih =>
    have hstate : inputState s enable q = some (0, enable) := by
      cases q with
      | mask => rw [inputState, if_pos h]
      | button id => rw [inputState, if_pos h]
    rw [readAll, hstate]
    exact ih

theorem readAll_congr {qs qs' : List Query} (hqs : ReadsFrame qs) (hqs' : ReadsFrame qs')
    (enable : BitVec 16) : readAll s qs enable = readAll s qs' enable := by
  by_cases hblocked : s.flushingInput ∨ s.blockLibretroInput
  · rw [readAll_blocked hblocked, readAll_blocked hblocked]
  · have hall : ∀ qs : List Query, ReadsFrame qs → ∀ i, i ∈ qs.flatMap asked ↔ i < 16 := by
      intro qs hqs i
      rw [List.mem_flatMap]
      constructor
      · rintro ⟨q, -, hi⟩
        exact asked_lt q i hi
      · intro hi
        rcases hqs ⟨i, hi⟩ with hmem | hmem
        · exact ⟨_, hmem, List.mem_range.mpr hi⟩
        · exact ⟨_, hmem, List.mem_singleton_self i⟩
    have hlt := fun i => (hall qs hqs i).mp
    have hlt' := fun i => (hall qs' hqs' i).mp
    obtain ⟨hnone, hsome⟩ := foldlM_step (s := s) hlt enable
    obtain ⟨hnone', hsome'⟩ := foldlM_step (s := s) hlt' enable
    rw [readAll_eq hblocked, readAll_eq hblocked]
    simp only [hall qs hqs] at hnone hsome
    simp only [hall qs' hqs'] at hnone' hsome'
    cases h : (qs.flatMap asked).foldlM (step s) enable with
    | none => exact (hnone'.mpr (hnone.mp h)).symm
    | some e =>
      cases h' : (qs'.flatMap asked).foldlM (step s) enable with
      | none => rw [hnone.mpr (hnone'.mp h')] at h; exact absurd h (Option.some_ne_none _).symm
      | some e' =>
        congr 1
        apply BitVec.eq_of_getLsbD_eq
        intro j hj
        rw [hsome e h j hj, hsome' e' h' j hj]

/-- The mask says of every button what the query for it says, and both leave the same state. -/
theorem maskAgrees (s : Sources) (enable : BitVec 16) : MaskAgrees s enable := by
  by_cases hblocked : s.flushingInput ∨ s.blockLibretroInput
  · have hzero : ∀ q, inputState s enable q = some (0, enable) := by
      intro q
      cases q with
      | mask => rw [inputState, if_pos hblocked]
      | button id => rw [inputState, if_pos hblocked]
    refine ⟨?_, ?_, fun qs qs' hqs hqs' => readAll_congr hqs hqs' enable⟩
    · simp only [hzero, Option.some_ne_none, exists_false]
    · intro mask enable' hmask id res enable'' hbutton
      rw [hzero] at hmask hbutton
      obtain ⟨rfl, -⟩ := Prod.mk.inj (Option.some.inj hmask)
      obtain ⟨rfl, -⟩ := Prod.mk.inj (Option.some.inj hbutton)
      rw [Int16.zero_and]
  · have hmask := inputState_snd hblocked enable .mask
    have hdivides := (foldlM_step (s := s) (asked_lt .mask) enable).1
    refine ⟨?_, ?_, fun qs qs' hqs hqs' => readAll_congr hqs hqs' enable⟩
    · rw [← Option.map_eq_none_iff (f := Prod.snd), hmask, hdivides]
      have hbutton : ∀ id : Fin RARCH_FIRST_CUSTOM_BIND, inputState s enable (.button id) = none ↔
          divides s id (enable.getLsbD id) = true := by
        intro id
        rw [← Option.map_eq_none_iff (f := Prod.snd), inputState_snd hblocked,
          (foldlM_step (asked_lt (.button id)) enable).1]
        simp only [asked, List.mem_singleton, exists_eq_left]
      simp only [hbutton]
      constructor
      · rintro ⟨i, hi, h⟩
        exact ⟨⟨i, List.mem_range.mp hi⟩, h⟩
      · rintro ⟨id, h⟩
        exact ⟨id, List.mem_range.mpr id.isLt, h⟩
    · intro mask enable' hmask id res enable'' hbutton
      simp only [inputState, if_neg hblocked] at hmask hbutton
      have hbits := (foldlM_maskRound (asked_lt .mask) List.nodup_range (0, enable)).2 _ hmask id
        id.isLt
      have hres := (inputStateDevice_spec id.isLt (by rw [live, decide_eq_true_eq]) enable).2 _ _
        hbutton
      rw [hbits, hres, Int16.zero_and]
      exact ⟨fun h => (h.resolve_left fun h => h rfl).2, fun h => Or.inr ⟨List.mem_range.mpr id.isLt, h⟩⟩

end Frames

end RetroArch.Input.ButtonMask
