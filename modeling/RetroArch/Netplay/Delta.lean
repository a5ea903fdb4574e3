/- Delta frames: the inputs known, simulated and resolved for one frame. -/

import Mathlib.Algebra.BigOperators.Group.List.Basic
import Mathlib.Data.List.Nodup
import RetroArch.Library.Bits

namespace RetroArch.Netplay.Delta

abbrev MAX_INPUT_DEVICES : ℕ := 16
abbrev MAX_CLIENTS : ℕ := 32

def RETRO_DEVICE_NONE : ℕ := 0
def RETRO_DEVICE_JOYPAD : ℕ := 1
def RETRO_DEVICE_MOUSE : ℕ := 2
def RETRO_DEVICE_KEYBOARD : ℕ := 3
def RETRO_DEVICE_LIGHTGUN : ℕ := 4
def RETRO_DEVICE_ANALOG : ℕ := 5

/-- `device & RETRO_DEVICE_MASK`. -/
def deviceType (device : ℕ) : ℕ := device % 256

/-- `struct netplay_input_state`. The list it links is a `List`, and its `size` is that of the
data allocated with it. -/
structure InputState where
  used : Bool
  clientNum : ℕ
  data : List UInt32
deriving DecidableEq

def InputState.size (i : InputState) : ℕ := i.data.length

/-- `struct delta_frame`, with the savestate as what the core wrote there. -/
structure DeltaFrame (σ : Type) where
  used : Bool
  frame : ℕ
  state : Option σ
  crc : ℕ
  resolvedInput : ℕ → List InputState
  realInput : ℕ → List InputState
  simlatedInput : ℕ → List InputState
  haveLocal : Bool
  haveReal : ℕ → Bool

variable {σ : Type}

/-- A delta frame as it is allocated. -/
def DeltaFrame.zero : DeltaFrame σ where
  used := false
  frame := 0
  state := none
  crc := 0
  resolvedInput := fun _ => []
  realInput := fun _ => []
  simlatedInput := fun _ => []
  haveLocal := false
  haveReal := fun _ => false

def clearInput (istate : List InputState) : List InputState :=
  istate.map fun i => { i with used := false }

/-- `netplay_delta_frame_ready`; `none` is false, and leaves the frame as it was. -/
def netplayDeltaFrameReady (otherFrameCount : ℕ) (delta : DeltaFrame σ) (frame : ℕ) :
    Option (DeltaFrame σ) :=
  if delta.used ∧ delta.frame = frame then some delta
  else if delta.used ∧ otherFrameCount ≤ delta.frame then none
  else some
    { delta with
      used := true, frame := frame, crc := 0
      resolvedInput := fun i => clearInput (delta.resolvedInput i)
      realInput := fun i => clearInput (delta.realInput i)
      simlatedInput := fun i => clearInput (delta.simlatedInput i)
      haveLocal := false
      haveReal := fun _ => false }

/-- `netplay_input_state_for`: the position of the state in the list, and the list it leaves. -/
def netplayInputStateFor (list : List InputState) (clientNum size : ℕ)
    (mustCreate mustNotCreate : Bool) : Option ℕ × List InputState :=
  match list with
  | [] =>
    if mustNotCreate then (none, [])
    else (some 0, [⟨true, clientNum, List.replicate size 0⟩])
  | ret :: rest =>
    if ret.used = false ∧ mustNotCreate = false ∧ ret.size = size then
      (some 0, { ret with
        clientNum := clientNum, used := true, data := List.replicate size 0 } :: rest)
    else if ret.used ∧ ret.clientNum = clientNum then
      if mustCreate = false ∧ ret.size = size then (some 0, ret :: rest)
      else (none, ret :: rest)
    else
      let (i, rest) := netplayInputStateFor rest clientNum size mustCreate mustNotCreate
      (i.map (· + 1), ret :: rest)

/-- The lookup, `must_not_create` without `must_create`. -/
def inputFor (list : List InputState) (clientNum size : ℕ) : Option InputState :=
  (netplayInputStateFor list clientNum size false true).1.bind (list[·]?)

/-- Size in words of the input of one device type. -/
def deviceSize (device : ℕ) : ℕ :=
  if deviceType device = RETRO_DEVICE_JOYPAD then 1
  else if deviceType device = RETRO_DEVICE_MOUSE then 2
  else if deviceType device = RETRO_DEVICE_KEYBOARD then 5
  else if deviceType device = RETRO_DEVICE_LIGHTGUN then 2
  else if deviceType device = RETRO_DEVICE_ANALOG then 3
  else 0

/-- The devices of a bitmap, in order. -/
def devicesOf (devices : ℕ) : List ℕ :=
  (List.range MAX_INPUT_DEVICES).filter (devices.testBit ·)

def netplayExpectedInputSize (configDevices : ℕ → ℕ) (devices : ℕ) : ℕ :=
  ((devicesOf devices).map fun device => deviceSize (configDevices device)).sum

theorem netplayExpectedInputSize_single (configDevices : ℕ → ℕ) {device : ℕ}
    (h : device < MAX_INPUT_DEVICES) :
    netplayExpectedInputSize configDevices (1 <<< device) = deviceSize (configDevices device) := by
  have hdevices : ∀ device < 16, devicesOf (1 <<< device) = [device] := by decide
  rw [netplayExpectedInputSize, hdevices device h, List.map_singleton, List.sum_singleton]

theorem mem_devicesOf {devices device : ℕ} :
    device ∈ devicesOf devices ↔ device < MAX_INPUT_DEVICES ∧ devices.testBit device := by
  rw [devicesOf, List.mem_filter, List.mem_range]

theorem nodup_devicesOf (devices : ℕ) : (devicesOf devices).Nodup :=
  List.nodup_range.filter _

/-- The first used state of a client. -/
def usedOf (list : List InputState) (clientNum : ℕ) : Option InputState :=
  list.find? fun i => i.used && decide (i.clientNum = clientNum)

@[simp] theorem usedOf_clearInput (list : List InputState) (clientNum : ℕ) :
    usedOf (clearInput list) clientNum = none := by
  rw [usedOf, clearInput, List.find?_map, Option.map_eq_none_iff, List.find?_eq_none]
  simp

theorem netplayDeltaFrameReady_real {otherFrameCount frame : ℕ} {delta f : DeltaFrame σ}
    (h : netplayDeltaFrameReady otherFrameCount delta frame = some f) :
    f.frame = frame ∧ ∀ device clientNum, usedOf (f.realInput device) clientNum =
      usedOf (delta.realInput device) clientNum ∨ usedOf (f.realInput device) clientNum = none := by
  rw [netplayDeltaFrameReady] at h
  split_ifs at h with hsame hused
  · obtain rfl := Option.some.inj h
    exact ⟨hsame.2, fun _ _ => .inl rfl⟩
  · obtain rfl := Option.some.inj h
    exact ⟨rfl, fun _ _ => .inr (usedOf_clearInput _ _)⟩

theorem inputFor_eq (list : List InputState) (clientNum size : ℕ) :
    inputFor list clientNum size =
      (usedOf list clientNum).bind fun i => if i.size = size then some i else none := by
  induction list with
  | nil => rfl
  | cons ret rest ih =>
    rw [inputFor, netplayInputStateFor, usedOf, List.find?_cons]
    by_cases hret : ret.used = true ∧ ret.clientNum = clientNum
    · have hmatch : (ret.used && decide (ret.clientNum = clientNum)) = true := by
        simp [hret]
      rw [if_neg (by simp), if_pos hret, hmatch]
      by_cases hsize : ret.size = size
      · simp [hsize]
      · simp [hsize]
    · have hmatch : (ret.used && decide (ret.clientNum = clientNum)) = false := by
        simpa using hret
      rw [if_neg (by simp), if_neg hret, hmatch]
      rw [inputFor, usedOf] at ih
      simp only [Option.bind_map]
      rw [← ih]
      cases (netplayInputStateFor rest clientNum size false true).1 with
      | none => rfl
      | some i => rfl

/-- Getting a state for a client that has none of another size: its words are the client's own
or zeros, and the other clients' states stay. -/
theorem netplayInputStateFor_spec (list : List InputState) {clientNum size : ℕ}
    (hsize : ∀ i, usedOf list clientNum = some i → i.size = size) :
    ∃ i state, (netplayInputStateFor list clientNum size false false).1 = some i ∧
      (netplayInputStateFor list clientNum size false false).2[i]? = some state ∧
      state.size = size ∧ state.clientNum = clientNum ∧ state.used = true ∧
      ∀ data, usedOf ((netplayInputStateFor list clientNum size false false).2.modify i
        fun s => { s with data := data }) clientNum = some { state with data := data } := by
  induction list with
  | nil =>
    refine ⟨0, ⟨true, clientNum, List.replicate size 0⟩, rfl, rfl, List.length_replicate, rfl, rfl,
      ?_⟩
    intro data
    simp [netplayInputStateFor, usedOf]
  | cons ret rest ih =>
    by_cases hfree : ret.used = false ∧ ret.size = size
    · refine ⟨0, { ret with
        clientNum := clientNum, used := true, data := List.replicate size 0 }, ?_, ?_,
        List.length_replicate, rfl, rfl, ?_⟩
      · simp [netplayInputStateFor, hfree]
      · simp [netplayInputStateFor, hfree]
      · intro data
        simp [netplayInputStateFor, hfree, usedOf]
    · by_cases hret : ret.used = true ∧ ret.clientNum = clientNum
      · have hfound : usedOf (ret :: rest) clientNum = some ret := by
          simp [usedOf, hret]
        have hsz := hsize ret hfound
        refine ⟨0, ret, ?_, ?_, hsz, hret.2, hret.1, ?_⟩
        · simp [netplayInputStateFor, hret, hsz]
        · simp [netplayInputStateFor, hret, hsz]
        · intro data
          simp [netplayInputStateFor, hret, hsz, usedOf]
      · have hskip : usedOf (ret :: rest) clientNum = usedOf rest clientNum := by
          rw [usedOf, List.find?_cons]
          have hmatch : (ret.used && decide (ret.clientNum = clientNum)) = false := by
            simpa using hret
          rw [hmatch]
          rfl
        obtain ⟨i, state, hi, hstate, hsz, hnum, hused, hdata⟩ :=
          ih fun i hi => hsize i (hskip.trans hi)
        have hstep : netplayInputStateFor (ret :: rest) clientNum size false false =
            ((netplayInputStateFor rest clientNum size false false).1.map (· + 1),
              ret :: (netplayInputStateFor rest clientNum size false false).2) := by
          rw [netplayInputStateFor, if_neg (by simpa using hfree), if_neg hret]
        refine ⟨i + 1, state, ?_, ?_, hsz, hnum, hused, ?_⟩
        · rw [hstep, hi]
          rfl
        · rw [hstep]
          exact hstate
        · intro data
          rw [hstep, List.modify_succ_cons, usedOf, List.find?_cons]
          have hmatch : (ret.used && decide (ret.clientNum = clientNum)) = false := by
            simpa using hret
          rw [hmatch]
          exact hdata data

end RetroArch.Netplay.Delta
