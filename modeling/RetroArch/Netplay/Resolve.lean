/- Resolving the input of a frame from what is known of it, real or simulated. -/

import RetroArch.Netplay.Command

namespace RetroArch.Netplay.Resolve

open Library.Bits Delta State Io Command

variable {σ : Type}

/-- The earlier of two cursors, the first one if they are equal. -/
def earlier (least : Option Cursor) (c : Cursor) : Option Cursor :=
  match least with
  | none => some c
  | some l => if c.frameCount < l.frameCount then some c else some l

/-- The earliest frame not read yet of the players that are not slaves, and of the server. -/
def leastUnread (np : NetplayT σ) : Option Cursor :=
  let least := (List.range MAX_CLIENTS).foldl (fun least client =>
    if np.roster.connectedPlayers.testBit client ∧
        np.roster.connectedSlaves.testBit client = false then
      earlier least (np.cursors.read client)
    else least) none
  if np.isServer then least else earlier least np.cursors.server

/-- `netplay_update_unread_ptr`. -/
def netplayUpdateUnreadPtr (np : NetplayT σ) : NetplayT σ :=
  let unread :=
    if np.isServer ∧ np.roster.connectedPlayers ≤ 1 then np.cursors.self
    else (leastUnread np).getD np.cursors.self
  { np with cursors := { np.cursors with unread := unread } }

def NETPLAY_SHARE_DIGITAL_BITS : UInt8 := 0x1C
def NETPLAY_SHARE_DIGITAL_XOR : UInt8 := 0x8
def NETPLAY_SHARE_DIGITAL_VOTE : UInt8 := 0xC
def NETPLAY_SHARE_ANALOG_BITS : UInt8 := 0xE0
def NETPLAY_SHARE_ANALOG_AVERAGE : UInt8 := 0x40

/-- "Make sure all real clients are accounted for." A slave keeps its own input under the number
32, and the shift of the source counts modulo 32. -/
def realClients (clients : ℕ) (list : List InputState) (size : ℕ) : ℕ :=
  list.foldl (fun clients simstate =>
    if simstate.used ∧ simstate.size = size then setBit clients (simstate.clientNum % 32)
    else clients) clients

/-- `netplay_device_client_state`. -/
def netplayDeviceClientState (np : NetplayT σ) (simframe : DeltaFrame σ) (device client : ℕ) :
    Option InputState :=
  let dsize := np.expectedInputSize (1 <<< device)
  match inputFor (simframe.realInput device) client dsize with
  | some simstate => some simstate
  | none =>
    if simframe.frame < (np.cursors.read client).frameCount then none
    else inputFor (simframe.simlatedInput device) client dsize

/-- The states of the clients that are merged. -/
def mergedStates (np : NetplayT σ) (simframe : DeltaFrame σ) (device clients size : ℕ) :
    List InputState :=
  (List.range MAX_CLIENTS).filterMap fun client =>
    if (realClients clients (simframe.realInput device) size).testBit client then
      netplayDeviceClientState np simframe device client
    else none

/-- `netplay_merge_digital`. The votes are counted for as many words as there are; the array of
the source has three. -/
def netplayMergeDigital (np : NetplayT σ) (data : List UInt32) (simframe : DeltaFrame σ)
    (device clients : ℕ) (digital : List UInt32) : List UInt32 :=
  let shareMode := np.roster.deviceShareModes device &&& NETPLAY_SHARE_DIGITAL_BITS
  let states := mergedStates np simframe device clients data.length
  if shareMode = NETPLAY_SHARE_DIGITAL_VOTE then
    data.mapIdx fun word w =>
      (List.range 32).foldl (fun w bit =>
        let votes := states.countP fun s => (s.data.getD word 0).toNat.testBit bit
        if (digital.getD word 0).toNat.testBit bit ∧ states.length / 2 < votes then
          w ||| UInt32.ofNat (2 ^ bit)
        else w) w
  else
    states.foldl (fun data s =>
      data.mapIdx fun word w =>
        let part := s.data.getD word 0 &&& digital.getD word 0
        if shareMode = NETPLAY_SHARE_DIGITAL_XOR then w ^^^ part else w ||| part) data

/-- `(int16_t) ((data[word] >> bit) & 0xFFFF)`. -/
def analogValue (data : List UInt32) (word bit : ℕ) : ℤ :=
  let value : ℕ := (data.getD word 0).toNat / 2 ^ bit % 2 ^ 16
  if value < 2 ^ 15 then value else value - 2 ^ 16

/-- `merge_analog_part`. The average is an unsigned division: the divisor is unsigned. -/
def mergeAnalogPart (np : NetplayT σ) (data : List UInt32) (simframe : DeltaFrame σ)
    (device clients word bit : ℕ) : List UInt32 :=
  let shareMode := np.roster.deviceShareModes device &&& NETPLAY_SHARE_ANALOG_BITS
  let states := mergedStates np simframe device clients data.length
  let value : ℤ := states.foldl (fun value s =>
    let newValue := analogValue s.data word bit
    if shareMode = NETPLAY_SHARE_ANALOG_AVERAGE then value + newValue
    else if value.natAbs < newValue.natAbs ∨
        newValue.natAbs = value.natAbs ∧ value < newValue then newValue
    else value) 0
  let value : ℤ :=
    if shareMode = NETPLAY_SHARE_ANALOG_AVERAGE ∧ 0 < states.length then
      value % 2 ^ 32 / states.length
    else value
  data.modify word fun w => w ||| UInt32.ofNat ((value % 2 ^ 16).toNat * 2 ^ bit)

/-- `netplay_merge_analog`. -/
def netplayMergeAnalog (np : NetplayT σ) (data : List UInt32) (simframe : DeltaFrame σ)
    (device clients dtype : ℕ) : List UInt32 :=
  if dtype = RETRO_DEVICE_JOYPAD ∨ dtype = RETRO_DEVICE_KEYBOARD then data
  else
    let data := mergeAnalogPart np data simframe device clients 1 0
    let data := mergeAnalogPart np data simframe device clients 1 16
    if dtype = RETRO_DEVICE_ANALOG then
      let data := mergeAnalogPart np data simframe device clients 2 0
      mergeAnalogPart np data simframe device clients 2 16
    else data

/-- The direction buttons of a joypad. -/
def keep : UInt32 := 0xF0

/-- Input simulated from the last real input: "in resimulation mode, we only copy the buttons". -/
def simulate (dtype : ℕ) (resim : Bool) (simstate pstate : List UInt32) : List UInt32 :=
  if resim ∧ (dtype = RETRO_DEVICE_JOYPAD ∨ dtype = RETRO_DEVICE_ANALOG) then
    simstate.modify 0 fun w => w &&& keep ||| pstate.getD 0 0 &&& ~~~keep
  else pstate

/-- "Resolve this client-device": its input, if it has any, and the frame. -/
def resolveClient (np : NetplayT σ) (resim : Bool) (simframe : DeltaFrame σ)
    (device client : ℕ) : Option (List UInt32) × DeltaFrame σ :=
  let dtype := deviceType (np.configDevices device)
  let dsize := np.expectedInputSize (1 <<< device)
  match inputFor (simframe.realInput device) client dsize with
  | some simstate => (some simstate.data, simframe)
  | none =>
    if simframe.frame < (np.cursors.read client).frameCount then (none, simframe)
    else
      match netplayInputStateFor (simframe.simlatedInput device) client dsize false false with
      | (none, _) => (none, simframe)
      | (some k, list) =>
        let pframe := np.buffer (prevPtr np.bufferSize (np.cursors.read client).ptr)
        match inputFor (pframe.realInput device) client dsize with
        | none =>
          (none, { simframe with
            simlatedInput := Function.update simframe.simlatedInput device list })
        | some pstate =>
          let data := simulate dtype resim (((list[k]?).map InputState.data).getD [])
            pstate.data
          let list := list.modify k fun s => { s with data := data }
          (some data, { simframe with
            simlatedInput := Function.update simframe.simlatedInput device list })

/-- The last client with input, how many have it, and the frame. -/
def resolveClients (np : NetplayT σ) (resim : Bool) (simframe : DeltaFrame σ)
    (device clients : ℕ) : List UInt32 × ℕ × DeltaFrame σ :=
  (List.range MAX_CLIENTS).foldl (fun (clientState, clientCount, simframe) client =>
    if clients.testBit client then
      match resolveClient np resim simframe device client with
      | (some data, simframe) => (data, clientCount + 1, simframe)
      | (none, simframe) => (clientState, clientCount, simframe)
    else (clientState, clientCount, simframe)) ([], 0, simframe)

/-- Set the data of one state in a list. -/
def withData (list : List InputState) (k : ℕ) (data : List UInt32) : List InputState :=
  list.modify k fun s => { s with data := data }

/-- The words that tell buttons from axes. -/
def digitalOf (dtype : ℕ) : List UInt32 :=
  if dtype = RETRO_DEVICE_KEYBOARD then List.replicate 5 0xFFFFFFFF else [0xFFFFFFFF, 0, 0]

/-- "Now we copy the state, whether real or simulated, out into the resolved state": whether it
changed, and the resolved states of the device. -/
def copyResolved (np : NetplayT σ) (simframe : DeltaFrame σ) (device clients : ℕ)
    (clientState : List UInt32) (clientCount : ℕ) : Bool × List InputState :=
  let dtype := deviceType (np.configDevices device)
  let dsize := np.expectedInputSize (1 <<< device)
  let list := (simframe.resolvedInput device).dropWhile fun s =>
    decide (s.size ≠ dsize ∨ s.clientNum ≠ 0)
  match netplayInputStateFor list 0 dsize false false with
  | (none, list) => (false, list)
  | (some k, list) =>
    let old := ((list[k]?).map InputState.data).getD []
    if clientCount = 1 then (decide (old ≠ clientState), withData list k clientState)
    else if clientCount = 0 then
      (decide (old ≠ List.replicate dsize 0), withData list k (List.replicate dsize 0))
    else
      match netplayInputStateFor list 1 dsize false false with
      | (none, list) => (false, list)
      | (some j, list) =>
        let data := netplayMergeDigital np (List.replicate dsize 0) simframe device clients
          (digitalOf dtype)
        let data := netplayMergeAnalog np data simframe device clients dtype
        (decide (data ≠ old), withData (withData list j old) k data)

/-- `netplay_resolve_input` for one device. -/
def resolveDevice (np : NetplayT σ) (resim : Bool) (simframe : DeltaFrame σ) (device : ℕ) :
    Bool × DeltaFrame σ :=
  let dsize := np.expectedInputSize (1 <<< device)
  let clients := realClients (np.roster.deviceClients device) (simframe.realInput device) dsize
  let (clientState, clientCount, simframe) := resolveClients np resim simframe device clients
  let (changed, list) := copyResolved np simframe device clients clientState clientCount
  (changed, { simframe with
    resolvedInput := Function.update simframe.resolvedInput device list })

/-- `netplay_resolve_input` on a frame: whether the resolved input changed, and the frame. -/
def resolveFrame (np : NetplayT σ) (resim : Bool) (simframe : DeltaFrame σ) :
    Bool × DeltaFrame σ :=
  (List.range MAX_INPUT_DEVICES).foldl (fun (ret, simframe) device =>
    let (changed, simframe) := resolveDevice np resim simframe device
    (ret || changed, simframe)) (false, simframe)

/-- `netplay_resolve_input`. -/
def netplayResolveInput (np : NetplayT σ) (simPtr : ℕ) (resim : Bool) : Bool × NetplayT σ :=
  let (ret, simframe) := resolveFrame np resim (np.buffer simPtr)
  (ret, np.setFrame simPtr simframe)

/-- `netplay_handle_frame_hash` for the frame at `ptr`. -/
def netplayHandleFrameHash (pf : Platform σ) (np : NetplayT σ) (ptr : ℕ) : NetplayT σ :=
  let delta := np.buffer ptr
  let crc := netplayDeltaFrameCrc pf np delta
  if np.isServer then
    if np.checkFrames ≠ 0 ∧ delta.frame % np.checkFrames.natAbs = 0 then
      netplayCmdCrc (np.setFrame ptr { delta with crc := crc }) delta.frame crc
    else np
  else if delta.crc ≠ 0 ∧ np.crcsValid then
    if crc ≠ delta.crc then
      if np.crcValidityChecked = false then { np with crcsValid := false }
      else if np.checkFrames < 0 then np
      else netplayCmdRequestSavestate np
    else { np with crcValidityChecked := true }
  else np

end RetroArch.Netplay.Resolve
