/- The state of one netplay session: its connections, players, frame cursors and delta frames. -/

import RetroArch.Library.Bytes
import RetroArch.Library.Rewinding
import RetroArch.Netplay.Delta

namespace RetroArch.Netplay.State

open Library.Bytes Library.Rewinding Delta

/-- `enum rarch_netplay_connection_mode`. -/
inductive ConnectionMode
  | none
  | delayedDisconnect
  | init
  | preNick
  | prePassword
  | preInfo
  | preSync
  | connected
  | spectating
  | slave
  | playing
deriving DecidableEq

/-- `mode >= NETPLAY_CONNECTION_CONNECTED`. -/
def ConnectionMode.ready : ConnectionMode → Bool
  | .connected | .spectating | .slave | .playing => true
  | _ => false

/-- `enum rarch_netplay_stall_reason`. -/
inductive StallReason
  | none
  | runningFast
  | spectatorWait
  | inputLatency
  | serverRequested
  | noConnection
deriving DecidableEq

/-- The commands this development follows. The words of a command are in host order; `MODE`
carries the share mode of every device and a nick. -/
inductive Message
  | nak
  | input (frame clientNum : ℕ) (words : List UInt32)
  | noinput (frame : ℕ)
  | spectate
  | play (request : ℕ)
  | mode (frame info devices : ℕ) (shareModes nick : List UInt8)
  | modeRefused (reason : ℕ)
  | crc (frame hash : ℕ)
  | requestSavestate
  | loadSavestate (frame isize : ℕ) (zdata : List UInt8)
  | pause (nick : List UInt8)
  | resume
  | stall (frames : ℕ)
  | reset (frame : ℕ)
  | sync (frame clientNum : ℕ) (devices : List ℕ) (shareModes : List UInt8) (clients : List ℕ)
      (nick sram : List UInt8)
deriving DecidableEq

/-- A word on the wire is in network order. -/
def htonl (w : ℕ) : List UInt8 := (toLE 4 w).reverse

def ntohl (bs : List UInt8) : ℕ := ofLE bs.reverse

@[simp] theorem length_htonl (w : ℕ) : (htonl w).length = 4 := by
  rw [htonl, List.length_reverse, length_toLE]

theorem ntohl_htonl {w : ℕ} (h : w < 2 ^ 32) : ntohl (htonl w) = w := by
  rw [ntohl, htonl, List.reverse_reverse, ofLE_toLE h]

def Message.cmd : Message → ℕ
  | .nak => 0x0001
  | .input .. => 0x0003
  | .noinput .. => 0x0004
  | .sync .. => 0x0023
  | .spectate => 0x0024
  | .play .. => 0x0025
  | .mode .. => 0x0026
  | .modeRefused .. => 0x0027
  | .crc .. => 0x0040
  | .requestSavestate => 0x0041
  | .loadSavestate .. => 0x0042
  | .pause .. => 0x0043
  | .resume => 0x0044
  | .stall .. => 0x0045
  | .reset .. => 0x0046

def Message.payload : Message → List UInt8
  | .nak | .spectate | .requestSavestate | .resume => []
  | .input frame clientNum words =>
    htonl frame ++ htonl clientNum ++ words.flatMap fun w => htonl w.toNat
  | .noinput frame => htonl frame
  | .play request => htonl request
  | .mode frame info devices shareModes nick =>
    htonl frame ++ htonl info ++ htonl devices ++ shareModes ++ nick
  | .modeRefused reason => htonl reason
  | .crc frame hash => htonl frame ++ htonl hash
  | .loadSavestate frame isize zdata => htonl frame ++ htonl isize ++ zdata
  | .pause nick => nick
  | .stall frames => htonl frames
  | .reset frame => htonl frame
  | .sync frame clientNum devices shareModes clients nick sram =>
    htonl frame ++ htonl clientNum ++ devices.flatMap htonl ++ shareModes ++
      clients.flatMap htonl ++ nick ++ sram

/-- A command as `netplay_send_raw_cmd` puts it into the send buffer. -/
def Message.encode (m : Message) : List UInt8 :=
  htonl m.cmd ++ htonl m.payload.length ++ m.payload

/-- `struct netplay_connection`. The send buffer is the list of commands queued in it so far;
the receive buffer is what has arrived since the last flush. The two fault lists are the answers
the buffers will give: whether the next call finds its socket broken. -/
structure Connection where
  active : Bool
  nick : List UInt8
  canPlay : Bool
  sendPacketBuffer : List Message
  sendFaults : List Bool
  recvPacketBuffer : Tape UInt8
  recvFaults : List Bool
  mode : ConnectionMode
  delayFrame : ℕ
  compressionSupported : ℕ
  paused : Bool
  stall : StallReason
  stallTime : ℕ
  stallFrame : ℕ

/-- `memset(connection, 0, sizeof(*connection))`, with buffers still to be made. -/
def Connection.zero : Connection where
  active := false
  nick := []
  canPlay := false
  sendPacketBuffer := []
  sendFaults := []
  recvPacketBuffer := .empty
  recvFaults := []
  mode := .none
  delayFrame := 0
  compressionSupported := 0
  paused := false
  stall := .none
  stallTime := 0
  stallFrame := 0

/-- A frame pointer and the frame counter that goes with it. -/
structure Cursor where
  ptr : ℕ
  frameCount : ℕ
deriving DecidableEq

structure Cursors where
  self : Cursor
  run : Cursor
  other : Cursor
  unread : Cursor
  server : Cursor
  replay : Cursor
  read : ℕ → Cursor

/-- Who plays with which devices; the bitmaps of `struct netplay`. -/
structure Roster where
  connectedPlayers : ℕ
  connectedSlaves : ℕ
  clientDevices : ℕ → ℕ
  deviceClients : ℕ → ℕ
  deviceShareModes : ℕ → UInt8

/-- `struct netplay`, with the core it runs. Of the two compression transcoders only whether they
have their backends. -/
structure NetplayT (σ : Type) where
  isServer : Bool
  isConnected : Bool
  nick : List UInt8
  selfClientNum : ℕ
  selfMode : ConnectionMode
  connections : List Connection
  roster : Roster
  selfDevices : ℕ
  desync : ℕ
  configDevices : ℕ → ℕ
  haveUpdownDevice : Bool
  buffer : ℕ → DeltaFrame σ
  bufferSize : ℕ
  zbufferSize : ℕ
  stateSize : ℕ
  cursors : Cursors
  isReplay : Bool
  canPoll : Bool
  forceRewind : Bool
  forceReset : Bool
  quirkNoSavestates : Bool
  quirkNoTransmission : Bool
  quirkInitialization : Bool
  forceSendSavestate : Bool
  savestateRequestOutstanding : Bool
  localPaused : Bool
  remotePaused : Bool
  statelessMode : Bool
  frameRunTimeAvg : ℕ
  inputLatencyFrames : ℤ
  stall : StallReason
  stallTime : ℕ
  catchUp : Bool
  catchUpTime : ℕ
  catchUpBehind : ℕ
  checkFrames : ℤ
  crcValidityChecked : Bool
  crcsValid : Bool
  compressNil : Bool
  compressZlib : Bool
  core : σ

/-- The settings netplay consults. -/
structure Settings where
  netplayRequireSlaves : Bool
  netplayAllowSlaves : Bool
  netplayStartAsSpectator : Bool
  netplayShareMode : UInt8
  netplayRequestDevices : ℕ
  inputLatencyFramesMin : ℤ
  inputLatencyFramesMax : ℤ

/-- What lies outside netplay: the core and its savestates, and compression. A savestate that
was never taken is `none`. The core sees the configured devices and, for each port, the words of
its resolved input. -/
structure Platform (σ : Type) where
  serializeSize : σ → ℕ
  serialize : σ → Option σ
  unserialize : Option σ → Option σ
  run : (ℕ → ℕ) → (ℕ → Option (List UInt32)) → σ → σ
  reset : σ → σ
  crc32 : Option σ → ℕ
  inflate : ℕ → List UInt8 → Option σ → Option σ
  deflate : ℕ → Option σ → Option (List UInt8)

/-- A core that counts its frames and never fails. -/
def idleCore : Platform ℕ where
  serializeSize _ := 1
  serialize := some
  unserialize s := s
  run _ _ s := s + 1
  reset _ := 0
  crc32 s := s.getD 0
  inflate _ zdata _ := some zdata.length
  deflate _ s := s.map fun n => List.replicate n 0

/-- Everyone may play, and no input is delayed. -/
def openSettings : Settings where
  netplayRequireSlaves := false
  netplayAllowSlaves := true
  netplayStartAsSpectator := false
  netplayShareMode := 0
  netplayRequestDevices := 0
  inputLatencyFramesMin := 0
  inputLatencyFramesMax := 0

variable {σ : Type}

def NETPLAY_MAX_STALL_FRAMES : ℕ := 60

/-- `netplay_new`, with its sockets made. The devices are those the server is configured with; a
client is told them later. -/
def netplayNew (pf : Platform σ) (isServer statelessMode : Bool) (checkFrames : ℤ)
    (quirkNoSavestates quirkNoTransmission quirkInitialization : Bool) (nick : List UInt8)
    (devices : ℕ → ℕ) (core : σ) : NetplayT σ :=
  let configDevices := fun device =>
    if isServer ∧ device < MAX_INPUT_DEVICES then devices device else RETRO_DEVICE_NONE
  let stateSize :=
    if quirkNoSavestates ∨ quirkInitialization then 0 else pf.serializeSize core
  let bufferSize := NETPLAY_MAX_STALL_FRAMES + 2
  { isServer := isServer
    isConnected := false
    nick := nick
    selfClientNum := 0
    selfMode := if isServer then .spectating else .init
    connections := if isServer then [] else [{ Connection.zero with active := true, mode := .init }]
    roster := ⟨0, 0, fun _ => 0, fun _ => 0, fun _ => 0⟩
    selfDevices := 0
    desync := 0
    configDevices := configDevices
    haveUpdownDevice := (List.range MAX_INPUT_DEVICES).any fun device =>
      decide (deviceType (configDevices device) = RETRO_DEVICE_KEYBOARD)
    buffer := fun _ => DeltaFrame.zero
    bufferSize := if isServer then bufferSize * 2 else bufferSize
    zbufferSize := stateSize * 2
    stateSize := stateSize
    cursors := ⟨⟨0, 0⟩, ⟨0, 0⟩, ⟨0, 0⟩, ⟨0, 0⟩, ⟨0, 0⟩, ⟨0, 0⟩, fun _ => ⟨0, 0⟩⟩
    isReplay := false
    canPoll := false
    forceRewind := false
    forceReset := false
    quirkNoSavestates := quirkNoSavestates
    quirkNoTransmission := quirkNoTransmission
    quirkInitialization := quirkInitialization
    forceSendSavestate := false
    savestateRequestOutstanding := false
    localPaused := false
    remotePaused := false
    statelessMode := statelessMode
    frameRunTimeAvg := 0
    inputLatencyFrames := 0
    stall := .none
    stallTime := 0
    catchUp := false
    catchUpTime := 0
    catchUpBehind := 0
    checkFrames := checkFrames
    crcValidityChecked := false
    crcsValid := true
    compressNil := false
    compressZlib := false
    core := core }

def prevPtr (bufferSize ptr : ℕ) : ℕ := if ptr = 0 then bufferSize - 1 else ptr - 1

def nextPtr (bufferSize ptr : ℕ) : ℕ := (ptr + 1) % bufferSize

/-- `x_ptr = NEXT_PTR(x_ptr); x_frame_count++`. -/
def Cursor.next (bufferSize : ℕ) (c : Cursor) : Cursor :=
  ⟨nextPtr bufferSize c.ptr, c.frameCount + 1⟩

namespace NetplayT

def connection (np : NetplayT σ) (i : ℕ) : Connection := np.connections.getD i .zero

def setConnection (np : NetplayT σ) (i : ℕ) (f : Connection → Connection) : NetplayT σ :=
  { np with connections := np.connections.modify i f }

def setFrame (np : NetplayT σ) (ptr : ℕ) (f : DeltaFrame σ) : NetplayT σ :=
  { np with buffer := Function.update np.buffer ptr f }

def setRead (np : NetplayT σ) (client : ℕ) (c : Cursor) : NetplayT σ :=
  { np with cursors := { np.cursors with read := Function.update np.cursors.read client c } }

def expectedInputSize (np : NetplayT σ) (devices : ℕ) : ℕ :=
  netplayExpectedInputSize np.configDevices devices

/-- `netplay_delta_frame_ready` on the slot at `ptr`. -/
def frameReady (np : NetplayT σ) (ptr frame : ℕ) : Option (NetplayT σ) :=
  (netplayDeltaFrameReady np.cursors.other.frameCount (np.buffer ptr) frame).map
    fun f => np.setFrame ptr f

/-- Set the receive buffer of connection `i` and what its socket will answer. -/
def retape (np : NetplayT σ) (i : ℕ) (tape : Tape UInt8) (faults : List Bool) : NetplayT σ :=
  np.setConnection i fun c => { c with recvPacketBuffer := tape, recvFaults := faults }

@[simp] theorem setConnection_cursors (np : NetplayT σ) (i : ℕ) (f : Connection → Connection) :
    (np.setConnection i f).cursors = np.cursors := rfl

@[simp] theorem setConnection_roster (np : NetplayT σ) (i : ℕ) (f : Connection → Connection) :
    (np.setConnection i f).roster = np.roster := rfl

@[simp] theorem setConnection_buffer (np : NetplayT σ) (i : ℕ) (f : Connection → Connection) :
    (np.setConnection i f).buffer = np.buffer := rfl

@[simp] theorem retape_buffer (np : NetplayT σ) (i : ℕ) (tape : Tape UInt8)
    (faults : List Bool) : (np.retape i tape faults).buffer = np.buffer := rfl

@[simp] theorem setFrame_buffer (np : NetplayT σ) (ptr : ℕ) (f : DeltaFrame σ) :
    (np.setFrame ptr f).buffer ptr = f := by
  simp [setFrame]

@[simp] theorem setFrame_self (np : NetplayT σ) (ptr : ℕ) :
    np.setFrame ptr (np.buffer ptr) = np := by
  rw [setFrame, Function.update_eq_self]

@[simp] theorem setFrame_setFrame (np : NetplayT σ) (ptr : ℕ) (f g : DeltaFrame σ) :
    (np.setFrame ptr f).setFrame ptr g = np.setFrame ptr g := by
  simp only [setFrame, Function.update_idem]

@[simp] theorem setConnection_length (np : NetplayT σ) (i : ℕ) (f : Connection → Connection) :
    (np.setConnection i f).connections.length = np.connections.length := by
  simp [setConnection]

theorem connection_setConnection (np : NetplayT σ) {i : ℕ} (f : Connection → Connection)
    (h : i < np.connections.length) : (np.setConnection i f).connection i =
      f (np.connection i) := by
  simp [connection, setConnection, h]

theorem connection_setConnection_ne (np : NetplayT σ) {i j : ℕ} (f : Connection → Connection)
    (h : i ≠ j) : (np.setConnection i f).connection j = np.connection j := by
  simp [connection, setConnection, h]

theorem view_setConnection {α : Type} (view : Connection → α) (np : NetplayT σ) (i j : ℕ)
    {f : Connection → Connection} (hf : ∀ c, view (f c) = view c) :
    view ((np.setConnection i f).connection j) = view (np.connection j) := by
  rw [setConnection, connection, connection, List.getD_eq_getElem?_getD,
    List.getD_eq_getElem?_getD, List.getElem?_modify]
  cases np.connections[j]? with
  | none => split_ifs <;> rfl
  | some c =>
    split_ifs
    · exact hf c
    · rfl

end NetplayT

end RetroArch.Netplay.State
