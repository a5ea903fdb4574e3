/- The sending side of netplay: input frames, mode changes, hangups and delayed announcements. -/

import RetroArch.Netplay.State

namespace RetroArch.Netplay.Io

open Library.Bits Delta State

variable {σ : Type}

def NETPLAY_CMD_PLAY_BIT_SLAVE : ℕ := 2 ^ 31
def NETPLAY_CMD_MODE_BIT_YOU : ℕ := 2 ^ 31
def NETPLAY_CMD_MODE_BIT_PLAYING : ℕ := 2 ^ 30
def NETPLAY_CMD_MODE_BIT_SLAVE : ℕ := 2 ^ 29

def NETPLAY_CMD_MODE_REFUSED_REASON_UNPRIVILEGED : ℕ := 1
def NETPLAY_CMD_MODE_REFUSED_REASON_NO_SLOTS : ℕ := 2
def NETPLAY_CMD_MODE_REFUSED_REASON_TOO_FAST : ℕ := 3
def NETPLAY_CMD_MODE_REFUSED_REASON_NOT_AVAILABLE : ℕ := 4

/-- `strncpy` into a nick field. -/
def nickField (nick : List UInt8) : List UInt8 := (nick ++ List.replicate 32 0).take 32

def shareModesField (r : Roster) : List UInt8 :=
  (List.range MAX_INPUT_DEVICES).map r.deviceShareModes

/-- Take a client out of the game. -/
def leave (r : Roster) (client : ℕ) : Roster :=
  { r with
    connectedPlayers := clearBit r.connectedPlayers client
    connectedSlaves := clearBit r.connectedSlaves client
    clientDevices := Function.update r.clientDevices client 0
    deviceClients := fun device => clearBit (r.deviceClients device) client }

/-- Put a client into the game with `devices`. -/
def join (r : Roster) (client devices : ℕ) : Roster :=
  { r with
    connectedPlayers := setBit r.connectedPlayers client
    clientDevices := Function.update r.clientDevices client devices
    deviceClients := fun device =>
      if devices.testBit device then setBit (r.deviceClients device) client
      else r.deviceClients device }

/-- `netplay_send_raw_cmd`, or `netplay_send` of a command built by hand. It fails only with the
socket, and then the command is not queued. -/
def netplaySendRawCmd (np : NetplayT σ) (i : ℕ) (m : Message) : Bool × NetplayT σ :=
  if (np.connection i).sendFaults.headD false then
    (false, np.setConnection i fun c => { c with sendFaults := c.sendFaults.tail })
  else
    (true, np.setConnection i fun c =>
      { c with
        sendFaults := c.sendFaults.tail
        sendPacketBuffer := c.sendPacketBuffer ++ [m] })

/-- `netplay_send_flush`, which fails only with the socket. -/
def netplaySendFlush (np : NetplayT σ) (i : ℕ) : Bool × NetplayT σ :=
  (!(np.connection i).sendFaults.headD false,
    np.setConnection i fun c => { c with sendFaults := c.sendFaults.tail })

/-- Whether a command for everyone goes to connection `i`. -/
def reaches (np : NetplayT σ) (except : Option ℕ) (i : ℕ) : Bool :=
  decide (except ≠ some i) && (np.connection i).active && (np.connection i).mode.ready

/-- The loop of `netplay_send_raw_cmd_all`, over what `netplay_hangup` does. -/
def sendAllWith (hangup : NetplayT σ → ℕ → NetplayT σ) (np : NetplayT σ)
    (except : Option ℕ) (m : Message) : NetplayT σ :=
  (List.range np.connections.length).foldl (fun np i =>
    if reaches np except i then
      match netplaySendRawCmd np i m with
      | (true, np) => np
      | (false, np) => hangup np i
    else np) np

/-- `remote_unpaused`. -/
def remoteUnpausedWith (hangup : NetplayT σ → ℕ → NetplayT σ) (np : NetplayT σ) (i : ℕ) :
    NetplayT σ :=
  let np := np.setConnection i fun c => { c with paused := false }
  let np := { np with remotePaused := np.connections.any fun sc => sc.active && sc.paused }
  if np.remotePaused = false ∧ np.localPaused = false then sendAllWith hangup np (some i) .resume
  else np

/-- What `netplay_hangup` does to a connection and its player before it unpauses them. -/
def disconnect (np : NetplayT σ) (i : ℕ) : NetplayT σ :=
  let clientNum := i + 1
  let mode := (np.connection i).mode
  let np := np.setConnection i fun c => { c with active := false }
  if np.isServer then
    if mode = .playing ∨ mode = .slave then
      let np := np.setConnection i fun c =>
        { c with
          mode := .delayedDisconnect
          delayFrame := (np.cursors.read clientNum).frameCount }
      { np with roster := leave np.roster clientNum }
    else np
  else
    { np with
      isConnected := false
      selfMode := .none
      stall := .none
      roster :=
        { np.roster with
          connectedPlayers := np.roster.connectedPlayers &&& 1 <<< np.selfClientNum
          clientDevices := fun client =>
            if client = np.selfClientNum then np.roster.clientDevices client else 0
          deviceClients := fun device =>
            np.roster.deviceClients device &&& 1 <<< np.selfClientNum } }

/-- `netplay_hangup`. It calls itself through `remote_unpaused` and the commands sent there, each
time with one connection less; `depth` counts them down. -/
def hangupAt : ℕ → NetplayT σ → ℕ → NetplayT σ
  | depth, np, i =>
    if (np.connection i).active then
      let np := disconnect np i
      if (np.connection i).paused then
        match depth with
        | 0 => np
        | depth + 1 => remoteUnpausedWith (hangupAt depth) np i
      else np
    else np

def netplayHangup (np : NetplayT σ) (i : ℕ) : NetplayT σ :=
  hangupAt np.connections.length np i

def netplaySendRawCmdAll (np : NetplayT σ) (except : Option ℕ) (m : Message) : NetplayT σ :=
  sendAllWith netplayHangup np except m

def remoteUnpaused (np : NetplayT σ) (i : ℕ) : NetplayT σ :=
  remoteUnpausedWith netplayHangup np i

/-- Apply `f` to the index of every connection in turn. -/
def forConnections (np : NetplayT σ) (f : NetplayT σ → ℕ → NetplayT σ) : NetplayT σ :=
  (List.range np.connections.length).foldl f np

/-- `netplay_delayed_state_change` for one connection. -/
def delayedStateChangeFor (np : NetplayT σ) (i : ℕ) : NetplayT σ :=
  let c := np.connection i
  if (c.active ∨ c.mode = .delayedDisconnect) ∧ c.delayFrame ≠ 0 ∧
      c.delayFrame ≤ np.cursors.self.frameCount then
    let m := Message.mode c.delayFrame (i + 1) 0 (shareModesField np.roster) (nickField c.nick)
    let np := np.setConnection i fun c =>
      { c with mode := if c.mode = .delayedDisconnect then .none else c.mode }
    let np := netplaySendRawCmdAll np (some i) m
    np.setConnection i fun c => { c with delayFrame := 0 }
  else np

def netplayDelayedStateChange (np : NetplayT σ) : NetplayT σ :=
  forConnections np delayedStateChangeFor

/-- Words in the buffer of `send_input_frame`, and those of them that head the command. -/
abbrev BUFSZ : ℕ := 16

/-- Add the input of one device to the words gathered so far; four words head the buffer. -/
def addDevice (dframe : DeltaFrame σ) (key : ℕ) (words : List UInt32) (device : ℕ) :
    List UInt32 :=
  match usedOf (dframe.realInput device) key with
  | none => words
  | some istate => if BUFSZ ≤ 4 + words.length + istate.size then words else words ++ istate.data

/-- The command `send_input_frame` builds. -/
def inputFrame (np : NetplayT σ) (dframe : DeltaFrame σ) (clientNum : ℕ) (slave : Bool) :
    Message :=
  .input dframe.frame clientNum <|
    (devicesOf (np.roster.clientDevices clientNum)).foldl
      (addDevice dframe (if slave then MAX_CLIENTS else clientNum)) []

/-- `send_input_frame` to one connection. -/
def sendInputFrameOnly (np : NetplayT σ) (dframe : DeltaFrame σ) (only clientNum : ℕ)
    (slave : Bool) : Bool × NetplayT σ :=
  match netplaySendRawCmd np only (inputFrame np dframe clientNum slave) with
  | (true, np) => (true, np)
  | (false, np) => (false, netplayHangup np only)

/-- `send_input_frame` to everyone but `except` and the player the input is from. The command is
built once. -/
def sendInputFrame (np : NetplayT σ) (dframe : DeltaFrame σ) (except : Option ℕ)
    (clientNum : ℕ) (slave : Bool) : NetplayT σ :=
  let m := inputFrame np dframe clientNum slave
  forConnections np fun np i =>
    if reaches np except i ∧ ((np.connection i).mode ≠ .playing ∨ i + 1 ≠ clientNum) then
      match netplaySendRawCmd np i m with
      | (true, np) => np
      | (false, np) => netplayHangup np i
    else np

/-- The other players' input, for `netplay_send_cur_input`. -/
def sendOthers (dframe : DeltaFrame σ) (i : ℕ) : NetplayT σ → List ℕ → Bool × NetplayT σ
  | np, [] => (true, np)
  | np, fromClient :: rest =>
    if fromClient ≠ i + 1 ∧ np.roster.connectedPlayers.testBit fromClient ∧
        dframe.haveReal fromClient then
      match sendInputFrameOnly np dframe i fromClient false with
      | (true, np) => sendOthers dframe i np rest
      | (false, np) => (false, np)
    else sendOthers dframe i np rest

/-- `netplay_send_cur_input` from our own input on. -/
def sendSelf (np : NetplayT σ) (dframe : DeltaFrame σ) (i : ℕ) : Bool × NetplayT σ :=
  if np.selfMode = .playing ∨ np.selfMode = .slave then
    match sendInputFrameOnly np dframe i np.selfClientNum (decide (np.selfMode = .slave)) with
    | (true, np) => netplaySendFlush np i
    | (false, np) => (false, np)
  else netplaySendFlush np i

def netplaySendCurInput (np : NetplayT σ) (i : ℕ) : Bool × NetplayT σ :=
  let dframe := np.buffer np.cursors.self.ptr
  if np.isServer then
    match sendOthers dframe i np (List.range' 1 (MAX_CLIENTS - 1)) with
    | (false, np) => (false, np)
    | (true, np) =>
      if np.selfMode ≠ .playing then
        match netplaySendRawCmd np i (.noinput np.cursors.self.frameCount) with
        | (true, np) => sendSelf np dframe i
        | (false, np) => (false, np)
      else sendSelf np dframe i
  else sendSelf np dframe i

def netplayCmdRequestSavestate (np : NetplayT σ) : NetplayT σ :=
  if np.connections.length = 0 ∨ (np.connection 0).active = false ∨
      (np.connection 0).mode.ready = false then np
  else if np.savestateRequestOutstanding then np
  else (netplaySendRawCmd { np with savestateRequestOutstanding := true } 0 .requestSavestate).2

/-- `netplay_cmd_crc`. -/
def netplayCmdCrc (np : NetplayT σ) (frame crc : ℕ) : NetplayT σ :=
  forConnections np fun np i =>
    if (np.connection i).active ∧ (np.connection i).mode.ready then
      (netplaySendRawCmd np i (.crc frame crc)).2
    else np

/-- SPECTATE: the player stops at the frame we have not received, and only they are told. -/
def handleSpectate (np : NetplayT σ) (clientNum : ℕ) (connection : Option ℕ) : NetplayT σ :=
  let frame := (np.cursors.read clientNum).frameCount
  match connection with
  | some i =>
    let np := np.setConnection i fun c => { c with delayFrame := frame, mode := .spectating }
    let np := { np with roster := leave np.roster clientNum }
    (netplaySendRawCmd np i (.mode frame (NETPLAY_CMD_MODE_BIT_YOU ||| clientNum) 0
      (shareModesField np.roster) (nickField (np.connection i).nick))).2
  | none =>
    let np := { np with
      selfDevices := 0, selfMode := .spectating, roster := leave np.roster clientNum }
    netplaySendRawCmdAll np none (.mode frame 0 0 (shareModesField np.roster)
      (nickField np.nick))

/-- The share mode of a request, completed. -/
def fixShareMode (shareMode : UInt8) : UInt8 :=
  if shareMode = 0 then 0
  else
    let shareMode := if shareMode &&& 0x1C = 0 then shareMode ||| 0x4 else shareMode
    let shareMode := if shareMode &&& 0xE0 = 0 then shareMode ||| 0x20 else shareMode
    shareMode &&& 0xFE

/-- Tell the requesting player, if it is not ourself, that they do not get to play. -/
def refuseMode (np : NetplayT σ) (connection : Option ℕ) (reason : ℕ) : NetplayT σ :=
  match connection with
  | some i => (netplaySendRawCmd np i (.modeRefused reason)).2
  | none => np

/-- The first device no one plays with, before the first one that is not there. -/
def availableDevice (np : NetplayT σ) : Option ℕ :=
  ((List.range MAX_INPUT_DEVICES).takeWhile fun device =>
    decide (np.configDevices device ≠ RETRO_DEVICE_NONE)).find? fun device =>
      decide (np.roster.deviceClients device = 0)

/-- PLAY from "Mark them as playing" on. -/
def admitPlayer (np : NetplayT σ) (clientNum : ℕ) (connection : Option ℕ) (frame devices : ℕ)
    (slave : Bool) : NetplayT σ :=
  let np := match connection with
    | some i => np.setConnection i fun c => { c with mode := if slave then .slave else .playing }
    | none => { np with selfDevices := devices, selfMode := .playing }
  let roster := join np.roster clientNum devices
  let np := { np with
    roster := { roster with
      connectedSlaves :=
        if slave then setBit roster.connectedSlaves clientNum else roster.connectedSlaves } }
  let info := NETPLAY_CMD_MODE_BIT_PLAYING |||
    (if slave then NETPLAY_CMD_MODE_BIT_SLAVE else 0) ||| clientNum
  let nick := match connection with
    | some i => nickField (np.connection i).nick
    | none => nickField np.nick
  let shareModes := shareModesField np.roster
  let np := netplaySendRawCmdAll np connection (.mode frame info devices shareModes nick)
  match connection with
  | some i =>
    let info := NETPLAY_CMD_MODE_BIT_PLAYING |||
      (if (np.connection i).mode = .slave then NETPLAY_CMD_MODE_BIT_SLAVE else 0) |||
      NETPLAY_CMD_MODE_BIT_YOU ||| clientNum
    (netplaySendRawCmd np i (.mode frame info devices shareModes nick)).2
  | none => np

/-- Whether the request is for a slave: of ourself it never is. -/
def playsSlave (settings : Settings) (connection : Option ℕ) (request : ℕ) : Bool :=
  connection.isSome &&
    (settings.netplayRequireSlaves || settings.netplayAllowSlaves && request.testBit 31)

/-- Where a player starts: a client at the frame after ours. -/
def playStart (np : NetplayT σ) (connection : Option ℕ) : Cursor :=
  if connection.isSome then np.cursors.self.next np.bufferSize else np.cursors.self

/-- The devices that were asked for can all be had, or be shared. -/
def devicesAvailable (np : NetplayT σ) (devices : ℕ) (shareMode : UInt8) : Bool :=
  (devicesOf devices).all fun device =>
    np.roster.deviceClients device = 0 ∨ np.roster.deviceShareModes device ≠ 0 ∧ shareMode ≠ 0

def setShareModes (np : NetplayT σ) (shareModes : ℕ → UInt8) : NetplayT σ :=
  { np with roster := { np.roster with deviceShareModes := shareModes } }

/-- PLAY with the devices that are wanted. -/
def playDevices (np : NetplayT σ) (clientNum : ℕ) (connection : Option ℕ) (frame devices : ℕ)
    (shareMode : UInt8) (slave : Bool) : NetplayT σ :=
  if devicesAvailable np devices shareMode then
    let shareModes := fun device =>
      if devices.testBit device ∧ np.roster.deviceClients device = 0 then shareMode
      else np.roster.deviceShareModes device
    admitPlayer (setShareModes np shareModes) clientNum connection frame devices slave
  else refuseMode np connection NETPLAY_CMD_MODE_REFUSED_REASON_NOT_AVAILABLE

/-- PLAY with whatever device there is. -/
def playAny (np : NetplayT σ) (clientNum : ℕ) (connection : Option ℕ) (frame : ℕ)
    (shareMode : UInt8) (slave : Bool) : NetplayT σ :=
  match availableDevice np with
  | some device =>
    admitPlayer (setShareModes np (Function.update np.roster.deviceShareModes device shareMode))
      clientNum connection frame (1 <<< device) slave
  | none =>
    -- sharing the only device is left at once: the break leaves the whole command
    if np.configDevices 1 = RETRO_DEVICE_NONE ∧ shareMode ≠ 0 ∧
        np.roster.deviceShareModes 0 ≠ 0 then np
    else refuseMode np connection NETPLAY_CMD_MODE_REFUSED_REASON_NO_SLOTS

/-- PLAY. The arrays end at `MAX_CLIENTS`; a larger client number has no result. -/
def handlePlay (settings : Settings) (np : NetplayT σ) (clientNum : ℕ) (connection : Option ℕ)
    (request : ℕ) : Option (NetplayT σ) :=
  if MAX_CLIENTS ≤ clientNum then none
  else
    let devices := request % 2 ^ 16
    let slave := playsSlave settings connection request
    let shareMode := fixShareMode (UInt8.ofNat (request / 2 ^ 16))
    let start := playStart np connection
    let np := np.setRead clientNum start
    some <|
      if devices ≠ 0 then
        playDevices np clientNum connection start.frameCount devices shareMode slave
      else playAny np clientNum connection start.frameCount shareMode slave

end RetroArch.Netplay.Io
