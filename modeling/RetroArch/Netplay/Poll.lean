/- One poll of a session: our own input, the network, the slaves, latency and stalls. -/

import RetroArch.Netplay.Savestate

namespace RetroArch.Netplay.Poll

open Library.Bits Library.Rewinding Delta State Io Reading Command Resolve Savestate

variable {σ : Type}

/-- What the local input driver gives: the words of a device of some type. -/
structure LocalInput where
  blocked : Bool
  stateCb : ℕ → ℕ → List UInt32

/-- "Find an appropriate local device": the first unused one of the type, or the first of all. -/
def localDevice (np : NetplayT σ) (usedDevices devType : ℕ) : ℕ :=
  ((List.range MAX_INPUT_DEVICES).find? fun device =>
    usedDevices.testBit device = false ∧ deviceType (np.configDevices device) = devType).getD 0

/-- Capture the input of our devices into a frame. "First frame we always give zero input." -/
def captureInput (np : NetplayT σ) (input : LocalInput) (f : DeltaFrame σ) : DeltaFrame σ :=
  let key := if np.selfMode = .slave then MAX_CLIENTS else np.selfClientNum
  ((devicesOf np.selfDevices).foldl (fun (usedDevices, f) device =>
    let devType := deviceType (np.configDevices device)
    let from_ := localDevice np usedDevices devType
    let usedDevices := setBit usedDevices from_
    match netplayInputStateFor (f.realInput device) key (np.expectedInputSize (1 <<< device))
        true false with
    | (none, list) => (usedDevices, { f with
        realInput := Function.update f.realInput device list })
    | (some k, list) =>
      let f := { f with realInput := Function.update f.realInput device list }
      if input.blocked = false ∧ 0 < np.cursors.self.frameCount then
        (usedDevices, setData f device k fun data =>
          data.mapIdx fun word _ => (input.stateCb from_ devType).getD word 0)
      else (usedDevices, f)) (0, f)).2

/-- Our own frame is complete: a player has read it too. -/
def markLocal (np : NetplayT σ) (f : DeltaFrame σ) : NetplayT σ :=
  let f := { f with haveLocal := true }
  if np.selfMode = .playing then
    (np.setFrame np.cursors.self.ptr { f with
      haveReal := Function.update f.haveReal np.selfClientNum true }).setRead np.selfClientNum
        (np.cursors.self.next np.bufferSize)
  else np.setFrame np.cursors.self.ptr f

/-- "And send this input to our peers." -/
def sendCurInputs (np : NetplayT σ) : NetplayT σ :=
  forConnections np fun np i => if reaches np none i then (netplaySendCurInput np i).2 else np

/-- `get_self_input_state`. The arrays end at `MAX_CLIENTS`; a player with a larger number has no
result. -/
def getSelfInputState (input : LocalInput) (np : NetplayT σ) : Option (Bool × NetplayT σ) :=
  let self := np.cursors.self
  match np.frameReady self.ptr self.frameCount with
  | none => some (false, np)
  | some np =>
    if (np.buffer self.ptr).haveLocal then some (true, np)
    else if np.selfMode = .playing ∧ MAX_CLIENTS ≤ np.selfClientNum then none
    else
      let np := sendCurInputs (markLocal np (captureInput np input (np.buffer self.ptr)))
      some (true, if np.isServer then netplayDelayedStateChange np else np)

/-- "Copy the previous frame's data", of one client for its devices. A copy without a place to go
has no result. -/
def copySlaveInput (np : NetplayT σ) (oframe : DeltaFrame σ) (clientNum : ℕ) :
    List ℕ → DeltaFrame σ → Option (DeltaFrame σ)
  | [], f => some f
  | device :: rest, f =>
    match (oframe.realInput device).find? fun s => decide (s.clientNum = clientNum) with
    | none =>
      let list := (netplayInputStateFor (f.realInput device) clientNum
        (np.expectedInputSize (1 <<< device)) true false).2
      copySlaveInput np oframe clientNum rest
        { f with realInput := Function.update f.realInput device list }
    | some istateIn =>
      match netplayInputStateFor (f.realInput device) clientNum istateIn.size true false with
      | (none, _) => none
      | (some k, list) =>
        copySlaveInput np oframe clientNum rest
          (setData { f with realInput := Function.update f.realInput device list } device k
            fun _ => istateIn.data)

/-- The input of a slave for our frame, generated if it has not arrived. -/
def slaveFrame (np : NetplayT σ) (clientNum : ℕ) : Option (DeltaFrame σ) :=
  let self := np.cursors.self.ptr
  let frame := np.buffer self
  if frame.haveReal clientNum then some frame
  else
    (copySlaveInput np (np.buffer (prevPtr np.bufferSize self)) clientNum
      (devicesOf (np.roster.clientDevices clientNum)) frame).map fun f =>
        { f with haveReal := Function.update f.haveReal clientNum true }

/-- `netplay_handle_slaves` for one connection. -/
def handleSlave (np : NetplayT σ) (i : ℕ) : Option (NetplayT σ) :=
  let clientNum := i + 1
  let self := np.cursors.self
  if (np.connection i).active = false ∨ (np.connection i).mode ≠ .slave then some np
  else if self.frameCount < (np.cursors.read clientNum).frameCount then some np
  else
    (slaveFrame np clientNum).map fun f =>
      let np := sendInputFrame (np.setFrame self.ptr f) f none clientNum false
      np.setRead clientNum (self.next np.bufferSize)

def netplayHandleSlaves (np : NetplayT σ) : Option (NetplayT σ) :=
  (List.range np.connections.length).foldlM handleSlave np

/-- What the network does to a connection: bytes that arrive, and what the next calls on its socket
answer. -/
structure Traffic where
  bytes : List UInt8
  recvFaults : List Bool
  sendFaults : List Bool

def deliver (np : NetplayT σ) (i : ℕ) (t : Traffic) : NetplayT σ :=
  np.setConnection i fun c =>
    { c with
      recvPacketBuffer := c.recvPacketBuffer.arrive t.bytes
      recvFaults := c.recvFaults ++ t.recvFaults
      sendFaults := c.sendFaults ++ t.sendFaults }

/-- What happens on the connections in one turn of `netplay_poll_net_input`. `giveUp` is the end
of a wait for input: an error of the sockets, or too many retries. -/
structure Round where
  traffic : ℕ → Traffic
  handshakes : ℕ → Handshake
  giveUp : Bool

/-- Read at most one command from connection `i`: whether there was input. -/
def pollConnection (pf : Platform σ) (settings : Settings) (r : Round) (np : NetplayT σ)
    (i : ℕ) : Option (Bool × NetplayT σ) :=
  let np := deliver np i (r.traffic i)
  if (np.connection i).active then
    (netplayGetCmd pf settings (r.handshakes i) np i).map fun
      | (.refused, np) => (false, netplayHangup np i)
      | (.dropped, np) => (true, netplayHangup np i)
      | (.idle, np) => (false, np)
      | (.handled, np) => (true, np)
  else some (false, np)

/-- "Read input from each connection." -/
def pollRound (pf : Platform σ) (settings : Settings) (r : Round) (np : NetplayT σ) :
    Option (Bool × NetplayT σ) :=
  (List.range np.connections.length).foldlM (fun (hadInput, np) i =>
    (pollConnection pf settings r np i).map fun (had, np) => (hadInput || had, np)) (false, np)

/-- The loop of `netplay_poll_net_input`. What happens in its turns is given; too few of them
have no result. -/
def pollRounds (pf : Platform σ) (settings : Settings) (block : Bool) :
    List Round → NetplayT σ → Option (Bool × NetplayT σ)
  | [], _ => none
  | r :: rs, np =>
    (pollRound pf settings r np).bind fun (hadInput, np) =>
      if block then
        let np := netplayUpdateUnreadPtr np
        if np.cursors.run.frameCount < np.cursors.unread.frameCount then some (true, np)
        else if hadInput = false ∧ r.giveUp then some (false, np)
        else pollRounds pf settings block rs np
      else if hadInput then pollRounds pf settings block rs np
      else some (true, np)

/-- `netplay_poll_net_input`. -/
def netplayPollNetInput (pf : Platform σ) (settings : Settings) (block : Bool) (rs : List Round)
    (np : NetplayT σ) : Option (Bool × NetplayT σ) :=
  if np.connections.any Connection.active then pollRounds pf settings block rs np
  else some (true, np)

/-- "Figure out how many frames of input latency we should be using." -/
def adjustLatency (settings : Settings) (np : NetplayT σ) : NetplayT σ :=
  if np.frameRunTimeAvg = 0 ∧ np.statelessMode = false then np
  else
    let run := np.cursors.run.frameCount
    let unread := np.cursors.unread.frameCount
    let framesPerFrame := 16666 / np.frameRunTimeAvg - 2
    let framesAhead := run - unread
    let latency := np.inputLatencyFrames
    let more := if np.statelessMode then unread = run + 1 else framesPerFrame < framesAhead
    let less :=
      if np.statelessMode then run + 2 < unread else framesAhead + 2 < framesPerFrame
    let latency :=
      if latency < settings.inputLatencyFramesMin ∨
          more ∧ latency < settings.inputLatencyFramesMax then latency + 1
      else if settings.inputLatencyFramesMax < latency ∨
          less ∧ settings.inputLatencyFramesMin < latency then latency - 1
      else latency
    { np with inputLatencyFrames := latency }

/-- "If we're stalled, consider unstalling." -/
def unstall (np : NetplayT σ) : NetplayT σ :=
  let unread := np.cursors.unread.frameCount
  let self := np.cursors.self.frameCount
  match np.stall with
  | .runningFast =>
    if self < unread + NETPLAY_MAX_STALL_FRAMES - 2 then
      { np with
        stall := .none
        connections := np.connections.map fun c =>
          if c.active then { c with stall := .none } else c }
    else np
  | .spectatorWait =>
    if np.selfMode = .playing ∨ self < unread then { np with stall := .none } else np
  | .inputLatency => { np with stall := .none }
  | .serverRequested =>
    if (np.connection 0).stallFrame = 0 then
      { np.setConnection 0 fun c => { c with stall := .none } with stall := .none }
    else np.setConnection 0 fun c => { c with stallFrame := c.stallFrame - 1 }
  | .noConnection | .none => np

/-- "Figure out who to blame." -/
def blame (np : NetplayT σ) : NetplayT σ :=
  (List.range' 1 (MAX_CLIENTS - 1)).foldl (fun np client =>
    let c := np.connection (client - 1)
    if np.roster.connectedPlayers.testBit client ∧
        (np.cursors.read client).frameCount ≤ np.cursors.unread.frameCount ∧
        c.active ∧ c.mode = .playing then
      np.setConnection (client - 1) fun c =>
        { c with stall := .runningFast, stallTime := np.stallTime }
    else np) np

/-- "If we're not stalled, consider stalling." -/
def considerStall (now : ℕ) (np : NetplayT σ) : NetplayT σ :=
  if np.stall ≠ .none then np
  else
    let unread := np.cursors.unread.frameCount
    let self := np.cursors.self.frameCount
    let np :=
      if np.selfMode = .playing ∧ np.roster.connectedPlayers ≠ 0 ∧
          (self : ℤ) < (np.cursors.run.frameCount + np.inputLatencyFrames) % 2 ^ 32 then
        { np with stall := .inputLatency, stallTime := 0 }
      else np
    let np :=
      if unread + NETPLAY_MAX_STALL_FRAMES ≤ self then
        let np := { np with stall := .runningFast, stallTime := now }
        if np.isServer then blame np else np
      else np
    if np.isServer = false ∧ (np.selfMode = .spectating ∨ np.selfMode = .slave) ∧
        unread ≤ self then
      { np with stall := .spectatorWait, stallTime := now }
    else np

def MAX_SERVER_STALL_TIME_USEC : ℕ := 5 * 1000 * 1000
def MAX_CLIENT_STALL_TIME_USEC : ℕ := 10 * 1000 * 1000

/-- "If we're stalling, consider disconnection." -/
def dropStalled (now : ℕ) (np : NetplayT σ) : NetplayT σ :=
  if np.stall = .none ∨ np.stallTime = 0 then np
  else if np.remotePaused then { np with stallTime := now }
  else if (if np.isServer then MAX_SERVER_STALL_TIME_USEC else MAX_CLIENT_STALL_TIME_USEC) ≤
      now - np.stallTime then
    if np.isServer then
      let (fixed, np) := (List.range np.connections.length).foldl (fun (fixed, np) i =>
        let c := np.connection i
        if c.active ∧ c.mode = .playing ∧ c.stall ≠ .none then (true, netplayHangup np i)
        else (fixed, np)) (false, np)
      if fixed then { np with stall := .none } else np
    else hangupAll np
  else np

/-- What one poll finds outside the session. -/
structure PollEnv where
  input : LocalInput
  rounds : List Round
  now : ℕ

/-- `netplay_poll` once the network has been read. -/
def afterNetInput (settings : Settings) (now : ℕ) (np : NetplayT σ) : Option (NetplayT σ) :=
  let np := (netplayResolveInput np np.cursors.run.ptr false).2
  let slaves :=
    if np.isServer ∧ np.roster.connectedSlaves ≠ 0 then netplayHandleSlaves np else some np
  slaves.map fun np =>
    dropStalled now (considerStall now (unstall (adjustLatency settings
      (netplayUpdateUnreadPtr np))))

/-- `netplay_poll`. -/
def netplayPoll (pf : Platform σ) (settings : Settings) (env : PollEnv) (np : NetplayT σ) :
    Option (NetplayT σ) :=
  (getSelfInputState env.input { np with canPoll := false }).bind fun
    | (false, np) => some (hangupAll np)
    | (true, np) =>
      if np.selfMode = .none then some np
      else
        let np := netplayUpdateUnreadPtr np
        let block := np.statelessMode && decide (1 < np.roster.connectedPlayers) &&
          decide (np.cursors.unread.frameCount ≤ np.cursors.run.frameCount)
        (netplayPollNetInput pf settings block env.rounds np).bind fun
          | (false, np) => some (hangupAll np)
          | (true, np) => afterNetInput settings env.now np

end RetroArch.Netplay.Poll
