/- Synchronisation before and after a frame: savestates, new connections, rollback and replay. -/

import RetroArch.Netplay.Poll

namespace RetroArch.Netplay.Sync

open Delta State Io Command Resolve Savestate Poll

variable {σ : Type}

def setState (np : NetplayT σ) (ptr : ℕ) (state : Option σ) : NetplayT σ :=
  np.setFrame ptr { np.buffer ptr with state := state }

/-- "Bring our running frame and input frames into parity so we don't send old info." -/
def parity (np : NetplayT σ) : NetplayT σ :=
  let run := np.cursors.run
  let self := np.cursors.self
  if run.ptr ≠ self.ptr then
    { setState np self.ptr (np.buffer run.ptr).state with
      cursors := { np.cursors with run := self } }
  else np

/-- The savestate `netplay_sync_pre_frame` takes. -/
def takeSavestate (pf : Platform σ) (np : NetplayT σ) : NetplayT σ :=
  let run := np.cursors.run
  let np := setState np run.ptr none
  if np.quirkInitialization ∨ run.frameCount = 0 then np
  else
    match if np.quirkNoSavestates then none else pf.serialize np.core with
    | none => { np with quirkNoSavestates := true, statelessMode := true }
    | some s =>
      let np := setState np run.ptr (some s)
      if np.forceSendSavestate ∧ np.stall = .none ∧ np.remotePaused = false then
        let np := parity np
        let info := (np.stateSize, (np.buffer np.cursors.run.ptr).state)
        { netplayLoadSavestate pf np (some info) false with forceSendSavestate := false }
      else np

/-- The connection to our peer, or its first one, is not there yet. -/
def noPeer (np : NetplayT σ) : Bool :=
  decide (np.connections.length = 0) || !(np.connection 0).active || !(np.connection 0).mode.ready

/-- The savestate of `netplay_sync_pre_frame`, and the stall where there cannot be one. -/
def preSerialize (pf : Platform σ) (np : NetplayT σ) : NetplayT σ :=
  match np.frameReady np.cursors.run.ptr np.cursors.run.frameCount with
  | none => np
  | some np =>
    let np := takeSavestate pf np
    if 0 < np.cursors.run.frameCount ∧ (np.quirkNoSavestates ∨ np.quirkNoTransmission) ∧
        noPeer np then
      { np with stall := .noConnection }
    else np

/-- A connection that was just accepted. -/
def accepted : Connection := { Connection.zero with active := true, mode := .init }

/-- "Allocate a connection": the first free slot, or the first of as many new ones. -/
def acceptConnection (np : NetplayT σ) : NetplayT σ :=
  let n := np.connections.length
  let free := (List.range n).find? fun i =>
    decide ((np.connection i).active = false ∧ (np.connection i).mode ≠ .delayedDisconnect)
  match free with
  | some i => np.setConnection i fun _ => accepted
  | none => { np with
      connections := np.connections ++ accepted :: List.replicate (n - 1) Connection.zero }

/-- `input_poll_net`. -/
def inputPollNet (pf : Platform σ) (settings : Settings) (env : PollEnv) (np : NetplayT σ) :
    Option (NetplayT σ) :=
  if np.canPoll ∧ ¬(np.isReplay ∧ np.selfMode.ready) then netplayPoll pf settings env np
  else some np

/-- What one frame finds outside the session: whether someone connects, what a poll finds, and how
long a frame takes to run. -/
structure FrameEnv where
  connecting : Bool
  poll : PollEnv
  frameRunTimeAvg : ℕ

/-- `netplay_sync_pre_frame`. -/
def netplaySyncPreFrame (pf : Platform σ) (settings : Settings) (env : FrameEnv)
    (np : NetplayT σ) : Option (Bool × NetplayT σ) :=
  let np := preSerialize pf np
  let np := if np.isServer ∧ env.connecting then acceptConnection np else np
  (inputPollNet pf settings env.poll { np with canPoll := true }).map fun np =>
    (decide (np.stall ≠ .noConnection), np)

/-- The frame counters at the start of `netplay_sync_post_frame`. The latency is added modulo
2^32. -/
def finishFrame (np : NetplayT σ) (stalled : Bool) : NetplayT σ :=
  let c := np.cursors
  let run := if stalled then c.run else c.run.next np.bufferSize
  let self :=
    if (stalled = false ∨ np.stall = .inputLatency) ∧
        (c.self.frameCount : ℤ) < (run.frameCount + np.inputLatencyFrames) % 2 ^ 32 then
      c.self.next np.bufferSize
    else c.self
  { np with cursors := { c with run := run, self := self } }

/-- There is no one to wait for, or we are not to. -/
def unsynced (np : NetplayT σ) : Bool :=
  np.isServer && decide (np.roster.connectedPlayers ≤ 1) || !np.selfMode.ready ||
    decide (np.desync ≠ 0)

/-- "Reset if it was requested." -/
def resetIfForced (pf : Platform σ) (np : NetplayT σ) : NetplayT σ :=
  if np.forceReset then { np with core := pf.reset np.core, forceReset := false } else np

def setOther (np : NetplayT σ) (c : Cursor) : NetplayT σ :=
  { np with cursors := { np.cursors with other := c } }

def setReplay (np : NetplayT σ) (c : Cursor) : NetplayT σ :=
  { np with cursors := { np.cursors with replay := c } }

/-- "Skip ahead if we predicted correctly": false if some input we used was bad. The first number
counts the frames up to ours. -/
def skipAhead (pf : Platform σ) : ℕ → NetplayT σ → Bool × NetplayT σ
  | 0, np => (true, np)
  | frames + 1, np =>
    let other := np.cursors.other
    if other.frameCount < np.cursors.unread.frameCount ∧
        other.frameCount < np.cursors.run.frameCount then
      let (changed, np) := netplayResolveInput np other.ptr true
      if changed then (false, np)
      else
        let np := netplayHandleFrameHash pf np other.ptr
        skipAhead pf frames (setOther np (other.next np.bufferSize))
    else (true, np)

/-- The second loop that skips: over frames whose simulated input stays as it was. -/
def skipSimulated : ℕ → NetplayT σ → NetplayT σ
  | 0, np => np
  | frames + 1, np =>
    let replay := np.cursors.replay
    if replay.frameCount < np.cursors.run.frameCount then
      let (changed, np) := netplayResolveInput np replay.ptr true
      if changed then np
      else skipSimulated frames (setReplay np (replay.next np.bufferSize))
    else np

/-- Where the replay starts. -/
def findReplay (pf : Platform σ) (np : NetplayT σ) : NetplayT σ :=
  let np := setReplay np np.cursors.other
  if np.forceRewind then np
  else
    let frames := np.cursors.run.frameCount - np.cursors.other.frameCount
    match skipAhead pf frames np with
    | (false, np) => setReplay np np.cursors.other
    | (true, np) => skipSimulated frames (setReplay np np.cursors.other)

/-- "We replay the previous frame's input just to assert that the keydown/keyup events work." The
cursor comes back to where it was. -/
def replayKeyboard (pf : Platform σ) (np : NetplayT σ) : NetplayT σ :=
  if np.haveUpdownDevice then
    let replay := np.cursors.replay
    let back : Cursor := ⟨prevPtr np.bufferSize replay.ptr, replay.frameCount - 1⟩
    setReplay (coreRun pf (setReplay np back)) replay
  else np

/-- Before the first frame is replayed: its savestate is loaded. -/
def startReplay (pf : Platform σ) (np : NetplayT σ) : NetplayT σ :=
  let np := replayKeyboard pf { np with isReplay := true }
  let np := if np.quirkInitialization then netplayWaitAndInitSerialization pf 60 np else np
  let state := (np.buffer np.cursors.replay.ptr).state
  { np with core := (pf.unserialize state).getD np.core }

/-- "Remember the current state", and check its hash where all input of the frame is known. -/
def rememberState (pf : Platform σ) (np : NetplayT σ) : NetplayT σ :=
  let replay := np.cursors.replay
  let np := setState np replay.ptr (pf.serialize np.core)
  if replay.frameCount < np.cursors.unread.frameCount then netplayHandleFrameHash pf np replay.ptr
  else np

/-- Replay one frame. -/
def replayFrame (pf : Platform σ) (np : NetplayT σ) : NetplayT σ :=
  let replay := np.cursors.replay
  let np := coreRun pf (netplayResolveInput (rememberState pf np) replay.ptr true).2
  setReplay np (replay.next np.bufferSize)

/-- After the last frame is replayed. -/
def endReplay (np : NetplayT σ) (frameRunTimeAvg : ℕ) : NetplayT σ :=
  let c := np.cursors
  let other := if c.unread.frameCount < c.run.frameCount then c.unread else c.run
  { setOther np other with
    frameRunTimeAvg := frameRunTimeAvg, isReplay := false, forceRewind := false }

/-- "Now replay the real input if we've gotten ahead of it." -/
def replay (pf : Platform σ) (env : FrameEnv) (np : NetplayT σ) : NetplayT σ :=
  if np.forceRewind ∨ np.cursors.replay.frameCount < np.cursors.run.frameCount then
    let np := startReplay pf np
    let frames := np.cursors.run.frameCount - np.cursors.replay.frameCount
    endReplay ((replayFrame pf)^[frames] np) env.frameRunTimeAvg
  else np

def NETPLAY_MAX_REQ_STALL_FREQUENCY : ℕ := 120
def CATCH_UP_CHECK_TIME_USEC : ℕ := 500 * 1000

/-- The furthest frame any player has been read to, and at least `unread`. -/
def hiFrameCount (np : NetplayT σ) : ℕ :=
  (List.range MAX_CLIENTS).foldl (fun hi client =>
    if np.roster.connectedPlayers.testBit client then
      max hi (np.cursors.read client).frameCount
    else hi) np.cursors.unread.frameCount

/-- Ask the players that are ahead of us to stall. -/
def requestStalls (np : NetplayT σ) : NetplayT σ :=
  let self := np.cursors.self.frameCount
  forConnections np fun np i =>
    let c := np.connection i
    let ahead := (np.cursors.read (i + 1)).frameCount
    if c.active ∧ c.mode = .playing ∧ self + 3 < ahead ∧
        c.stallFrame + NETPLAY_MAX_REQ_STALL_FREQUENCY < self then
      (netplaySendRawCmd (np.setConnection i fun c => { c with stallFrame := self }) i
        (.stall (ahead - self + 1))).2
    else np

/-- "If we're behind, try to catch up." -/
def tryCatchUp (stalled : Bool) (now : ℕ) (np : NetplayT σ) : NetplayT σ :=
  let self := np.cursors.self.frameCount
  let lo :=
    if np.isServer then np.cursors.unread.frameCount else np.cursors.server.frameCount
  let hi := if np.isServer then hiFrameCount np else lo
  if np.catchUp then
    if lo ≤ self + 1 then { np with catchUp := false } else np
  else if stalled then np
  else if self + 3 < lo then
    let behind := lo - self
    if np.catchUpTime = 0 then { np with catchUpTime := now, catchUpBehind := behind }
    else if CATCH_UP_CHECK_TIME_USEC < now - np.catchUpTime then
      if np.catchUpBehind ≤ behind then { np with catchUp := true, catchUpTime := 0 }
      else { np with catchUpTime := now, catchUpBehind := behind }
    else np
  else if self + 3 < hi then requestStalls { np with catchUpTime := 0 }
  else { np with catchUpTime := 0 }

/-- `netplay_sync_post_frame`. -/
def netplaySyncPostFrame (pf : Platform σ) (env : FrameEnv) (stalled : Bool) (np : NetplayT σ) :
    NetplayT σ :=
  let np := finishFrame np stalled
  if unsynced np then
    { setOther np np.cursors.self with catchUp := false }
  else
    tryCatchUp stalled env.poll.now (replay pf env (findReplay pf (resetIfForced pf np)))

/-- `netplay_frontend_paused`. -/
def netplayFrontendPaused (np : NetplayT σ) (paused : Bool) : NetplayT σ :=
  if np.localPaused = paused then np
  else
    let np := { np with localPaused := paused }
    if 1 < np.connections.countP fun c => c.active && c.paused then np
    else
      let m := if paused then Message.pause (nickField np.nick) else .resume
      forConnections np fun np i =>
        if reaches np none i then (netplaySendFlush (netplaySendRawCmd np i m).2 i).2 else np

/-- What `netplay_pre_frame` comes to: the frame may run, it may not, or netplay is over. -/
inductive Clearance
  | run
  | stalled
  | over
deriving DecidableEq

/-- `netplay_pre_frame`. -/
def netplayPreFrame (pf : Platform σ) (settings : Settings) (env : FrameEnv) (np : NetplayT σ) :
    Option (Clearance × NetplayT σ) :=
  let np := if np.localPaused then netplayFrontendPaused np false else np
  let np := if np.quirkInitialization then (netplayTryInitSerialization pf np).2 else np
  (netplaySyncPreFrame pf settings env np).map fun (ready, np) =>
    if np.isServer = false ∧ (np.connection 0).active = false then (.over, hangupAll np)
    else if ready = false ∨ (np.isServer = false ∨ 1 < np.roster.connectedPlayers) ∧
        (np.stall ≠ .none ∨ np.remotePaused) then
      (.stalled, netplaySyncPostFrame pf env true np)
    else (.run, np)

/-- Flush every connection, and hang up where that fails. -/
def flushAll (np : NetplayT σ) : NetplayT σ :=
  forConnections np fun np i =>
    if (np.connection i).active then
      match netplaySendFlush np i with
      | (true, np) => np
      | (false, np) => netplayHangup np i
    else np

/-- `netplay_post_frame`. -/
def netplayPostFrame (pf : Platform σ) (env : FrameEnv) (np : NetplayT σ) :
    Clearance × NetplayT σ :=
  let np := flushAll (netplaySyncPostFrame pf env false (netplayUpdateUnreadPtr np))
  if np.isServer = false ∧ (np.connection 0).active = false then (.over, hangupAll np)
  else (.run, np)

/-- One turn of the runloop with netplay on. -/
def netplayFrame (pf : Platform σ) (settings : Settings) (env : FrameEnv) (np : NetplayT σ) :
    Option (Clearance × NetplayT σ) :=
  (netplayPreFrame pf settings env np).map fun
    | (.run, np) => netplayPostFrame pf env (coreRun pf np)
    | (clearance, np) => (clearance, np)

/-- The payload of a request to play. -/
def playRequest (settings : Settings) : ℕ :=
  settings.netplayShareMode.toNat * 2 ^ 16 + settings.netplayRequestDevices % 2 ^ 16

/-- `netplay_cmd_mode`. As a server, the request is to ourself, and so honored instantly. -/
def netplayCmdMode (settings : Settings) (np : NetplayT σ) (mode : ConnectionMode) :
    Option (NetplayT σ) :=
  let request := playRequest settings
  let play := fun request =>
    if np.isServer then handlePlay settings np 0 none request
    else some (netplaySendRawCmd np 0 (.play request)).2
  match mode with
  | .spectating =>
    some (if np.isServer then handleSpectate np 0 none else (netplaySendRawCmd np 0 .spectate).2)
  | .slave => play (NETPLAY_CMD_PLAY_BIT_SLAVE + request)
  | .playing => play request
  | _ => some np

/-- `netplay_toggle_play_spectate`. -/
def netplayTogglePlaySpectate (settings : Settings) (np : NetplayT σ) : Option (NetplayT σ) :=
  if np.selfMode = .playing ∨ np.selfMode = .slave then
    netplayCmdMode settings { np with selfMode := .spectating } .spectating
  else if np.selfMode = .spectating then netplayCmdMode settings np .playing
  else some np

/-- `RARCH_NETPLAY_CTL_DESYNC_POP`. -/
def netplayDesyncPop (pf : Platform σ) (np : NetplayT σ) : NetplayT σ :=
  if np.desync = 0 then np
  else
    let np := { np with desync := np.desync - 1 }
    if np.desync = 0 then netplayLoadSavestate pf np none true else np

end RetroArch.Netplay.Sync
