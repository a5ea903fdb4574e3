/- A session from its start: the handshake's last message, and everything that can happen to it. -/

import RetroArch.Netplay.Sync

namespace RetroArch.Netplay.Session

open Library.Run Delta State Io Reading Command Resolve Savestate Poll Sync

variable {σ : Type}

/-- What SYNC tells a client. -/
structure SyncInfo where
  frame : ℕ
  clientNum : ℕ
  paused : Bool
  devices : ℕ → ℕ
  shareModes : ℕ → UInt8
  clients : ℕ → ℕ
  nick : List UInt8

/-- "Clear out the framebuffer", but for our own frame. -/
def clearBuffer (np : NetplayT σ) (frame : ℕ) : ℕ → DeltaFrame σ := fun i =>
  let f := { np.buffer i with used := false }
  if i = np.cursors.self.ptr then
    ((netplayDeltaFrameReady np.cursors.other.frameCount f 0).map fun f =>
      { f with frame := frame, haveLocal := true }).getD f
  else if i < np.bufferSize then f
  else np.buffer i

/-- The players SYNC lists by device. -/
def syncRoster (info : SyncInfo) : Roster where
  connectedPlayers := (List.range MAX_INPUT_DEVICES).foldl (fun players device =>
    players ||| info.clients device) 0
  connectedSlaves := 0
  clientDevices client := (List.range MAX_INPUT_DEVICES).foldl (fun devices device =>
    if (info.clients device).testBit client then devices ||| 1 <<< device else devices) 0
  deviceClients := info.clients
  deviceShareModes := info.shareModes

/-- A client once it has taken over what SYNC tells it. -/
def syncReceived (np : NetplayT σ) (info : SyncInfo) : NetplayT σ :=
  let self : Cursor := ⟨np.cursors.self.ptr, info.frame⟩
  { np with
    remotePaused := np.remotePaused || info.paused
    selfClientNum := info.clientNum
    buffer := clearBuffer np info.frame
    cursors := { np.cursors with
      self := self, run := self, other := self, unread := self, server := self
      read := fun _ => self }
    configDevices := info.devices
    haveUpdownDevice := np.haveUpdownDevice || (List.range MAX_INPUT_DEVICES).any fun device =>
      decide (deviceType (info.devices device) = RETRO_DEVICE_KEYBOARD)
    roster := syncRoster info
    selfDevices := 0
    nick := info.nick
    selfMode := .spectating }

/-- `netplay_handshake_pre_sync`, with all of SYNC received. -/
def netplayHandshakePreSync (settings : Settings) (np : NetplayT σ) (info : SyncInfo) :
    Outcome σ :=
  let np := (syncReceived np info).setConnection 0 fun c => { c with mode := .playing }
  let np := netplayRecvFlush (netplayHandshakeReady np) 0
  let (asked, np) :=
    if settings.netplayStartAsSpectator then (true, np)
    else netplaySendRawCmd np 0 (.play (playRequest settings))
  let (sent, np) := netplaySendCurInput np 0
  some (if asked && sent then .handled else .dropped, np)

/-- What can happen to a session: the network delivers, someone connects, the user acts, or one of
the functions of the frame loop is called. The loop's own order of these is one of many. A replay
is also seen after any number of its frames. -/
inductive Event (σ : Type)
  | arrive (i : ℕ) (t : Traffic)
  | accept
  | sync (info : SyncInfo)
  | getCmd (i : ℕ) (handshake : Handshake)
  | hangup (i : ℕ)
  | selfInput (input : LocalInput)
  | updateUnread
  | pollNetInput (block : Bool) (rounds : List Round)
  | resolveInput (resim : Bool)
  | handleSlaves
  | afterNetInput (now : ℕ)
  | preFrame (env : FrameEnv)
  | coreRun
  | postFrame (env : FrameEnv)
  | syncPostFrame (env : FrameEnv) (stalled : Bool)
  | replaying (stalled : Bool) (frames : ℕ)
  | loadSavestate (info : Option (ℕ × Option σ))
  | coreReset
  | togglePlaySpectate
  | paused (paused : Bool)
  | desyncPush
  | desyncPop

/-- A replay after `frames` of its frames. -/
def replayedFrames (pf : Platform σ) (stalled : Bool) (frames : ℕ) (np : NetplayT σ) :
    NetplayT σ :=
  (replayFrame pf)^[frames]
    (startReplay pf (findReplay pf (resetIfForced pf (finishFrame np stalled))))

/-- One event. Undefined behaviour, and the end of the session, have no successor. SYNC is read
before there is anything to replay; the network is not read while a replay is on. -/
def step (pf : Platform σ) (settings : Settings) (np : NetplayT σ) :
    Event σ → Option (NetplayT σ)
  | .arrive i t => some (deliver np i t)
  | .accept => if np.isServer then some (acceptConnection np) else none
  | .sync info =>
    if np.isServer ∨ np.isReplay then none
    else (netplayHandshakePreSync settings np info).map Prod.snd
  | .getCmd i handshake =>
    if (np.connection i).active then
      (netplayGetCmd pf settings handshake np i).map fun
        | (.refused, np) | (.dropped, np) => netplayHangup np i
        | (.idle, np) | (.handled, np) => np
    else none
  | .hangup i => some (netplayHangup np i)
  | .selfInput input => (getSelfInputState input np).map Prod.snd
  | .updateUnread => some (netplayUpdateUnreadPtr np)
  | .pollNetInput block rounds =>
    (netplayPollNetInput pf settings block rounds np).map Prod.snd
  | .resolveInput resim => some (netplayResolveInput np np.cursors.run.ptr resim).2
  | .handleSlaves => netplayHandleSlaves np
  | .afterNetInput now => afterNetInput settings now np
  | .preFrame env => (netplayPreFrame pf settings env np).map Prod.snd
  | .coreRun => some (coreRun pf np)
  | .postFrame env => some (netplayPostFrame pf env np).2
  | .syncPostFrame env stalled => some (netplaySyncPostFrame pf env stalled np)
  | .replaying stalled frames =>
    if unsynced (finishFrame np stalled) then none
    else some (replayedFrames pf stalled frames np)
  | .loadSavestate info => some (netplayLoadSavestate pf np info true)
  | .coreReset => some (netplayCoreReset np)
  | .togglePlaySpectate => netplayTogglePlaySpectate settings np
  | .paused paused => some (netplayFrontendPaused np paused)
  | .desyncPush => some { np with desync := np.desync + 1 }
  | .desyncPop => some (netplayDesyncPop pf np)

/-- The state `np'` is reached from `np`. -/
def Reaches (pf : Platform σ) (settings : Settings) (np np' : NetplayT σ) : Prop :=
  ∃ events, run (step pf settings) np events = some np'

end RetroArch.Netplay.Session
