/- The receiving side of netplay: one command from one connection. -/

import RetroArch.Netplay.Reading

namespace RetroArch.Netplay.Command

open Library.Bits Library.Bytes Library.Rewinding Delta State Io Reading

variable {σ : Type}

/-- The words of a run of bytes from the wire. -/
def ntohls (bytes : List UInt8) : List ℕ := (quads bytes).map ntohl

/-- Input words as they lie in memory on a little-endian host, and back. -/
def hostBytes (data : List UInt32) : List UInt8 := data.flatMap fun w => toLE 4 w.toNat

def hostWords (bytes : List UInt8) : List UInt32 :=
  (quads bytes).map fun word => UInt32.ofNat (ofLE word)

/-- `istate->data` after `netplay_recv` put `bytes` at its front. -/
def overlay (data : List UInt32) (bytes : List UInt8) : List UInt32 :=
  hostWords (bytes ++ (hostBytes data).drop bytes.length)

/-- Write the data of the state at position `k` of a client's input for `device`. -/
def setData (f : DeltaFrame σ) (device k : ℕ) (data : List UInt32 → List UInt32) :
    DeltaFrame σ :=
  let list := (f.realInput device).modify k fun s => { s with data := data s.data }
  { f with realInput := Function.update f.realInput device list }

def setEntry (np : NetplayT σ) (ptr device k : ℕ) (data : List UInt32 → List UInt32) :
    NetplayT σ :=
  np.setFrame ptr (setData (np.buffer ptr) device k data)

/-- The entry of a client for `device` in the frame at `ptr`, made if it is not there. -/
def realStateFor (np : NetplayT σ) (ptr device clientNum : ℕ) : Option ℕ × NetplayT σ :=
  let f := np.buffer ptr
  let (k, list) := netplayInputStateFor (f.realInput device) clientNum
    (np.expectedInputSize (1 <<< device)) false false
  (k, np.setFrame ptr { f with realInput := Function.update f.realInput device list })

/-- The loop "Copy in the input". The entry for a device is made before its data is received,
and keeps what part of the data there was. -/
def copyInput (i ptr clientNum : ℕ) (next : NetplayT σ → Outcome σ) :
    List ℕ → NetplayT σ → Outcome σ
  | [], np => next np
  | device :: rest, np =>
    match realStateFor np ptr device clientNum with
    | (none, np) => nak np i
    | (some k, np) =>
      match netplayRecv np i (np.expectedInputSize (1 <<< device) * 4) with
      | (.failed, np) => refused np
      | (.short bytes, np) => shrt (setEntry np ptr device k (overlay · bytes)) i
      | (.full bytes, np) =>
        let words := (ntohls bytes).map UInt32.ofNat
        copyInput i ptr clientNum next rest (setEntry np ptr device k fun _ => words)

/-- "We already had this": the data is read and dropped word by word. -/
def dropWords (i : ℕ) : ℕ → NetplayT σ → Outcome σ
  | 0, np => done np i
  | k + 1, np => RECV np i 4 (nak · i) fun _ np => dropWords i k np

/-- `dframe->have_real[client_num] = true`. -/
def markReal (np : NetplayT σ) (ptr clientNum : ℕ) : NetplayT σ :=
  np.setFrame ptr { np.buffer ptr with
    haveReal := Function.update (np.buffer ptr).haveReal clientNum true }

/-- The client's next frame is read next. A server forwards past frames at once; those of slaves
wait until all network data has been handled. -/
def advanceRead (np : NetplayT σ) (i ptr clientNum : ℕ) : NetplayT σ :=
  if (np.connection i).mode = .playing then
    let np := np.setRead clientNum ((np.cursors.read clientNum).next np.bufferSize)
    if np.isServer ∧ (np.buffer ptr).frame ≤ np.cursors.self.frameCount then
      sendInputFrame np (np.buffer ptr) (some i) clientNum false
    else np
  else np

/-- "If this was server data, advance our server pointer too." -/
def followServer (np : NetplayT σ) (clientNum : ℕ) : NetplayT σ :=
  if np.isServer = false ∧ clientNum = 0 then
    { np with cursors := { np.cursors with server := np.cursors.read 0 } }
  else np

/-- INPUT once all of its data has been copied in. -/
def inputReceived (i ptr clientNum : ℕ) (np : NetplayT σ) : Outcome σ :=
  done (followServer (advanceRead (markReal np ptr clientNum) i ptr clientNum) clientNum) i

/-- "Ignore the claimed client #, must be this client", on a server. -/
def inputClient (np : NetplayT σ) (i clientNum : ℕ) : ℕ :=
  if np.isServer then i + 1 else clientNum % 2 ^ 16

/-- INPUT from the point where the frame and client numbers are known. -/
def inputFrom (np : NetplayT σ) (i cmdSize frameNum clientNum : ℕ) : Outcome σ :=
  let mode := (np.connection i).mode
  if np.isServer ∧ mode ≠ .playing ∧ mode ≠ .slave then nak np i
  else
    let clientNum := inputClient np i clientNum
    if MAX_CLIENTS < clientNum then nak np i
    else
      let devices := np.roster.clientDevices clientNum
      let inputSize := np.expectedInputSize devices
      if cmdSize ≠ (2 + inputSize) * 4 then nak np i
      else if MAX_CLIENTS ≤ clientNum ∨ np.roster.connectedPlayers.testBit clientNum = false then
        nak np i
      else
        let read := np.cursors.read clientNum
        if mode = .playing ∧ frameNum < read.frameCount then dropWords i inputSize np
        else if mode = .playing ∧ read.frameCount < frameNum then nak np i
        else
          match np.frameReady read.ptr read.frameCount with
          | none => shrt np i
          | some np =>
            copyInput i read.ptr clientNum (inputReceived i read.ptr clientNum)
              (devicesOf devices) np

def getInput (np : NetplayT σ) (i cmdSize : ℕ) : Outcome σ :=
  if cmdSize < 2 * 4 then nak np i
  else
    RECV np i 4 refused fun frameNum np =>
      RECV np i 4 refused fun clientNum np =>
        inputFrom np i cmdSize (ntohl frameNum) (ntohl clientNum)

def getNoinput (np : NetplayT σ) (i : ℕ) : Outcome σ :=
  if np.isServer then nak np i
  else
    RECV np i 4 (nak · i) fun frame np =>
      let frame := ntohl frame
      let server := np.cursors.server
      if frame < server.frameCount then done np i
      else if frame ≠ server.frameCount then nak np i
      else done { np with
        cursors := { np.cursors with server := server.next np.bufferSize } } i

def getSpectate (np : NetplayT σ) (i cmdSize : ℕ) : Outcome σ :=
  let mode := (np.connection i).mode
  if np.isServer = false then nak np i
  else if cmdSize ≠ 0 then nak np i
  else if mode ≠ .playing ∧ mode ≠ .slave then nak np i
  else done (handleSpectate np (i + 1) (some i)) i

def getPlay (settings : Settings) (np : NetplayT σ) (i cmdSize : ℕ) : Outcome σ :=
  if cmdSize ≠ 4 then nak np i
  else
    RECV np i 4 (nak · i) fun payload np =>
      let c := np.connection i
      if np.isServer = false then nak np i
      else if c.delayFrame ≠ 0 then
        done (refuseMode np (some i) NETPLAY_CMD_MODE_REFUSED_REASON_TOO_FAST) i
      else if c.canPlay = false then
        done (refuseMode np (some i) NETPLAY_CMD_MODE_REFUSED_REASON_UNPRIVILEGED) i
      else if c.mode = .playing ∨ c.mode = .slave then nak np i
      else (handlePlay settings np (i + 1) (some i) (ntohl payload)).bind fun np => done np i

/-- Give a client zero input for its devices in the frame at `ptr`. -/
def zeroInput (np : NetplayT σ) (ptr clientNum devices : ℕ) : NetplayT σ :=
  (devicesOf devices).foldl (fun np device =>
    match realStateFor np ptr device clientNum with
    | (none, np) => np
    | (some k, np) => setEntry np ptr device k fun data => List.replicate data.length 0) np

/-- Give the frame at `ptr` zero input from us and send it. -/
def sendPastFrame (np : NetplayT σ) (i ptr clientNum devices : ℕ) : NetplayT σ :=
  let np := zeroInput np ptr clientNum devices
  let np := markReal (np.setFrame ptr { np.buffer ptr with haveLocal := true }) ptr clientNum
  (sendInputFrameOnly np (np.buffer ptr) i clientNum false).2

/-- "It wanted past frames, better send 'em!" A chase once around the buffer without meeting our
frame would not end. -/
def sendPastFrames (i clientNum devices : ℕ) : ℕ → ℕ → NetplayT σ → Option (NetplayT σ)
  | 0, _, _ => none
  | fuel + 1, ptr, np =>
    let frame := (np.buffer ptr).frame
    if (np.buffer ptr).used ∧ frame ≤ np.cursors.self.frameCount then
      let np := sendPastFrame np i ptr clientNum devices
      if frame = np.cursors.self.frameCount then some np
      else sendPastFrames i clientNum devices fuel (nextPtr np.bufferSize ptr) np
    else some np

/-- "It wants future frames": nothing is captured or sent until then. -/
def skipToFrame (frame : ℕ) : ℕ → ℕ → ℕ → NetplayT σ → Option (Bool × NetplayT σ)
  | 0, _, _, _ => none
  | fuel + 1, ptr, frameCount, np =>
    let ready := if (np.buffer ptr).used then some np else np.frameReady ptr frameCount
    match ready with
    | none => some (false, np)
    | some np =>
      let np := np.setFrame ptr { np.buffer ptr with haveLocal := true }
      if frame ≤ frameCount + 1 then some (true, np)
      else skipToFrame frame fuel (nextPtr np.bufferSize ptr) (frameCount + 1) np

/-- "Hooray, I get to play now!" -/
def becomePlayer (np : NetplayT σ) (clientNum devices : ℕ) (slave : Bool) : NetplayT σ :=
  { np with
    selfMode := if slave then .slave else .playing
    roster := join np.roster clientNum devices
    selfDevices := devices }.setRead clientNum np.cursors.server

/-- MODE with `NETPLAY_CMD_MODE_BIT_YOU` and `NETPLAY_CMD_MODE_BIT_PLAYING`. -/
def modeYouPlay (np : NetplayT σ) (i frame clientNum devices : ℕ) (slave : Bool) : Outcome σ :=
  let self := np.cursors.self
  if frame ≠ np.cursors.server.frameCount then nak np i
  else if np.selfMode = .playing then nak np i
  else if slave = false ∧ frame ≤ self.frameCount then
    (sendPastFrames i clientNum devices (np.bufferSize + 1) np.cursors.server.ptr
      (becomePlayer np clientNum devices slave)).bind fun np => done np i
  else
    (skipToFrame frame (frame - self.frameCount + 1) self.ptr self.frameCount
      (becomePlayer np clientNum devices slave)).bind fun (ready, np) =>
        if ready then done np i else nak np i

/-- The share modes of the payload, and whether past input changed. -/
def modeReceived (np : NetplayT σ) (frame : ℕ) (payload : List UInt8) : NetplayT σ :=
  { np with
    forceRewind := np.forceRewind || decide (frame < np.cursors.self.frameCount)
    roster := { np.roster with
      deviceShareModes := fun device =>
        if device < MAX_INPUT_DEVICES then (payload.drop 12).getD device 0
        else np.roster.deviceShareModes device } }

/-- Someone else starts playing, at the server's frame. -/
def startPlaying (np : NetplayT σ) (clientNum devices : ℕ) : NetplayT σ :=
  { np with roster := join np.roster clientNum devices }.setRead clientNum np.cursors.server

/-- Someone stops playing. The bitmap of slaves is the server's own. -/
def stopPlaying (np : NetplayT σ) (clientNum : ℕ) : NetplayT σ :=
  { np with
    roster := { leave np.roster clientNum with connectedSlaves := np.roster.connectedSlaves } }

/-- MODE from the point where the payload has been received. -/
def modeFrom (np : NetplayT σ) (i : ℕ) (payload : List UInt8) : Outcome σ :=
  let words := ntohls payload
  let frame := words.getD 0 0
  let info := words.getD 1 0
  let devices := words.getD 2 0
  let clientNum := info % 2 ^ 16
  if MAX_CLIENTS ≤ clientNum then
    nak { np with
      forceRewind := np.forceRewind || decide (frame < np.cursors.self.frameCount) } i
  else
    let np := modeReceived np frame payload
    if info.testBit 31 then
      if info.testBit 30 then modeYouPlay np i frame clientNum devices (info.testBit 29)
      else if np.selfMode ≠ .spectating then nak np i
      else done (stopPlaying np clientNum) i
    else if info.testBit 30 then
      if frame ≠ np.cursors.server.frameCount then nak np i
      else done (startPlaying np clientNum devices) i
    else done (stopPlaying np clientNum) i

def getMode (np : NetplayT σ) (i cmdSize : ℕ) : Outcome σ :=
  if np.isServer then nak np i
  else if cmdSize ≠ 15 * 4 then nak np i
  else RECV np i (15 * 4) (nak · i) fun payload np => modeFrom np i payload

/-- The reason only chooses the text shown to the user. -/
def getModeRefused (np : NetplayT σ) (i cmdSize : ℕ) : Outcome σ :=
  if np.isServer then nak np i
  else if cmdSize ≠ 4 then nak np i
  else RECV np i 4 (nak · i) fun _ np => done np i

/-- `netplay_delta_frame_crc`. -/
def netplayDeltaFrameCrc (pf : Platform σ) (np : NetplayT σ) (f : DeltaFrame σ) : ℕ :=
  if np.stateSize = 0 then 0 else pf.crc32 f.state

/-- The pointers in the order in which CRC looks at them, back from `run_ptr`. -/
def crcPointers (np : NetplayT σ) : List ℕ :=
  (List.range np.bufferSize).map fun k => (prevPtr np.bufferSize)^[k] np.cursors.run.ptr

def getCrc (pf : Platform σ) (np : NetplayT σ) (i cmdSize : ℕ) : Outcome σ :=
  if cmdSize ≠ 2 * 4 then nak np i
  else
    RECV np i (2 * 4) (nak · i) fun payload np =>
      let frame := (ntohls payload).getD 0 0
      let crc := (ntohls payload).getD 1 0
      match (crcPointers np).find? fun ptr =>
          (np.buffer ptr).used && decide ((np.buffer ptr).frame = frame) with
      | none => done np i
      | some ptr =>
        if frame ≤ np.cursors.other.frameCount then
          if crc ≠ netplayDeltaFrameCrc pf np (np.buffer ptr) then
            done (netplayCmdRequestSavestate np) i
          else done np i
        else done (np.setFrame ptr { np.buffer ptr with crc := crc }) i

/-- The input the core sees while it runs, and the core after it ran. -/
def coreRun (pf : Platform σ) (np : NetplayT σ) : NetplayT σ :=
  let ptr := if np.isReplay then np.cursors.replay.ptr else np.cursors.run.ptr
  let input := fun port =>
    ((np.buffer ptr).resolvedInput port).head?.bind fun istate =>
      if istate.used then some istate.data else none
  { np with core := pf.run np.configDevices input np.core }

/-- `netplay_try_init_serialization`. -/
def netplayTryInitSerialization (pf : Platform σ) (np : NetplayT σ) : Bool × NetplayT σ :=
  if np.stateSize ≠ 0 then (true, np)
  else
    let size := pf.serializeSize np.core
    if size = 0 then (false, np)
    else
      let np := { np with stateSize := size, zbufferSize := size * 2 }
      match pf.serialize np.core with
      | none => (false, np)
      | some s =>
        (true, { np.setFrame np.cursors.run.ptr
          { np.buffer np.cursors.run.ptr with state := some s } with
            quirkInitialization := false })

/-- `netplay_wait_and_init_serialization`, with the frames left to wait. -/
def netplayWaitAndInitSerialization (pf : Platform σ) : ℕ → NetplayT σ → NetplayT σ
  | 0, np => np
  | frames + 1, np =>
    match netplayTryInitSerialization pf np with
    | (true, np) => np
    | (false, np) => netplayWaitAndInitSerialization pf frames (coreRun pf np)

theorem waitAndInit_kept {P : NetplayT σ → Prop} {pf : Platform σ}
    (htry : ∀ np, P np → P (netplayTryInitSerialization pf np).2)
    (hrun : ∀ np, P np → P (coreRun pf np)) (frames : ℕ) {np : NetplayT σ} (h : P np) :
    P (netplayWaitAndInitSerialization pf frames np) := by
  induction frames generalizing np with
  | zero => exact h
  | succ frames ih =>
    have hnext := htry np h
    rw [netplayWaitAndInitSerialization]
    rcases hres : netplayTryInitSerialization pf np with ⟨_ | _, np'⟩
    · rw [hres] at hnext
      exact ih (hrun np' hnext)
    · rw [hres] at hnext
      exact hnext

/-- "Make sure we're ready for it." -/
def initForLoad (pf : Platform σ) (np : NetplayT σ) : NetplayT σ :=
  if np.quirkInitialization then
    if np.isReplay then netplayWaitAndInitSerialization pf 60 np
    else
      let np := { np with
        isReplay := true, cursors := { np.cursors with replay := np.cursors.run } }
      { netplayWaitAndInitSerialization pf 60 np with isReplay := false }
  else np

/-- "Skip ahead if it's past where we are." -/
def loadJumps (np : NetplayT σ) (load : Cursor) (reset : Bool) : Bool :=
  decide (np.cursors.run.frameCount < load.frameCount) || reset

/-- The cursors once the frame at `load` is the one to go on from. After a jump, the frame that is
just running is the one before it. -/
def loadCursors (np : NetplayT σ) (load : Cursor) (reset : Bool) : Cursors :=
  let c := np.cursors
  let before : Cursor := ⟨prevPtr np.bufferSize load.ptr, load.frameCount - 1⟩
  { c with
    run := if loadJumps np load reset then before else c.run
    self :=
      if loadJumps np load reset ∧ c.self.frameCount < load.frameCount then before else c.self
    read := fun client =>
      if client < MAX_CLIENTS ∧ np.roster.connectedPlayers.testBit client ∧
          (c.read client).frameCount < load.frameCount then load
      else c.read client
    other := load }

/-- The last part of LOAD_SAVESTATE and RESET. A counter below 0 has no result here. -/
def loadAt (np : NetplayT σ) (i : ℕ) (load : Cursor) (reset : Bool) : Outcome σ :=
  if loadJumps np load reset ∧ load.frameCount = 0 then none
  else
    done { np with
      savestateRequestOutstanding := false, cursors := loadCursors np load reset } i

/-- The frame a peer loads into: the one we read next from it. -/
def loadCursor (np : NetplayT σ) (i : ℕ) : Cursor :=
  if np.isServer then np.cursors.read (i + 1) else np.cursors.server

/-- The savestate of LOAD_SAVESTATE goes into the frame at `ptr`. -/
def inflateAt (pf : Platform σ) (np : NetplayT σ) (i ptr : ℕ) (zdata : List UInt8) :
    NetplayT σ :=
  let f := np.buffer ptr
  { np.setFrame ptr { f with
      state := pf.inflate (np.connection i).compressionSupported zdata f.state } with
    forceRewind := true }

/-- The rest of LOAD_SAVESTATE, from its size on. -/
def receiveSavestate (pf : Platform σ) (i cmdSize : ℕ) (load : Cursor) (np : NetplayT σ) :
    Outcome σ :=
  RECV np i 4 (nak · i) fun isize np =>
    if ntohl isize ≠ np.stateSize then nak np i
    else
      RECV np i (cmdSize - 2 * 4) (nak · i) fun zdata np =>
        loadAt (inflateAt pf np i load.ptr zdata) i load false

/-- LOAD_SAVESTATE and RESET once the size of the payload has been checked. -/
def loadFrame (pf : Platform σ) (i cmdSize : ℕ) (reset : Bool) (np : NetplayT σ) : Outcome σ :=
  RECV np i 4 (nak · i) fun frame np =>
    let load := loadCursor np i
    if ntohl frame ≠ load.frameCount then nak np i
    else
      match np.frameReady load.ptr load.frameCount with
      | none => shrt np i
      | some np =>
        match reset with
        | true => loadAt { np with forceReset := true } i load true
        | false => receiveSavestate pf i cmdSize load np

/-- LOAD_SAVESTATE and RESET. -/
def getLoad (pf : Platform σ) (np : NetplayT σ) (i cmdSize : ℕ) (reset : Bool) : Outcome σ :=
  let np := initForLoad pf np
  let mode := (np.connection i).mode
  if mode ≠ .playing ∧ mode ≠ .slave then nak np i
  else if np.isServer ∧ 1 < np.connections.length then nak np i
  else if reset = false ∧ (cmdSize < 2 * 4 ∨ np.zbufferSize + 2 * 4 < cmdSize) ∨
      reset = true ∧ cmdSize ≠ 4 then nak np i
  else loadFrame pf i cmdSize reset np

/-- `netplay_send_flush_all`. -/
def netplaySendFlushAll (np : NetplayT σ) (except : Option ℕ) : NetplayT σ :=
  forConnections np fun np k =>
    if reaches np except k then
      match netplaySendFlush np k with
      | (true, np) => np
      | (false, np) => netplayHangup np k
    else np

def getPause (np : NetplayT σ) (i cmdSize : ℕ) : Outcome σ :=
  if cmdSize ≠ 32 then nak np i
  else
    RECV np i 32 (nak · i) fun _ np =>
      if (np.connection i).mode ≠ .playing then done np i
      else
        let np := np.setConnection i fun c => { c with paused := true }
        let np := { np with remotePaused := true }
        if np.isServer then
          let np := netplaySendRawCmdAll np (some i) (.pause (nickField (np.connection i).nick))
          done (netplaySendFlushAll np (some i)) i
        else done np i

def NETPLAY_MAX_REQ_STALL_TIME : ℕ := 60

def getStall (np : NetplayT σ) (i cmdSize : ℕ) : Outcome σ :=
  if cmdSize ≠ 4 then nak np i
  else
    RECV np i 4 (nak · i) fun frames np =>
      let frames := min (ntohl frames) NETPLAY_MAX_REQ_STALL_TIME
      if np.isServer then nak np i
      else if np.stall = .none then
        let np := np.setConnection i fun c =>
          { c with stall := .serverRequested, stallFrame := frames }
        done { np with stall := .serverRequested, stallTime := 0 } i
      else done np i

/-- What the peer's next message of the handshake comes to. -/
inductive Handshake
  | fail
  | wait
  | proceed (nick : List UInt8) (canPlay : Bool) (compression : ℕ) (sram : List UInt8)

/-- `netplay_handshake_ready`. -/
def netplayHandshakeReady (np : NetplayT σ) : NetplayT σ :=
  let np :=
    if np.isServer then
      if np.quirkNoSavestates = false ∧ np.quirkNoTransmission = false then
        { np with forceSendSavestate := true }
      else np
    else { np with isConnected := true }
  if np.stall = .noConnection then { np with stall := .none } else np

/-- `netplay_handshake_sync`, with the nick already made unique. -/
def netplayHandshakeSync (np : NetplayT σ) (i : ℕ) (sram : List UInt8) : Bool × NetplayT σ :=
  let clientNum := (i + 1) ||| if np.localPaused ∨ np.remotePaused then 2 ^ 31 else 0
  let m := Message.sync np.cursors.self.frameCount clientNum
    ((List.range MAX_INPUT_DEVICES).map np.configDevices) (shareModesField np.roster)
    ((List.range MAX_INPUT_DEVICES).map np.roster.deviceClients)
    (nickField (np.connection i).nick) sram
  match netplaySendRawCmd np i m with
  | (false, np) => (false, np)
  | (true, np) =>
    (true, netplayHandshakeReady (np.setConnection i fun c => { c with mode := .spectating }))

/-- The last message of the handshake: the client is told the state of the session. -/
def finishHandshake (np : NetplayT σ) (i : ℕ) (nick sram : List UInt8) : Outcome σ :=
  match netplayHandshakeSync (np.setConnection i fun c => { c with nick := nick }) i sram with
  | (false, np) => refused np
  | (true, np) =>
    match netplaySendCurInput np i with
    | (true, np) => some (.handled, np)
    | (false, np) => some (.dropped, np)

/-- `netplay_handshake` on a server, one message at a time. What the messages say is not
followed further than the nick, the permission to play and the compression they settle. -/
def netplayHandshake (np : NetplayT σ) (i : ℕ) : Handshake → Outcome σ
  | .fail => refused np
  | .wait => some (.idle, np)
  | .proceed nick canPlay compression sram =>
    let np := netplayRecvFlush np i
    match (np.connection i).mode with
    | .init =>
      let np :=
        if compression.testBit 0 then { np with compressZlib := true }
        else { np with compressNil := true }
      some (.handled, np.setConnection i fun c =>
        { c with compressionSupported := compression % 2, mode := .preNick })
    | .preNick =>
      some (.handled, np.setConnection i fun c =>
        { c with nick := nick, canPlay := canPlay,
                 mode := if canPlay then .preInfo else .prePassword })
    | .prePassword =>
      some (.handled, np.setConnection i fun c =>
        { c with canPlay := canPlay, mode := .preInfo })
    | .preInfo => finishHandshake np i nick sram
    | _ => refused np

/-- The commands, by number. -/
def handleCmd (pf : Platform σ) (settings : Settings) (np : NetplayT σ) (i cmd cmdSize : ℕ) :
    Outcome σ :=
  match cmd with
  | 0x0000 => done np i
  | 0x0001 => refused np
  | 0x0002 => some (.idle, netplayHangup np i)
  | 0x0003 => getInput np i cmdSize
  | 0x0004 => getNoinput np i
  | 0x0024 => getSpectate np i cmdSize
  | 0x0025 => getPlay settings np i cmdSize
  | 0x0026 => getMode np i cmdSize
  | 0x0027 => getModeRefused np i cmdSize
  | 0x0040 => getCrc pf np i cmdSize
  | 0x0041 => done { np with forceSendSavestate := true } i
  | 0x0042 => getLoad pf np i cmdSize false
  | 0x0046 => getLoad pf np i cmdSize true
  | 0x0043 => getPause np i cmdSize
  | 0x0044 => done (remoteUnpaused np i) i
  | 0x0045 => getStall np i cmdSize
  | _ => nak np i

/-- `netplay_get_cmd`. -/
def netplayGetCmd (pf : Platform σ) (settings : Settings) (hs : Handshake) (np : NetplayT σ)
    (i : ℕ) : Outcome σ :=
  if (np.connection i).mode.ready = false then netplayHandshake np i hs
  else
    RECV np i 4 refused fun cmd np =>
      RECV np i 4 refused fun cmdSize np =>
        handleCmd pf settings np i (ntohl cmd) (ntohl cmdSize)

end RetroArch.Netplay.Command
