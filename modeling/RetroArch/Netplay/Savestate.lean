/- Savestates and resets of our own: forcing the session into the future and telling the peers. -/

import RetroArch.Netplay.Resolve

namespace RetroArch.Netplay.Savestate

open Delta State Io Resolve

variable {σ : Type}

/-- Cursors that fell behind `run` are taken there. -/
def atLeast (run c : Cursor) : Cursor := if c.frameCount < run.frameCount then run else c

/-- "Wherever we're inputting, that's where we consider our state to be loaded." -/
def runToSelf (np : NetplayT σ) : NetplayT σ :=
  { np with cursors := { np.cursors with run := np.cursors.self } }

/-- Take the frames read from every player, and from the server, to `run`. -/
def readToRun (np : NetplayT σ) : NetplayT σ :=
  let run := np.cursors.run
  { np with
    cursors := { np.cursors with
      read := fun client =>
        if client < MAX_CLIENTS ∧ np.roster.connectedPlayers.testBit client then
          atLeast run (np.cursors.read client)
        else np.cursors.read client
      server := atLeast run np.cursors.server } }

/-- "We need to ignore any intervening data from the other side, and never rewind past this." -/
def ignorePast (np : NetplayT σ) : NetplayT σ :=
  let np := netplayUpdateUnreadPtr np
  if np.cursors.unread.frameCount < np.cursors.run.frameCount then
    netplayUpdateUnreadPtr (readToRun np)
  else np

/-- `netplay_force_future`. -/
def netplayForceFuture (np : NetplayT σ) : NetplayT σ :=
  let np := ignorePast (runToSelf np)
  { np with
    cursors := { np.cursors with other := atLeast np.cursors.run np.cursors.other } }

/-- Hang up on every connection. -/
def hangupAll (np : NetplayT σ) : NetplayT σ := forConnections np netplayHangup

/-- Send a command to every connection in the game that `chosen` takes, and hang up where that
fails. -/
def sendTo (np : NetplayT σ) (chosen : Connection → Bool) (m : Message) : NetplayT σ :=
  forConnections np fun np i =>
    if reaches np none i && chosen (np.connection i) then
      match netplaySendRawCmd np i m with
      | (true, np) => np
      | (false, np) => netplayHangup np i
    else np

/-- `netplay_send_savestate`, of a state of `size` bytes. -/
def netplaySendSavestate (pf : Platform σ) (np : NetplayT σ) (size : ℕ) (state : Option σ)
    (cx : ℕ) : NetplayT σ :=
  match pf.deflate cx state with
  | none => hangupAll np
  | some zdata =>
    sendTo np (fun c => decide (c.compressionSupported = cx))
      (.loadSavestate np.cursors.run.frameCount size zdata)

/-- The end of `netplay_load_savestate`: tell the peers, unless they are not to know. -/
def shareSavestate (pf : Platform σ) (np : NetplayT σ) (size : ℕ) (state : Option σ) :
    NetplayT σ :=
  if np.desync ≠ 0 ∨ np.quirkNoSavestates ∨ np.quirkNoTransmission then np
  else
    let np := if np.compressNil then netplaySendSavestate pf np size state 0 else np
    if np.compressZlib then netplaySendSavestate pf np size state 1 else np

/-- `netplay_load_savestate`. Without a savestate to load, the core's own state is taken. -/
def netplayLoadSavestate (pf : Platform σ) (np : NetplayT σ)
    (serialInfo : Option (ℕ × Option σ)) (save : Bool) : NetplayT σ :=
  let np := netplayForceFuture np
  let run := np.cursors.run
  match serialInfo, save with
  | some (size, state), false => shareSavestate pf np size state
  | some (size, state), true =>
    match np.frameReady run.ptr run.frameCount with
    | none => np
    | some np =>
      let f := np.buffer run.ptr
      let kept := if size ≤ np.stateSize then state else f.state
      shareSavestate pf (np.setFrame run.ptr { f with state := kept }) size state
  | none, _ =>
    match np.frameReady run.ptr run.frameCount with
    | none => np
    | some np =>
      match pf.serialize np.core with
      | none => np
      | some s =>
        shareSavestate pf (np.setFrame run.ptr { np.buffer run.ptr with state := some s })
          np.stateSize (some s)

/-- `netplay_core_reset`. -/
def netplayCoreReset (np : NetplayT σ) : NetplayT σ :=
  let np := netplayForceFuture np
  sendTo np (fun _ => true) (.reset np.cursors.self.frameCount)

end RetroArch.Netplay.Savestate
