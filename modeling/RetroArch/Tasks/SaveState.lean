/- The tasks that save a state to a file and load one from it, a chunk at each call. -/

import RetroArch.Library.Accounting
import Mathlib.Data.PNat.Basic

namespace RetroArch.Tasks.SaveState

open Library.Accounting

inductive Msg
  | failedToUndoSaveState
  | failedToSaveStateTo
  | failedToLoadState
  | failed
  | succeeded
  | autoloadingSavestateFrom
  | restoredOldSaveState
  | savedStateToSlotAuto
  | loadedStateFromSlotAuto
  | savingState
  | loadingState
  | undoingSaveState
  deriving DecidableEq, Repr

def msgHashToStr : Msg → String
  | .failedToUndoSaveState => "Failed to undo save state."
  | .failedToSaveStateTo => "Failed to save state to"
  | .failedToLoadState => "Failed to load state from"
  | .failed => "failed"
  | .succeeded => "succeeded"
  | .autoloadingSavestateFrom => "Auto-loading savestate from"
  | .restoredOldSaveState => "Restored old save state."
  | .savedStateToSlotAuto => "Saved state to slot #-1 (auto)."
  | .loadedStateFromSlotAuto => "Loaded state from slot #-1 (auto)."
  | .savingState => "Saving state"
  | .loadingState => "Loading state"
  | .undoingSaveState => "Undoing save state"

/-- What is allocated at an address. -/
structure Block where
  addr : ℕ
  bytes : List UInt8
  deriving DecidableEq, Repr

inductive Resource
  | file
  | block (addr : ℕ)
  | state
  | taskData
  deriving DecidableEq, Repr

structure SaveStateBuf where
  data : Option Block
  path : String
  size : ℕ
  deriving Repr

/-- The state of a task; an open file is its position. -/
structure SaveTaskState where
  file : Option ℕ
  path : String
  data : Option Block
  undoData : Option Block
  size : ℤ
  undoSize : ℤ
  written : ℤ
  bytesRead : ℤ
  loadToBackupBuffer : Bool
  autoload : Bool
  autosave : Bool
  undoSave : Bool
  mute : Bool
  stateSlot : ℤ
  thumbnailEnable : Bool
  hasValidFramebuffer : Bool
  deriving Repr

structure RetroTask where
  finished : Bool
  error : Option String
  title : Option String
  mute : Bool
  taskData : Option SaveTaskState
  deriving Repr

def taskInit : RetroTask := ⟨false, none, none, false, none⟩

/-- A task with the file at its path and the memory it works on. -/
structure World where
  task : RetroTask
  state : SaveTaskState
  undoSaveBuf : SaveStateBuf
  disk : List UInt8
  fresh : ℕ
  ledger : Ledger Resource

/-- What the file layer, the allocator, the core and the user answer during one call. -/
structure Answers where
  opens : Bool
  seeks : Bool
  tells : Bool
  rewinds : Bool
  allocs : Bool
  /-- What a block holds before anything is stored in it. -/
  junk : ℕ → UInt8
  serialized : Option (ℕ → UInt8)
  /-- How many bytes a read or a write moves at most. -/
  moved : ℕ
  /-- A read or a write that ends with `-1`, whatever it has moved. -/
  fails : Bool
  cancelled : Bool
  /-- The second look at the flag, where the task ends. -/
  cancelledAtEnd : Bool

namespace World

def malloc (w : World) (bytes : List UInt8) : Block × World :=
  (⟨w.fresh, bytes⟩,
    { w with fresh := w.fresh + 1, ledger := w.ledger.acquire (.block w.fresh) })

def free (w : World) : Option Block → World
  | none => w
  | some b => { w with ledger := w.ledger.release (.block b.addr) }

def acquire (w : World) (r : Resource) : World := { w with ledger := w.ledger.acquire r }

def release (w : World) (r : Resource) : World := { w with ledger := w.ledger.release r }

def setError (w : World) (err : String) : World :=
  { w with task := { w.task with error := some err } }

end World

/-- `state->data == undo_save_buf.data` -/
def isUndoSaveBuf (w : World) (b : Block) : Bool :=
  match w.undoSaveBuf.data with
  | none => false
  | some u => b.addr = u.addr

/-- How both tasks end: an error where the user has cancelled, and a copy of the state. -/
def finish (a : Answers) (w : World) : World :=
  let w := if w.task.error.isNone && a.cancelledAtEnd then w.setError "Task canceled" else w
  let w := w.acquire .taskData
  { w with task := { w.task with taskData := some w.state } }

def taskSaveHandlerFinished (a : Answers) (w : World) : World :=
  let w := { w with task := { w.task with finished := true } }
  let w := finish a (w.release .file)
  let w := match w.state.data with
    | none => w
    | some b =>
      let w := if w.state.undoSave && isUndoSaveBuf w b then
          { w with undoSaveBuf := { w.undoSaveBuf with data := none } }
        else w
      let w := w.free (some b)
      { w with state := { w.state with data := none } }
  w.release .state

def getSerializedData (a : Answers) (w : World) (serialSize : ℤ) : Option Block × World :=
  if serialSize = 0 then (none, w)
  else if a.allocs then
    match a.serialized with
    | none =>
      let (b, w) := w.malloc []
      (none, w.free (some b))
    | some core =>
      let (b, w) := w.malloc ((List.range serialSize.toNat).map core)
      (some b, w)
  else (none, w)

/-- The file after a write, the position and the result. -/
def intfstreamWrite (a : Answers) (disk : List UInt8) (pos : ℕ) (chunk : List UInt8) :
    List UInt8 × ℕ × ℤ :=
  let k := min a.moved chunk.length
  (disk.take pos ++ chunk.take k ++ disk.drop (pos + k), pos + k, if a.fails then -1 else k)

def saveError (state : SaveTaskState) : String :=
  if state.undoSave then msgHashToStr .failedToUndoSaveState ++ " \"RAM\"."
  else msgHashToStr .failedToSaveStateTo ++ " " ++ state.path

def saveTitle (state : SaveTaskState) : String :=
  if state.undoSave then msgHashToStr .restoredOldSaveState
  else if state.stateSlot < 0 then msgHashToStr .savedStateToSlotAuto
  else "Saved state to slot #" ++ toString state.stateSlot ++ "."

def retitle (w : World) (title : String) : World :=
  { w with task := { w.task with title := if w.task.mute then none else some title } }

/-- The rest of `task_save_handler`, with the data at hand. -/
def saveChunk (chunk : ℕ+) (a : Answers) (w : World) (pos : ℕ) : World :=
  let remaining : ℤ := min (w.state.size - w.state.written) (chunk : ℕ)
  let (disk, pos, written) := match w.state.data with
    | none => (w.disk, pos, 0)
    | some b =>
      intfstreamWrite a w.disk pos ((b.bytes.drop w.state.written.toNat).take remaining.toNat)
  let w := { w with
    disk := disk
    state := { w.state with file := some pos, written := w.state.written + written } }
  if a.cancelled || written ≠ remaining then
    taskSaveHandlerFinished a (w.setError (saveError w.state))
  else if w.state.written = w.state.size then
    taskSaveHandlerFinished a (retitle w (saveTitle w.state))
  else w

/-- `task_save_handler` with the file open. -/
def saveOpened (chunk : ℕ+) (a : Answers) (w : World) (pos : ℕ) : World :=
  match w.state.data with
  | some _ => saveChunk chunk a w pos
  | none =>
    let (data, w) := getSerializedData a w w.state.size
    saveChunk chunk a { w with state := { w.state with data := data } } pos

def taskSaveHandler (chunk : ℕ+) (a : Answers) (w : World) : World :=
  match w.state.file with
  | some pos => saveOpened chunk a w pos
  | none =>
    -- a file that cannot be opened leaves the task as it is
    if a.opens then
      let w := w.acquire .file
      saveOpened chunk a { w with disk := [], state := { w.state with file := some 0 } } 0
    else w

def closeOpened (w : World) : World :=
  match w.state.file with
  | none => w
  | some _ => w.release .file

def taskLoadHandlerFinished (a : Answers) (w : World) : World :=
  let w := { w with task := { w.task with finished := true } }
  (finish a (closeOpened w)).release .state

/-- What the first call sets up: `none` goes to `error`. -/
def loadSetup (a : Answers) (w : World) : World × Bool :=
  if a.opens then
    let w := w.acquire .file
    let w := { w with state := { w.state with file := some 0 } }
    if a.seeks then
      let w := { w with state := { w.state with
        file := some w.disk.length, size := if a.tells then w.disk.length else -1 } }
      if w.state.size < 0 then (w, false)
      else
        let w := if a.rewinds then { w with state := { w.state with file := some 0 } } else w
        if a.allocs then
          let (b, w) := w.malloc ((List.range (w.state.size + 1).toNat).map a.junk)
          ({ w with state := { w.state with data := some b } }, true)
        else (w, false)
    else (w, false)
  else (w, false)

def intfstreamRead (a : Answers) (disk : List UInt8) (pos n : ℕ) : List UInt8 × ℕ × ℤ :=
  let got := (disk.drop pos).take (min a.moved n)
  (got, pos + got.length, if a.fails then -1 else got.length)

def loadError (state : SaveTaskState) : String :=
  if state.autoload then
    msgHashToStr .autoloadingSavestateFrom ++ " \"" ++ state.path ++ "\" " ++
      msgHashToStr .failed ++ "."
  else msgHashToStr .failedToLoadState

def loadTitle (state : SaveTaskState) : String :=
  if state.autoload then
    msgHashToStr .autoloadingSavestateFrom ++ " \"" ++ state.path ++ "\" " ++
      msgHashToStr .succeeded ++ "."
  else if state.stateSlot < 0 then msgHashToStr .loadedStateFromSlotAuto
  else "Loaded state from slot #" ++ toString state.stateSlot ++ "."

/-- The bytes of a block with others stored in it. -/
def Block.store (b : Block) (pos : ℕ) (bytes : List UInt8) : Block :=
  { b with bytes := b.bytes.take pos ++ bytes ++ b.bytes.drop (pos + bytes.length) }

def loadChunk (chunk : ℕ+) (a : Answers) (w : World) (pos : ℕ) : World :=
  let remaining : ℤ := min (w.state.size - w.state.bytesRead) (chunk : ℕ)
  let (got, pos, bytesRead) := intfstreamRead a w.disk pos remaining.toNat
  let w := { w with state := { w.state with
    file := some pos
    data := w.state.data.map fun b => b.store w.state.bytesRead.toNat got
    bytesRead := w.state.bytesRead + bytesRead } }
  if a.cancelled || bytesRead ≠ remaining then
    let w := (w.setError (loadError w.state)).free w.state.data
    taskLoadHandlerFinished a { w with state := { w.state with data := none } }
  else if w.state.bytesRead = w.state.size then
    taskLoadHandlerFinished a (retitle w (loadTitle w.state))
  else w

def taskLoadHandler (chunk : ℕ+) (a : Answers) (w : World) : World :=
  match w.state.file with
  | some pos => loadChunk chunk a w pos
  | none =>
    match loadSetup a w with
    | (w, true) => loadChunk chunk a w (w.state.file.getD 0)
    | (w, false) => taskLoadHandlerFinished a w

def saveStateCb (w : World) : World := w.release .taskData

def undoSaveStateCb (w : World) : World :=
  let w := w.free w.undoSaveBuf.data
  { w with undoSaveBuf := ⟨none, "", 0⟩ }.release .taskData

/-- `content_load_state_cb`: the backup buffer, or the core that is given the state. -/
def contentLoadStateCb (a : Answers) (data : SaveTaskState) (w : World) : World :=
  match data.data with
  | none => w.release .taskData
  | some buf =>
    if data.size < 0 then (w.free (some buf)).release .taskData
    else if data.loadToBackupBuffer then
      let w := w.free w.undoSaveBuf.data
      let w := { w with undoSaveBuf := { w.undoSaveBuf with data := none } }
      if a.allocs then
        let (b, w) := w.malloc (buf.bytes.take data.size.toNat)
        let w := { w with undoSaveBuf := ⟨some b, data.path, data.size.toNat⟩ }
        (w.free (some buf)).release .taskData
      else (w.free (some buf)).release .taskData
    else (w.free (some buf)).release .taskData

def blocks : Option Block → Multiset Resource
  | none => 0
  | some b => {.block b.addr}

/-- The program that pushes a task: all it holds is the backup buffer. -/
structure Host where
  undoSaveBuf : SaveStateBuf
  disk : List UInt8
  fresh : ℕ
  ledger : Ledger Resource
  fits : ∀ b ∈ undoSaveBuf.data, b.bytes.length = undoSaveBuf.size
  accounts : Accounts ledger (blocks undoSaveBuf.data)
  below : ∀ r ∈ ledger.acquired, ∃ n < fresh, r = .block n

structure Settings where
  stateSlot : ℤ
  savestateThumbnailEnable : Bool
  hasValidFramebuffer : Bool
  deriving Repr

/-- A state that `calloc` has cleared, but for what every task sets. -/
def Settings.state (settings : Settings) (path : String) : SaveTaskState where
  file := none
  path := path
  data := none
  undoData := none
  size := 0
  undoSize := 0
  written := 0
  bytesRead := 0
  loadToBackupBuffer := false
  autoload := false
  autosave := false
  undoSave := false
  mute := false
  stateSlot := settings.stateSlot
  thumbnailEnable := false
  hasValidFramebuffer := settings.hasValidFramebuffer

def Host.world (host : Host) (title : Msg) (state : SaveTaskState) : World where
  task := { taskInit with title := some (msgHashToStr title), mute := state.mute }
  state := state
  undoSaveBuf := host.undoSaveBuf
  disk := host.disk
  fresh := host.fresh
  ledger := host.ledger.acquire .state

/-- The bytes that a caller has serialized before it pushes the task, if it has. -/
abbrev Serialized (size : ℕ) := Option { bytes : List UInt8 // bytes.length = size }

def taskPushSaveState (host : Host) (settings : Settings) (path : String) {size : ℕ}
    (data : Serialized size) (autosave : Bool) : World :=
  let w := host.world .savingState { settings.state path with
    size := size
    autosave := autosave
    mute := autosave
    thumbnailEnable := settings.savestateThumbnailEnable }
  match data with
  | none => w
  | some bytes =>
    let (b, w) := w.malloc bytes
    { w with state := { w.state with data := some b } }

def taskPushUndoSaveState (host : Host) (settings : Settings) : World :=
  host.world .undoingSaveState { settings.state host.undoSaveBuf.path with
    data := host.undoSaveBuf.data
    size := host.undoSaveBuf.size
    undoSave := true }

def contentLoadState (host : Host) (settings : Settings) (path : String)
    (loadToBackupBuffer autoload : Bool) : World :=
  host.world .loadingState { settings.state path with
    loadToBackupBuffer := loadToBackupBuffer
    autoload := autoload }

def taskPushLoadAndSaveState (host : Host) (settings : Settings) (path : String) {size : ℕ}
    (data : Serialized size) (loadToBackupBuffer autosave : Bool) : World :=
  let w := host.world .loadingState { settings.state path with
    loadToBackupBuffer := loadToBackupBuffer
    undoSize := size
    autosave := autosave
    mute := autosave || loadToBackupBuffer }
  match data with
  | none => w
  | some bytes =>
    let (b, w) := w.malloc bytes
    { w with state := { w.state with undoData := some b } }

/-- The tasks that are pushed with these handlers. -/
inductive Job
  | save (path : String) (size : ℕ) (data : Serialized size) (autosave : Bool)
  | undoSave
  | load (path : String) (loadToBackupBuffer autoload : Bool)
  | loadAndSave (path : String) (size : ℕ) (data : Serialized size)
      (loadToBackupBuffer autosave : Bool)

def Job.push (host : Host) (settings : Settings) : Job → World
  | .save path _ data autosave => taskPushSaveState host settings path data autosave
  | .undoSave => taskPushUndoSaveState host settings
  | .load path toBackup autoload => contentLoadState host settings path toBackup autoload
  | .loadAndSave path _ data toBackup autosave =>
    taskPushLoadAndSaveState host settings path data toBackup autosave

def handler (chunk : ℕ+) : Job → Answers → World → World
  | .save .. | .undoSave => taskSaveHandler chunk
  | .load .. | .loadAndSave .. => taskLoadHandler chunk

/-- The callback of a finished task; `content_load_and_save_state_cb` hands `undo_data` on to the
task that it pushes. -/
def callback (job : Job) (a : Answers) (w : World) : World :=
  match w.task.taskData with
  | none => w
  | some data =>
    match job with
    | .save .. => saveStateCb w
    | .undoSave => undoSaveStateCb w
    | .load .. | .loadAndSave .. => contentLoadStateCb a data w

/-- The task queue calls the handler until the task is finished. -/
def calls (chunk : ℕ+) (job : Job) (answers : ℕ → Answers) (w : World) : ℕ → World
  | 0 => w
  | n + 1 =>
    let w := calls chunk job answers w n
    if w.task.finished then w else handler chunk job (answers n) w

end RetroArch.Tasks.SaveState
