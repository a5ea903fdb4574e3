/- Undoing loads and saves of states: two backup buffers, filled and used up by tasks. -/

import RetroArch.Tasks.SaveState

namespace RetroArch.Tasks.UndoState

open SaveState (Block SaveStateBuf)

/-- A core whose states have one size and come back from their bytes. What `block_sram_overwrite`
copies out and back is part of the state: the memory of the first state in the second one. -/
structure Core (σ : Type) where
  size : ℕ
  serialize : σ → List UInt8
  unserialize : List UInt8 → σ
  keepSram : σ → σ → σ
  length_serialize : ∀ s, (serialize s).length = size
  unserialize_serialize : ∀ s, unserialize (serialize s) = s
  keepSram_back : ∀ s t, keepSram (keepSram s t) s = s

inductive Kind
  | save
  | undoSave
  | load
  | loadAndSave
  deriving DecidableEq

/-- A task with its `save_task_state_t`; `progress` is `written` or `bytes_read`. `backed` is no
part of it: whether the file that is saved over was read into the backup buffer. -/
structure Task where
  kind : Kind
  path : String
  data : Option Block
  undoData : Option Block
  size : ℕ
  undoSize : ℕ
  progress : ℕ
  opened : Bool
  backed : Bool

/-- A file that a save has overwritten, with the bytes it had. -/
structure Overwritten where
  path : String
  bytes : List UInt8
  backed : Bool

/-- The core, the files, the memory, both buffers and the tasks of this kind; at most one of these
is running, since all are blocking. Behind that stands what has happened: the state before the
last load or undo of a load, and the file that was overwritten last. -/
structure World (σ : Type) where
  core : σ
  files : String → Option (List UInt8)
  live : ℕ → Bool
  fresh : ℕ
  undoSaveBuf : SaveStateBuf
  undoLoadBuf : SaveStateBuf
  running : Option Task
  finished : List Task
  beforeLoad : Option σ
  overwritten : Option Overwritten

structure Settings where
  blockSramOverwrite : Bool
  /-- `SAVE_STATE_CHUNK` -/
  chunk : ℕ

def emptyBuf : SaveStateBuf := ⟨none, "", 0⟩

def World.start {σ : Type} (core : σ) (files : String → Option (List UInt8)) : World σ where
  core := core
  files := files
  live := fun _ => false
  fresh := 0
  undoSaveBuf := emptyBuf
  undoLoadBuf := emptyBuf
  running := none
  finished := []
  beforeLoad := none
  overwritten := none

variable {σ : Type}

/-- How often a pointer stands for the block at an address. -/
def cnt (data : Option Block) (addr : ℕ) : ℕ := if data.map Block.addr = some addr then 1 else 0

def Task.refs (t : Task) (addr : ℕ) : ℕ := cnt t.data addr + cnt t.undoData addr

/-- The pointers to an address in both buffers and in the tasks. -/
def World.refs (w : World σ) (addr : ℕ) : ℕ :=
  cnt w.undoSaveBuf.data addr + cnt w.undoLoadBuf.data addr +
    (w.running.elim 0 fun t => t.refs addr) + (w.finished.map fun t => t.refs addr).sum

def World.malloc (w : World σ) (bytes : List UInt8) : Block × World σ :=
  (⟨w.fresh, bytes⟩,
    { w with fresh := w.fresh + 1, live := Function.update w.live w.fresh true })

/-- `free`; there is nothing behind it where the block has been freed already or another pointer
to it is left. -/
def World.free (w : World σ) (b : Block) : Option (World σ) :=
  if w.live b.addr ∧ w.refs b.addr ≤ 1 then
    some { w with live := Function.update w.live b.addr false }
  else none

def World.freeData (w : World σ) : Option Block → Option (World σ)
  | none => some w
  | some b => w.free b

/-- The bytes of a block that has not been freed. -/
def World.read (w : World σ) (b : Block) : Option (List UInt8) :=
  if w.live b.addr then some b.bytes else none

/-- "If we were previously backing up a file, let go of it first" -/
def World.dropUndoSave (w : World σ) : Option (World σ) :=
  (w.freeData w.undoSaveBuf.data).map fun w =>
    { w with undoSaveBuf := { w.undoSaveBuf with data := none } }

/-- "If we were holding onto an old state already, clean it up first" -/
def World.dropUndoLoad (w : World σ) : Option (World σ) :=
  (w.freeData w.undoLoadBuf.data).map fun w =>
    { w with undoLoadBuf := { w.undoLoadBuf with data := none } }

section Requests

variable (core : Core σ) (settings : Settings)

/-- `content_save_state("RAM", false, false)` -/
def World.saveToRam (w : World σ) : Option (World σ) :=
  if core.size = 0 then some w
  else
    let (data, w) := w.malloc (core.serialize w.core)
    w.dropUndoLoad.bind fun w =>
      let (copy, w) := w.malloc data.bytes
      (w.free data).map fun w => { w with undoLoadBuf := ⟨some copy, "RAM", core.size⟩ }

/-- `core_unserialize` between the two copies of the SRAM. -/
def World.unserialize (w : World σ) (bytes : List UInt8) : World σ :=
  let loaded := core.unserialize bytes
  { w with
    core := if settings.blockSramOverwrite then core.keepSram w.core loaded else loaded
    beforeLoad := some w.core }

/-- `content_undo_load_state`, which is only called with a buffer that is not empty. -/
def contentUndoLoadState (w : World σ) : Option (World σ) :=
  match w.undoLoadBuf.data with
  | none => some w
  | some b =>
    if w.undoLoadBuf.size = 0 then some w
    else
      (w.read b).bind fun bytes =>
        let (temp, w) := w.malloc (bytes.take w.undoLoadBuf.size)
        (w.saveToRam core).bind fun w =>
          (w.read temp).bind fun bytes => (w.unserialize core settings bytes).free temp

/-- `task_push_save_state` -/
def World.pushSave (w : World σ) (path : String) (data : Option Block) (size : ℕ)
    (backed : Bool) : Option (World σ) :=
  match w.running with
  | some _ => w.freeData data
  | none =>
    some { w with running := some ⟨.save, path, data, none, size, 0, 0, false, backed⟩ }

/-- `task_push_load_and_save_state`, with the file loaded to the backup buffer. -/
def World.pushLoadAndSave (w : World σ) (path : String) (data : Option Block) (size : ℕ) :
    Option (World σ) :=
  match w.running with
  | some _ => w.freeData data
  | none =>
    some { w with running := some ⟨.loadAndSave, path, none, data, 0, size, 0, false, false⟩ }

/-- `content_save_state` to a file; in the background the state is serialized by the task. -/
def contentSaveState (path : String) (autosave background : Bool) (w : World σ) :
    Option (World σ) :=
  if core.size = 0 then some w
  else
    let (data, w) :=
      if background then (none, w)
      else
        let (b, w) := w.malloc (core.serialize w.core)
        (some b, w)
    if (w.files path).isSome && !autosave then w.pushLoadAndSave path data core.size
    else w.pushSave path data core.size false

/-- `content_load_state`. A task that is not pushed is lost, without any data. -/
def contentLoadState (path : String) (w : World σ) : World σ :=
  match w.running with
  | some _ => w
  | none => { w with running := some ⟨.load, path, none, none, 0, 0, 0, false, false⟩ }

/-- The task of `task_push_undo_save_state`. It shares its data with the buffer. -/
def undoSaveTask (buf : SaveStateBuf) (b : Block) : Task :=
  ⟨.undoSave, buf.path, some b, none, buf.size, 0, 0, false, false⟩

/-- `content_undo_save_state`, which is only called with a buffer that is not empty. -/
def contentUndoSaveState (w : World σ) : World σ :=
  match w.undoSaveBuf.data, w.running with
  | some b, none =>
    if w.undoSaveBuf.size = 0 then w
    else
      { w with running := some (undoSaveTask w.undoSaveBuf b) }
  | _, _ => w

/-- `content_reset_savestate_backups` -/
def contentResetSavestateBackups (w : World σ) : Option (World σ) :=
  w.dropUndoSave.bind fun w =>
    (World.dropUndoLoad { w with undoSaveBuf := emptyBuf }).map fun w =>
      { w with undoLoadBuf := emptyBuf }

end Requests

section Handlers

variable (core : Core σ) (settings : Settings)

/-- `task_save_handler_finished` -/
def saveFinished (w : World σ) (t : Task) : Option (World σ) :=
  match t.data with
  | none => some { w with running := none, finished := w.finished ++ [t] }
  | some b =>
    let w :=
      if t.kind = .undoSave ∧ w.undoSaveBuf.data.map Block.addr = some b.addr then
        { w with undoSaveBuf := { w.undoSaveBuf with data := none } }
      else w
    (w.free b).map fun w =>
      { w with running := none, finished := w.finished ++ [{ t with data := none }] }

/-- The file is opened, and empty then. -/
def saveOpen (w : World σ) (t : Task) : World σ × Task :=
  if t.opened then (w, t)
  else
    ({ w with
      files := Function.update w.files t.path (some [])
      overwritten :=
        match t.kind, w.files t.path with
        | .save, some bytes => some ⟨t.path, bytes, t.backed⟩
        | _, _ => w.overwritten },
      { t with opened := true })

/-- `get_serialized_data`, where the task has none. -/
def saveData (w : World σ) (t : Task) : World σ × Task :=
  match t.data with
  | some _ => (w, t)
  | none =>
    if t.size = 0 then (w, t)
    else
      let (b, w) := w.malloc (core.serialize w.core)
      (w, { t with data := some b })

/-- The bytes of the next chunk. -/
def saveBytes (w : World σ) (t : Task) : Option (List UInt8) :=
  match t.data with
  | none => some []
  | some b =>
    (w.read b).map fun bytes =>
      (bytes.drop t.progress).take (min (t.size - t.progress) settings.chunk)

/-- The bytes that are written, and where. -/
def saveWrite (bytes : List UInt8) (w : World σ) (t : Task) : World σ × Task :=
  let t' := { t with progress := t.progress + bytes.length }
  let old := (w.files t.path).getD []
  ({ w with
      files := Function.update w.files t.path (some (old.take t.progress ++ bytes))
      running := some t' }, t')

/-- `task_save_handler`. A call whose chunk is cut short, or that is cancelled, ends the task. -/
def saveHandler (short : Option ℕ) (w : World σ) (t : Task) : Option (World σ) :=
  let (w, t) := saveOpen w t
  let (w, t) := saveData core w t
  (saveBytes settings { w with running := some t } t).bind fun bytes =>
    let (w, t) := saveWrite (short.elim bytes bytes.take) w t
    if short.isSome ∨ t.progress = t.size then saveFinished w t else some w

/-- `task_load_handler_finished` -/
def loadFinished (w : World σ) (t : Task) : World σ :=
  { w with running := none, finished := w.finished ++ [t] }

/-- The end of a load that has no data. -/
def loadFailed (w : World σ) (t : Task) : Option (World σ) :=
  match t.data with
  | none => some (loadFinished w t)
  | some b => (w.free b).map fun w => loadFinished w { t with data := none }

/-- The file is opened, and memory for it allocated. -/
def loadOpen (content : List UInt8) (w : World σ) (t : Task) : World σ × Task :=
  if t.opened then (w, t)
  else
    let (b, w) := w.malloc (List.replicate (content.length + 1) 0)
    (w, { t with data := some b, size := content.length, opened := true })

/-- The next chunk is read. -/
def loadChunk (content : List UInt8) (b : Block) (t : Task) : Task :=
  let chunk := (content.drop t.progress).take (min (t.size - t.progress) settings.chunk)
  { t with data := some (b.store t.progress chunk), progress := t.progress + chunk.length }

/-- `task_load_handler`. The file is not there, or the call is cut short or cancelled, or it
reads. -/
def loadHandler (short : Bool) (w : World σ) (t : Task) : Option (World σ) :=
  match w.files t.path with
  | none => loadFailed w t
  | some content =>
    let (w, t) := loadOpen content w t
    let w := { w with running := some t }
    match t.data with
    | none => loadFailed w t
    | some b =>
      if short then loadFailed w t
      else
        (w.read b).map fun _ =>
          let t := loadChunk settings content b t
          if t.progress = t.size then loadFinished w t else { w with running := some t }

/-- A call of the handler of the task that is running. -/
def handle (short : Option ℕ) (w : World σ) : Option (World σ) :=
  match w.running with
  | none => some w
  | some t =>
    match t.kind with
    | .save | .undoSave => saveHandler core settings short w t
    | .load | .loadAndSave => loadHandler settings short.isSome w t

end Handlers

section Callbacks

variable (core : Core σ) (settings : Settings)

/-- `undo_save_state_cb`: "Wipe the save file buffer as it's intended to be one use only" -/
def undoSaveStateCb (w : World σ) : Option (World σ) :=
  World.dropUndoSave { w with undoSaveBuf := { w.undoSaveBuf with path := "", size := 0 } }

/-- `content_load_state_cb` -/
def contentLoadStateCb (w : World σ) (t : Task) : Option (World σ) :=
  match t.data with
  | none => some w
  | some buf =>
    (w.read buf).bind fun bytes =>
      if t.kind = .loadAndSave then
        w.dropUndoSave.bind fun w =>
          let (b, w) := w.malloc (bytes.take t.size)
          World.free { w with undoSaveBuf := ⟨some b, t.path, t.size⟩ } buf
      else (w.saveToRam core).bind fun w =>
        (w.unserialize core settings (bytes.take t.size)).free buf

/-- The callback of a task, by the function that has pushed it. -/
def callback (w : World σ) (t : Task) : Option (World σ) :=
  match t.kind with
  | .save => some w
  | .undoSave => undoSaveStateCb w
  | .load => contentLoadStateCb core settings w t
  | .loadAndSave =>
    (contentLoadStateCb core settings w t).bind fun w =>
      w.pushSave t.path t.undoData t.undoSize t.data.isSome

/-- A round of `retro_task_internal_gather`. -/
def gather (w : World σ) : Option (World σ) :=
  match w.finished with
  | [] => some w
  | t :: rest => (callback core settings w t).map fun w => { w with finished := rest }

end Callbacks

inductive Input (σ : Type)
  /-- The core goes on. -/
  | play (next : σ)
  | save (path : String) (autosave background : Bool)
  | load (path : String)
  | undoLoad
  | undoSave
  | reset
  | handle (short : Option ℕ)
  | gather

def World.step (core : Core σ) (settings : Settings) (w : World σ) :
    Input σ → Option (World σ)
  | .play next => some { w with core := next }
  | .save path autosave background => contentSaveState core path autosave background w
  | .load path => some (contentLoadState path w)
  | .undoLoad => contentUndoLoadState core settings w
  | .undoSave => some (contentUndoSaveState w)
  | .reset => contentResetSavestateBackups w
  | .handle short => UndoState.handle core settings short w
  | .gather => UndoState.gather core settings w

end RetroArch.Tasks.UndoState
