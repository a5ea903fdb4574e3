/- Running the core ahead of what the player sees. -/

import RetroArch.Library.Asking
import RetroArch.RunAhead.InputList

namespace RetroArch.RunAhead

open Library.Asking

/-- A core with states `σ`, frames `φ` and saved states `δ`. A frame is a program that asks for
input; `secondaryCoreCreate` is the state that a second instance of the core starts in. -/
structure Core (σ φ δ : Type) where
  retroRun : σ → Asking Query Int16 (σ × φ)
  retroReset : σ → σ
  retroSerializeSize : σ → ℕ
  retroSerialize : σ → ℕ → Option δ
  retroUnserialize : σ → δ → ℕ → Bool × σ
  secondaryCoreCreate : Option σ

/-- What the n-th query of a frame is answered with by the input drivers. -/
abbrev Input : Type := ℕ → Query → Int16

inductive RunaheadMessage
  | coreDoesNotSupportSavestates
  | failedToSaveState
  | failedToLoadState
  | failedToCreateSecondaryInstance
  deriving DecidableEq, Repr

structure Config where
  haveDynamic : Bool
  runAheadHideWarnings : Bool

/-- The variables that running ahead reads and writes. `hooked` tells whether the callbacks of the
current core are hooked; `saveStateList` is the one buffer, once it has been made, with what has
been saved in it. -/
structure Runloop (σ φ δ : Type) where
  currentCore : σ
  secondaryCore : Option σ
  hooked : Bool
  inputStateList : List InputListElement
  inputIsDirty : Bool
  saveStateSize : ℕ
  saveStateSizeKnown : Bool
  saveStateList : Option (Option δ)
  videoDriverIsActive : Bool
  available : Bool
  secondaryCoreAvailable : Bool
  forceInputDirty : Bool
  lastFrameCount : UInt64
  videoDriverActive : Bool
  videoDriverFrameCount : UInt64
  shown : List φ
  messages : List RunaheadMessage

variable {σ φ δ : Type}

/-- The variables as they are before the first frame. -/
def Runloop.initial (core : σ) : Runloop σ φ δ where
  currentCore := core
  secondaryCore := none
  hooked := false
  inputStateList := []
  inputIsDirty := false
  saveStateSize := 0
  saveStateSizeKnown := false
  saveStateList := none
  videoDriverIsActive := true
  available := true
  secondaryCoreAvailable := true
  forceInputDirty := true
  lastFrameCount := 0
  videoDriverActive := true
  videoDriverFrameCount := 0
  shown := []
  messages := []

/-- What the hooked input callback reads and writes, and how many queries it has answered. -/
structure Logging where
  asked : ℕ
  list : List InputListElement
  dirty : Bool

def inputStateWithLogging (input : Input) (l : Logging) (q : Query) : Int16 × Logging :=
  let result := input l.asked q
  let lastInput := inputStateGetLast l.list q
  let dirty := if result ≠ lastInput then true else l.dirty
  let list := if q.id < 65536 then inputStateSetLast l.list q result else l.list
  (result, ⟨l.asked + 1, list, dirty⟩)

def videoDriverFrame (r : Runloop σ φ δ) (frame : φ) : Runloop σ φ δ :=
  if r.videoDriverActive then
    { r with shown := r.shown ++ [frame], videoDriverFrameCount := r.videoDriverFrameCount + 1 }
  else r

def resetHook (core : Core σ φ δ) (r : Runloop σ φ δ) : Runloop σ φ δ :=
  { r with
    inputIsDirty := if r.hooked then true else r.inputIsDirty
    currentCore := core.retroReset r.currentCore }

def unserializeHook (core : Core σ φ δ) (r : Runloop σ φ δ) (data : δ) (size : ℕ) :
    Bool × Runloop σ φ δ :=
  let (okay, state) := core.retroUnserialize r.currentCore data size
  (okay, { r with
    inputIsDirty := if r.hooked then true else r.inputIsDirty
    currentCore := state })

/-- `core_run`, with the input callback that is in place. -/
def coreRun (core : Core σ φ δ) (input : Input) (r : Runloop σ φ δ) : Runloop σ φ δ :=
  if r.hooked then
    let ended := (core.retroRun r.currentCore).handled (inputStateWithLogging input)
      ⟨0, r.inputStateList, r.inputIsDirty⟩
    videoDriverFrame { r with
      currentCore := ended.1.1
      inputStateList := ended.2.list
      inputIsDirty := ended.2.dirty } ended.1.2
  else
    let ended := (core.retroRun r.currentCore).handled (fun n q => (input n q, n + 1)) 0
    videoDriverFrame { r with currentCore := ended.1.1 } ended.1.2

/-- `runahead_error`, with `runahead_remove_hooks`. -/
def runaheadError (r : Runloop σ φ δ) : Runloop σ φ δ :=
  { r with
    available := false
    saveStateList := none
    inputStateList := if r.hooked then [] else r.inputStateList
    hooked := false
    saveStateSize := 0
    saveStateSizeKnown := true }

def runaheadCreate (core : Core σ φ δ) (r : Runloop σ φ δ) : Bool × Runloop σ φ δ :=
  let r := { r with
    saveStateSize := core.retroSerializeSize r.currentCore
    saveStateSizeKnown := true
    saveStateList := some none
    videoDriverIsActive := r.videoDriverActive }
  if r.saveStateSize = 0 ∨ r.saveStateSizeKnown = false then (false, runaheadError r)
  else (true, { r with hooked := true, forceInputDirty := true })

def runaheadSaveState (core : Core σ φ δ) (r : Runloop σ φ δ) : Bool × Runloop σ φ δ :=
  match r.saveStateList with
  | none => (false, r)
  | some _ =>
    match core.retroSerialize r.currentCore r.saveStateSize with
    | some data => (true, { r with saveStateList := some (some data) })
    | none => (false, runaheadError r)

/-- Called only after a state has been saved. -/
def runaheadLoadState (core : Core σ φ δ) (r : Runloop σ φ δ) : Bool × Runloop σ φ δ :=
  match r.saveStateList.join with
  | none => (false, runaheadError r)
  | some data =>
    let lastDirty := r.inputIsDirty
    let (okay, r) := unserializeHook core r data r.saveStateSize
    let r := { r with inputIsDirty := lastDirty }
    if okay then (true, r) else (false, runaheadError r)

def secondaryCoreEnsureExists (core : Core σ φ δ) (r : Runloop σ φ δ) : Bool × Runloop σ φ δ :=
  match r.secondaryCore with
  | some _ => (true, r)
  | none =>
    match core.secondaryCoreCreate with
    | none => (false, r)
    | some state => (true, { r with secondaryCore := some state })

/-- The size as `secondary_core_deserialize` passes it on: through an `int`. -/
def asInt (size : ℕ) : ℕ :=
  if size % 2 ^ 32 < 2 ^ 31 then size % 2 ^ 32 else 2 ^ 64 - 2 ^ 32 + size % 2 ^ 32

def secondaryCoreDeserialize (core : Core σ φ δ) (r : Runloop σ φ δ) (data : δ) (size : ℕ) :
    Bool × Runloop σ φ δ :=
  let (exists_, r) := secondaryCoreEnsureExists core r
  match exists_, r.secondaryCore with
  | true, some state =>
    let (okay, state) := core.retroUnserialize state data (asInt size)
    (okay, { r with secondaryCore := some state })
  | _, _ => (false, r)

def runaheadLoadStateSecondary (core : Core σ φ δ) (r : Runloop σ φ δ) : Bool × Runloop σ φ δ :=
  match r.saveStateList.join with
  | none => (false, runaheadError { r with secondaryCoreAvailable := false })
  | some data =>
    let (okay, r) := secondaryCoreDeserialize core r data r.saveStateSize
    if okay then (true, r)
    else (false, runaheadError { r with secondaryCoreAvailable := false })

def runaheadCoreRunUseLastInput (core : Core σ φ δ) (r : Runloop σ φ δ) : Runloop σ φ δ :=
  let ended := (core.retroRun r.currentCore).answered (inputStateGetLast r.inputStateList)
  videoDriverFrame { r with currentCore := ended.1 } ended.2

def secondaryCoreRunUseLastInput (core : Core σ φ δ) (r : Runloop σ φ δ) :
    Bool × Runloop σ φ δ :=
  let (exists_, r) := secondaryCoreEnsureExists core r
  match exists_, r.secondaryCore with
  | true, some state =>
    let ended := (core.retroRun state).answered (inputStateGetLast r.inputStateList)
    (true, videoDriverFrame { r with secondaryCore := some ended.1 } ended.2)
  | _, _ => (false, r)

def runaheadRunSecondary (core : Core σ φ δ) (r : Runloop σ φ δ) : Runloop σ φ δ :=
  let (okay, r) := secondaryCoreRunUseLastInput core r
  if okay then r else { r with secondaryCoreAvailable := false }

def runaheadResumeVideo (r : Runloop σ φ δ) : Runloop σ φ δ :=
  { r with videoDriverActive := r.videoDriverIsActive }

def suspendVideo (r : Runloop σ φ δ) : Runloop σ φ δ :=
  { r with videoDriverActive := false }

def pushMessage (message : RunaheadMessage) (r : Runloop σ φ δ) : Runloop σ φ δ :=
  { r with messages := r.messages ++ [message] }

/-- How `do_runahead` goes on: to its end, to a `return`, or to `force_input_dirty`. -/
inductive Ending
  | completed
  | returned
  | forced
  deriving DecidableEq, Repr

/-- The loop of one core, with `left` frames to run after frame `frameNumber`. -/
def singleLoop (core : Core σ φ δ) (input : Input) (frameNumber left : ℕ) (r : Runloop σ φ δ) :
    Ending × Runloop σ φ δ :=
  let suspendedFrame := left ≠ 0
  let r := if suspendedFrame then suspendVideo r else r
  let r := if frameNumber = 0 then coreRun core input r else runaheadCoreRunUseLastInput core r
  let r := if suspendedFrame then runaheadResumeVideo r else r
  let (okay, r) := if frameNumber = 0 then runaheadSaveState core r else (true, r)
  if okay = false then (.returned, pushMessage .failedToSaveState r)
  else
    match left with
    | 0 =>
      let (okay, r) := runaheadLoadState core r
      if okay then (.completed, r) else (.returned, pushMessage .failedToLoadState r)
    | left + 1 => singleLoop core input (frameNumber + 1) left r

/-- `n` frames of the secondary core that nobody sees. -/
def suspendedSecondary (core : Core σ φ δ) : ℕ → Runloop σ φ δ → Runloop σ φ δ
  | 0, r => r
  | n + 1, r =>
    suspendedSecondary core n (runaheadResumeVideo (runaheadRunSecondary core (suspendVideo r)))

/-- What is done where there has been other input than the secondary core ran with. -/
def resync (core : Core σ φ δ) (runaheadCount : ℕ) (r : Runloop σ φ δ) :
    Ending × Runloop σ φ δ :=
  let (okay, r) := runaheadSaveState core { r with inputIsDirty := false }
  if okay = false then (.returned, pushMessage .failedToSaveState r)
  else
    let (okay, r) := runaheadLoadStateSecondary core r
    if okay = false then (.returned, pushMessage .failedToLoadState r)
    else (.completed, suspendedSecondary core (runaheadCount - 1) r)

def runWithSecondary (core : Core σ φ δ) (input : Input) (runaheadCount : ℕ)
    (r : Runloop σ φ δ) : Ending × Runloop σ φ δ :=
  let (exists_, r) := secondaryCoreEnsureExists core r
  if exists_ = false then
    (.forced,
      pushMessage .failedToCreateSecondaryInstance { r with secondaryCoreAvailable := false })
  else
    let r := runaheadResumeVideo (coreRun core input (suspendVideo r))
    let (ending, r) :=
      if r.inputIsDirty ∨ r.forceInputDirty then resync core runaheadCount r else (.completed, r)
    match ending with
    | .completed => (.completed, runaheadRunSecondary core r)
    | ending => (ending, r)

/-- The label `force_input_dirty`. -/
def forceInputDirty (core : Core σ φ δ) (input : Input) (r : Runloop σ φ δ) : Runloop σ φ δ :=
  { coreRun core input r with forceInputDirty := true }

/-- The check for frames shown by the menu since, which force a resync. -/
def checkForGui (frameCount : UInt64) (r : Runloop σ φ δ) : Runloop σ φ δ :=
  let r := if frameCount ≠ r.lastFrameCount + 1 then { r with forceInputDirty := true } else r
  { r with lastFrameCount := frameCount }

def runEitherCore (core : Core σ φ δ) (config : Config) (runaheadCount : ℕ)
    (useSecondary : Bool) (input : Input) (r : Runloop σ φ δ) : Ending × Runloop σ φ δ :=
  if useSecondary = false ∨ config.haveDynamic = false ∨ r.secondaryCoreAvailable = false then
    singleLoop core input 0 runaheadCount r
  else runWithSecondary core input runaheadCount r

def doRunahead (core : Core σ φ δ) (config : Config) (runaheadCount : ℤ) (useSecondary : Bool)
    (input : Input) (r : Runloop σ φ δ) : Runloop σ φ δ :=
  let frameCount := r.videoDriverFrameCount
  if runaheadCount ≤ 0 ∨ r.available = false then forceInputDirty core input r
  else
    let (created, r) := if r.saveStateSizeKnown then (true, r) else runaheadCreate core r
    if created = false then
      forceInputDirty core input
        (if config.runAheadHideWarnings then r else pushMessage .coreDoesNotSupportSavestates r)
    else
      let (ending, r) := runEitherCore core config runaheadCount.toNat useSecondary input
        (checkForGui frameCount r)
      match ending with
      | .completed => { r with forceInputDirty := false }
      | .returned => r
      | .forced => forceInputDirty core input r

/-- A frame, a reset or a state load through the current core, or a frame of the menu. -/
inductive Event (δ : Type)
  | frame (input : Input)
  | reset
  | load (data : δ) (size : ℕ)
  | menuFrame

/-- One event with running ahead. -/
def step (core : Core σ φ δ) (config : Config) (runaheadCount : ℤ) (useSecondary : Bool)
    (r : Runloop σ φ δ) : Event δ → Runloop σ φ δ
  | .frame input => doRunahead core config runaheadCount useSecondary input r
  | .reset => resetHook core r
  | .load data size => (unserializeHook core r data size).2
  | .menuFrame => { r with videoDriverFrameCount := r.videoDriverFrameCount + 1 }

/-- A game as it is played without running ahead: the state of the core, and the values it has
been given so far with the latest first. -/
structure Played (σ : Type) where
  state : σ
  given : List (Query × Int16)

/-- A plain frame that is given `input`. -/
def Played.frame (core : Core σ φ δ) (p : Played σ) (input : Input) : Played σ :=
  let ended := (core.retroRun p.state).handled
    (fun (s : ℕ × List (Query × Int16)) q => (input s.1 q, (s.1 + 1, (q, input s.1 q) :: s.2)))
    (0, p.given)
  ⟨ended.1.1, ended.2.2⟩

def Played.step (core : Core σ φ δ) (p : Played σ) : Event δ → Played σ
  | .frame input => p.frame core input
  | .reset => { p with state := core.retroReset p.state }
  | .load data size => { p with state := (core.retroUnserialize p.state data size).2 }
  | .menuFrame => p

/-- The value most recently given for a query that is logged, and otherwise zero. -/
def lastGiven (given : List (Query × Int16)) (q : Query) : Int16 :=
  if q.id < 65536 then (given.lookup q).getD 0 else 0

/-- `n` frames with fixed answers. -/
def advance (core : Core σ φ δ) (answers : Query → Int16) : ℕ → σ → σ
  | 0, s => s
  | n + 1, s => advance core answers n ((core.retroRun s).answered answers).1

/-- The last of `n` frames with fixed answers, for a positive `n`. -/
def frameAhead (core : Core σ φ δ) (answers : Query → Int16) (n : ℕ) (s : σ) : φ :=
  ((core.retroRun (advance core answers (n - 1) s)).answered answers).2

end RetroArch.RunAhead
