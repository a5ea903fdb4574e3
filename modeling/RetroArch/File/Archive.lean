/- Zip archives: the search for the end record, the directory step, the walk and the file lookup. -/

import Mathlib.Data.List.Infix
import RetroArch.File.Config
import RetroArch.Library.Bytes

namespace RetroArch.File.Archive

open Library.Bytes Config

def centralFileHeaderSignature : ℕ := 0x02014b50

def endOfCentralDirSignature : ℕ := 0x06054b50

section Reads

variable (data : List UInt8)

/-- The bytes of an access; there are none where it is not inside the file. -/
def bytesAt (offset size : ℕ) : Option (List UInt8) :=
  if offset + size ≤ data.length then some ((data.drop offset).take size) else none

def readLE (offset size : ℕ) : Option ℕ := (bytesAt data offset size).map ofLE

end Reads

/-- What a directory record and the local header behind it say; `cdata` is an offset. -/
structure Record where
  filename : List UInt8
  cdata : ℕ
  cmode : ℕ
  size : ℕ
  csize : ℕ
  checksum : ℕ
  payback : ℕ
  deriving DecidableEq, Repr

/-- The answers `0`, `-1` and `1` of a directory step. -/
inductive StepInternal
  | stop
  | error
  | entry (r : Record)
  deriving DecidableEq, Repr

inductive TransferType
  | none
  | init
  | iterate
  | deinit
  | deinitError
  deriving DecidableEq, Repr

/-- `footer` and `directory` are offsets into the file; `handle` tells whether it is open. -/
structure Transfer where
  type : TransferType
  archiveSize : Int
  handle : Bool
  footer : ℕ
  directory : ℕ
  deriving DecidableEq, Repr

section Zip

variable {σ : Type} (data : List UInt8)

/-- A length kept in an `int32_t`. -/
def asInt32 (length : ℕ) : Int := ((length : Int) + 2 ^ 31) % 2 ^ 32 - 2 ^ 31

/-- The search goes down from `footer`; the inner `none` is the answer `-1`. -/
def findFooter (archiveSize : ℕ) : (footer : ℕ) → Option (Option ℕ)
  | 0 => some none
  | footer + 1 =>
    if footer + 1 ≤ 22 then some none
    else do
      let signature ← readLE data (footer + 1) 4
      if signature = endOfCentralDirSignature then
        let commentLen ← readLE data (footer + 1 + 20) 2
        if footer + 1 + 22 + commentLen = archiveSize then return some (footer + 1)
        else findFooter archiveSize footer
      else findFooter archiveSize footer

def zipParseFileInit (state : Transfer) : Option (Int × Transfer) :=
  if state.archiveSize < 22 then some (-1, state)
  else do
    let size := state.archiveSize.toNat
    match ← findFooter data size (size - 22) with
    | none => return (-1, state)
    | some footer =>
      let directory ← readLE data (footer + 16) 4
      return (0, { state with footer := footer, directory := directory })

def zipParseFileIterateStepInternal (directory : ℕ) : Option StepInternal := do
  let signature ← readLE data directory 4
  if signature ≠ centralFileHeaderSignature then return .stop
  let cmode ← readLE data (directory + 10) 2
  let checksum ← readLE data (directory + 16) 4
  let csize ← readLE data (directory + 20) 4
  let size ← readLE data (directory + 24) 4
  let namelength ← readLE data (directory + 28) 2
  let extralength ← readLE data (directory + 30) 2
  let commentlength ← readLE data (directory + 32) 2
  if namelength ≥ pathMaxLength then return .error
  let filename ← bytesAt data (directory + 46) namelength
  let offset ← readLE data (directory + 42) 4
  let offsetNL ← readLE data (offset + 26) 2
  let offsetEL ← readLE data (offset + 28) 2
  return .entry
    { filename := filename
      cdata := offset + 30 + offsetNL + offsetEL
      cmode := cmode
      size := size
      csize := csize
      checksum := checksum
      payback := 46 + namelength + extralength + commentlength }

/-- What is called with each entry, the bytes at `cdata` and the user data; it answers whether to
go on, or does not return. -/
abbrev Callback (σ : Type) := Record → List UInt8 → σ → Option (Bool × σ)

variable (cb : Callback σ)

/-- The range handed to the callback is its to read. -/
def zipParseFileIterateStep (state : Transfer) (userdata : σ) : Option (Int × Transfer × σ) := do
  match ← zipParseFileIterateStepInternal data state.directory with
  | .stop => return (0, state, userdata)
  | .error => return (-1, state, userdata)
  | .entry r =>
    let cdata ← bytesAt data r.cdata r.csize
    let (continue_, userdata) ← cb r cdata userdata
    if continue_ then
      return (1, { state with directory := state.directory + r.payback }, userdata)
    else return (0, state, userdata)

/-- `returnerr` is what the caller's flag of that name holds. -/
structure Walk (σ : Type) where
  state : Transfer
  returnerr : Bool
  userdata : σ

def fileArchiveParseFileInit (state : Transfer) : Option (Int × Transfer) :=
  zipParseFileInit data
    { state with handle := true, archiveSize := asInt32 data.length, footer := 0, directory := 0 }

/-- After a switch that leaves the state to be closed, the answer is `-1`. -/
def answer (w : Walk σ) : Int × Walk σ :=
  if w.state.type = .deinit ∨ w.state.type = .deinitError then (-1, w) else (0, w)

def fileArchiveParseFileIterate (w : Walk σ) : Option (Int × Walk σ) :=
  match w.state.type with
  | .none => some (answer w)
  | .init => do
    let (ret, state) ← fileArchiveParseFileInit data w.state
    let type := if ret = 0 then TransferType.iterate else .deinitError
    return answer { w with state := { state with type := type } }
  | .iterate => do
    let (ret, state, userdata) ← zipParseFileIterateStep data cb w.state w.userdata
    let type := if ret = -1 then TransferType.deinitError
      else if ret ≠ 1 then .deinit else state.type
    return (0, { w with state := { state with type := type }, userdata := userdata })
  | .deinitError =>
    some (answer { w with state := { w.state with handle := false }, returnerr := false })
  | .deinit => some (answer { w with state := { w.state with handle := false } })

/-- A state as its callers set it up. -/
def walkStart (userdata : σ) : Walk σ where
  state := { type := .init, archiveSize := 0, handle := false, footer := 0, directory := 0 }
  returnerr := true
  userdata := userdata

/-- How a walk ends: with the flag it returns, or with an access outside the file or a callback
that does not return. -/
inductive WalkEnd
  | returned (ok : Bool)
  | lost
  deriving DecidableEq, Repr

/-- Nothing is answered where the rounds do not suffice. -/
def fileArchiveWalk : (rounds : ℕ) → Walk σ → Option WalkEnd
  | 0, _ => none
  | rounds + 1, w =>
    match fileArchiveParseFileIterate data cb w with
    | none => some .lost
    | some (ret, w) => if ret ≠ 0 then some (.returned w.returnerr) else fileArchiveWalk rounds w

end Zip

section Lookup

/-- The part of the user data that the lookup works with. -/
structure DecompState where
  needle : Str
  buf : Option (List UInt8)
  size : ℕ
  found : Bool
  deriving DecidableEq, Repr

/-- What inflating leaves in an output buffer of the given size, if it comes to an end. -/
abbrev Unpack := List UInt8 → ℕ → Option (List UInt8)

def isDirectoryName (name : Str) : Bool :=
  name.getLast? = some 47 || name.getLast? = some 92

/-- The name's last character is read before anything else, also where there is none. The entry
is inflated whatever its compression mode. -/
def zipFileDecompressed (unpack : Unpack) : Callback DecompState := fun r cdata userdata =>
  let name := cstr r.filename
  if name = [] then none
  else if isDirectoryName name then some (true, userdata)
  else if userdata.needle <:+: name then
    (unpack cdata r.size).map fun data =>
      (true, { userdata with found := true, buf := some data, size := r.size })
  else some (true, userdata)

/-- The value returned with what the caller's buffer pointer was set to, or no return. -/
inductive ReadEnd
  | returned (value : Int) (buf : Option (List UInt8))
  | lost
  deriving DecidableEq, Repr

def zipFileReadResult (userdata : DecompState) : ReadEnd :=
  if userdata.found then .returned (asInt32 userdata.size) userdata.buf
  else .returned (-1) userdata.buf

variable (unpack : Unpack) (data : List UInt8)

def zipFileReadLoop : (rounds : ℕ) → Walk DecompState → Option ReadEnd
  | 0, _ => none
  | rounds + 1, w =>
    match fileArchiveParseFileIterate data (zipFileDecompressed unpack) w with
    | none => some .lost
    | some (ret, w) =>
      if !w.returnerr || !(ret = 0 && !w.userdata.found) then
        some (zipFileReadResult w.userdata)
      else zipFileReadLoop rounds w

/-- Reading into a buffer: no output file is given. -/
def zipFileRead (needle : Str) (rounds : ℕ) : Option ReadEnd :=
  zipFileReadLoop unpack data rounds
    (walkStart { needle := needle, buf := none, size := 0, found := false })

end Lookup

end RetroArch.File.Archive
