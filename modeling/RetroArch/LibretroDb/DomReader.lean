/- `rmsgpack_dom.c`: values written in order, and read back through a stack of pointers. -/

import RetroArch.LibretroDb.Rmsgpack

namespace RetroArch.LibretroDb

open Streams

def intMax : Int := 2 ^ 31 - 1

/-- `written += rv`; a sum past the range of `int` is undefined. -/
def addWritten (done next : Wrote) : Option Wrote :=
  if done.rv + next.rv ≤ intMax then
    some ⟨done.bytes ++ next.bytes, done.rv + next.rv⟩
  else
    none

/-- A member's result added to what the container wrote; a negative one is returned at once. -/
def andThen (done next : Wrote) (more : Wrote → Option Wrote) : Option Wrote :=
  if next.rv < 0 then
    some ⟨done.bytes ++ next.bytes, next.rv⟩
  else
    (addWritten done next).bind more

mutual

def rmsgpackDomWrite : Value → Option Wrote
  | .null => some rmsgpackWriteNil
  | .bool b => some (rmsgpackWriteBool b)
  | .int i => some (rmsgpackWriteInt i)
  | .uint u => some (rmsgpackWriteUint u)
  | .string s => some (rmsgpackWriteString s)
  | .binary b => some (rmsgpackWriteBin b)
  | .map items => domWritePairs items (rmsgpackWriteMapHeader items.length)
  | .array items => domWriteItems items (rmsgpackWriteArrayHeader items.length)

def domWritePairs : List (Value × Value) → Wrote → Option Wrote
  | [], done => some done
  | (key, value) :: items, done =>
    (rmsgpackDomWrite key).bind fun rv => andThen done rv fun done =>
      (rmsgpackDomWrite value).bind fun rv => andThen done rv fun done =>
        domWritePairs items done

def domWriteItems : List Value → Wrote → Option Wrote
  | [], done => some done
  | item :: items, done =>
    (rmsgpackDomWrite item).bind fun rv => andThen done rv fun done =>
      domWriteItems items done

end

def maxDepth : ℕ := 128

def enomem : Int := 12

/-- The value under construction and the slots still to be filled, the next one first. -/
structure DomReaderState where
  out : Value
  stack : List Slot

/-- Below the bottom of the stack there is nothing to pop. -/
def domReaderStatePop (s : DomReaderState) : Option (Slot × DomReaderState) :=
  match s.stack with
  | [] => none
  | slot :: stack => some (slot, { s with stack := stack })

def domReaderStatePush (s : DomReaderState) (slot : Slot) : Int × DomReaderState :=
  if s.stack.length = maxDepth then
    (-enomem, s)
  else
    (0, { s with stack := slot :: s.stack })

/-- Push in order, up to the first that does not fit. -/
def pushAll : List Slot → DomReaderState → Int × DomReaderState
  | [], s => (0, s)
  | slot :: slots, s =>
    let (rv, s) := domReaderStatePush s slot
    if rv < 0 then (-enomem, s) else pushAll slots s

/-- Pop the slot a value belongs in and store it there. -/
def fillSlot (v : Value) (s : DomReaderState) : Option (Slot × DomReaderState) :=
  (domReaderStatePop s).map fun (slot, s) => (slot, { s with out := v.store slot s.out })

def domReadScalar (v : Value) (s : DomReaderState) : Option (Int × DomReaderState) :=
  (fillSlot v s).map fun (_, s) => (0, s)

def mapSlots (slot : Slot) (len : ℕ) : List Slot :=
  (List.range len).flatMap fun i => [slot ++ [.value i], slot ++ [.key i]]

def arraySlots (slot : Slot) (len : ℕ) : List Slot :=
  (List.range len).map fun i => slot ++ [.item i]

/-- `calloc` is taken to succeed; the members it clears are of type `RDT_NULL`. -/
def domReadMapStart (len : ℕ) (s : DomReaderState) : Option (Int × DomReaderState) :=
  (fillSlot (.map (List.replicate len (.null, .null))) s).map fun (slot, s) =>
    pushAll (mapSlots slot len) s

def domReadArrayStart (len : ℕ) (s : DomReaderState) : Option (Int × DomReaderState) :=
  (fillSlot (.array (List.replicate len .null)) s).map fun (slot, s) =>
    pushAll (arraySlots slot len) s

def domReaderCallbacks : ReadCallbacks DomReaderState where
  readNil := domReadScalar .null
  readBool := fun value => domReadScalar (.bool value)
  readInt := fun value => domReadScalar (.int value)
  readUint := fun value => domReadScalar (.uint value)
  readString := fun value => domReadScalar (.string value)
  readBin := fun value => domReadScalar (.binary value)
  readMapStart := domReadMapStart
  readArrayStart := domReadArrayStart

/-- The value is freed where the read fails; `depth` is more levels than the file can nest. A value
of a format the reader has no case for leaves `out` as it was. -/
def rmsgpackDomRead (fd : RFile) (out : Value := .null) : Option (Int × RFile × Value) :=
  let depth := fd.rest.length + 1
  (rmsgpackRead domReaderCallbacks depth fd ⟨out, [[]]⟩).map fun (rv, fd, s) =>
    (rv, fd, if rv < 0 then .null else s.out)

end RetroArch.LibretroDb
