/- `libretrodb.c`: a database file as it is created, opened and read through a cursor. -/

import RetroArch.LibretroDb.DomReader

namespace RetroArch.LibretroDb

open Library.Bytes Streams

/-- `"RARCHDB"` -/
def magicNumber : List UInt8 := [0x52, 0x41, 0x52, 0x43, 0x48, 0x44, 0x42]

def einval : Int := 22

def eof : Int := -1

/-- `libretrodb_header_t`, with the offset as it is stored. -/
structure LibretrodbHeader where
  magicNumber : List UInt8
  metadataOffset : UInt64

def sizeofLibretrodbHeader : ℕ := 16

/-- The structure in memory: a zero byte pads the number to its alignment. -/
def LibretrodbHeader.bytes (header : LibretrodbHeader) : List UInt8 :=
  header.magicNumber ++ [0] ++ toLE 8 header.metadataOffset.toNat

/-- `swap_if_little64` of a value as it is on the stack. -/
def swapIfLittle64 (v : Int) : UInt64 := UInt64.ofNat (ofBE (toLE 8 (v % 2 ^ 64).toNat))

mutual

def libretrodbValidateDocument : Value → Int
  | .map items => validatePairs items
  | _ => -einval

/-- The loop over the keys; the comparison `rv == ...` ends it at the first valid nested map. -/
def validatePairs : List (Value × Value) → Int
  | [] => 0
  | (.string s, value) :: items =>
    if s.buff.length = 0 then
      -einval
    else if s.buff.head? = some 0x24 then
      -einval
    else if value.isMap && libretrodbValidateDocument value == 0 then
      0
    else
      validatePairs items
  | _ :: _ => -einval

end

structure CreateLoop where
  rv : Int
  fd : RFile
  itemCount : ℕ

/-- The provider hands out the documents in turn and then returns one. -/
def createLoop : List Value → RFile → ℕ → Option CreateLoop
  | [], fd, itemCount => some ⟨1, fd, itemCount⟩
  | item :: items, fd, itemCount =>
    let rv := libretrodbValidateDocument item
    if rv < 0 then
      some ⟨rv, fd, itemCount⟩
    else
      (rmsgpackDomWrite item).bind fun wrote =>
        let fd := filestreamWrite wrote.bytes fd
        if wrote.rv < 0 then
          some ⟨wrote.rv, fd, itemCount⟩
        else
          createLoop items fd (itemCount + 1)

/-- `"count"` -/
def countKey : Buffer := ⟨[0x63, 0x6f, 0x75, 0x6e, 0x74], by decide⟩

def libretrodbWriteMetadata (count : ℕ) (fd : RFile) : RFile :=
  let fd := filestreamWrite (rmsgpackWriteMapHeader 1).bytes fd
  let fd := filestreamWrite (rmsgpackWriteString countKey).bytes fd
  filestreamWrite (rmsgpackWriteUint (UInt64.ofNat count)).bytes fd

/-- What follows the documents: the nil sentinel, the metadata, and the header at the start. -/
def createFinish (root : ℕ) (loop : CreateLoop) : Int × RFile :=
  let wrote := rmsgpackWriteNil
  let fd := filestreamWrite wrote.bytes loop.fd
  let (offset, fd) := filestreamSeek 0 .current fd
  let header : LibretrodbHeader := ⟨magicNumber, swapIfLittle64 offset⟩
  let fd := libretrodbWriteMetadata loop.itemCount fd
  let (_, fd) := filestreamSeek root .start fd
  (wrote.rv, filestreamWrite header.bytes fd)

def libretrodbCreate (fd : RFile) (items : List Value) : Option (Int × RFile) :=
  let root := filestreamTell fd
  let (_, fd) := filestreamSeek sizeofLibretrodbHeader .current fd
  (createLoop items fd 0).map fun loop =>
    if loop.rv < 0 then (loop.rv, loop.fd) else createFinish root loop

/-- An open database; a count that was never stored is indeterminate. -/
structure Libretrodb where
  path : List UInt8
  root : ℕ
  count : Option UInt64
  firstIndexOffset : ℕ

/-- The first pair whose key is this string. -/
def mapValue (name : Buffer) : List (Value × Value) → Option Value
  | [] => none
  | (.string s, value) :: items => if s = name then some value else mapValue name items
  | _ :: items => mapValue name items

/-- `rmsgpack_dom_read_into` for the one number `count`. A map with no such key, or with a string
there, makes it use a pointer it was not given; anything that is no map leaves the number alone. -/
def libretrodbReadMetadata (fd : RFile) : Option (Int × RFile × Option UInt64) :=
  (rmsgpackDomRead fd).bind fun (rv, fd, map) =>
    if rv < 0 then
      some (rv, fd, none)
    else
      match map with
      | .map items =>
        match mapValue countKey items with
        | some (.uint v) => some (0, fd, some v)
        | some (.int v) => some (0, fd, some v.toUInt64)
        | some (.string _) | some (.binary _) | none => none
        | some _ => some (0, fd, none)
      | _ => some (0, fd, none)

/-- `path` stands for the bytes found there. A file shorter than the header leaves part of it
indeterminate. -/
def libretrodbOpen (path : List UInt8) : Option (Int × Option Libretrodb) :=
  let fd := filestreamOpen path
  let root := filestreamTell fd
  let (header, fd) := filestreamRead sizeofLibretrodbHeader fd
  if header.length < sizeofLibretrodbHeader then
    none
  else if header.take (magicNumber.length + 1) ≠ magicNumber ++ [0] then
    some (-einval, none)
  else
    let metadataOffset := ofBE (header.drop 8)
    let (_, fd) := filestreamSeek (metadataOffset : Int) .start fd
    (libretrodbReadMetadata fd).map fun (rv, fd, count) =>
      if rv < 0 then (-einval, none) else (0, some ⟨path, root, count, filestreamTell fd⟩)

/-- The query is taken as the predicate `libretrodb_query_filter` computes with it. -/
structure LibretrodbCursor where
  fd : RFile
  eof : Bool
  query : Option (Value → Bool)
  root : ℕ

def libretrodbCursorReset (cursor : LibretrodbCursor) : LibretrodbCursor :=
  { cursor with
    eof := false
    fd := (filestreamSeek ((cursor.root + sizeofLibretrodbHeader : ℕ) : Int) .start cursor.fd).2 }

def libretrodbCursorOpen (db : Libretrodb) (q : Option (Value → Bool)) : LibretrodbCursor :=
  let cursor := libretrodbCursorReset ⟨filestreamOpen db.path, false, none, db.root⟩
  { cursor with query := q }

/-- The loop at `retry`; a file whose values the query rejects to the end is read on for ever. What
was rejected and freed is taken to read as before. -/
def readRetry : ℕ → LibretrodbCursor → Value → Option (Int × LibretrodbCursor × Value)
  | 0, _, _ => none
  | tries + 1, cursor, out =>
    (rmsgpackDomRead cursor.fd out).bind fun (rv, fd, out) =>
      let cursor := { cursor with fd := fd }
      if rv < 0 then
        some (rv, cursor, out)
      else if out.isNull then
        some (eof, { cursor with eof := true }, out)
      else if cursor.query.all (· out) then
        some (0, cursor, out)
      else
        readRetry tries cursor out

/-- The value goes to `out`, which a cursor at its end leaves alone. -/
def libretrodbCursorReadItem (cursor : LibretrodbCursor) (out : Value) :
    Option (Int × LibretrodbCursor × Value) :=
  if cursor.eof then
    some (eof, cursor, out)
  else
    -- each try reads at least one byte of what is left
    readRetry (cursor.fd.rest.length + 1) cursor out

/-- What a number of calls in a row return and leave in `out`. -/
def readItems : ℕ → LibretrodbCursor → Option (List (Int × Value))
  | 0, _ => some []
  | n + 1, cursor =>
    (libretrodbCursorReadItem cursor .null).bind fun (rv, cursor, out) =>
      (readItems n cursor).map ((rv, out) :: ·)

end RetroArch.LibretroDb
