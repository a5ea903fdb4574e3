/- `rmsgpack.c`: the writers, and the reader over its callbacks, on a little-endian host. -/

import RetroArch.Library.Bytes
import RetroArch.LibretroDb.Dom
import RetroArch.Streams.FileStream
import Mathlib.Data.Nat.Bitwise

namespace RetroArch.LibretroDb

open Library.Bytes Streams

abbrev mpfFixmap : ℕ := 0x80
abbrev mpfMap16 : ℕ := 0xde
abbrev mpfMap32 : ℕ := 0xdf
abbrev mpfFixarray : ℕ := 0x90
abbrev mpfArray16 : ℕ := 0xdc
abbrev mpfArray32 : ℕ := 0xdd
abbrev mpfFixstr : ℕ := 0xa0
abbrev mpfStr8 : ℕ := 0xd9
abbrev mpfStr16 : ℕ := 0xda
abbrev mpfStr32 : ℕ := 0xdb
abbrev mpfBin8 : ℕ := 0xc4
abbrev mpfBin16 : ℕ := 0xc5
abbrev mpfBin32 : ℕ := 0xc6
abbrev mpfFalse : ℕ := 0xc2
abbrev mpfTrue : ℕ := 0xc3
abbrev mpfInt8 : ℕ := 0xd0
abbrev mpfInt16 : ℕ := 0xd1
abbrev mpfInt32 : ℕ := 0xd2
abbrev mpfInt64 : ℕ := 0xd3
abbrev mpfUint8 : ℕ := 0xcc
abbrev mpfUint16 : ℕ := 0xcd
abbrev mpfUint32 : ℕ := 0xce
abbrev mpfUint64 : ℕ := 0xcf
abbrev mpfNil : ℕ := 0xc0

/-- What a writer appends to its file, where the file takes every write, and what it returns. -/
structure Wrote where
  bytes : List UInt8
  rv : Int
  deriving DecidableEq, Repr

/-- The format byte and the number after it, high byte first. -/
def tagged (tag width v : ℕ) : Wrote := ⟨UInt8.ofNat tag :: toBE width v, 1 + width⟩

/-- The format byte alone. -/
def tag (v : ℕ) : Wrote := ⟨[UInt8.ofNat v], 1⟩

def rmsgpackWriteArrayHeader (size : ℕ) : Wrote :=
  if size < 16 then
    tag (size ||| mpfFixarray)
  else if size = size % 2 ^ 16 then
    tagged mpfArray16 2 size
  else
    tagged mpfArray32 4 size

def rmsgpackWriteMapHeader (size : ℕ) : Wrote :=
  if size < 16 then
    tag (size ||| mpfFixmap)
  else if size < size % 2 ^ 16 then
    -- no size is below its own low half: this format is never written
    tagged mpfMap16 2 size
  else
    tagged mpfMap32 4 size

def stringHeader (len : ℕ) : Wrote :=
  if len < 32 then
    tag (len ||| mpfFixstr)
  else if len < 2 ^ 8 then
    tagged mpfStr8 1 len
  else if len < 2 ^ 16 then
    tagged mpfStr16 2 len
  else
    tagged mpfStr32 4 len

def rmsgpackWriteString (s : Buffer) : Wrote :=
  let len := s.buff.length
  let header := stringHeader len
  -- `written += len`, with `written` an `int` and `len` a `uint32_t`
  ⟨header.bytes ++ s.buff, (header.rv + len).bmod (2 ^ 32)⟩

def binHeader (len : ℕ) : Wrote :=
  if len = len % 2 ^ 8 then
    tagged mpfBin8 1 len
  else if len = len % 2 ^ 16 then
    tagged mpfBin16 2 len
  else
    tagged mpfBin32 4 len

def rmsgpackWriteBin (s : Buffer) : Wrote :=
  ⟨(binHeader s.buff.length).bytes ++ s.buff, 0⟩

def rmsgpackWriteNil : Wrote := tag mpfNil

def rmsgpackWriteBool (value : Bool) : Wrote :=
  -- the branch for true has no return and goes on to the other format byte
  ⟨(if value then [UInt8.ofNat mpfTrue] else []) ++ [UInt8.ofNat mpfFalse], 1⟩

def rmsgpackWriteInt (value : Int64) : Wrote :=
  let z := value.toInt
  if 0 ≤ z ∧ z < 128 then
    tag (z % 2 ^ 8).toNat
  else if z < 0 ∧ -32 < z then
    tag ((z % 2 ^ 8).toNat ||| 0xe0)
  else if z = z.bmod (2 ^ 8) then
    tagged mpfInt8 1 (z % 2 ^ 8).toNat
  else if z = z.bmod (2 ^ 16) then
    tagged mpfInt16 2 (z % 2 ^ 16).toNat
  else if z = z.bmod (2 ^ 32) then
    tagged mpfInt32 4 (z % 2 ^ 32).toNat
  else
    tagged mpfInt64 8 (z % 2 ^ 64).toNat

def rmsgpackWriteUint (value : UInt64) : Wrote :=
  let v := value.toNat
  if v = v % 2 ^ 8 then
    tagged mpfUint8 1 v
  else if v = v % 2 ^ 16 then
    tagged mpfUint16 2 v
  else if v = v % 2 ^ 32 then
    tagged mpfUint32 4 v
  else
    tagged mpfUint64 8 v

section Reading

/-- The callbacks of a reader over its own data; one that misuses that data has no result. -/
structure ReadCallbacks (σ : Type*) where
  readNil : σ → Option (Int × σ)
  readBool : Bool → σ → Option (Int × σ)
  readInt : Int64 → σ → Option (Int × σ)
  readUint : UInt64 → σ → Option (Int × σ)
  readString : Buffer → σ → Option (Int × σ)
  readBin : Buffer → σ → Option (Int × σ)
  readMapStart : ℕ → σ → Option (Int × σ)
  readArrayStart : ℕ → σ → Option (Int × σ)

variable {σ : Type*}

/-- The value returned, the file and the data left behind. -/
abbrev ReadResult (σ : Type*) := Option (Int × RFile × σ)

/-- A callback's value is what the reader returns. -/
def returned (fd : RFile) (result : Option (Int × σ)) : ReadResult σ :=
  result.map fun (rv, data) => (rv, fd, data)

/-- A number cut short by the end of the file is in part indeterminate. -/
def readUint (size : ℕ) (fd : RFile) : Option (ℕ × RFile) :=
  let (tmp, fd) := filestreamRead size fd
  if tmp.length = size then some (ofBE tmp, fd) else none

def readInt (size : ℕ) (fd : RFile) : Option (Int × RFile) :=
  (readUint size fd).map fun (tmp, fd) => ((tmp : Int).bmod (256 ^ size), fd)

/-- The bytes there are, at most as many as announced. -/
def readBuff (size : ℕ) (fd : RFile) : Option (List UInt8 × RFile) :=
  (readUint size fd).map fun (len, fd) => filestreamRead len fd

/-- The calls of a container's loop, which the first failure ends. -/
def readMembers (read : RFile → σ → ReadResult σ) : ℕ → RFile → σ → ReadResult σ
  | 0, fd, data => some (0, fd, data)
  | len + 1, fd, data =>
    (read fd data).bind fun (rv, fd, data) =>
      if rv < 0 then some (rv, fd, data) else readMembers read len fd data

def startMembers (start : Option (Int × σ)) (read : RFile → σ → ReadResult σ) (len : ℕ)
    (fd : RFile) : ReadResult σ :=
  start.bind fun (rv, data) =>
    if rv < 0 then some (rv, fd, data) else readMembers read len fd data

/-- Each round reads a key and a value. -/
def readMap (callbacks : ReadCallbacks σ) (read : RFile → σ → ReadResult σ) (len : ℕ)
    (fd : RFile) (data : σ) : ReadResult σ :=
  startMembers (callbacks.readMapStart len data) read (2 * len) fd

def readArray (callbacks : ReadCallbacks σ) (read : RFile → σ → ReadResult σ) (len : ℕ)
    (fd : RFile) (data : σ) : ReadResult σ :=
  startMembers (callbacks.readArrayStart len data) read len fd

/-- The formats whose type byte carries no value of its own. -/
def readTagged (callbacks : ReadCallbacks σ) (read : RFile → σ → ReadResult σ) (type : ℕ)
    (fd : RFile) (data : σ) : ReadResult σ :=
  if type = mpfNil then
    returned fd (callbacks.readNil data)
  else if type = mpfFalse then
    returned fd (callbacks.readBool false data)
  else if type = mpfTrue then
    returned fd (callbacks.readBool true data)
  else if mpfBin8 ≤ type ∧ type ≤ mpfBin32 then
    (readBuff (2 ^ (type - mpfBin8)) fd).bind fun (buff, fd) =>
      returned fd (callbacks.readBin (Buffer.ofBytes buff) data)
  else if mpfUint8 ≤ type ∧ type ≤ mpfUint64 then
    (readUint (2 ^ (type - mpfUint8)) fd).bind fun (tmp, fd) =>
      returned fd (callbacks.readUint (UInt64.ofNat tmp) data)
  else if mpfInt8 ≤ type ∧ type ≤ mpfInt64 then
    (readInt (2 ^ (type - mpfInt8)) fd).bind fun (tmp, fd) =>
      returned fd (callbacks.readInt (Int64.ofInt tmp) data)
  else if mpfStr8 ≤ type ∧ type ≤ mpfStr32 then
    (readBuff (2 ^ (type - mpfStr8)) fd).bind fun (buff, fd) =>
      returned fd (callbacks.readString (Buffer.ofBytes buff) data)
  else if mpfArray16 ≤ type ∧ type ≤ mpfArray32 then
    (readUint (2 * 2 ^ (type - mpfArray16)) fd).bind fun (len, fd) =>
      readArray callbacks read len fd data
  else if mpfMap16 ≤ type ∧ type ≤ mpfMap32 then
    (readUint (2 * 2 ^ (type - mpfMap16)) fd).bind fun (len, fd) =>
      readMap callbacks read len fd data
  else
    -- a format the switch has no case for is passed over, with no callback
    some (0, fd, data)

/-- One call of the reader, with the calls it makes for the members of a container as `read`. -/
def readValue (callbacks : ReadCallbacks σ) (read : RFile → σ → ReadResult σ) (fd : RFile)
    (data : σ) : ReadResult σ :=
  let (bs, fd) := filestreamRead 1 fd
  -- at the end of the file nothing is stored and the type keeps its initial value
  let type := (bs.headD 0).toNat
  if type < mpfFixmap then
    returned fd (callbacks.readInt (Int64.ofNat type) data)
  else if type < mpfFixarray then
    readMap callbacks read (type - mpfFixmap) fd data
  else if type < mpfFixstr then
    readArray callbacks read (type - mpfFixarray) fd data
  else if type < mpfNil then
    let (buff, fd) := filestreamRead (type - mpfFixstr) fd
    returned fd (callbacks.readString (Buffer.ofBytes buff) data)
  else if mpfMap32 < type then
    returned fd (callbacks.readInt (Int64.ofInt (type - 0xff - 1)) data)
  else
    readTagged callbacks read type fd data

/-- Nested calls down to a depth; each level of nesting has read at least one byte. -/
def rmsgpackRead (callbacks : ReadCallbacks σ) : ℕ → RFile → σ → ReadResult σ
  | 0, _, _ => none
  | depth + 1, fd, data => readValue callbacks (rmsgpackRead callbacks depth) fd data

end Reading

end RetroArch.LibretroDb
