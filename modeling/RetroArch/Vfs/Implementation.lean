/- Opened files: the buffered, mapped, plain descriptor and ORBIS variants of seek, tell and read. -/

import RetroArch.Streams.FileStream

namespace RetroArch.Vfs

open Streams

/-- What a file holds; its size is an `off_t`. -/
structure Content where
  bytes : List UInt8
  fits : bytes.length < 2 ^ 63

/-- A file behind `fread`, `read` or `orbisRead`, as the system keeps it. -/
structure SystemFile where
  content : Content
  pos : ℕ

/-- The system's seek: nothing where the target is negative or no `off_t`. -/
def SystemFile.seek (f : SystemFile) (offset : Int) (whence : Whence) : Option SystemFile :=
  let base := match whence with
    | .start => 0
    | .current => f.pos
    | .end => f.content.bytes.length
  let target : Int := base + offset
  if 0 ≤ target ∧ target < 2 ^ 63 then some { f with pos := target.toNat } else none

def SystemFile.read (f : SystemFile) (len : ℕ) : List UInt8 × SystemFile :=
  let bytes := (f.content.bytes.drop f.pos).take len
  (bytes, { f with pos := f.pos + bytes.length })

/-- The conditionals the library is compiled under. -/
structure Build where
  orbis : Bool
  haveMmap : Bool

/-- `mapped` tells whether the pointer is other than `NULL`, as it also is after a failed `mmap`;
`mappos` and `mapsize` are 64-bit. -/
structure Stream where
  unbuffered : Bool
  frequentAccess : Bool
  mapped : Bool
  file : SystemFile
  mappos : ℕ
  mapsize : ℕ
  size : Int

def wrap64 (x : Int) : ℕ := (x % 2 ^ 64).toNat

/-- A 64-bit value read as signed. -/
def signed64 (x : ℕ) : Int := if x < 2 ^ 63 then x else x - 2 ^ 64

/-- A value kept in an `int`. -/
def signed32 (x : Int) : Int := (x + 2 ^ 31) % 2 ^ 32 - 2 ^ 31

@[simp] theorem wrap64_zero : wrap64 0 = 0 := by
  unfold wrap64
  omega

@[simp] theorem signed64_zero : signed64 0 = 0 := by
  unfold signed64
  omega

theorem signed64_wrap64 {x : Int} (hle : -2 ^ 63 ≤ x) (hlt : x < 2 ^ 63) :
    signed64 (wrap64 x) = x := by
  unfold signed64 wrap64
  omega

theorem wrap64_of_nonneg {x : Int} (hle : 0 ≤ x) (hlt : x < 2 ^ 64) : (wrap64 x : Int) = x := by
  unfold wrap64
  omega

theorem le_wrap64_of_neg {x : Int} (hle : -2 ^ 63 ≤ x) (hneg : x < 0) : 2 ^ 63 ≤ wrap64 x := by
  unfold wrap64
  omega

/-- The checks compare with the unsigned sum, in which a negative offset wraps. -/
def seekMapped (s : Stream) (offset : Int) (whence : Whence) : Int × Stream :=
  match whence with
  | .start =>
    if offset < 0 then (-1, s)
    else (signed64 (wrap64 offset), { s with mappos := wrap64 offset })
  | .current =>
    let moved := wrap64 (s.mappos + offset)
    if (offset < 0 ∧ moved > s.mappos) ∨ (offset > 0 ∧ moved < s.mappos) then (-1, s)
    else (signed64 moved, { s with mappos := moved })
  | .end =>
    let moved := wrap64 (s.mapsize + offset)
    if moved < s.mapsize then (-1, s)
    else (signed64 moved, { s with mappos := moved })

def readMapped (s : Stream) (len : ℕ) : Int × List UInt8 × Stream :=
  if s.mappos > s.mapsize then (-1, [], s)
  else
    let len := if wrap64 (s.mappos + len) > s.mapsize then s.mapsize - s.mappos else len
    (signed64 len, (s.file.content.bytes.drop s.mappos).take len,
      { s with mappos := wrap64 (s.mappos + len) })

section Operations

variable (build : Build)

/-- The map is in use; the test differs from that of the read, which leaves `mapped` out. -/
def Stream.isMapped (s : Stream) : Bool := build.haveMmap && s.mapped && s.frequentAccess

def retroVfsFileSeekInternal (s : Stream) (offset : Int) (whence : Whence) : Int × Stream :=
  if s.unbuffered && s.isMapped build then seekMapped s offset whence
  else
    match s.file.seek offset whence with
    | none => (-1, s)
    | some file =>
      -- only ORBIS looks at the position, through an `int`
      if !s.unbuffered && build.orbis && signed32 file.pos < 0 then (-1, { s with file := file })
      else (0, { s with file := file })

def retroVfsFileTellImpl (s : Stream) : Int :=
  if !s.unbuffered then s.file.pos
  else if s.isMapped build then signed64 s.mappos
  else 0

def retroVfsFileReadImpl (s : Stream) (len : ℕ) : Int × List UInt8 × Stream :=
  if s.unbuffered && build.haveMmap && s.frequentAccess then readMapped s len
  else
    let (bytes, file) := s.file.read len
    (if !s.unbuffered && build.orbis then 0 else bytes.length, bytes, { s with file := file })

/-- The size is that of the descriptor's seek, as the map is not there yet; `mmap` tells whether a
map of a size is made. -/
def mapFile (mmap : ℕ → Bool) (s : Stream) : Option Stream :=
  let (mapsize, s) := retroVfsFileSeekInternal build s 0 .end
  if mapsize = -1 then none
  else
    let (_, s) := retroVfsFileSeekInternal build s 0 .start
    some
      { s with
        mapsize := wrap64 mapsize, mapped := true, frequentAccess := mmap (wrap64 mapsize) }

def measureFile (s : Stream) : Stream :=
  if build.orbis then
    let atEnd := (s.file.seek 0 .end).getD s.file
    { s with size := atEnd.pos, file := (atEnd.seek 0 .start).getD atEnd }
  else
    let (_, s) := retroVfsFileSeekInternal build s 0 .start
    let (_, s) := retroVfsFileSeekInternal build s 0 .end
    let s := { s with size := retroVfsFileTellImpl build s }
    (retroVfsFileSeekInternal build s 0 .start).2

/-- Opening for reading, with `RETRO_VFS_FILE_ACCESS_HINT_FREQUENT_ACCESS` or no hint. -/
def retroVfsFileOpenImpl (mmap : ℕ → Bool) (content : Content) (frequentAccess : Bool) :
    Option Stream :=
  if build.haveMmap && frequentAccess then
    (mapFile build mmap
      { unbuffered := true, frequentAccess := true, mapped := false, file := ⟨content, 0⟩,
        mappos := 0, mapsize := 0, size := 0 }).map (measureFile build)
  else
    some (measureFile build
      { unbuffered := false, frequentAccess := false, mapped := false, file := ⟨content, 0⟩,
        mappos := 0, mapsize := 0, size := 0 })

end Operations

inductive Op
  | read (len : UInt64)
  | seek (offset : Int64) (position : Whence)
  | tell
  deriving DecidableEq

/-- The value returned and the bytes delivered. -/
structure Result where
  value : Int
  bytes : List UInt8
  deriving DecidableEq, Repr

def retroVfsFileSeekImpl (build : Build) (s : Stream) (offset : Int64) (position : Whence) :
    Int × Stream :=
  retroVfsFileSeekInternal build s offset.toInt position

def step (build : Build) (s : Stream) : Op → Result × Stream
  | .read len =>
    let (value, bytes, s) := retroVfsFileReadImpl build s len.toNat
    (⟨value, bytes⟩, s)
  | .seek offset position =>
    let (value, s) := retroVfsFileSeekImpl build s offset position
    (⟨value, []⟩, s)
  | .tell => (⟨retroVfsFileTellImpl build s, []⟩, s)

def runOps (build : Build) : Stream → List Op → List Result × Stream
  | s, [] => ([], s)
  | s, op :: ops =>
    let (r, s) := step build s op
    let (rs, s) := runOps build s ops
    (r :: rs, s)

/-- Where the next read starts. -/
def Stream.position (build : Build) (s : Stream) : ℕ :=
  if s.unbuffered && s.isMapped build then s.mappos else s.file.pos

inductive Backend
  | buffered
  | mapped
  | descriptor
  | orbis
  deriving DecidableEq, Repr

def Backend.build : Backend → Build
  | .buffered => ⟨false, true⟩
  | .mapped => ⟨false, true⟩
  | .descriptor => ⟨false, true⟩
  | .orbis => ⟨true, false⟩

/-- The mapped and the descriptor backend differ in whether `mmap` succeeds. -/
def Backend.openFile (b : Backend) (content : Content) : Option Stream :=
  match b with
  | .buffered => retroVfsFileOpenImpl b.build (fun _ => false) content false
  | .mapped => retroVfsFileOpenImpl b.build (fun _ => true) content true
  | .descriptor => retroVfsFileOpenImpl b.build (fun _ => false) content true
  | .orbis => retroVfsFileOpenImpl b.build (fun _ => false) content false

/-- The results of the calls on a file opened for reading, and the position they end at. -/
def Backend.observe (b : Backend) (content : Content) (ops : List Op) :
    Option (List Result × ℕ) :=
  (b.openFile content).map fun s =>
    let (rs, s) := runOps b.build s ops
    (rs, s.position b.build)

end RetroArch.Vfs
