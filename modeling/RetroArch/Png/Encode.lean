/- `rpng_encode.c`: an image as it is saved. -/

import RetroArch.Encodings.Crc32
import RetroArch.Png.Process

namespace RetroArch.Png

open Encodings Library.Bytes

/-- A chunk as it is written: its size, what the checksum is over, and the checksum. -/
def writeChunk (size : ℕ) (body : List UInt8) : List UInt8 :=
  toBE 4 size ++ body ++ toBE 4 (encodingCrc32 0 body).toNat

def typeIhdr : List UInt8 := [0x49, 0x48, 0x44, 0x52]

def typeIdat : List UInt8 := [0x49, 0x44, 0x41, 0x54]

def typeIend : List UInt8 := [0x49, 0x45, 0x4e, 0x44]

def pngWriteIhdr (ihdr : PngIhdr) : List UInt8 :=
  writeChunk 13 (typeIhdr ++ toBE 4 ihdr.width.toNat ++ toBE 4 ihdr.height.toNat ++
    [ihdr.depth, ihdr.colorType, ihdr.compression, ihdr.filter, ihdr.interlace])

def pngWriteIdat (data : List UInt8) : List UInt8 := writeChunk data.length (typeIdat ++ data)

def pngWriteIend : List UInt8 := writeChunk 0 typeIend

/-- The format of the pixels that are saved: words, or bytes from blue to red. -/
inductive PixelFormat
  | argb
  | bgr24
  deriving DecidableEq, Repr

def PixelFormat.bpp : PixelFormat → ℕ
  | .argb => 4
  | .bgr24 => 3

/-- `src[i]` of words in memory, the lowest byte first. -/
def wordAt (src : ℕ → UInt8) (i : ℕ) : UInt32 :=
  UInt32.ofNat (ofLE [src (4 * i), src (4 * i + 1), src (4 * i + 2), src (4 * i + 3)])

def copyArgbLine (src : ℕ → UInt8) (width : ℕ) : List UInt8 :=
  (List.range width).flatMap fun i =>
    let col := wordAt src i
    [(col >>> 16).toUInt8, (col >>> 8).toUInt8, col.toUInt8, (col >>> 24).toUInt8]

def copyBgr24Line (src : ℕ → UInt8) (width : ℕ) : List UInt8 :=
  (List.range width).flatMap fun i => [src (3 * i + 2), src (3 * i + 1), src (3 * i)]

/-- The bytes of one line, in the order of the file. -/
def copyLine (format : PixelFormat) (src : ℕ → UInt8) (width : ℕ) : List UInt8 :=
  match format with
  | .argb => copyArgbLine src width
  | .bgr24 => copyBgr24Line src width

/-- The sum of the bytes as signed ones, without their signs. -/
def countSad (data : List UInt8) : UInt32 :=
  data.foldl (fun cnt b => cnt + UInt32.ofNat (b.toInt8.toInt.natAbs)) 0

/-- What a byte of a line is predicted to be, by the loops of a filter function. -/
def predict (filter : Filter) (bpp : ℕ) (prev line : List UInt8) (i : ℕ) : Option UInt8 :=
  if i < filter.split bpp line.length then predictFirst filter prev i
  else predictRest filter bpp prev line i

/-- The loops of the filter functions. -/
def filterTarget (filter : Filter) (bpp : ℕ) (line prev : List UInt8) : List UInt8 :=
  line.mapIdx fun i b => b - (predict filter bpp prev line i).getD 0

def filterUp (line prev : List UInt8) (bpp : ℕ) : List UInt8 := filterTarget .up bpp line prev

def filterSub (line prev : List UInt8) (bpp : ℕ) : List UInt8 := filterTarget .sub bpp line prev

def filterAvg (line prev : List UInt8) (bpp : ℕ) : List UInt8 :=
  filterTarget .average bpp line prev

def filterPaeth (line prev : List UInt8) (bpp : ℕ) : List UInt8 :=
  filterTarget .paeth bpp line prev

/-- A filter replaces the one chosen so far when its score is less. -/
def better (filter : Filter) (target : List UInt8) (chosen : Filter × List UInt8) :
    Filter × List UInt8 :=
  if countSad target < countSad chosen.2 then (filter, target) else chosen

def chooseFilter (line prev : List UInt8) (bpp : ℕ) : Filter × List UInt8 :=
  let chosen := (Filter.none, line)
  let chosen := better .sub (filterSub line prev bpp) chosen
  let chosen := better .up (filterUp line prev bpp) chosen
  let chosen := better .average (filterAvg line prev bpp) chosen
  better .paeth (filterPaeth line prev bpp) chosen

/-- The loop over the lines, each with the one before it as it was. -/
def encodeLines (bpp : ℕ) : List UInt8 → List (List UInt8) → List UInt8
  | _, [] => []
  | prev, line :: lines =>
    let (filter, target) := chooseFilter line prev bpp
    filter.toByte :: target ++ encodeLines bpp line lines

/-- `deflate` by its input and the room for its output. -/
abbrev Deflate := List UInt8 → ℕ → ZAnswer

/-- In `unsigned` arithmetic. -/
def encodeBufSize (format : PixelFormat) (width height : UInt32) : ℕ :=
  ((width * UInt32.ofNat format.bpp + 1) * height).toNat

/-- The place and the size of the output space that the deflate stream is given. -/
structure OutSpace where
  allocated : ℕ
  offset : ℕ
  size : ℕ

/-- The space begins behind the chunk header and has the size of the whole buffer, as an
`unsigned`. -/
def deflateSpace (format : PixelFormat) (width height : UInt32) : OutSpace where
  allocated := encodeBufSize format width height * 2
  offset := 8
  size := encodeBufSize format width height * 2 % 2 ^ 32

/-- The header of a saved image. -/
def saveIhdr (format : PixelFormat) (width height : UInt32) : PngIhdr where
  width := width
  height := height
  depth := 8
  colorType := if format.bpp = 4 then 6 else 2
  compression := 0
  filter := 0
  interlace := 0

/-- The lines of an image `pitch` bytes apart. -/
def imageLines (format : PixelFormat) (data : ℕ → UInt8) (width height : UInt32) (pitch : ℕ) :
    List (List UInt8) :=
  (List.range height.toNat).map fun h =>
    copyLine format (fun i => data (h * pitch + i)) width.toNat

def encodeBuf (format : PixelFormat) (data : ℕ → UInt8) (width height : UInt32) (pitch : ℕ) :
    List UInt8 :=
  encodeLines format.bpp (List.replicate (width.toNat * format.bpp) 0)
    (imageLines format data width height pitch)

/-- The file that is written, where the stream does not fail. -/
def rpngSaveImage (deflate : Deflate) (format : PixelFormat) (data : ℕ → UInt8)
    (width height : UInt32) (pitch : ℕ) : Option (List UInt8) :=
  let encoded := encodeBuf format data width height pitch
  let room := (deflateSpace format width height).size
  let trans := zlibTrans (deflate encoded room) encoded.length room
  if trans.status then
    some (pngMagic ++ pngWriteIhdr (saveIhdr format width height) ++ pngWriteIdat trans.bytes ++
      pngWriteIend)
  else
    none

end RetroArch.Png
