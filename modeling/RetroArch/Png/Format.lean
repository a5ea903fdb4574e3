/- `rpng.c`: the header of an image, the sizes that follow from it, and the chunks of a file. -/

import RetroArch.Library.Bytes
import RetroArch.Library.Memory

namespace RetroArch.Png

open Library.Bytes Library.Memory

inductive ColorType
  | gray
  | rgb
  | plt
  | grayAlpha
  | rgba
  | other
  deriving DecidableEq, Repr

def ColorType.ofByte (b : UInt8) : ColorType :=
  if b = 0 then .gray
  else if b = 2 then .rgb
  else if b = 3 then .plt
  else if b = 4 then .grayAlpha
  else if b = 6 then .rgba
  else .other

/-- How many samples of `depth` bits a pixel has. -/
def ColorType.samples : ColorType → UInt32
  | .gray => 1
  | .rgb => 3
  | .plt => 1
  | .grayAlpha => 2
  | .rgba => 4
  | .other => 0

structure PngIhdr where
  width : UInt32
  height : UInt32
  depth : UInt8
  colorType : UInt8
  compression : UInt8
  filter : UInt8
  interlace : UInt8
  deriving DecidableEq, Repr

def PngIhdr.color (ihdr : PngIhdr) : ColorType := .ofByte ihdr.colorType

def pngProcessIhdr (ihdr : PngIhdr) : Bool :=
  (match ihdr.color with
    | .rgb | .grayAlpha | .rgba => ihdr.depth == 8 || ihdr.depth == 16
    | .gray => [1, 2, 4, 8, 16].contains ihdr.depth
    | .plt => [1, 2, 4, 8].contains ihdr.depth
    | .other => false) && ihdr.compression == 0

structure PassGeom where
  bpp : UInt32
  pitch : UInt32
  passSize : ℕ

/-- In `unsigned` arithmetic throughout. -/
def pngPassGeom (ihdr : PngIhdr) : PassGeom :=
  let depth := ihdr.depth.toUInt32
  let samples := ihdr.color.samples
  let (bpp, pitch) := match ihdr.color with
    | .other => (0, 0)
    | _ => ((depth * samples + 7) / 8, (ihdr.width * depth * samples + 7) / 8)
  ⟨bpp, pitch, ((pitch + 1) * ihdr.height).toNat⟩

inductive PngChunkType
  | noop
  | ihdr
  | idat
  | plte
  | trns
  | iend
  deriving DecidableEq, Repr

structure PngChunk where
  size : UInt32
  type : List UInt8

def pngChunkType (chunk : PngChunk) : PngChunkType :=
  if chunk.type = [0x49, 0x48, 0x44, 0x52] then .ihdr
  else if chunk.type = [0x49, 0x44, 0x41, 0x54] then .idat
  else if chunk.type = [0x49, 0x45, 0x4e, 0x44] then .iend
  else if chunk.type = [0x50, 0x4c, 0x54, 0x45] then .plte
  else if chunk.type = [0x74, 0x52, 0x4e, 0x53] then .trns
  else .noop

/-- What the chunks have told so far; `buffData` is an offset into the file. -/
structure Rpng where
  hasIhdr : Bool
  hasIdat : Bool
  hasIend : Bool
  hasPlte : Bool
  hasTrns : Bool
  idatBuf : List UInt8
  ihdr : PngIhdr
  buffData : ℕ
  palette : Vector UInt32 256

def rpngAlloc : Rpng where
  hasIhdr := false
  hasIdat := false
  hasIend := false
  hasPlte := false
  hasTrns := false
  idatBuf := []
  ihdr := ⟨0, 0, 0, 0, 0, 0, 0⟩
  buffData := 0
  palette := Vector.replicate 256 0

def dwordBe (bytes : List UInt8) : UInt32 := UInt32.ofNat (ofBE bytes)

/-- `buff_end`: the last byte of the file, not the place behind it. -/
def buffEnd (data : List UInt8) : ℕ := data.length - 1

def isLetter (byte : UInt8) : Bool :=
  !(byte < 65 || (byte > 90 && byte < 97) || byte > 122)

/-- The inner `none` is the answer `false`. -/
def readChunkHeader (data : List UInt8) (buf : ℕ) : Option (Option PngChunk) :=
  if buffEnd data < buf + 8 then
    some none
  else
    (peeks data buf 4).bind fun dword =>
      let size := dwordBe dword
      if buf + 8 + size.toNat > buffEnd data then
        some none
      else
        (peeks data (buf + 4) 4).map fun type =>
          if type.all isLetter then some ⟨size, type⟩ else none

def pngParseIhdr (data : List UInt8) (buf : ℕ) : Option PngIhdr :=
  (peeks data (buf + 8) 13).map fun bytes =>
    { width := dwordBe (bytes.take 4)
      height := dwordBe ((bytes.drop 4).take 4)
      depth := bytes.getD 8 0
      colorType := bytes.getD 9 0
      compression := bytes.getD 10 0
      filter := bytes.getD 11 0
      interlace := bytes.getD 12 0 }

def paletteSet (palette : Vector UInt32 256) (i : ℕ) (color : UInt32) :
    Option (Vector UInt32 256) :=
  if h : i < 256 then some (palette.set i color h) else none

def pngReadPlte (data : List UInt8) (buf : ℕ) (palette : Vector UInt32 256) (entries : ℕ) :
    Option (Vector UInt32 256) :=
  (List.range entries).foldlM (fun palette i =>
    (peeks data (buf + 3 * i) 3).bind fun rgb =>
      let r := (rgb.getD 0 0).toUInt32
      let g := (rgb.getD 1 0).toUInt32
      let b := (rgb.getD 2 0).toUInt32
      paletteSet palette i ((r <<< 16) ||| (g <<< 8) ||| b ||| 0xff000000)) palette

def pngReadTrns (data : List UInt8) (buf : ℕ) (palette : Vector UInt32 256) (entries : ℕ) :
    Option (Vector UInt32 256) :=
  (List.range entries).foldlM (fun palette i =>
    if h : i < 256 then
      (data[buf + i]?).bind fun alpha =>
        paletteSet palette i ((palette[i] &&& (0x00ffffff : UInt32)) ||| (alpha.toUInt32 <<< 24))
    else
      none) palette

/-- The `switch` over a chunk; `false` is `goto error`, which keeps what was set before. -/
def rpngChunk (data : List UInt8) (rpng : Rpng) (chunk : PngChunk) : Option (Bool × Rpng) :=
  let buf := rpng.buffData
  match pngChunkType chunk with
  | .noop => some (true, rpng)
  | .ihdr =>
    if rpng.hasIhdr || rpng.hasIdat || rpng.hasIend then some (false, rpng)
    else if chunk.size ≠ 13 then some (false, rpng)
    else
      (pngParseIhdr data buf).map fun ihdr =>
        let rpng := { rpng with ihdr := ihdr }
        if ihdr.width = 0 || ihdr.height = 0 then (false, rpng)
        else if !pngProcessIhdr ihdr then (false, rpng)
        else (true, { rpng with hasIhdr := true })
  | .plte =>
    let entries := chunk.size.toNat / 3
    if !rpng.hasIhdr || rpng.hasPlte || rpng.hasIend || rpng.hasIdat || rpng.hasTrns then
      some (false, rpng)
    else if chunk.size.toNat % 3 ≠ 0 then some (false, rpng)
    else if entries > 256 then some (false, rpng)
    else
      (pngReadPlte data (buf + 8) rpng.palette entries).map fun palette =>
        (true, { rpng with palette := palette, hasPlte := true })
  | .trns =>
    if rpng.hasIdat then some (false, rpng)
    else if rpng.ihdr.color = .plt then
      if chunk.size > 256 then some (false, rpng)
      else
        (pngReadTrns data (buf + 8) rpng.palette chunk.size.toNat).map fun palette =>
          (true, { rpng with palette := palette, hasTrns := true })
    else
      some (true, { rpng with hasTrns := true })
  | .idat =>
    if !rpng.hasIhdr || rpng.hasIend || (rpng.ihdr.color == .plt && !rpng.hasPlte) then
      some (false, rpng)
    else
      (peeks data (buf + 8) chunk.size.toNat).map fun bytes =>
        (true, { rpng with idatBuf := rpng.idatBuf ++ bytes, hasIdat := true })
  | .iend =>
    if !rpng.hasIhdr || !rpng.hasIdat then some (false, rpng)
    else some (false, { rpng with hasIend := true })

/-- The step to the next chunk is in `uint32_t` arithmetic. -/
def rpngIterateImage (data : List UInt8) (rpng : Rpng) : Option (Bool × Rpng) :=
  if rpng.buffData > buffEnd data then
    some (false, rpng)
  else
    (readChunkHeader data rpng.buffData).bind fun
      | none => some (false, rpng)
      | some chunk =>
        (rpngChunk data rpng chunk).map fun (more, rpng) =>
          if more then
            let rpng := { rpng with buffData := rpng.buffData + (chunk.size + 12).toNat }
            (!(rpng.buffData > buffEnd data), rpng)
          else
            (false, rpng)

def rpngIsValid (rpng : Rpng) : Bool := rpng.hasIhdr && rpng.hasIdat && rpng.hasIend

def pngMagic : List UInt8 := [0x89, 0x50, 0x4e, 0x47, 0x0d, 0x0a, 0x1a, 0x0a]

/-- An empty buffer is not taken, and there is nothing to read then. -/
def rpngStart (data : List UInt8) : Option (Bool × Rpng) :=
  if data.length < 1 ∨ buffEnd data < 8 then
    some (false, rpngAlloc)
  else
    (peeks data 0 8).map fun header =>
      if header = pngMagic then (true, { rpngAlloc with buffData := 8 }) else (false, rpngAlloc)

end RetroArch.Png
