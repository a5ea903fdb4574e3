/- `rpng.c`, `filters.h`: one line of an image, from its filtered bytes to its pixels. -/

import RetroArch.Png.Format

namespace RetroArch.Png

open Library.Memory

def paeth (a b c : Int) : Int :=
  let p := a + b - c
  let pa := (p - a).natAbs
  let pb := (p - b).natAbs
  let pc := (p - c).natAbs
  if pa ≤ pb ∧ pa ≤ pc then a else if pb ≤ pc then b else c

def paethByte (a b c : UInt8) : UInt8 :=
  UInt8.ofNat (paeth a.toNat b.toNat c.toNat).toNat

def average (a b : UInt8) : UInt8 := UInt8.ofNat ((a.toNat + b.toNat) / 2)

/-- The five line filters. -/
inductive Filter
  | none
  | sub
  | up
  | average
  | paeth
  deriving DecidableEq, Repr

def Filter.ofByte (b : UInt8) : Option Filter :=
  if b = 0 then some .none
  else if b = 1 then some .sub
  else if b = 2 then some .up
  else if b = 3 then some .average
  else if b = 4 then some .paeth
  else Option.none

def Filter.toByte : Filter → UInt8
  | .none => 0
  | .sub => 1
  | .up => 2
  | .average => 3
  | .paeth => 4

/-- What is predicted for byte `i` in the first `bpp` bytes of a line. -/
def predictFirst (filter : Filter) (prev : List UInt8) (i : ℕ) : Option UInt8 :=
  match filter with
  | .none | .sub => some 0
  | .up => prev[i]?
  | .average => (prev[i]?).map fun b => b >>> (1 : UInt8)
  | .paeth => (prev[i]?).map fun b => paethByte 0 b 0

/-- What is predicted for a later byte, from `bpp` bytes before it in this line. -/
def predictRest (filter : Filter) (bpp : ℕ) (prev decoded : List UInt8) (i : ℕ) : Option UInt8 :=
  match filter with
  | .none => some 0
  | .sub => decoded[i - bpp]?
  | .up => prev[i]?
  | .average => (decoded[i - bpp]?).bind fun a => (prev[i]?).map fun b => Png.average a b
  | .paeth => (decoded[i - bpp]?).bind fun a => (prev[i]?).bind fun b =>
    (prev[i - bpp]?).map fun c => paethByte a b c

/-- The loops of the two filters that look at one byte at a time run from zero to `pitch`, the
others have one for the first `bpp` bytes. -/
def Filter.split (filter : Filter) (bpp pitch : ℕ) : ℕ :=
  match filter with
  | .none | .up => pitch
  | .sub | .average | .paeth => bpp

/-- The `switch` over the filter in `png_reverse_filter_copy_line`; `input` is the place of the
line's bytes in the inflated ones. -/
def reverseFilter (filter : Filter) (bpp pitch : ℕ) (inflateBuf : List UInt8) (input : ℕ)
    (prev decoded : List UInt8) : Option (List UInt8) :=
  let split := filter.split bpp pitch
  let first := fill id (fun _ i => (inflateBuf[input + i]?).bind fun b =>
    (predictFirst filter prev i).map (· + b)) (List.range split) decoded
  first.bind <| fill id (fun line i => (inflateBuf[input + i]?).bind fun b =>
    (predictRest filter bpp prev line i).map (· + b)) (List.range' split (pitch - split))

section Pixels

/-- A pointer to pixels: the block and the place in it. -/
structure Canvas where
  pixels : List UInt32
  pos : ℕ

/-- The bits of a sample below a byte, behind the samples before it in that byte. -/
def sampleBits (byte : UInt8) (depth shift : ℕ) : ℕ := byte.toNat / 2 ^ shift % 2 ^ depth

variable (decoded : List UInt8)

def pixelRgb (d i : ℕ) : Option UInt32 :=
  (decoded[3 * i * d]?).bind fun r => (decoded[3 * i * d + d]?).bind fun g =>
    (decoded[3 * i * d + 2 * d]?).map fun b =>
      (0xff000000 : UInt32) ||| (r.toUInt32 <<< 16) ||| (g.toUInt32 <<< 8) ||| b.toUInt32

def pixelRgba (d i : ℕ) : Option UInt32 :=
  (decoded[4 * i * d]?).bind fun r => (decoded[4 * i * d + d]?).bind fun g =>
    (decoded[4 * i * d + 2 * d]?).bind fun b => (decoded[4 * i * d + 3 * d]?).map fun a =>
      (a.toUInt32 <<< (24 : UInt32)) ||| (r.toUInt32 <<< 16) ||| (g.toUInt32 <<< 8) ||| b.toUInt32

def mulTable : List UInt32 := [0, 0xff, 0x55, 0, 0x11, 0, 0, 0, 0x01]

/-- The count of bits is an `unsigned`, and so is the place of a byte of two. -/
def pixelBw (depth i : ℕ) : Option UInt32 :=
  if depth = 16 then
    (decoded[2 * i % 2 ^ 32]?).map fun val => val.toUInt32 * 0x010101 ||| 0xff000000
  else
    let bit := i * depth % 2 ^ 32
    (decoded[bit / 8]?).map fun byte =>
      let val := UInt32.ofNat (sampleBits byte depth (8 - depth - bit % 8))
      val * mulTable.getD depth 0 * 0x010101 ||| 0xff000000

def pixelGrayAlpha (d i : ℕ) : Option UInt32 :=
  (decoded[2 * i * d]?).bind fun gray => (decoded[2 * i * d + d]?).map fun alpha =>
    gray.toUInt32 * (0x010101 : UInt32) ||| (alpha.toUInt32 <<< (24 : UInt32))

/-- The source has the samples of a byte written out, from the highest bits down. -/
def pixelPlt (depth : ℕ) (palette : Vector UInt32 256) (i : ℕ) : Option UInt32 :=
  let perByte := 8 / depth
  (decoded[i / perByte]?).map fun byte =>
    palette.toList.getD (sampleBits byte depth (8 - depth * (i % perByte + 1))) 0

/-- The `switch` over the color type; the loops of all of them store the pixels in turn. -/
def pixelAt (ihdr : PngIhdr) (palette : Vector UInt32 256) (i : ℕ) : Option UInt32 :=
  let depth := ihdr.depth.toNat
  match ihdr.color with
  | .gray => pixelBw decoded depth i
  | .rgb => pixelRgb decoded (depth / 8) i
  | .plt => pixelPlt decoded depth palette i
  | .grayAlpha => pixelGrayAlpha decoded (depth / 8) i
  | .rgba => pixelRgba decoded (depth / 8) i
  | .other => none

def copyPixels (ihdr : PngIhdr) (palette : Vector UInt32 256) (data : Canvas) : Option Canvas :=
  (fill (data.pos + ·) (fun _ => pixelAt decoded ihdr palette) (List.range ihdr.width.toNat)
    data.pixels).map fun pixels => { data with pixels := pixels }

end Pixels

end RetroArch.Png
