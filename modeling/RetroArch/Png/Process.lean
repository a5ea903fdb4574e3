/- `rpng.c`: the calls of `rpng_process_image`, from the inflated bytes to the image. -/

import RetroArch.Png.Line

namespace RetroArch.Png

open Library.Memory

/-- What a call of zlib returns, as far as the callers tell the values apart. -/
inductive ZReturn
  | ok
  | streamEnd
  | error
  deriving DecidableEq, Repr

/-- How much a call of zlib reads of its input, and what it writes. -/
structure ZAnswer where
  zret : ZReturn
  read : ℕ
  bytes : List UInt8

inductive TransStreamError
  | none
  | again
  | bufferFull
  | other
  deriving DecidableEq, Repr

structure Transcoded where
  status : Bool
  error : TransStreamError
  rd : ℕ
  bytes : List UInt8

/-- `zlib_deflate_trans` and `zlib_inflate_trans` around their call. It reads no more than there is
and writes no more than there is room for. -/
def zlibTrans (answer : ZAnswer) (availIn availOut : ℕ) : Transcoded :=
  let bytes := answer.bytes.take availOut
  let rd := min answer.read availIn
  match answer.zret with
  | .error => ⟨false, .other, rd, bytes⟩
  | .ok =>
    if bytes.length = availOut ∧ rd ≠ availIn then ⟨false, .bufferFull, rd, bytes⟩
    else ⟨true, .again, rd, bytes⟩
  | .streamEnd =>
    if bytes.length = availOut ∧ rd ≠ availIn then ⟨false, .bufferFull, rd, bytes⟩
    else ⟨true, .none, rd, bytes⟩

/-- `inflate` by the number of earlier calls on the stream, the input left and the room left. -/
abbrev Inflate := ℕ → List UInt8 → ℕ → ZAnswer

structure Adam7Pass where
  x : UInt32
  y : UInt32
  strideX : UInt32
  strideY : UInt32

def passes : List Adam7Pass :=
  [⟨0, 0, 8, 8⟩, ⟨4, 0, 8, 8⟩, ⟨0, 4, 4, 8⟩, ⟨2, 0, 4, 4⟩, ⟨0, 2, 2, 4⟩, ⟨1, 0, 2, 2⟩,
    ⟨0, 1, 1, 2⟩]

def passWidth (ihdr : PngIhdr) (pass : Adam7Pass) : UInt32 :=
  (ihdr.width - pass.x + pass.strideX - 1) / pass.strideX

def passHeight (ihdr : PngIhdr) (pass : Adam7Pass) : UInt32 :=
  (ihdr.height - pass.y + pass.strideY - 1) / pass.strideY

/-- The pixels of a block for an image, of which `malloc` is given the product in 32 bits. -/
def pixelCount (width height : UInt32) : ℕ := (width * height).toNat

/-- Nothing is read of these pixels before it is stored. -/
def mallocPixels (width height : UInt32) : Canvas :=
  ⟨List.replicate (pixelCount width height) 0, 0⟩

def deinterlaceRow (pass : Adam7Pass) (input : List UInt32) (passWidth start out : ℕ)
    (pixels : List UInt32) : Option (List UInt32) :=
  fill (fun x => out + x * pass.strideX.toNat) (fun _ x => input[start + x]?)
    (List.range passWidth) pixels

/-- The rows of a pass; the pointers move on by `unsigned` counts. -/
def pngReverseFilterAdam7DeinterlacePass (pixels : List UInt32) (pos : ℕ) (ihdr : PngIhdr)
    (input : List UInt32) (passWidth passHeight : UInt32) (pass : Adam7Pass) :
    Option (List UInt32) :=
  let start := pos + (pass.y * ihdr.width + pass.x).toNat
  let stride := (ihdr.width * pass.strideY).toNat
  (List.range passHeight.toNat).foldlM (fun pixels y =>
    deinterlaceRow pass input passWidth.toNat (y * passWidth.toNat) (start + y * stride) pixels)
    pixels

/-- The scanlines are null while no lines are read, and `data` between passes. `zIn` and `zRoom` are
what the stream has left, `calls` counts the calls on it. -/
structure RpngProcess where
  inflateInitialized : Bool
  adam7PassInitialized : Bool
  passInitialized : Bool
  prevScanline : Option (List UInt8)
  decodedScanline : Option (List UInt8)
  inflateBuf : List UInt8
  inflatePos : ℕ
  ihdr : PngIhdr
  restoreBufSize : ℕ
  adam7RestoreBufSize : ℕ
  dataRestoreBufSize : ℕ
  availIn : ℕ
  availOut : ℕ
  totalOut : ℕ
  passSize : ℕ
  bpp : UInt32
  pitch : UInt32
  h : ℕ
  passWidth : UInt32
  passHeight : UInt32
  passPos : ℕ
  data : Option Canvas
  zIn : List UInt8
  zRoom : ℕ
  calls : ℕ

inductive ImageProcess
  | error
  | errorEnd
  | next
  | «end»
  deriving DecidableEq, Repr

/-- `fresh` is what `malloc` left in the buffer. -/
def rpngProcessInit (fresh : ℕ → UInt8) (rpng : Rpng) : RpngProcess :=
  let geom := pngPassGeom rpng.ihdr
  let inflateBufSize := if rpng.ihdr.interlace = 1 then geom.passSize * 2 else geom.passSize
  { inflateInitialized := false
    adam7PassInitialized := false
    passInitialized := false
    prevScanline := none
    decodedScanline := none
    inflateBuf := (List.range inflateBufSize).map fresh
    inflatePos := 0
    ihdr := ⟨0, 0, 0, 0, 0, 0, 0⟩
    restoreBufSize := 0
    adam7RestoreBufSize := 0
    dataRestoreBufSize := 0
    availIn := rpng.idatBuf.length
    availOut := inflateBufSize
    totalOut := 0
    passSize := 0
    bpp := 0
    pitch := 0
    h := 0
    passWidth := 0
    passHeight := 0
    passPos := 0
    data := none
    zIn := rpng.idatBuf.take (rpng.idatBuf.length % 2 ^ 32)
    zRoom := inflateBufSize % 2 ^ 32
    calls := 0 }

def pngReverseFilterDeinit (p : RpngProcess) : RpngProcess :=
  { p with
    decodedScanline := none
    prevScanline := none
    passInitialized := false
    h := 0 }

/-- The answers `0`, `1` and `-1` of `png_reverse_filter_init`. -/
inductive InitAnswer
  | ready
  | emptyPass
  | failed
  deriving DecidableEq, Repr

/-- The lines of a pass or of the whole image are set up. -/
def initLines (ihdr : PngIhdr) (p : RpngProcess) : InitAnswer × RpngProcess :=
  if p.passInitialized then
    (.ready, p)
  else
    let geom := pngPassGeom ihdr
    let p := { p with bpp := geom.bpp, pitch := geom.pitch }
    if p.totalOut < geom.passSize then
      (.failed, p)
    else
      (.ready, { p with
        restoreBufSize := 0
        dataRestoreBufSize := 0
        prevScanline := some (List.replicate geom.pitch.toNat 0)
        decodedScanline := some (List.replicate geom.pitch.toNat 0)
        h := 0
        passInitialized := true })

/-- The first part is the setup of an interlaced pass; past the last one it is not called. -/
def pngReverseFilterInit (ihdr : PngIhdr) (p : RpngProcess) : InitAnswer × RpngProcess :=
  if !p.adam7PassInitialized && ihdr.interlace != 0 then
    match passes[p.passPos]? with
    | none => (.failed, p)
    | some pass =>
      if ihdr.width ≤ pass.x || ihdr.height ≤ pass.y then
        (.emptyPass, p)
      else
        let width := passWidth ihdr pass
        let height := passHeight ihdr pass
        let passIhdr := { ihdr with width := width, height := height }
        let p := { p with
          passWidth := width
          passHeight := height
          data := some (mallocPixels width height)
          ihdr := passIhdr
          passSize := (pngPassGeom passIhdr).passSize }
        if p.passSize > p.totalOut then
          (.failed, { p with data := none })
        else
          (.ready, { p with adam7PassInitialized := true })
  else
    initLines ihdr p

/-- The inner `none` is `IMAGE_PROCESS_ERROR_END` for a filter there is no case for. -/
def pngReverseFilterCopyLine (palette : Vector UInt32 256) (data : Canvas) (ihdr : PngIhdr)
    (p : RpngProcess) (filter : UInt8) : Option (Option (Canvas × RpngProcess)) :=
  p.prevScanline.bind fun prev => p.decodedScanline.bind fun decoded =>
    match Filter.ofByte filter with
    | none => some none
    | some filter =>
      (reverseFilter filter p.bpp.toNat p.pitch.toNat p.inflateBuf p.inflatePos prev
        decoded).bind fun line =>
          (copyPixels line ihdr palette data).map fun data =>
            some (data, { p with prevScanline := some line, decodedScanline := some line })

/-- Both pointers go back to where the lines began. -/
def endLines (ret : ImageProcess) (data : Canvas) (p : RpngProcess) :
    ImageProcess × Canvas × RpngProcess :=
  let p := pngReverseFilterDeinit p
  (ret, { data with pos := data.pos - p.dataRestoreBufSize },
    { p with inflatePos := p.inflatePos - p.restoreBufSize, dataRestoreBufSize := 0 })

def pngReverseFilterRegularIterate (palette : Vector UInt32 256) (data : Canvas) (ihdr : PngIhdr)
    (p : RpngProcess) : Option (ImageProcess × Canvas × RpngProcess) :=
  if p.h < ihdr.height.toNat then
    (p.inflateBuf[p.inflatePos]?).bind fun filter =>
      let p := { p with
        inflatePos := p.inflatePos + 1
        restoreBufSize := p.restoreBufSize + 1 }
      (pngReverseFilterCopyLine palette data ihdr p filter).map fun
        | none => endLines .errorEnd data p
        | some (data, p) =>
          (.next, { data with pos := data.pos + ihdr.width.toNat }, { p with
            h := p.h + 1
            inflatePos := p.inflatePos + p.pitch.toNat
            restoreBufSize := p.restoreBufSize + p.pitch.toNat
            dataRestoreBufSize := p.dataRestoreBufSize + ihdr.width.toNat })
  else
    some (endLines .end data p)

/-- The `do` loop over the lines of a pass: one round for each line and one to end it. -/
def regularLoop (palette : Vector UInt32 256) (ihdr : PngIhdr) :
    ℕ → Canvas → RpngProcess → Option (ImageProcess × Canvas × RpngProcess)
  | 0, _, _ => none
  | rounds + 1, data, p =>
    (pngReverseFilterRegularIterate palette data ihdr p).bind fun (ret, data, p) =>
      if ret = .next then regularLoop palette ihdr rounds data p else some (ret, data, p)

/-- The lines of a pass that is set up, and their way into the image. -/
def adam7Lines (palette : Vector UInt32 256) (image : Canvas) (ihdr : PngIhdr) (pass : Adam7Pass)
    (p : RpngProcess) : Option (ImageProcess × Canvas × RpngProcess) :=
  p.data.bind fun data =>
    (regularLoop palette p.ihdr (p.ihdr.height.toNat + 1) data p).bind fun (ret, data, p) =>
      let p := { p with data := some data }
      if ret = .error ∨ ret = .errorEnd then
        some (.error, image, p)
      else
        let p := { p with
          inflatePos := p.inflatePos + p.passSize
          adam7RestoreBufSize := p.adam7RestoreBufSize + p.passSize
          totalOut := p.totalOut - p.passSize }
        (pngReverseFilterAdam7DeinterlacePass image.pixels image.pos ihdr data.pixels
          p.passWidth p.passHeight pass).map fun pixels =>
            (.next, { image with pixels := pixels }, { p with
              data := none
              passWidth := 0
              passHeight := 0
              passSize := 0
              adam7PassInitialized := false })

def pngReverseFilterAdam7Iterate (palette : Vector UInt32 256) (image : Canvas) (ihdr : PngIhdr)
    (p : RpngProcess) : Option (ImageProcess × Canvas × RpngProcess) :=
  match passes[p.passPos]? with
  | none => some (.end, image, p)
  | some pass =>
    match pngReverseFilterInit ihdr p with
    | (.emptyPass, p) => some (.next, image, p)
    | (.failed, p) => some (.errorEnd, image, p)
    | (.ready, p) =>
      match pngReverseFilterInit p.ihdr p with
      | (.failed, p) => some (.error, image, p)
      | (_, p) => adam7Lines palette image ihdr pass p

def pngReverseFilterAdam7 (palette : Vector UInt32 256) (image : Canvas) (ihdr : PngIhdr)
    (p : RpngProcess) : Option (ImageProcess × Canvas × RpngProcess) :=
  (pngReverseFilterAdam7Iterate palette image ihdr p).map fun (ret, image, p) =>
    let back := { p with
      inflatePos := p.inflatePos - p.adam7RestoreBufSize
      adam7RestoreBufSize := 0 }
    match ret with
    | .errorEnd => (.errorEnd, image, back)
    | .end => (.end, image, back)
    | .next => (.next, image, { p with passPos := p.passPos + 1 })
    | .error => (.errorEnd, image, { back with data := none })

def pngReverseFilterIterate (rpng : Rpng) (image : Canvas) (p : RpngProcess) :
    Option (ImageProcess × Canvas × RpngProcess) :=
  if rpng.ihdr.interlace ≠ 0 then
    pngReverseFilterAdam7 rpng.palette image rpng.ihdr p
  else
    pngReverseFilterRegularIterate rpng.palette image rpng.ihdr p

/-- The part at `end`: the image is allocated, and the lines set up where it is not interlaced. The
answer is `1` or `-1`. -/
def inflateDone (rpng : Rpng) (p : RpngProcess) : Bool × Canvas × RpngProcess :=
  let image := mallocPixels rpng.ihdr.width rpng.ihdr.height
  let p := { p with adam7RestoreBufSize := 0, restoreBufSize := 0 }
  if rpng.ihdr.interlace ≠ 1 then
    match pngReverseFilterInit rpng.ihdr p with
    | (.failed, p) => (false, image, { p with inflateInitialized := false })
    | (_, p) => (true, image, { p with inflateInitialized := true })
  else
    (true, image, { p with inflateInitialized := true })

/-- Where the image is not allocated yet there is none. -/
def rpngLoadImageArgbProcessInflateInit (inflate : Inflate) (rpng : Rpng) (p : RpngProcess) :
    Option (Bool × Option Canvas × RpngProcess) :=
  let done := fun p : RpngProcess =>
    let (answer, image, p) := inflateDone rpng p
    (answer, some image, p)
  if 0 < p.availIn ∧ 0 < p.availOut then
    let trans := zlibTrans (inflate p.calls p.zIn p.zRoom) p.zIn.length p.zRoom
    if !trans.status && trans.error != .bufferFull then
      some (false, none, { p with inflateInitialized := false })
    else
      (pokes p.inflateBuf p.totalOut trans.bytes).map fun inflateBuf =>
        let p := { p with
          inflateBuf := inflateBuf
          availIn := p.availIn - trans.rd
          availOut := p.availOut - trans.bytes.length
          totalOut := p.totalOut + trans.bytes.length
          zIn := p.zIn.drop trans.rd
          zRoom := p.zRoom - trans.bytes.length
          calls := p.calls + 1 }
        if trans.error ≠ .none then (true, none, p) else done p
  else
    some (done p)

/-- The chunks are read until a call returns `false`, and then the image is processed as long as the
answer is `IMAGE_PROCESS_NEXT`. -/
inductive Decoding
  | reading (rpng : Rpng)
  | processing (rpng : Rpng) (process : Option RpngProcess) (image : Option Canvas)
  | stopped (ret : ImageProcess) (width height : UInt32) (image : Option Canvas)
  | rejected

/-- A failed setup frees what there is. -/
def rpngProcessImage (fresh : ℕ → UInt8) (inflate : Inflate) (rpng : Rpng)
    (process : Option RpngProcess) (image : Option Canvas) :
    Option (ImageProcess × Option RpngProcess × Option Canvas) :=
  match process with
  | none => some (.next, some (rpngProcessInit fresh rpng), image)
  | some p =>
    if !p.inflateInitialized then
      (rpngLoadImageArgbProcessInflateInit inflate rpng p).map fun (answer, allocated, p) =>
        let image := allocated.or image
        if answer then (.next, some p, image) else (.error, none, image)
    else
      image.bind fun image =>
        (pngReverseFilterIterate rpng image p).map fun (ret, image, p) =>
          (ret, some p, some image)

def Decoding.step (data : List UInt8) (fresh : ℕ → UInt8) (inflate : Inflate) :
    Decoding → Option Decoding
  | reading rpng =>
    (rpngIterateImage data rpng).map fun (more, rpng) =>
      if more then reading rpng
      else if rpngIsValid rpng then processing rpng none none
      else rejected
  | processing rpng process image =>
    (rpngProcessImage fresh inflate rpng process image).map fun (ret, process, image) =>
      if ret = .next then processing rpng process image
      else stopped ret rpng.ihdr.width rpng.ihdr.height image
  | stopped ret width height image => some (stopped ret width height image)
  | rejected => some rejected

def decodeStart (data : List UInt8) : Option Decoding :=
  (rpngStart data).map fun (started, rpng) => if started then .reading rpng else .rejected

/-- A number of calls in a row; nothing is left where one of them accesses memory outside of what is
allocated. -/
def decode (data : List UInt8) (fresh : ℕ → UInt8) (inflate : Inflate) : ℕ → Option Decoding
  | 0 => decodeStart data
  | calls + 1 => (decode data fresh inflate calls).bind (Decoding.step data fresh inflate)

end RetroArch.Png
