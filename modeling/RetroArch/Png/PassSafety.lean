/- When the passes of an interlaced image are read and stored inside of their blocks. -/

import RetroArch.Png.LineSafety

namespace RetroArch.Png

open Library.Memory

section Deinterlacing

variable {ihdr : PngIhdr} {pass : Adam7Pass} {input pixels : List UInt32} {width height : UInt32}

/-- Every pixel of a pass has its place in the image; the places are counted as in the code. -/
def PlacesFit (ihdr : PngIhdr) (pass : Adam7Pass) (width height : UInt32) (imageLen : ℕ) : Prop :=
  ∀ y < height.toNat, ∀ x < width.toNat,
    (pass.y * ihdr.width + pass.x).toNat + y * (ihdr.width * pass.strideY).toNat +
      x * pass.strideX.toNat < imageLen

theorem deinterlace_inside (hfits : PlacesFit ihdr pass width height pixels.length)
    (hinput : ∀ y < height.toNat, ∀ x < width.toNat, y * width.toNat + x < input.length) :
    ∃ pixels', pngReverseFilterAdam7DeinterlacePass pixels 0 ihdr input width height pass =
        some pixels' ∧ pixels'.length = pixels.length := by
  unfold pngReverseFilterAdam7DeinterlacePass
  apply foldlM_total _ (fun pixels' : List UInt32 => pixels'.length = pixels.length) _ rfl
  intro pixels₁ hlen y hy
  have hy' := List.mem_range.mp hy
  obtain ⟨pixels₂, hfill, hlen₂⟩ := fill_isSome
    (fun x => 0 + (pass.y * ihdr.width + pass.x).toNat +
      y * (ihdr.width * pass.strideY).toNat + x * pass.strideX.toNat)
    (fun _ x => input[y * width.toNat + x]?) (List.range width.toNat) pixels₁
    (by
      intro x hx
      have hplace := hfits y hy' x (List.mem_range.mp hx)
      rw [hlen, Nat.zero_add]
      exact hplace)
    (by
      intro _ _ x hx
      exact getElem?_isSome.mpr (hinput y hy' x (List.mem_range.mp hx)))
  exact ⟨pixels₂, hfill, hlen₂.trans hlen⟩

theorem deinterlace_outside (hfits : ¬ PlacesFit ihdr pass width height pixels.length) :
    pngReverseFilterAdam7DeinterlacePass pixels 0 ihdr input width height pass = none := by
  unfold PlacesFit at hfits
  push Not at hfits
  obtain ⟨y, hy, x, hx, hout⟩ := hfits
  unfold pngReverseFilterAdam7DeinterlacePass
  apply foldlM_none (I := fun pixels' : List UInt32 => pixels'.length = pixels.length) rfl
    (i := y)
  · intro pixels₁ i pixels₂ hlen hrow
    exact (length_fill hrow).trans hlen
  · exact List.mem_range.mpr hy
  · intro pixels₁ hlen
    apply fill_none (List.mem_range.mpr hx)
    left
    rw [hlen, Nat.zero_add]
    exact hout

end Deinterlacing

section PassLines

variable {palette : Vector UInt32 256} {image : Canvas} {ihdr : PngIhdr} {pass : Adam7Pass}
  {p : RpngProcess} {base : ℕ} {pixels : List UInt32} {prev decoded : List UInt8}

/-- The process after a pass. -/
def passDone (p : RpngProcess) (base restored : ℕ) : RpngProcess :=
  { linesDone p base restored with
    inflatePos := base + p.passSize
    adam7RestoreBufSize := p.adam7RestoreBufSize + p.passSize
    totalOut := p.totalOut - p.passSize
    data := none
    passWidth := 0
    passHeight := 0
    passSize := 0
    adam7PassInitialized := false }

/-- A pass at its first line. -/
structure PassSet (p : RpngProcess) (base : ℕ) (prev decoded : List UInt8) : Prop where
  prev : prev.length = p.pitch.toNat
  decoded : decoded.length = p.pitch.toNat
  data : p.data = some ⟨List.replicate (pixelCount p.passWidth p.passHeight) 0, 0⟩
  width : p.ihdr.width = p.passWidth
  height : p.ihdr.height = p.passHeight

/-- The lines of a pass and the places of its pixels. -/
structure PassFits (ihdr : PngIhdr) (pass : Adam7Pass) (passIhdr : PngIhdr)
    (bpp pitch base bufLen imageLen : ℕ) : Prop where
  lines : LinesFit passIhdr bpp pitch base bufLen (pixelCount passIhdr.width passIhdr.height)
  places : PlacesFit ihdr pass passIhdr.width passIhdr.height imageLen

theorem linesAt_zero (hset : PassSet p base prev decoded) :
    adam7Lines palette image ihdr pass (linesAt p p.ihdr base 0 prev decoded) =
      (regularLoop palette p.ihdr (p.ihdr.height.toNat + 1)
        ⟨List.replicate (pixelCount p.passWidth p.passHeight) 0, 0 * p.ihdr.width.toNat⟩
        (linesAt p p.ihdr base 0 prev decoded)).bind fun (ret, data, p) =>
          let p := { p with data := some data }
          if ret = .error ∨ ret = .errorEnd then
            some (.error, image, p)
          else
            let p := { p with
              inflatePos := p.inflatePos + p.passSize
              adam7RestoreBufSize := p.adam7RestoreBufSize + p.passSize
              totalOut := p.totalOut - p.passSize }
            (pngReverseFilterAdam7DeinterlacePass image.pixels image.pos ihdr data.pixels
              p.passWidth p.passHeight pass).map fun pixels =>
                (.next, { image with pixels := pixels }, { p with
                  data := none
                  passWidth := 0
                  passHeight := 0
                  passSize := 0
                  adam7PassInitialized := false }) := by
  have hdata : (linesAt p p.ihdr base 0 prev decoded).data =
      some ⟨List.replicate (pixelCount p.passWidth p.passHeight) 0, 0⟩ := hset.data
  unfold adam7Lines
  rw [hdata, Option.bind_some, Nat.zero_mul]
  rfl

/-- The lines of a pass that fit are all read, or end with a filter that is none. -/
theorem passLoop_inside (palette : Vector UInt32 256) (hset : PassSet p base prev decoded)
    (hlines : LinesFit p.ihdr p.bpp.toNat p.pitch.toNat base p.inflateBuf.length
      (pixelCount p.passWidth p.passHeight)) :
    ∃ ret pixels' restored, regularLoop palette p.ihdr (p.ihdr.height.toNat + 1)
        ⟨List.replicate (pixelCount p.passWidth p.passHeight) 0, 0 * p.ihdr.width.toNat⟩
        (linesAt p p.ihdr base 0 prev decoded) =
          some (ret, ⟨pixels', 0⟩, linesDone p base restored) ∧
      (ret = .end ∨ ret = .errorEnd ∧
        ∃ (i : ℕ) (byte : UInt8), p.inflateBuf[i]? = some byte ∧ Filter.ofByte byte = none) ∧
      pixels'.length = pixelCount p.passWidth p.passHeight := by
  have hlen : (List.replicate (pixelCount p.passWidth p.passHeight) (0 : UInt32)).length =
      pixelCount p.passWidth p.passHeight := List.length_replicate
  rw [← hlen] at hlines
  obtain ⟨ret, pixels', restored, hloop, hret, hlen'⟩ := regularLoop_inside palette (k := 0)
    (Nat.lt_succ_of_le (Nat.sub_le _ _)) hlines hset.prev hset.decoded
  exact ⟨ret, pixels', restored, hloop, hret, hlen'.trans hlen⟩

/-- A pass that fits is put into the image, or ends with a filter that is none. -/
theorem adam7Lines_inside (palette : Vector UInt32 256) (hset : PassSet p base prev decoded)
    (hpos : image.pos = 0)
    (hfits : PassFits ihdr pass p.ihdr p.bpp.toNat p.pitch.toNat base p.inflateBuf.length
      image.pixels.length) :
    ∃ ret image' p', adam7Lines palette image ihdr pass (linesAt p p.ihdr base 0 prev decoded) =
        some (ret, image', p') ∧
      (ret = .error ∧ (∃ (i : ℕ) (byte : UInt8), p.inflateBuf[i]? = some byte ∧
          Filter.ofByte byte = none) ∨
        ret = .next ∧ image'.pos = 0 ∧ image'.pixels.length = image.pixels.length ∧
          ∃ restored, p' = passDone p base restored) := by
  have hlines := hfits.lines
  rw [hset.width, hset.height] at hlines
  obtain ⟨ret, pixels', restored, hloop, hret, hlen⟩ := passLoop_inside palette hset hlines
  rw [linesAt_zero hset, hloop, Option.bind_some]
  rcases hret with rfl | ⟨rfl, hfilter⟩
  · have hinput : ∀ y < p.passHeight.toNat, ∀ x < p.passWidth.toNat,
        y * p.passWidth.toNat + x < pixels'.length := by
      intro y hy x hx
      rw [← hset.height] at hy
      rw [← hset.width] at hx
      have hpixel := ((hlines y hy).pixels x hx).2
      rw [hset.width] at hpixel
      rw [hlen]
      exact hpixel
    have hplaces := hfits.places
    rw [hset.width, hset.height] at hplaces
    obtain ⟨pixels₂, hdeinterlace, hlen₂⟩ := deinterlace_inside hplaces hinput
    refine ⟨.next, ⟨pixels₂, image.pos⟩, passDone p base restored, ?_,
      Or.inr ⟨rfl, hpos, hlen₂, restored, rfl⟩⟩
    have hdeinterlace' : pngReverseFilterAdam7DeinterlacePass image.pixels image.pos ihdr pixels'
        (linesDone p base restored).passWidth (linesDone p base restored).passHeight pass =
          some pixels₂ := by
      rw [hpos]
      exact hdeinterlace
    dsimp only
    rw [if_neg (by decide), hdeinterlace']
    rfl
  · exact ⟨.error, image, _, rfl, Or.inl ⟨rfl, hfilter⟩⟩

/-- In a buffer of ones a pass that does not fit leaves its blocks. -/
theorem adam7Lines_outside (hset : PassSet p base prev decoded) (hpos : image.pos = 0)
    (hones : ∀ i < p.inflateBuf.length, p.inflateBuf[i]? = some 1)
    (hfits : ¬ PassFits ihdr pass p.ihdr p.bpp.toNat p.pitch.toNat base p.inflateBuf.length
      image.pixels.length) :
    adam7Lines palette image ihdr pass (linesAt p p.ihdr base 0 prev decoded) = none := by
  rw [linesAt_zero hset]
  by_cases hlines : LinesFit p.ihdr p.bpp.toNat p.pitch.toNat base p.inflateBuf.length
      (pixelCount p.ihdr.width p.ihdr.height)
  · have hplaces : ¬ PlacesFit ihdr pass p.ihdr.width p.ihdr.height image.pixels.length :=
      fun hplaces => hfits ⟨hlines, hplaces⟩
    rw [hset.width, hset.height] at hlines hplaces
    obtain ⟨ret, pixels', restored, hloop, hret, -⟩ := passLoop_inside palette hset hlines
    rw [hloop, Option.bind_some]
    rcases hret with rfl | ⟨-, i, byte, hbyte, hfilter⟩
    · have hdeinterlace : pngReverseFilterAdam7DeinterlacePass image.pixels image.pos ihdr pixels'
          (linesDone p base restored).passWidth (linesDone p base restored).passHeight pass =
            none := by
        rw [hpos]
        exact deinterlace_outside hplaces
      dsimp only
      rw [if_neg (by decide), hdeinterlace]
      rfl
    · rw [hones i (List.getElem?_eq_some_iff.mp hbyte).1] at hbyte
      obtain rfl := Option.some.inj hbyte
      exact nomatch hfilter
  · unfold LinesFit at hlines
    push Not at hlines
    obtain ⟨j, hj, hline⟩ := hlines
    rw [regularLoop_outside hones hset.decoded hset.prev (Nat.zero_le j) hj]
    · rfl
    · rw [List.length_replicate, ← hset.width, ← hset.height]
      exact hline

end PassLines

section Passes

variable {palette : Vector UInt32 256} {image : Canvas} {ihdr : PngIhdr} {pass : Adam7Pass}
  {p : RpngProcess} {j off total bufLen imageLen : ℕ}

def isEmptyPass (ihdr : PngIhdr) (pass : Adam7Pass) : Bool :=
  ihdr.width ≤ pass.x || ihdr.height ≤ pass.y

def passIhdr (ihdr : PngIhdr) (pass : Adam7Pass) : PngIhdr :=
  { ihdr with width := passWidth ihdr pass, height := passHeight ihdr pass }

/-- The passes from here on fit as far as the inflated bytes reach. -/
def PassesFit (ihdr : PngIhdr) (bufLen total imageLen : ℕ) : List Adam7Pass → ℕ → Prop
  | [], _ => True
  | pass :: rest, off =>
    if isEmptyPass ihdr pass then
      PassesFit ihdr bufLen total imageLen rest off
    else
      let geom := pngPassGeom (passIhdr ihdr pass)
      off + geom.passSize ≤ total →
        PassFits ihdr pass (passIhdr ihdr pass) geom.bpp.toNat geom.pitch.toNat off bufLen
          imageLen ∧
        PassesFit ihdr bufLen total imageLen rest (off + geom.passSize)

/-- A process with the passes before `j` done, whose bytes end at `off`. -/
structure BetweenPasses (p : RpngProcess) (j off total : ℕ) : Prop where
  initialized : p.inflateInitialized = true
  passPos : p.passPos = j
  noPass : p.adam7PassInitialized = false
  noLines : p.passInitialized = false
  inflatePos : p.inflatePos = off
  inside : off ≤ total
  totalOut : p.totalOut = total - off

/-- The process with this pass set up, but for its lines. -/
def setPass (p : RpngProcess) (ihdr : PngIhdr) (pass : Adam7Pass) : RpngProcess :=
  { p with
    passWidth := passWidth ihdr pass
    passHeight := passHeight ihdr pass
    data := some (mallocPixels (passWidth ihdr pass) (passHeight ihdr pass))
    ihdr := passIhdr ihdr pass
    passSize := (pngPassGeom (passIhdr ihdr pass)).passSize
    adam7PassInitialized := true }

/-- The process with its lines set up by these sizes. -/
def setLines (p : RpngProcess) (geom : PassGeom) : RpngProcess :=
  { p with
    bpp := geom.bpp
    pitch := geom.pitch
    passInitialized := true }

def zeroLine (geom : PassGeom) : List UInt8 := List.replicate geom.pitch.toNat 0

theorem initLines_ready {base : ℕ} (hlines : p.passInitialized = false)
    (hbase : p.inflatePos = base)
    (hsize : ¬ p.totalOut < (pngPassGeom ihdr).passSize) (lineIhdr : PngIhdr) :
    initLines ihdr p = (.ready, linesAt (setLines p (pngPassGeom ihdr)) lineIhdr base 0
      (zeroLine (pngPassGeom ihdr)) (zeroLine (pngPassGeom ihdr))) := by
  subst hbase
  unfold initLines
  rw [hlines]
  dsimp only
  rw [if_neg Bool.false_ne_true, if_neg hsize]
  simp only [linesAt, setLines, zeroLine, Nat.zero_mul, Nat.add_zero]

theorem init_empty (hinterlace : ihdr.interlace ≠ 0) (hp : p.adam7PassInitialized = false)
    (hpass : passes[p.passPos]? = some pass) (hempty : isEmptyPass ihdr pass = true) :
    pngReverseFilterInit ihdr p = (.emptyPass, p) := by
  have hcond : (!p.adam7PassInitialized && ihdr.interlace != 0) = true := by
    rw [hp, bne_iff_ne.mpr hinterlace]
    rfl
  unfold isEmptyPass at hempty
  unfold pngReverseFilterInit
  rw [if_pos hcond, hpass]
  dsimp only
  rw [if_pos hempty]

theorem init_pass (hinterlace : ihdr.interlace ≠ 0) (hp : p.adam7PassInitialized = false)
    (hpass : passes[p.passPos]? = some pass) (hempty : ¬ isEmptyPass ihdr pass = true) :
    (p.totalOut < (pngPassGeom (passIhdr ihdr pass)).passSize →
      (pngReverseFilterInit ihdr p).1 = .failed) ∧
    (¬ p.totalOut < (pngPassGeom (passIhdr ihdr pass)).passSize →
      pngReverseFilterInit ihdr p = (.ready, setPass p ihdr pass)) := by
  have hcond : (!p.adam7PassInitialized && ihdr.interlace != 0) = true := by
    rw [hp, bne_iff_ne.mpr hinterlace]
    rfl
  unfold isEmptyPass at hempty
  have hinit : pngReverseFilterInit ihdr p =
      if (pngPassGeom (passIhdr ihdr pass)).passSize > p.totalOut then
        (.failed, { setPass p ihdr pass with
          data := none
          adam7PassInitialized := p.adam7PassInitialized })
      else
        (.ready, setPass p ihdr pass) := by
    unfold pngReverseFilterInit
    rw [if_pos hcond, hpass]
    dsimp only
    rw [if_neg hempty]
    rfl
  constructor
  · intro hshort
    rw [hinit, if_pos hshort]
  · intro henough
    rw [hinit, if_neg henough]

theorem init_again (hp : p.adam7PassInitialized = true) :
    pngReverseFilterInit ihdr p = initLines ihdr p := by
  unfold pngReverseFilterInit
  rw [hp]
  rfl

/-- The setup of a pass that the bytes reach. -/
theorem adam7Iterate_pass (hbetween : BetweenPasses p j off total)
    (hinterlace : ihdr.interlace ≠ 0) (hpass : passes[j]? = some pass)
    (hempty : ¬ isEmptyPass ihdr pass = true)
    (hreach : off + (pngPassGeom (passIhdr ihdr pass)).passSize ≤ total) :
    pngReverseFilterAdam7Iterate palette image ihdr p =
      adam7Lines palette image ihdr pass
        (linesAt (setLines (setPass p ihdr pass) (pngPassGeom (passIhdr ihdr pass)))
          (passIhdr ihdr pass) off 0 (zeroLine (pngPassGeom (passIhdr ihdr pass)))
          (zeroLine (pngPassGeom (passIhdr ihdr pass)))) := by
  rw [← hbetween.passPos] at hpass
  have henough : ¬ p.totalOut < (pngPassGeom (passIhdr ihdr pass)).passSize := by
    rw [hbetween.totalOut]
    omega
  have hready := (init_pass hinterlace hbetween.noPass hpass hempty).2 henough
  have hlines : pngReverseFilterInit (setPass p ihdr pass).ihdr (setPass p ihdr pass) =
      (.ready, linesAt (setLines (setPass p ihdr pass) (pngPassGeom (passIhdr ihdr pass)))
        (passIhdr ihdr pass) off 0 (zeroLine (pngPassGeom (passIhdr ihdr pass)))
        (zeroLine (pngPassGeom (passIhdr ihdr pass)))) := by
    rw [init_again rfl]
    exact initLines_ready (p := setPass p ihdr pass) hbetween.noLines hbetween.inflatePos henough
      (passIhdr ihdr pass)
  unfold pngReverseFilterAdam7Iterate
  rw [hpass, hready]
  dsimp only
  rw [hlines]

theorem adam7Iterate_empty (hbetween : BetweenPasses p j off total)
    (hinterlace : ihdr.interlace ≠ 0) (hpass : passes[j]? = some pass)
    (hempty : isEmptyPass ihdr pass = true) :
    pngReverseFilterAdam7Iterate palette image ihdr p = some (.next, image, p) := by
  rw [← hbetween.passPos] at hpass
  have hinit := init_empty hinterlace hbetween.noPass hpass hempty
  unfold pngReverseFilterAdam7Iterate
  rw [hpass, hinit]

theorem adam7Iterate_short (palette : Vector UInt32 256) (image : Canvas)
    (hbetween : BetweenPasses p j off total)
    (hinterlace : ihdr.interlace ≠ 0) (hpass : passes[j]? = some pass)
    (hempty : ¬ isEmptyPass ihdr pass = true)
    (hreach : ¬ off + (pngPassGeom (passIhdr ihdr pass)).passSize ≤ total) :
    ∃ p', pngReverseFilterAdam7Iterate palette image ihdr p = some (.errorEnd, image, p') := by
  rw [← hbetween.passPos] at hpass
  have hshort : p.totalOut < (pngPassGeom (passIhdr ihdr pass)).passSize := by
    rw [hbetween.totalOut]
    have hinside := hbetween.inside
    omega
  have hfailed := (init_pass hinterlace hbetween.noPass hpass hempty).1 hshort
  refine ⟨(pngReverseFilterInit ihdr p).2, ?_⟩
  unfold pngReverseFilterAdam7Iterate
  rw [hpass]
  rw [← Prod.eta (pngReverseFilterInit ihdr p), hfailed]

theorem passSet_setPass (p : RpngProcess) (ihdr : PngIhdr) (pass : Adam7Pass) (base : ℕ) :
    PassSet (setLines (setPass p ihdr pass) (pngPassGeom (passIhdr ihdr pass))) base
      (zeroLine (pngPassGeom (passIhdr ihdr pass)))
      (zeroLine (pngPassGeom (passIhdr ihdr pass))) where
  prev := List.length_replicate
  decoded := List.length_replicate
  data := rfl
  width := rfl
  height := rfl

theorem between_passDone (hbetween : BetweenPasses p j off total) (geom : PassGeom)
    (hreach : off + (pngPassGeom (passIhdr ihdr pass)).passSize ≤ total) (restored : ℕ) :
    BetweenPasses { passDone (setLines (setPass p ihdr pass) geom) off restored with
      passPos := p.passPos + 1 } (j + 1) (off + (pngPassGeom (passIhdr ihdr pass)).passSize)
        total where
  initialized := hbetween.initialized
  passPos := by rw [hbetween.passPos]
  noPass := rfl
  noLines := rfl
  inflatePos := rfl
  inside := hreach
  totalOut := by
    show p.totalOut - (pngPassGeom (passIhdr ihdr pass)).passSize = _
    rw [hbetween.totalOut]
    omega

/-- What one call leaves of an interlaced image whose passes fit. -/
theorem adam7_inside (palette : Vector UInt32 256) (hbetween : BetweenPasses p j off total)
    (hinterlace : ihdr.interlace ≠ 0)
    (hpos : image.pos = 0)
    (hfits : PassesFit ihdr p.inflateBuf.length total image.pixels.length (passes.drop j) off) :
    ∃ ret image' p', pngReverseFilterAdam7 palette image ihdr p = some (ret, image', p') ∧
      (ret = .next → image'.pos = 0 ∧ image'.pixels.length = image.pixels.length ∧
        p'.inflateBuf = p.inflateBuf ∧ ∃ off', BetweenPasses p' (j + 1) off' total ∧
          PassesFit ihdr p.inflateBuf.length total image.pixels.length (passes.drop (j + 1))
            off') := by
  unfold pngReverseFilterAdam7
  cases hpass : passes[j]? with
  | none =>
    have hiterate : pngReverseFilterAdam7Iterate palette image ihdr p =
        some (.end, image, p) := by
      unfold pngReverseFilterAdam7Iterate
      rw [hbetween.passPos, hpass]
    rw [hiterate]
    exact ⟨.end, image, _, rfl, nofun⟩
  | some pass =>
    obtain ⟨hj, hget⟩ := List.getElem?_eq_some_iff.mp hpass
    rw [List.drop_eq_getElem_cons hj, hget, PassesFit] at hfits
    by_cases hempty : isEmptyPass ihdr pass = true
    · rw [if_pos hempty] at hfits
      rw [adam7Iterate_empty hbetween hinterlace hpass hempty]
      refine ⟨.next, image, _, rfl, fun _ => ⟨hpos, rfl, rfl, off, ?_, hfits⟩⟩
      exact { hbetween with passPos := by rw [hbetween.passPos] }
    · rw [if_neg hempty] at hfits
      dsimp only at hfits
      by_cases hreach : off + (pngPassGeom (passIhdr ihdr pass)).passSize ≤ total
      · obtain ⟨hpassFits, hrest⟩ := hfits hreach
        obtain ⟨ret, image', p', hlines, hret⟩ := adam7Lines_inside palette
          (passSet_setPass p ihdr pass off) hpos hpassFits
        have hlines' : pngReverseFilterAdam7Iterate palette image ihdr p =
            some (ret, image', p') := by
          rw [adam7Iterate_pass hbetween hinterlace hpass hempty hreach]
          exact hlines
        rw [hlines']
        rcases hret with ⟨rfl, -⟩ | ⟨rfl, hpos', hlen, restored, rfl⟩
        · exact ⟨.errorEnd, image', _, rfl, nofun⟩
        · refine ⟨.next, image', _, rfl, fun _ => ⟨hpos', hlen, rfl, _, ?_, hrest⟩⟩
          exact between_passDone hbetween _ hreach restored
      · obtain ⟨p', hiterate⟩ := adam7Iterate_short palette image
          hbetween hinterlace hpass hempty hreach
        rw [hiterate]
        exact ⟨.errorEnd, image, _, rfl, nofun⟩

/-- In a buffer of ones an image whose passes do not fit leaves its blocks, in this call or after
it. -/
theorem adam7_outside (palette : Vector UInt32 256) (hbetween : BetweenPasses p j off total)
    (hinterlace : ihdr.interlace ≠ 0)
    (hpos : image.pos = 0) (hones : ∀ i < p.inflateBuf.length, p.inflateBuf[i]? = some 1)
    (hfits : ¬ PassesFit ihdr p.inflateBuf.length total image.pixels.length (passes.drop j)
      off) :
    pngReverseFilterAdam7 palette image ihdr p = none ∨
      ∃ image' p' off', pngReverseFilterAdam7 palette image ihdr p = some (.next, image', p') ∧
        image'.pos = 0 ∧ image'.pixels.length = image.pixels.length ∧
        p'.inflateBuf = p.inflateBuf ∧ BetweenPasses p' (j + 1) off' total ∧
        ¬ PassesFit ihdr p.inflateBuf.length total image.pixels.length (passes.drop (j + 1))
          off' := by
  unfold pngReverseFilterAdam7
  cases hpass : passes[j]? with
  | none =>
    rw [List.drop_eq_nil_of_le (List.getElem?_eq_none_iff.mp hpass)] at hfits
    exact absurd trivial hfits
  | some pass =>
    obtain ⟨hj, hget⟩ := List.getElem?_eq_some_iff.mp hpass
    rw [List.drop_eq_getElem_cons hj, hget, PassesFit] at hfits
    by_cases hempty : isEmptyPass ihdr pass = true
    · rw [if_pos hempty] at hfits
      rw [adam7Iterate_empty hbetween hinterlace hpass hempty]
      refine Or.inr ⟨image, _, off, rfl, hpos, rfl, rfl, ?_, hfits⟩
      exact { hbetween with passPos := by rw [hbetween.passPos] }
    · rw [if_neg hempty] at hfits
      dsimp only at hfits
      push Not at hfits
      obtain ⟨hreach, hrest⟩ := hfits
      rw [adam7Iterate_pass hbetween hinterlace hpass hempty hreach]
      by_cases hpassFits : PassFits ihdr pass (passIhdr ihdr pass)
          (pngPassGeom (passIhdr ihdr pass)).bpp.toNat
          (pngPassGeom (passIhdr ihdr pass)).pitch.toNat off p.inflateBuf.length
          image.pixels.length
      · obtain ⟨ret, image', p', hlines, hret⟩ := adam7Lines_inside palette
          (passSet_setPass p ihdr pass off) hpos hpassFits
        have hlines' : adam7Lines palette image ihdr pass
            (linesAt (setLines (setPass p ihdr pass) (pngPassGeom (passIhdr ihdr pass)))
              (passIhdr ihdr pass) off 0 (zeroLine (pngPassGeom (passIhdr ihdr pass)))
              (zeroLine (pngPassGeom (passIhdr ihdr pass)))) = some (ret, image', p') := hlines
        rw [hlines']
        rcases hret with ⟨-, i, byte, hbyte, hfilter⟩ | ⟨rfl, hpos', hlen, restored, rfl⟩
        · have hbyte' : p.inflateBuf[i]? = some byte := hbyte
          rw [hones i (List.getElem?_eq_some_iff.mp hbyte').1] at hbyte'
          obtain rfl := Option.some.inj hbyte'
          exact nomatch hfilter
        · refine Or.inr ⟨image', _, _, rfl, hpos', hlen, rfl, ?_, hrest hpassFits⟩
          exact between_passDone hbetween _ hreach restored
      · left
        have hlines : adam7Lines palette image ihdr pass
            (linesAt (setLines (setPass p ihdr pass) (pngPassGeom (passIhdr ihdr pass)))
              (passIhdr ihdr pass) off 0 (zeroLine (pngPassGeom (passIhdr ihdr pass)))
              (zeroLine (pngPassGeom (passIhdr ihdr pass)))) = none :=
          adam7Lines_outside (passSet_setPass p ihdr pass off) hpos hones hpassFits
        rw [hlines]
        rfl

end Passes

end RetroArch.Png
