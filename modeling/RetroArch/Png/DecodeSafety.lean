/- Which files are decoded without an access outside of the memory that is allocated. -/

import RetroArch.Png.PassSafety

namespace RetroArch.Png

open Library.Bytes Library.Memory

section Reading

variable {data : List UInt8} {rpng rpng' : Rpng}

theorem readPlte_isSome {buf entries : ℕ} (palette : Vector UInt32 256)
    (hsize : buf + 3 * entries ≤ data.length) (hentries : entries ≤ 256) :
    (pngReadPlte data buf palette entries).isSome = true := by
  obtain ⟨palette', hpalette, -⟩ := foldlM_total (fun palette i =>
      (peeks data (buf + 3 * i) 3).bind fun rgb =>
        let r := (rgb.getD 0 0).toUInt32
        let g := (rgb.getD 1 0).toUInt32
        let b := (rgb.getD 2 0).toUInt32
        paletteSet palette i ((r <<< 16) ||| (g <<< 8) ||| b ||| 0xff000000))
    (fun _ => True) (List.range entries) (s := palette) trivial
    (by
      intro palette _ i hi
      have hlt := List.mem_range.mp hi
      rw [peeks_of_le (by omega), Option.bind_some]
      exact ⟨_, dif_pos (by omega), trivial⟩)
  exact Option.isSome_iff_exists.mpr ⟨palette', hpalette⟩

theorem readTrns_isSome {buf entries : ℕ} (palette : Vector UInt32 256)
    (hsize : buf + entries ≤ data.length) (hentries : entries ≤ 256) :
    (pngReadTrns data buf palette entries).isSome = true := by
  obtain ⟨palette', hpalette, -⟩ := foldlM_total (fun palette i =>
      if h : i < 256 then
        (data[buf + i]?).bind fun alpha =>
          paletteSet palette i
            ((palette[i] &&& (0x00ffffff : UInt32)) ||| (alpha.toUInt32 <<< 24))
      else
        none)
    (fun _ : Vector UInt32 256 => True) (List.range entries) (s := palette) trivial
    (by
      intro palette _ i hi
      have hlt := List.mem_range.mp hi
      have hinside : buf + i < data.length := by omega
      obtain ⟨alpha, halpha⟩ := Option.isSome_iff_exists.mp (getElem?_isSome.mpr hinside)
      have h256 : i < 256 := by omega
      rw [dif_pos h256, halpha, Option.bind_some]
      exact ⟨_, dif_pos h256, trivial⟩)
  exact Option.isSome_iff_exists.mpr ⟨palette', hpalette⟩

theorem readChunkHeader_isSome (data : List UInt8) (buf : ℕ) :
    ∃ answer, readChunkHeader data buf = some answer ∧
      ∀ chunk, answer = some chunk → buf + 8 + chunk.size.toNat ≤ data.length := by
  unfold readChunkHeader
  by_cases hheader : buffEnd data < buf + 8
  · rw [if_pos hheader]
    exact ⟨none, rfl, nofun⟩
  · have hlen : buf + 8 ≤ data.length := by
      unfold buffEnd at hheader
      omega
    rw [if_neg hheader, peeks_of_le (by omega), Option.bind_some]
    dsimp only
    split_ifs with hchunk
    · exact ⟨none, rfl, nofun⟩
    · rw [peeks_of_le (by omega), Option.map_some]
      refine ⟨_, rfl, ?_⟩
      intro chunk h
      split_ifs at h
      obtain rfl := Option.some.inj h
      dsimp only
      unfold buffEnd at hchunk
      omega

theorem rpngChunk_isSome {chunk : PngChunk}
    (hchunk : rpng.buffData + 8 + chunk.size.toNat ≤ data.length) :
    (rpngChunk data rpng chunk).isSome = true := by
  unfold rpngChunk
  dsimp only
  cases pngChunkType chunk with
  | noop => rfl
  | ihdr =>
    dsimp only
    split_ifs with hseen hsize
    · rfl
    · rfl
    · have hsize' : chunk.size = 13 := not_not.mp hsize
      have h13 : chunk.size.toNat = 13 := by rw [hsize']; rfl
      unfold pngParseIhdr
      rw [peeks_of_le (by omega)]
      rfl
  | plte =>
    dsimp only
    split_ifs with hseen hthree hentries
    · rfl
    · rfl
    · rfl
    · rw [map_isSome]
      exact readPlte_isSome _ (by omega) (by omega)
  | trns =>
    dsimp only
    split_ifs with hseen hplt hsize
    · rfl
    · rfl
    · rw [map_isSome]
      have h256 : chunk.size.toNat ≤ (256 : UInt32).toNat :=
        UInt32.le_iff_toNat_le.mp (UInt32.not_lt.mp hsize)
      exact readTrns_isSome _ hchunk h256
    · rfl
  | idat =>
    dsimp only
    split_ifs with hseen
    · rfl
    · rw [peeks_of_le hchunk]
      rfl
  | iend =>
    dsimp only
    split_ifs
    · rfl
    · rfl

theorem rpngIterateImage_isSome (data : List UInt8) (rpng : Rpng) :
    (rpngIterateImage data rpng).isSome = true := by
  unfold rpngIterateImage
  split_ifs with hend
  · rfl
  · obtain ⟨answer, hheader, hchunk⟩ := readChunkHeader_isSome data rpng.buffData
    rw [hheader, Option.bind_some]
    cases answer with
    | none => rfl
    | some chunk =>
      dsimp only
      rw [map_isSome]
      exact rpngChunk_isSome (hchunk chunk rfl)

theorem rpngStart_isSome (data : List UInt8) : (rpngStart data).isSome = true := by
  unfold rpngStart
  split_ifs with hshort
  · rfl
  · rw [map_isSome, peeks_of_le]
    · rfl
    · unfold buffEnd at hshort
      omega

/-- The sizes of an image that was accepted are not zero. -/
def HasSize (rpng : Rpng) : Prop :=
  rpng.hasIhdr = true → rpng.ihdr.width ≠ 0 ∧ rpng.ihdr.height ≠ 0

theorem rpngChunk_hasSize {chunk : PngChunk} {more : Bool} (hsize : HasSize rpng)
    (h : rpngChunk data rpng chunk = some (more, rpng')) : HasSize rpng' := by
  unfold rpngChunk at h
  dsimp only at h
  cases htype : pngChunkType chunk with
  | noop =>
    rw [htype] at h
    obtain rfl := congrArg Prod.snd (Option.some.inj h)
    exact hsize
  | ihdr =>
    rw [htype] at h
    dsimp only at h
    split_ifs at h with hseen h13
    · obtain rfl := congrArg Prod.snd (Option.some.inj h)
      exact hsize
    · obtain rfl := congrArg Prod.snd (Option.some.inj h)
      exact hsize
    · have hnone : rpng.hasIhdr = false := by
        cases hihdr : rpng.hasIhdr with
        | false => rfl
        | true => exact absurd (by rw [hihdr]; rfl) hseen
      obtain ⟨ihdr, -, hset⟩ := Option.map_eq_some_iff.mp h
      split_ifs at hset with hzero hvalid
      · obtain rfl := congrArg Prod.snd hset
        intro hihdr
        exact absurd (hnone.symm.trans hihdr) Bool.false_ne_true
      · obtain rfl := congrArg Prod.snd hset
        intro hihdr
        exact absurd (hnone.symm.trans hihdr) Bool.false_ne_true
      · obtain rfl := congrArg Prod.snd hset
        intro _
        rw [Bool.or_eq_true, decide_eq_true_eq, decide_eq_true_eq, not_or] at hzero
        exact hzero
  | plte =>
    rw [htype] at h
    dsimp only at h
    split_ifs at h
    · obtain rfl := congrArg Prod.snd (Option.some.inj h)
      exact hsize
    · obtain rfl := congrArg Prod.snd (Option.some.inj h)
      exact hsize
    · obtain rfl := congrArg Prod.snd (Option.some.inj h)
      exact hsize
    · obtain ⟨palette, -, hset⟩ := Option.map_eq_some_iff.mp h
      obtain rfl := congrArg Prod.snd hset
      exact hsize
  | trns =>
    rw [htype] at h
    dsimp only at h
    split_ifs at h
    · obtain rfl := congrArg Prod.snd (Option.some.inj h)
      exact hsize
    · obtain rfl := congrArg Prod.snd (Option.some.inj h)
      exact hsize
    · obtain ⟨palette, -, hset⟩ := Option.map_eq_some_iff.mp h
      obtain rfl := congrArg Prod.snd hset
      exact hsize
    · obtain rfl := congrArg Prod.snd (Option.some.inj h)
      exact hsize
  | idat =>
    rw [htype] at h
    dsimp only at h
    split_ifs at h
    · obtain rfl := congrArg Prod.snd (Option.some.inj h)
      exact hsize
    · obtain ⟨bytes, -, hset⟩ := Option.map_eq_some_iff.mp h
      obtain rfl := congrArg Prod.snd hset
      exact hsize
  | iend =>
    rw [htype] at h
    dsimp only at h
    split_ifs at h
    · obtain rfl := congrArg Prod.snd (Option.some.inj h)
      exact hsize
    · obtain rfl := congrArg Prod.snd (Option.some.inj h)
      exact hsize

theorem rpngIterateImage_hasSize {more : Bool} (hsize : HasSize rpng)
    (h : rpngIterateImage data rpng = some (more, rpng')) : HasSize rpng' := by
  unfold rpngIterateImage at h
  split_ifs at h
  · obtain rfl := congrArg Prod.snd (Option.some.inj h)
    exact hsize
  · obtain ⟨answer, -, hrest⟩ := Option.bind_eq_some_iff.mp h
    cases answer with
    | none =>
      obtain rfl := congrArg Prod.snd (Option.some.inj hrest)
      exact hsize
    | some chunk =>
      obtain ⟨⟨more₁, rpng₁⟩, hchunk, hset⟩ := Option.map_eq_some_iff.mp hrest
      have hsize₁ := rpngChunk_hasSize hsize hchunk
      dsimp only at hset
      split_ifs at hset
      · obtain rfl := congrArg Prod.snd hset
        exact hsize₁
      · obtain rfl := congrArg Prod.snd hset
        exact hsize₁

/-- Calls of the chunk reader that go on, from the start of the file. -/
inductive ReadsOn (data : List UInt8) : Rpng → Prop
  | start {rpng : Rpng} (h : rpngStart data = some (true, rpng)) : ReadsOn data rpng
  | next {rpng rpng' : Rpng} (h : ReadsOn data rpng)
      (hnext : rpngIterateImage data rpng = some (true, rpng')) : ReadsOn data rpng'

/-- What the chunk reader leaves of a file that is valid. -/
def Accepted (data : List UInt8) (rpng : Rpng) : Prop :=
  ∃ before, ReadsOn data before ∧ rpngIterateImage data before = some (false, rpng) ∧
    rpngIsValid rpng = true

theorem ReadsOn.hasSize (h : ReadsOn data rpng) : HasSize rpng := by
  induction h with
  | @start rpng h =>
    unfold rpngStart at h
    split_ifs at h
    · exact absurd (congrArg Prod.fst (Option.some.inj h)) Bool.false_ne_true
    · obtain ⟨header, -, hset⟩ := Option.map_eq_some_iff.mp h
      split_ifs at hset
      · obtain rfl := congrArg Prod.snd hset
        exact nofun
      · exact absurd (congrArg Prod.fst hset) Bool.false_ne_true
  | next _ hnext ih => exact rpngIterateImage_hasSize ih hnext

theorem Accepted.size (h : Accepted data rpng) : rpng.ihdr.width ≠ 0 ∧ rpng.ihdr.height ≠ 0 := by
  obtain ⟨before, hreads, hlast, hvalid⟩ := h
  apply rpngIterateImage_hasSize hreads.hasSize hlast
  unfold rpngIsValid at hvalid
  rw [Bool.and_eq_true, Bool.and_eq_true] at hvalid
  exact hvalid.1.1

end Reading

/-- `inflate_buf_size` -/
def inflateBufSize (ihdr : PngIhdr) : ℕ :=
  if ihdr.interlace = 1 then (pngPassGeom ihdr).passSize * 2 else (pngPassGeom ihdr).passSize

/-- The most bytes that are inflated: the room the stream is given, with any input at all. -/
def inflatedMost (rpng : Rpng) : ℕ :=
  if rpng.idatBuf = [] then 0 else inflateBufSize rpng.ihdr % 2 ^ 32

def firstPass : Adam7Pass := ⟨0, 0, 8, 8⟩

/-- As far as `total` inflated bytes reach, the lines and the passes fit. An interlace byte above
one has the first pass set up before the lines of the whole image, and read with their sizes. -/
def SizesFit (ihdr : PngIhdr) (total : ℕ) : Prop :=
  let geom := pngPassGeom ihdr
  let bufLen := inflateBufSize ihdr
  let imageLen := pixelCount ihdr.width ihdr.height
  if ihdr.interlace = 0 then
    geom.passSize ≤ total → LinesFit ihdr geom.bpp.toNat geom.pitch.toNat 0 bufLen imageLen
  else if ihdr.interlace = 1 then
    PassesFit ihdr bufLen total imageLen passes 0
  else
    let first := passIhdr ihdr firstPass
    (pngPassGeom first).passSize ≤ total → geom.passSize ≤ total →
      PassFits ihdr firstPass first geom.bpp.toNat geom.pitch.toNat 0 bufLen imageLen ∧
      PassesFit ihdr bufLen total imageLen (passes.drop 1) (pngPassGeom first).passSize

theorem PassesFit.mono {ihdr : PngIhdr} {bufLen total total' imageLen off : ℕ}
    {rest : List Adam7Pass} (h : PassesFit ihdr bufLen total imageLen rest off)
    (hle : total' ≤ total) : PassesFit ihdr bufLen total' imageLen rest off := by
  induction rest generalizing off with
  | nil => trivial
  | cons pass rest ih =>
    rw [PassesFit] at h ⊢
    split_ifs at h ⊢ with hempty
    · exact ih h
    · intro geom hreach
      obtain ⟨hpass, hrest⟩ := h (hreach.trans hle)
      exact ⟨hpass, ih hrest⟩

theorem SizesFit.mono {ihdr : PngIhdr} {total total' : ℕ} (h : SizesFit ihdr total)
    (hle : total' ≤ total) : SizesFit ihdr total' := by
  unfold SizesFit at h ⊢
  dsimp only at h ⊢
  split_ifs at h ⊢
  · intro hreach
    exact h (hreach.trans hle)
  · exact h.mono hle
  · intro hfirst hwhole
    obtain ⟨hpass, hrest⟩ := h (hfirst.trans hle) (hwhole.trans hle)
    exact ⟨hpass, hrest.mono hle⟩

section Processing

variable {palette : Vector UInt32 256} {image : Canvas} {ihdr : PngIhdr} {p : RpngProcess}

/-- The first pass is set up, the lines are not, as an interlace byte above one leaves it. -/
structure FirstPassSet (p : RpngProcess) (ihdr : PngIhdr) (total : ℕ) (p₀ : RpngProcess) :
    Prop where
  eq : p = setPass p₀ ihdr firstPass
  initialized : p₀.inflateInitialized = true
  passPos : p₀.passPos = 0
  noLines : p₀.passInitialized = false
  inflatePos : p₀.inflatePos = 0
  totalOut : p₀.totalOut = total
  first : (pngPassGeom (passIhdr ihdr firstPass)).passSize ≤ total

theorem adam7Iterate_first {p₀ : RpngProcess} {total : ℕ} (hset : FirstPassSet p ihdr total p₀)
    (hreach : (pngPassGeom ihdr).passSize ≤ total) :
    pngReverseFilterAdam7Iterate palette image ihdr p =
      adam7Lines palette image ihdr firstPass
        (linesAt (setLines (setPass p₀ ihdr firstPass) (pngPassGeom ihdr))
          (passIhdr ihdr firstPass) 0 0 (zeroLine (pngPassGeom ihdr))
          (zeroLine (pngPassGeom ihdr))) := by
  obtain rfl := hset.eq
  have hpass : passes[(setPass p₀ ihdr firstPass).passPos]? = some firstPass := by
    have hpos : (setPass p₀ ihdr firstPass).passPos = 0 := hset.passPos
    rw [hpos]
    rfl
  have hnot : ¬ (setPass p₀ ihdr firstPass).totalOut < (pngPassGeom ihdr).passSize := by
    have htotal : (setPass p₀ ihdr firstPass).totalOut = total := hset.totalOut
    rw [htotal]
    exact Nat.not_lt.mpr hreach
  have hready := initLines_ready (p := setPass p₀ ihdr firstPass) hset.noLines hset.inflatePos
    hnot (passIhdr ihdr firstPass)
  have hinit : pngReverseFilterInit ihdr (setPass p₀ ihdr firstPass) =
      (.ready, linesAt (setLines (setPass p₀ ihdr firstPass) (pngPassGeom ihdr))
        (passIhdr ihdr firstPass) 0 0 (zeroLine (pngPassGeom ihdr))
        (zeroLine (pngPassGeom ihdr))) := by
    rw [init_again rfl]
    exact hready
  unfold pngReverseFilterAdam7Iterate
  rw [hpass, hinit]
  rfl

theorem adam7Iterate_firstShort (palette : Vector UInt32 256) (image : Canvas)
    {p₀ : RpngProcess} {total : ℕ}
    (hset : FirstPassSet p ihdr total p₀) (hreach : ¬ (pngPassGeom ihdr).passSize ≤ total) :
    ∃ p', pngReverseFilterAdam7Iterate palette image ihdr p = some (.errorEnd, image, p') := by
  obtain rfl := hset.eq
  have hpass : passes[(setPass p₀ ihdr firstPass).passPos]? = some firstPass := by
    have hpos : (setPass p₀ ihdr firstPass).passPos = 0 := hset.passPos
    rw [hpos]
    rfl
  have hshort : (setPass p₀ ihdr firstPass).totalOut < (pngPassGeom ihdr).passSize := by
    have htotal : (setPass p₀ ihdr firstPass).totalOut = total := hset.totalOut
    rw [htotal]
    exact Nat.lt_of_not_le hreach
  have hfailed : (pngReverseFilterInit ihdr (setPass p₀ ihdr firstPass)).1 = .failed := by
    have hlines : (setPass p₀ ihdr firstPass).passInitialized = false := hset.noLines
    rw [init_again rfl]
    unfold initLines
    rw [hlines, if_neg Bool.false_ne_true]
    dsimp only
    rw [if_pos hshort]
  refine ⟨(pngReverseFilterInit ihdr (setPass p₀ ihdr firstPass)).2, ?_⟩
  unfold pngReverseFilterAdam7Iterate
  rw [hpass]
  rw [← Prod.eta (pngReverseFilterInit ihdr (setPass p₀ ihdr firstPass)), hfailed]

theorem passSet_first (p₀ : RpngProcess) (ihdr : PngIhdr) :
    PassSet (setLines (setPass p₀ ihdr firstPass) (pngPassGeom ihdr)) 0
      (zeroLine (pngPassGeom ihdr)) (zeroLine (pngPassGeom ihdr)) where
  prev := List.length_replicate
  decoded := List.length_replicate
  data := rfl
  width := rfl
  height := rfl

theorem between_first {p₀ : RpngProcess} {total : ℕ} (hset : FirstPassSet p ihdr total p₀)
    (geom : PassGeom) (restored : ℕ) :
    BetweenPasses { passDone (setLines (setPass p₀ ihdr firstPass) geom) 0 restored with
      passPos := p.passPos + 1 } 1 (pngPassGeom (passIhdr ihdr firstPass)).passSize total := by
  obtain rfl := hset.eq
  have hpos : (setPass p₀ ihdr firstPass).passPos = 0 := hset.passPos
  refine ⟨hset.initialized, ?_, rfl, rfl, Nat.zero_add _, hset.first, ?_⟩
  · dsimp only
    rw [hpos]
  · show p₀.totalOut - (pngPassGeom (passIhdr ihdr firstPass)).passSize = _
    rw [hset.totalOut]

end Processing

section Inside

variable {data : List UInt8} {fresh : ℕ → UInt8} {inflate : Inflate} {rpng : Rpng}
  {image : Canvas} {p : RpngProcess}

/-- A process whose bytes are still inflated. -/
structure Inflating (rpng : Rpng) (p : RpngProcess) : Prop where
  initialized : p.inflateInitialized = false
  noPass : p.adam7PassInitialized = false
  noLines : p.passInitialized = false
  passPos : p.passPos = 0
  inflatePos : p.inflatePos = 0
  bufLen : p.inflateBuf.length = inflateBufSize rpng.ihdr
  room : p.totalOut + p.zRoom ≤ inflateBufSize rpng.ihdr % 2 ^ 32
  noInput : rpng.idatBuf = [] → p.availIn = 0 ∧ p.totalOut = 0

theorem Inflating.total_le (h : Inflating rpng p) : p.totalOut ≤ inflatedMost rpng := by
  unfold inflatedMost
  split_ifs with hempty
  · rw [(h.noInput hempty).2]
  · exact (Nat.le_add_right _ _).trans h.room

/-- The states of a decoder with `total` bytes inflated, with what has to fit from here on and a
bound for the calls that are left. -/
inductive Stage (rpng : Rpng) (total : ℕ) : Prop → ℕ → RpngProcess → Canvas → Prop
  | lines {p₀ : RpngProcess} {pixels : List UInt32} {k : ℕ} {prev decoded : List UInt8}
      (hinter : rpng.ihdr.interlace = 0) (hinit : p₀.inflateInitialized = true)
      (hprev : prev.length = p₀.pitch.toNat) (hdecoded : decoded.length = p₀.pitch.toNat) :
      Stage rpng total (∀ j, k ≤ j → j < rpng.ihdr.height.toNat →
          LineFits rpng.ihdr p₀.bpp.toNat p₀.pitch.toNat 0 p₀.inflateBuf.length pixels.length j)
        (rpng.ihdr.height.toNat - k) (linesAt p₀ rpng.ihdr 0 k prev decoded)
        ⟨pixels, k * rpng.ihdr.width.toNat⟩
  | first {p p₀ : RpngProcess} {image : Canvas} (hinter : rpng.ihdr.interlace ≠ 0)
      (hset : FirstPassSet p rpng.ihdr total p₀) (hpos : image.pos = 0) :
      Stage rpng total ((pngPassGeom rpng.ihdr).passSize ≤ total →
        PassFits rpng.ihdr firstPass (passIhdr rpng.ihdr firstPass)
          (pngPassGeom rpng.ihdr).bpp.toNat (pngPassGeom rpng.ihdr).pitch.toNat 0
          p.inflateBuf.length image.pixels.length ∧
        PassesFit rpng.ihdr p.inflateBuf.length total image.pixels.length (passes.drop 1)
          (pngPassGeom (passIhdr rpng.ihdr firstPass)).passSize) 7 p image
  | between {p : RpngProcess} {image : Canvas} {j off : ℕ} (hinter : rpng.ihdr.interlace ≠ 0)
      (hbetween : BetweenPasses p j off total) (hpos : image.pos = 0) :
      Stage rpng total (PassesFit rpng.ihdr p.inflateBuf.length total image.pixels.length
        (passes.drop j) off) (7 - j) p image

variable {total calls : ℕ} {fits : Prop}

theorem Stage.initialized (h : Stage rpng total fits calls p image) :
    p.inflateInitialized = true := by
  cases h with
  | lines _ hinit _ _ => exact hinit
  | first _ hset _ =>
    rw [hset.eq]
    exact hset.initialized
  | between _ hbetween _ => exact hbetween.initialized

/-- The call that ends the first pass of an image with another interlace byte. -/
theorem first_passed {p₀ : RpngProcess} {image' : Canvas} (hinter : rpng.ihdr.interlace ≠ 0)
    (hset : FirstPassSet p rpng.ihdr total p₀) (hpos : image'.pos = 0) (restored : ℕ) :
    Stage rpng total (PassesFit rpng.ihdr p.inflateBuf.length total image'.pixels.length
        (passes.drop 1) (pngPassGeom (passIhdr rpng.ihdr firstPass)).passSize) 6
      { passDone (setLines (setPass p₀ rpng.ihdr firstPass) (pngPassGeom rpng.ihdr)) 0 restored
        with passPos := p₀.passPos + 1 } image' := by
  have hnext := between_first hset (pngPassGeom rpng.ihdr) restored
  have hpassPos : p.passPos = p₀.passPos := by
    rw [hset.eq]
    rfl
  have hbuf : p.inflateBuf = p₀.inflateBuf := by
    rw [hset.eq]
    rfl
  rw [hpassPos] at hnext
  rw [hbuf]
  exact Stage.between hinter hnext hpos

theorem Stage.inside (h : Stage rpng total fits calls p image) (hfits : fits) :
    ∃ ret image' p', pngReverseFilterIterate rpng image p = some (ret, image', p') ∧
      (ret = .next → ∃ fits' calls', Stage rpng total fits' calls' p' image' ∧ fits') := by
  unfold pngReverseFilterIterate
  cases h with
  | @lines p₀ pixels k prev decoded hinter hinit hprev hdecoded =>
    rw [if_neg (not_not.mpr hinter)]
    by_cases hk : k < rpng.ihdr.height.toNat
    · rcases regularIterate_inside rpng.palette hk (hfits k (Nat.le_refl k) hk)
        hprev hdecoded with ⟨_, restored, -, -, hiterate⟩ | ⟨pixels', line, hiterate, hlen, hline⟩
      · exact ⟨_, _, _, hiterate, nofun⟩
      · refine ⟨_, _, _, hiterate, fun _ => ⟨_, _, Stage.lines hinter hinit hline hline, ?_⟩⟩
        intro j hj hjh
        rw [hlen]
        exact hfits j (Nat.le_of_succ_le hj) hjh
    · exact ⟨_, _, _, regularIterate_end hk, nofun⟩
  | @first p p₀ image hinter hset hpos =>
    rw [if_pos hinter]
    unfold pngReverseFilterAdam7
    by_cases hreach : (pngPassGeom rpng.ihdr).passSize ≤ total
    · obtain ⟨hpass, hrest⟩ := hfits hreach
      have hbuf : p.inflateBuf = p₀.inflateBuf := by
        rw [hset.eq]
        rfl
      rw [hbuf] at hpass
      obtain ⟨ret, image', p', hlines, hret⟩ := adam7Lines_inside rpng.palette
        (passSet_first p₀ rpng.ihdr) hpos hpass
      have hlines' : pngReverseFilterAdam7Iterate rpng.palette image rpng.ihdr p =
          some (ret, image', p') := by
        rw [adam7Iterate_first hset hreach]
        exact hlines
      rw [hlines']
      rcases hret with ⟨rfl, -⟩ | ⟨rfl, hpos', hlen, restored, rfl⟩
      · exact ⟨_, _, _, rfl, nofun⟩
      · refine ⟨_, _, _, rfl, fun _ => ⟨_, _, first_passed hinter hset hpos' restored, ?_⟩⟩
        rw [hlen]
        exact hrest
    · obtain ⟨p', hiterate⟩ := adam7Iterate_firstShort rpng.palette image hset hreach
      rw [hiterate]
      exact ⟨_, _, _, rfl, nofun⟩
  | @between p image j off hinter hbetween hpos =>
    rw [if_pos hinter]
    obtain ⟨ret, image', p', hcall, hnext⟩ := adam7_inside rpng.palette hbetween
      hinter hpos hfits
    refine ⟨ret, image', p', hcall, fun hret => ?_⟩
    obtain ⟨hpos', hlen, hbuf, off', hbetween', hrest⟩ := hnext hret
    refine ⟨_, _, Stage.between hinter hbetween' hpos', ?_⟩
    rw [hbuf, hlen]
    exact hrest

/-- In a buffer of ones a call on a decoder that does not fit its memory has no result, or leaves
one that does not and has fewer calls to go. -/
theorem Stage.outside (h : Stage rpng total fits calls p image) (hfits : ¬ fits)
    (hones : ∀ i < p.inflateBuf.length, p.inflateBuf[i]? = some 1) :
    pngReverseFilterIterate rpng image p = none ∨
      ∃ image' p' fits' calls', pngReverseFilterIterate rpng image p =
          some (.next, image', p') ∧ Stage rpng total fits' calls' p' image' ∧ ¬ fits' ∧
        calls' < calls ∧ p'.inflateBuf = p.inflateBuf := by
  unfold pngReverseFilterIterate
  cases h with
  | @lines p₀ pixels k prev decoded hinter hinit hprev hdecoded =>
    rw [if_neg (not_not.mpr hinter)]
    push Not at hfits
    obtain ⟨j, hkj, hj, hline⟩ := hfits
    have hk : k < rpng.ihdr.height.toNat := Nat.lt_of_le_of_lt hkj hj
    by_cases hthis : LineFits rpng.ihdr p₀.bpp.toNat p₀.pitch.toNat 0 p₀.inflateBuf.length
        pixels.length k
    · right
      rcases regularIterate_inside rpng.palette hk hthis hprev hdecoded with
        ⟨byte, _, hbyte, hfilter, -⟩ | ⟨pixels', line, hiterate, hlen, hline'⟩
      · have hone : p₀.inflateBuf[0 + k * (p₀.pitch.toNat + 1)]? = some 1 :=
          hones _ (List.getElem?_eq_some_iff.mp hbyte).1
        rw [hone] at hbyte
        obtain rfl := Option.some.inj hbyte
        exact nomatch hfilter
      · refine ⟨_, _, _, _, hiterate, Stage.lines hinter hinit hline' hline', ?_, by omega,
          rfl⟩
        intro hall
        apply hline
        rw [← hlen]
        apply hall j _ hj
        apply Nat.lt_of_le_of_ne hkj
        rintro rfl
        exact hline hthis
    · left
      exact regularIterate_outside hk hones hdecoded hprev hthis
  | @first p p₀ image hinter hset hpos =>
    rw [if_pos hinter]
    push Not at hfits
    obtain ⟨hreach, hrest⟩ := hfits
    have hbuf : p.inflateBuf = p₀.inflateBuf := by
      rw [hset.eq]
      rfl
    have hones₀ : ∀ i < p₀.inflateBuf.length, p₀.inflateBuf[i]? = some 1 := by
      rw [← hbuf]
      exact hones
    unfold pngReverseFilterAdam7
    rw [adam7Iterate_first hset hreach]
    by_cases hpass : PassFits rpng.ihdr firstPass (passIhdr rpng.ihdr firstPass)
        (pngPassGeom rpng.ihdr).bpp.toNat (pngPassGeom rpng.ihdr).pitch.toNat 0
        p.inflateBuf.length image.pixels.length
    · right
      have hrest' := hrest hpass
      rw [hbuf] at hpass
      obtain ⟨ret, image', p', hlines, hret⟩ := adam7Lines_inside rpng.palette
        (passSet_first p₀ rpng.ihdr) hpos hpass
      have hlines' : adam7Lines rpng.palette image rpng.ihdr firstPass
          (linesAt (setLines (setPass p₀ rpng.ihdr firstPass) (pngPassGeom rpng.ihdr))
            (passIhdr rpng.ihdr firstPass) 0 0 (zeroLine (pngPassGeom rpng.ihdr))
            (zeroLine (pngPassGeom rpng.ihdr))) = some (ret, image', p') := hlines
      rw [hlines']
      rcases hret with ⟨-, i, byte, hbyte, hfilter⟩ | ⟨rfl, hpos', hlen, restored, rfl⟩
      · have hbyte' : p₀.inflateBuf[i]? = some byte := hbyte
        rw [hones₀ i (List.getElem?_eq_some_iff.mp hbyte').1] at hbyte'
        obtain rfl := Option.some.inj hbyte'
        exact nomatch hfilter
      · refine ⟨_, _, _, _, rfl, first_passed hinter hset hpos' restored, ?_, by decide,
          hbuf.symm⟩
        rw [hlen]
        exact hrest'
    · left
      rw [hbuf] at hpass
      have hlines : adam7Lines rpng.palette image rpng.ihdr firstPass
          (linesAt (setLines (setPass p₀ rpng.ihdr firstPass) (pngPassGeom rpng.ihdr))
            (passIhdr rpng.ihdr firstPass) 0 0 (zeroLine (pngPassGeom rpng.ihdr))
            (zeroLine (pngPassGeom rpng.ihdr))) = none :=
        adam7Lines_outside (passSet_first p₀ rpng.ihdr) hpos hones₀ hpass
      rw [hlines]
      rfl
  | @between p image j off hinter hbetween hpos =>
    rw [if_pos hinter]
    have hj : j < 7 := by
      by_contra hlast
      apply hfits
      rw [List.drop_eq_nil_of_le (show passes.length ≤ j from Nat.le_of_not_lt hlast)]
      trivial
    rcases adam7_outside rpng.palette hbetween hinter hpos hones hfits with
      hnone | ⟨image', p', off', hcall, hpos', hlen, hbuf, hbetween', hrest⟩
    · exact Or.inl hnone
    · refine Or.inr ⟨image', p', _, _, hcall, Stage.between hinter hbetween' hpos', ?_,
        by omega, hbuf⟩
      rw [hbuf, hlen]
      exact hrest

end Inside

section Decoders

variable {data : List UInt8} {fresh : ℕ → UInt8} {inflate : Inflate} {rpng : Rpng}
  {image : Canvas} {p : RpngProcess}

theorem pixels_mallocPixels (width height : UInt32) :
    (mallocPixels width height).pixels.length = pixelCount width height := List.length_replicate

/-- The process with the counts at zero that `inflateDone` resets. -/
def rewound (p : RpngProcess) : RpngProcess :=
  { p with adam7RestoreBufSize := 0, restoreBufSize := 0 }

theorem inflateDone_failed (hone : rpng.ihdr.interlace ≠ 1)
    (h : (pngReverseFilterInit rpng.ihdr (rewound p)).1 = .failed) :
    (inflateDone rpng p).1 = false := by
  unfold rewound at h
  unfold inflateDone
  rw [if_pos hone]
  rw [← Prod.eta (pngReverseFilterInit rpng.ihdr _), h]

theorem inflateDone_ready {q : RpngProcess} (hone : rpng.ihdr.interlace ≠ 1)
    (h : pngReverseFilterInit rpng.ihdr (rewound p) = (.ready, q)) :
    inflateDone rpng p = (true, mallocPixels rpng.ihdr.width rpng.ihdr.height,
      { q with inflateInitialized := true }) := by
  unfold rewound at h
  unfold inflateDone
  rw [if_pos hone]
  rw [h]

/-- The image with all bytes inflated: the setup fails and the sizes fit, or the decoder stands
before its lines, with what the sizes say to fit. -/
def DoneStage (rpng : Rpng) (p : RpngProcess) : Prop :=
  ((inflateDone rpng p).1 = false ∧ SizesFit rpng.ihdr p.totalOut) ∨
    ((inflateDone rpng p).1 = true ∧ (inflateDone rpng p).2.2.inflateBuf = p.inflateBuf ∧
      ∃ fits calls, Stage rpng p.totalOut fits calls (inflateDone rpng p).2.2
        (inflateDone rpng p).2.1 ∧ (SizesFit rpng.ihdr p.totalOut ↔ fits))

theorem doneStage_interlaced (hinfl : Inflating rpng p) (hone : rpng.ihdr.interlace = 1) :
    DoneStage rpng p := by
  right
  have hinter : rpng.ihdr.interlace ≠ 0 := by
    rw [hone]
    decide
  have hdone : inflateDone rpng p = (true, mallocPixels rpng.ihdr.width rpng.ihdr.height,
      { rewound p with inflateInitialized := true }) := by
    unfold inflateDone rewound
    rw [if_neg (not_not.mpr hone)]
  rw [hdone]
  have hbetween : BetweenPasses { rewound p with inflateInitialized := true } 0 0 p.totalOut :=
    ⟨rfl, hinfl.passPos, hinfl.noPass, hinfl.noLines, hinfl.inflatePos, Nat.zero_le _, rfl⟩
  refine ⟨rfl, rfl, _, _, Stage.between hinter hbetween rfl, ?_⟩
  unfold SizesFit
  dsimp only
  rw [if_neg hinter, if_pos hone, pixels_mallocPixels]
  have hbuf : (rewound p).inflateBuf.length = inflateBufSize rpng.ihdr := hinfl.bufLen
  rw [hbuf]
  exact Iff.rfl

theorem inflateDone_plain (hinfl : Inflating rpng p) (hinter : rpng.ihdr.interlace = 0) :
    (p.totalOut < (pngPassGeom rpng.ihdr).passSize → (inflateDone rpng p).1 = false) ∧
    (¬ p.totalOut < (pngPassGeom rpng.ihdr).passSize →
      inflateDone rpng p = (true, mallocPixels rpng.ihdr.width rpng.ihdr.height,
        linesAt { setLines (rewound p) (pngPassGeom rpng.ihdr) with inflateInitialized := true }
          rpng.ihdr 0 0 (zeroLine (pngPassGeom rpng.ihdr))
          (zeroLine (pngPassGeom rpng.ihdr)))) := by
  have hone : rpng.ihdr.interlace ≠ 1 := by
    rw [hinter]
    decide
  have hcond : ¬ (!(rewound p).adam7PassInitialized && rpng.ihdr.interlace != 0) = true := by
    rw [hinter, Bool.and_eq_true]
    exact fun h => Bool.false_ne_true h.2
  have hinit : pngReverseFilterInit rpng.ihdr (rewound p) = initLines rpng.ihdr (rewound p) := by
    unfold pngReverseFilterInit
    rw [if_neg hcond]
  constructor
  · intro hshort
    have hfailed : (initLines rpng.ihdr (rewound p)).1 = .failed := by
      have hlines : (rewound p).passInitialized = false := hinfl.noLines
      unfold initLines
      rw [hlines, if_neg Bool.false_ne_true]
      dsimp only
      exact congrArg Prod.fst (if_pos hshort)
    exact inflateDone_failed hone (hinit.symm ▸ hfailed)
  · intro henough
    have hlines : (rewound p).passInitialized = false := hinfl.noLines
    have hready := initLines_ready hlines hinfl.inflatePos henough rpng.ihdr
    rw [inflateDone_ready hone (hinit.trans hready)]
    rfl

theorem doneStage_plain (hinfl : Inflating rpng p) (hinter : rpng.ihdr.interlace = 0) :
    DoneStage rpng p := by
  obtain ⟨hfailed, hready⟩ := inflateDone_plain hinfl hinter
  by_cases hshort : p.totalOut < (pngPassGeom rpng.ihdr).passSize
  · left
    refine ⟨hfailed hshort, ?_⟩
    unfold SizesFit
    dsimp only
    rw [if_pos hinter]
    intro hreach
    exact absurd hshort (Nat.not_lt.mpr hreach)
  · right
    have hcanvas : mallocPixels rpng.ihdr.width rpng.ihdr.height =
        ⟨(mallocPixels rpng.ihdr.width rpng.ihdr.height).pixels, 0 * rpng.ihdr.width.toNat⟩ := by
      rw [Nat.zero_mul]
      rfl
    rw [hready hshort]
    dsimp only
    rw [hcanvas]
    refine ⟨rfl, rfl, _, _,
      Stage.lines hinter rfl List.length_replicate List.length_replicate, ?_⟩
    have hbuf : (rewound p).inflateBuf.length = inflateBufSize rpng.ihdr := hinfl.bufLen
    unfold SizesFit LinesFit
    dsimp only [setLines]
    rw [if_pos hinter, pixels_mallocPixels, hbuf]
    constructor
    · intro h j _ hj
      exact h (Nat.le_of_not_lt hshort) j hj
    · intro h _ j hj
      exact h j (Nat.zero_le j) hj

theorem firstPass_notEmpty (hwidth : rpng.ihdr.width ≠ 0) (hheight : rpng.ihdr.height ≠ 0) :
    ¬ isEmptyPass rpng.ihdr firstPass = true := by
  unfold isEmptyPass
  rw [Bool.or_eq_true, decide_eq_true_eq, decide_eq_true_eq, UInt32.le_iff_toNat_le,
    UInt32.le_iff_toNat_le]
  rintro (h | h)
  · exact hwidth (UInt32.toNat_inj.mp (Nat.le_zero.mp h))
  · exact hheight (UInt32.toNat_inj.mp (Nat.le_zero.mp h))

theorem doneStage_other (hinfl : Inflating rpng p) (hinter : rpng.ihdr.interlace ≠ 0)
    (hone : rpng.ihdr.interlace ≠ 1) (hwidth : rpng.ihdr.width ≠ 0)
    (hheight : rpng.ihdr.height ≠ 0) : DoneStage rpng p := by
  have hpass : passes[(rewound p).passPos]? = some firstPass := by
    have hpos : (rewound p).passPos = 0 := hinfl.passPos
    rw [hpos]
    rfl
  obtain ⟨hfailed, hready⟩ := init_pass (p := rewound p) hinter hinfl.noPass hpass
    (firstPass_notEmpty hwidth hheight)
  by_cases hshort : p.totalOut < (pngPassGeom (passIhdr rpng.ihdr firstPass)).passSize
  · left
    constructor
    · exact inflateDone_failed hone (hfailed hshort)
    · unfold SizesFit
      dsimp only
      rw [if_neg hinter, if_neg hone]
      intro hreach
      exact absurd hshort (Nat.not_lt.mpr hreach)
  · right
    have hreach := Nat.le_of_not_lt hshort
    have hset : FirstPassSet { setPass (rewound p) rpng.ihdr firstPass with
        inflateInitialized := true } rpng.ihdr p.totalOut
          { rewound p with inflateInitialized := true } :=
      ⟨rfl, rfl, hinfl.passPos, hinfl.noLines, hinfl.inflatePos, rfl, hreach⟩
    rw [inflateDone_ready hone (hready hshort)]
    refine ⟨rfl, rfl, _, _, Stage.first hinter hset rfl, ?_⟩
    have hbuf : (rewound p).inflateBuf.length = inflateBufSize rpng.ihdr := hinfl.bufLen
    unfold SizesFit
    dsimp only [setPass]
    rw [if_neg hinter, if_neg hone, pixels_mallocPixels, hbuf]
    constructor
    · intro h
      exact h hreach
    · intro h _
      exact h

theorem doneStage (hinfl : Inflating rpng p) (hwidth : rpng.ihdr.width ≠ 0)
    (hheight : rpng.ihdr.height ≠ 0) : DoneStage rpng p := by
  by_cases hone : rpng.ihdr.interlace = 1
  · exact doneStage_interlaced hinfl hone
  · by_cases hinter : rpng.ihdr.interlace = 0
    · exact doneStage_plain hinfl hinter
    · exact doneStage_other hinfl hinter hone hwidth hheight

theorem zlibTrans_bytes (answer : ZAnswer) (availIn availOut : ℕ) :
    (zlibTrans answer availIn availOut).bytes = answer.bytes.take availOut := by
  unfold zlibTrans
  cases answer.zret with
  | error => rfl
  | ok =>
    dsimp only
    split_ifs <;> rfl
  | streamEnd =>
    dsimp only
    split_ifs <;> rfl

/-- The process after a call on its stream. -/
def inflated (p : RpngProcess) (trans : Transcoded) (inflateBuf : List UInt8) : RpngProcess :=
  { p with
    inflateBuf := inflateBuf
    availIn := p.availIn - trans.rd
    availOut := p.availOut - trans.bytes.length
    totalOut := p.totalOut + trans.bytes.length
    zIn := p.zIn.drop trans.rd
    zRoom := p.zRoom - trans.bytes.length
    calls := p.calls + 1 }

theorem Inflating.write (h : Inflating rpng p) (hinput : 0 < p.availIn) (answer : ZAnswer) :
    ∃ inflateBuf, pokes p.inflateBuf p.totalOut
        (zlibTrans answer p.zIn.length p.zRoom).bytes = some inflateBuf ∧
      Inflating rpng (inflated p (zlibTrans answer p.zIn.length p.zRoom) inflateBuf) := by
  have hbytes : (zlibTrans answer p.zIn.length p.zRoom).bytes.length ≤ p.zRoom := by
    rw [zlibTrans_bytes, List.length_take]
    exact Nat.min_le_left _ _
  have hroom := h.room
  have hsize : inflateBufSize rpng.ihdr % 2 ^ 32 ≤ p.inflateBuf.length := by
    rw [h.bufLen]
    exact Nat.mod_le _ _
  have hwrite : ∃ inflateBuf, pokes p.inflateBuf p.totalOut
      (zlibTrans answer p.zIn.length p.zRoom).bytes = some inflateBuf := by
    unfold pokes
    rw [if_pos (by omega)]
    exact ⟨_, rfl⟩
  obtain ⟨inflateBuf, hpokes⟩ := hwrite
  refine ⟨inflateBuf, hpokes, h.initialized, h.noPass, h.noLines, h.passPos, h.inflatePos, ?_, ?_,
    ?_⟩
  · exact (length_pokes hpokes).trans h.bufLen
  · unfold inflated
    dsimp only
    omega
  · intro hempty
    exact absurd (h.noInput hempty).1 (Nat.ne_of_gt hinput)

theorem inflateInit_inside (h : Inflating rpng p) (inflate : Inflate) :
    ∃ answer allocated p', rpngLoadImageArgbProcessInflateInit inflate rpng p =
        some (answer, allocated, p') ∧
      (answer = true → (allocated = none ∧ Inflating rpng p') ∨
        ∃ q image, Inflating rpng q ∧ inflateDone rpng q = (true, image, p') ∧
          allocated = some image) := by
  have hdone : ∀ q, Inflating rpng q → ∃ answer allocated p',
      some ((inflateDone rpng q).1, some (inflateDone rpng q).2.1, (inflateDone rpng q).2.2) =
          some (answer, allocated, p') ∧
        (answer = true → (allocated = none ∧ Inflating rpng p') ∨
          ∃ q image, Inflating rpng q ∧ inflateDone rpng q = (true, image, p') ∧
            allocated = some image) := by
    intro q hq
    refine ⟨_, _, _, rfl, fun hanswer => Or.inr ⟨q, (inflateDone rpng q).2.1, hq, ?_, rfl⟩⟩
    rw [← hanswer]
  unfold rpngLoadImageArgbProcessInflateInit
  dsimp only
  split_ifs with hmore hfailed herror
  · exact ⟨false, none, _, rfl, fun h => absurd h Bool.false_ne_true⟩
  · obtain ⟨inflateBuf, hpokes, hnext⟩ := h.write hmore.1 (inflate p.calls p.zIn p.zRoom)
    rw [hpokes, Option.map_some]
    exact ⟨true, none, _, rfl, fun _ => Or.inl ⟨rfl, hnext⟩⟩
  · obtain ⟨inflateBuf, hpokes, hnext⟩ := h.write hmore.1 (inflate p.calls p.zIn p.zRoom)
    rw [hpokes, Option.map_some]
    exact hdone _ hnext
  · exact hdone p h

theorem inflating_init (fresh : ℕ → UInt8) (rpng : Rpng) :
    Inflating rpng (rpngProcessInit fresh rpng) where
  initialized := rfl
  noPass := rfl
  noLines := rfl
  passPos := rfl
  inflatePos := rfl
  bufLen := by
    unfold rpngProcessInit inflateBufSize
    rw [List.length_map, List.length_range]
  room := by
    rw [Nat.add_comm]
    exact Nat.le_refl _
  noInput := by
    intro hempty
    unfold rpngProcessInit
    rw [hempty]
    exact ⟨rfl, rfl⟩

end Decoders

section Runs

variable {data : List UInt8} {fresh : ℕ → UInt8} {inflate : Inflate} {rpng : Rpng}
  {image : Canvas} {p : RpngProcess}

theorem step_reading : (Decoding.reading rpng).step data fresh inflate =
    (rpngIterateImage data rpng).map fun (more, rpng) =>
      if more then .reading rpng
      else if rpngIsValid rpng then .processing rpng none none
      else .rejected := rfl

theorem step_inflating (hinit : p.inflateInitialized = false) (image : Option Canvas) :
    (Decoding.processing rpng (some p) image).step data fresh inflate =
      (rpngLoadImageArgbProcessInflateInit inflate rpng p).map fun (answer, allocated, p) =>
        if answer then .processing rpng (some p) (allocated.or image)
        else .stopped .error rpng.ihdr.width rpng.ihdr.height (allocated.or image) := by
  unfold Decoding.step rpngProcessImage
  simp only [hinit, Bool.not_false, if_true, Option.map_map]
  congr 1
  funext ⟨answer, allocated, p'⟩
  cases answer <;> rfl

theorem step_iterating (hinit : p.inflateInitialized = true) (image : Canvas) :
    (Decoding.processing rpng (some p) (some image)).step data fresh inflate =
      (pngReverseFilterIterate rpng image p).map fun (ret, image, p) =>
        if ret = .next then .processing rpng (some p) (some image)
        else .stopped ret rpng.ihdr.width rpng.ihdr.height (some image) := by
  unfold Decoding.step rpngProcessImage
  simp only [hinit, Bool.not_true, Bool.false_eq_true, if_false, Option.bind_some, Option.map_map]
  rfl

/-- What holds of a decoder all of whose sizes fit. -/
inductive Inside (data : List UInt8) : Decoding → Prop
  | reading {rpng : Rpng} (h : ReadsOn data rpng) : Inside data (.reading rpng)
  | start {rpng : Rpng} (h : Accepted data rpng) : Inside data (.processing rpng none none)
  | inflating {rpng : Rpng} {p : RpngProcess} (h : Accepted data rpng)
      (hinfl : Inflating rpng p) : Inside data (.processing rpng (some p) none)
  | stage {rpng : Rpng} {total calls : ℕ} {fits : Prop} {p : RpngProcess} {image : Canvas}
      (h : Accepted data rpng) (hstage : Stage rpng total fits calls p image) (hfits : fits) :
      Inside data (.processing rpng (some p) (some image))
  | stopped (ret : ImageProcess) (width height : UInt32) (image : Option Canvas) :
      Inside data (.stopped ret width height image)
  | rejected : Inside data .rejected

theorem Inside.step {d : Decoding} (h : Inside data d) (fresh : ℕ → UInt8) (inflate : Inflate)
    (hfit : ∀ rpng, Accepted data rpng → SizesFit rpng.ihdr (inflatedMost rpng)) :
    ∃ d', d.step data fresh inflate = some d' ∧ Inside data d' := by
  cases h with
  | @reading rpng hreads =>
    obtain ⟨⟨more, rpng'⟩, hiterate⟩ := Option.isSome_iff_exists.mp
      (rpngIterateImage_isSome data rpng)
    rw [step_reading, hiterate, Option.map_some]
    dsimp only
    split_ifs with hmore hvalid
    · subst hmore
      exact ⟨_, rfl, Inside.reading (hreads.next hiterate)⟩
    · obtain rfl : more = false := Bool.not_eq_true _ ▸ hmore
      exact ⟨_, rfl, Inside.start ⟨rpng, hreads, hiterate, hvalid⟩⟩
    · exact ⟨_, rfl, Inside.rejected⟩
  | @start rpng h =>
    exact ⟨_, rfl, Inside.inflating h (inflating_init fresh rpng)⟩
  | @inflating rpng p h hinfl =>
    obtain ⟨answer, allocated, p', hcall, hnext⟩ := inflateInit_inside hinfl inflate
    rw [step_inflating hinfl.initialized, hcall, Option.map_some]
    cases answer with
    | false => exact ⟨_, rfl, Inside.stopped _ _ _ _⟩
    | true =>
      rcases hnext rfl with ⟨rfl, hinfl'⟩ | ⟨q, image, hq, hdone, rfl⟩
      · exact ⟨_, rfl, Inside.inflating h hinfl'⟩
      · refine ⟨_, rfl, ?_⟩
        obtain ⟨hwidth, hheight⟩ := h.size
        have hsizes : SizesFit rpng.ihdr q.totalOut := (hfit rpng h).mono hq.total_le
        rcases doneStage hq hwidth hheight with ⟨hfalse, -⟩ | ⟨-, -, fits, calls, hstage, hiff⟩
        · rw [hdone] at hfalse
          exact absurd hfalse.symm Bool.false_ne_true
        · rw [hdone] at hstage
          exact Inside.stage h hstage (hiff.mp hsizes)
  | @stage rpng total calls fits p image h hstage hfits =>
    obtain ⟨ret, image', p', hcall, hnext⟩ := hstage.inside hfits
    rw [step_iterating hstage.initialized, hcall, Option.map_some]
    dsimp only
    split_ifs with hret
    · obtain ⟨fits', calls', hstage', hfits'⟩ := hnext hret
      exact ⟨_, rfl, Inside.stage h hstage' hfits'⟩
    · exact ⟨_, rfl, Inside.stopped _ _ _ _⟩
  | stopped ret width height image => exact ⟨_, rfl, Inside.stopped ret width height image⟩
  | rejected => exact ⟨_, rfl, Inside.rejected⟩

theorem decode_inside (fresh : ℕ → UInt8) (inflate : Inflate)
    (hfit : ∀ rpng, Accepted data rpng → SizesFit rpng.ihdr (inflatedMost rpng)) (n : ℕ) :
    ∃ d, decode data fresh inflate n = some d ∧ Inside data d := by
  induction n with
  | zero =>
    obtain ⟨⟨started, rpng⟩, hstart⟩ := Option.isSome_iff_exists.mp (rpngStart_isSome data)
    unfold decode decodeStart
    rw [hstart, Option.map_some]
    cases started with
    | false => exact ⟨_, rfl, Inside.rejected⟩
    | true => exact ⟨_, rfl, Inside.reading (ReadsOn.start hstart)⟩
  | succ n ih =>
    obtain ⟨d, hd, hinside⟩ := ih
    obtain ⟨d', hstep, hinside'⟩ := hinside.step fresh inflate hfit
    refine ⟨d', ?_, hinside'⟩
    rw [decode, hd]
    exact hstep

end Runs

section Escapes

variable {data : List UInt8} {fresh : ℕ → UInt8} {inflate : Inflate} {rpng : Rpng}
  {image : Canvas} {p : RpngProcess}

/-- Some call from here on accesses memory that is not allocated. -/
inductive Escapes (data : List UInt8) (fresh : ℕ → UInt8) (inflate : Inflate) : Decoding → Prop
  | now {d : Decoding} (h : d.step data fresh inflate = none) : Escapes data fresh inflate d
  | later {d d' : Decoding} (h : d.step data fresh inflate = some d')
      (hrest : Escapes data fresh inflate d') : Escapes data fresh inflate d

theorem Escapes.decode {d : Decoding} (h : Escapes data fresh inflate d) {n : ℕ}
    (hd : Png.decode data fresh inflate n = some d) :
    ∃ m, Png.decode data fresh inflate m = none := by
  induction h generalizing n with
  | now h =>
    refine ⟨n + 1, ?_⟩
    rw [Png.decode, hd]
    exact h
  | later h _ ih =>
    apply ih (n := n + 1)
    rw [Png.decode, hd]
    exact h

/-- Bytes that are all one, as many as there is room for, and the end of the stream. -/
def onesInflate : Inflate := fun _ zIn room => ⟨.streamEnd, zIn.length, List.replicate room 1⟩

theorem escapes_stage {total calls : ℕ} {fits : Prop}
    (hstage : Stage rpng total fits calls p image) (hfits : ¬ fits)
    (hones : ∀ i < p.inflateBuf.length, p.inflateBuf[i]? = some 1) :
    Escapes data fresh inflate (.processing rpng (some p) (some image)) := by
  induction calls using Nat.strong_induction_on generalizing p image fits with
  | _ calls ih =>
    rcases hstage.outside hfits hones with
      hnone | ⟨image', p', fits', calls', hnext, hstage', hfits', hless, hbuf⟩
    · apply Escapes.now
      rw [step_iterating hstage.initialized, hnone]
      rfl
    · refine Escapes.later ?_ (ih calls' hless hstage' hfits' (by rw [hbuf]; exact hones))
      rw [step_iterating hstage.initialized, hnext]
      rfl

theorem ones_replicate {n i : ℕ} (hi : i < (List.replicate n (1 : UInt8)).length) :
    (List.replicate n (1 : UInt8))[i]? = some 1 := by
  rw [List.getElem?_eq_getElem hi, List.getElem_replicate]

theorem ones_fresh (n : ℕ) : (List.range n).map (fun _ => (1 : UInt8)) = List.replicate n 1 := by
  rw [List.map_const', List.length_range]

theorem pokes_ones {n pos k : ℕ} (h : pos + k ≤ n) :
    pokes (List.replicate n (1 : UInt8)) pos (List.replicate k 1) =
      some (List.replicate n 1) := by
  unfold pokes
  rw [List.length_replicate, List.length_replicate, if_pos h, List.take_replicate,
    List.drop_replicate, ← List.replicate_add, ← List.replicate_add]
  congr 2
  omega

theorem onesInflate_done (rpng : Rpng) :
    ∃ q, Inflating rpng q ∧ q.totalOut = inflatedMost rpng ∧
      q.inflateBuf = List.replicate (inflateBufSize rpng.ihdr) 1 ∧
      rpngLoadImageArgbProcessInflateInit onesInflate rpng (rpngProcessInit (fun _ => 1) rpng) =
        some ((inflateDone rpng q).1, some (inflateDone rpng q).2.1, (inflateDone rpng q).2.2) := by
  have hinfl := inflating_init (fun _ => 1) rpng
  have hbuf : (rpngProcessInit (fun _ => 1) rpng).inflateBuf =
      List.replicate (inflateBufSize rpng.ihdr) 1 := ones_fresh _
  have hroom : (rpngProcessInit (fun _ => 1) rpng).zRoom = inflateBufSize rpng.ihdr % 2 ^ 32 := rfl
  by_cases hmore : 0 < (rpngProcessInit (fun _ => 1) rpng).availIn ∧
      0 < (rpngProcessInit (fun _ => 1) rpng).availOut
  · have hinput : rpng.idatBuf ≠ [] := by
      intro hempty
      have hzero := (hinfl.noInput hempty).1
      omega
    generalize hp : rpngProcessInit (fun _ => 1) rpng = p at *
    have htotal : p.totalOut = 0 := by
      rw [← hp]
      rfl
    have htrans : zlibTrans (onesInflate p.calls p.zIn p.zRoom) p.zIn.length p.zRoom =
        ⟨true, .none, p.zIn.length, List.replicate p.zRoom 1⟩ := by
      unfold zlibTrans onesInflate
      simp only [List.take_replicate, Nat.min_self, ne_eq, not_true_eq_false, and_false, if_false]
    obtain ⟨inflateBuf, hpokes, hnext⟩ := hinfl.write hmore.1 (onesInflate p.calls p.zIn p.zRoom)
    have hsize : p.zRoom ≤ inflateBufSize rpng.ihdr := by
      rw [hroom]
      exact Nat.mod_le _ _
    have hones : inflateBuf = List.replicate (inflateBufSize rpng.ihdr) 1 := by
      rw [htrans, htotal, hbuf, pokes_ones (by omega)] at hpokes
      exact (Option.some.inj hpokes).symm
    refine ⟨_, hnext, ?_, hones, ?_⟩
    · unfold inflated inflatedMost
      rw [htrans, if_neg hinput, htotal, List.length_replicate, Nat.zero_add, hroom]
    · unfold rpngLoadImageArgbProcessInflateInit
      dsimp only
      rw [if_pos hmore, htrans] at *
      dsimp only
      rw [hpokes]
      rfl
  · refine ⟨_, hinfl, ?_, hbuf, ?_⟩
    · unfold inflatedMost
      split_ifs with hempty
      · rfl
      · have hsize : inflateBufSize rpng.ihdr = 0 := by
          by_contra hsize
          apply hmore
          exact ⟨List.length_pos_iff.mpr hempty, Nat.pos_of_ne_zero hsize⟩
        rw [hsize]
        rfl
    · unfold rpngLoadImageArgbProcessInflateInit
      dsimp only
      rw [if_neg hmore]

theorem decode_reading (h : ReadsOn data rpng) (fresh : ℕ → UInt8) (inflate : Inflate) :
    ∃ n, decode data fresh inflate n = some (.reading rpng) := by
  induction h with
  | start h =>
    refine ⟨0, ?_⟩
    unfold decode decodeStart
    rw [h]
    rfl
  | next _ hnext ih =>
    obtain ⟨n, hn⟩ := ih
    refine ⟨n + 1, ?_⟩
    rw [decode, hn, Option.bind_some, step_reading, hnext]
    rfl

theorem decode_outside (h : Accepted data rpng)
    (hfit : ¬ SizesFit rpng.ihdr (inflatedMost rpng)) :
    ∃ n, decode data (fun _ => 1) onesInflate n = none := by
  obtain ⟨before, hreads, hlast, hvalid⟩ := h
  obtain ⟨n, hn⟩ := decode_reading hreads (fun _ => 1) onesInflate
  obtain ⟨q, hinfl, htotal, hbuf, hcall⟩ := onesInflate_done rpng
  obtain ⟨hwidth, hheight⟩ := Accepted.size ⟨before, hreads, hlast, hvalid⟩
  rcases doneStage hinfl hwidth hheight with ⟨-, hsizes⟩ | ⟨htrue, hsame, fits, calls, hstage, hiff⟩
  · rw [htotal] at hsizes
    exact absurd hsizes hfit
  · rw [htotal] at hiff
    have hones : ∀ i < (inflateDone rpng q).2.2.inflateBuf.length,
        (inflateDone rpng q).2.2.inflateBuf[i]? = some 1 := by
      intro i hi
      rw [hsame, hbuf] at hi ⊢
      exact ones_replicate hi
    have hlines : Escapes data (fun _ => 1) onesInflate (.processing rpng
        (some (inflateDone rpng q).2.2) (some (inflateDone rpng q).2.1)) :=
      escapes_stage hstage (mt hiff.mpr hfit) hones
    have hinflate : Escapes data (fun _ => 1) onesInflate
        (.processing rpng (some (rpngProcessInit (fun _ => 1) rpng)) none) := by
      refine Escapes.later ?_ hlines
      rw [step_inflating rfl, hcall, Option.map_some, htrue]
      rfl
    have hinit : Escapes data (fun _ => 1) onesInflate (.processing rpng none none) :=
      Escapes.later rfl hinflate
    have hread : Escapes data (fun _ => 1) onesInflate (.reading before) := by
      refine Escapes.later ?_ hinit
      rw [step_reading, hlast, Option.map_some]
      dsimp only
      rw [if_neg Bool.false_ne_true, if_pos hvalid]
    exact hread.decode hn

/-- A file is decoded inside of the allocated memory, whatever is inflated, exactly when it is not
accepted or its sizes fit as far as inflated bytes can reach. -/
theorem decode_safe_iff (data : List UInt8) :
    (∀ fresh inflate n, decode data fresh inflate n ≠ none) ↔
      ∀ rpng, Accepted data rpng → SizesFit rpng.ihdr (inflatedMost rpng) := by
  constructor
  · intro hsafe rpng haccepted
    by_contra hfit
    obtain ⟨n, hnone⟩ := decode_outside haccepted hfit
    exact hsafe _ _ n hnone
  · intro hfit fresh inflate n hnone
    obtain ⟨d, hd, -⟩ := decode_inside fresh inflate hfit n
    rw [hnone] at hd
    exact nomatch hd

end Escapes

end RetroArch.Png
