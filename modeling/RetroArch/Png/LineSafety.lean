/- When the lines of a pass are read and stored inside of their blocks. -/

import RetroArch.Png.Process

namespace RetroArch.Png

open Library.Memory

section Pixels

/-- The bytes of pixel `i` are among the first `pitch` bytes of its line. -/
def PixelInside (ihdr : PngIhdr) (pitch i : ℕ) : Prop :=
  let depth := ihdr.depth.toNat
  match ihdr.color with
  | .gray =>
    if depth = 16 then 2 * i % 2 ^ 32 < pitch else i * depth % 2 ^ 32 / 8 < pitch
  | .rgb => 3 * i * (depth / 8) + 2 * (depth / 8) < pitch
  | .plt => i / (8 / depth) < pitch
  | .grayAlpha => 2 * i * (depth / 8) + depth / 8 < pitch
  | .rgba => 4 * i * (depth / 8) + 3 * (depth / 8) < pitch
  | .other => False

theorem getElem?_isSome {α : Type*} {xs : List α} {i : ℕ} :
    (xs[i]?).isSome = true ↔ i < xs.length := by
  rw [Option.isSome_iff_ne_none, Ne, List.getElem?_eq_none_iff, Nat.not_le]

theorem bind_isSome {α β : Type*} {o : Option α} {f : α → Option β} {P : Prop}
    (h : ∀ a, (f a).isSome = true ↔ P) : (o.bind f).isSome = true ↔ o.isSome = true ∧ P := by
  cases o with
  | none => exact iff_of_false Bool.false_ne_true fun h => Bool.false_ne_true h.1
  | some a => exact (h a).trans (iff_and_self.mpr fun _ => rfl)

theorem map_isSome {α β : Type*} {o : Option α} {f : α → β} :
    (o.map f).isSome = true ↔ o.isSome = true := by
  rw [Option.isSome_map]

theorem pixelAt_isSome (decoded : List UInt8) (ihdr : PngIhdr) (palette : Vector UInt32 256)
    (i : ℕ) : (pixelAt decoded ihdr palette i).isSome = true ↔
      PixelInside ihdr decoded.length i := by
  unfold pixelAt PixelInside
  dsimp only
  cases ihdr.color with
  | gray =>
    dsimp only
    unfold pixelBw
    split_ifs
    · rw [map_isSome, getElem?_isSome]
    · rw [map_isSome, getElem?_isSome]
  | rgb =>
    dsimp only
    unfold pixelRgb
    rw [bind_isSome fun _ => bind_isSome fun _ => map_isSome]
    simp only [getElem?_isSome]
    constructor
    · intro h
      exact h.2.2
    · intro h
      exact ⟨by omega, by omega, h⟩
  | plt =>
    dsimp only
    unfold pixelPlt
    rw [map_isSome, getElem?_isSome]
  | grayAlpha =>
    dsimp only
    unfold pixelGrayAlpha
    rw [bind_isSome fun _ => map_isSome]
    simp only [getElem?_isSome]
    constructor
    · intro h
      exact h.2
    · intro h
      exact ⟨by omega, h⟩
  | rgba =>
    dsimp only
    unfold pixelRgba
    rw [bind_isSome fun _ => bind_isSome fun _ => bind_isSome fun _ => map_isSome]
    simp only [getElem?_isSome]
    constructor
    · intro h
      exact h.2.2.2
    · intro h
      exact ⟨by omega, by omega, by omega, h⟩
  | other => exact iff_of_false Bool.false_ne_true id

variable {ihdr : PngIhdr} {palette : Vector UInt32 256} {line : List UInt8} {data : Canvas}

theorem copyPixels_inside (palette : Vector UInt32 256) (data : Canvas)
    (h : ∀ i < ihdr.width.toNat, PixelInside ihdr line.length i ∧
      data.pos + i < data.pixels.length) :
    ∃ pixels, copyPixels line ihdr palette data = some { data with pixels := pixels } ∧
      pixels.length = data.pixels.length := by
  obtain ⟨pixels, hfill, hlen⟩ := fill_isSome (data.pos + ·)
    (fun _ => pixelAt line ihdr palette) (List.range ihdr.width.toNat) data.pixels
    (by
      intro i hi
      exact (h i (List.mem_range.mp hi)).2)
    (by
      intro _ _ i hi
      exact (pixelAt_isSome line ihdr palette i).mpr (h i (List.mem_range.mp hi)).1)
  refine ⟨pixels, ?_, hlen⟩
  unfold copyPixels
  rw [hfill]
  rfl

theorem copyPixels_outside {i : ℕ} (hi : i < ihdr.width.toNat)
    (h : ¬ (PixelInside ihdr line.length i ∧ data.pos + i < data.pixels.length)) :
    copyPixels line ihdr palette data = none := by
  have hstop : data.pixels.length ≤ data.pos + i ∨ ∀ mem₁ : List UInt32,
      mem₁.length = data.pixels.length → (fun _ => pixelAt line ihdr palette) mem₁ i = none := by
    rcases not_and_or.mp h with hpixel | hplace
    · right
      intro _ _
      apply Option.not_isSome_iff_eq_none.mp
      exact mt (pixelAt_isSome line ihdr palette i).mp hpixel
    · left
      exact Nat.le_of_not_lt hplace
  unfold copyPixels
  rw [fill_none (List.mem_range.mpr hi) hstop]
  rfl

end Pixels

section Filters

variable {bpp pitch input : ℕ} {inflateBuf prev decoded : List UInt8}

theorem predictFirst_isSome (filter : Filter) {i : ℕ} (hi : i < prev.length) :
    (predictFirst filter prev i).isSome = true := by
  cases filter with
  | none => rfl
  | sub => rfl
  | up => exact getElem?_isSome.mpr hi
  | average => exact map_isSome.mpr (getElem?_isSome.mpr hi)
  | paeth => exact map_isSome.mpr (getElem?_isSome.mpr hi)

theorem predictRest_isSome (filter : Filter) {line : List UInt8} {i : ℕ} (hi : i < prev.length)
    (hline : i < line.length) : (predictRest filter bpp prev line i).isSome = true := by
  have hback : i - bpp < line.length := Nat.lt_of_le_of_lt (Nat.sub_le i bpp) hline
  have hbackPrev : i - bpp < prev.length := Nat.lt_of_le_of_lt (Nat.sub_le i bpp) hi
  cases filter with
  | none => rfl
  | sub => exact getElem?_isSome.mpr hback
  | up => exact getElem?_isSome.mpr hi
  | average =>
    exact (bind_isSome fun _ => map_isSome).mpr
      ⟨getElem?_isSome.mpr hback, getElem?_isSome.mpr hi⟩
  | paeth =>
    exact (bind_isSome fun _ => bind_isSome fun _ => map_isSome).mpr
      ⟨getElem?_isSome.mpr hback, getElem?_isSome.mpr hi, getElem?_isSome.mpr hbackPrev⟩

theorem split_le (filter : Filter) (hbpp : bpp ≤ pitch) : filter.split bpp pitch ≤ pitch := by
  cases filter with
  | none => exact Nat.le_refl _
  | up => exact Nat.le_refl _
  | sub => exact hbpp
  | average => exact hbpp
  | paeth => exact hbpp

theorem reverseFilter_inside (filter : Filter) (hbpp : bpp ≤ pitch)
    (hinput : input + pitch ≤ inflateBuf.length) (hprev : prev.length = pitch)
    (hdecoded : decoded.length = pitch) :
    ∃ line, reverseFilter filter bpp pitch inflateBuf input prev decoded = some line ∧
      line.length = pitch := by
  have hsplit := split_le filter hbpp
  obtain ⟨first, hfirst, hfirstLen⟩ := fill_isSome id
    (fun _ i => (inflateBuf[input + i]?).bind fun b =>
      (predictFirst filter prev i).map (· + b))
    (List.range (filter.split bpp pitch)) decoded
    (by
      intro i hi
      have hlt := List.mem_range.mp hi
      rw [id, hdecoded]
      omega)
    (by
      intro _ _ i hi
      have hlt := List.mem_range.mp hi
      exact (bind_isSome fun _ => map_isSome).mpr
        ⟨getElem?_isSome.mpr (by omega), predictFirst_isSome filter (by omega)⟩)
  obtain ⟨line, hline, hlineLen⟩ := fill_isSome id
    (fun line i => (inflateBuf[input + i]?).bind fun b =>
      (predictRest filter bpp prev line i).map (· + b))
    (List.range' (filter.split bpp pitch) (pitch - filter.split bpp pitch)) first
    (by
      intro i hi
      have hlt := (List.mem_range'_1.mp hi).2
      rw [id, hfirstLen, hdecoded]
      omega)
    (by
      intro line₁ hline₁ i hi
      have hlt := (List.mem_range'_1.mp hi).2
      have hi' : i < line₁.length := by
        rw [hline₁, hfirstLen, hdecoded]
        omega
      exact (bind_isSome fun _ => map_isSome).mpr
        ⟨getElem?_isSome.mpr (by omega), predictRest_isSome filter (by omega) hi'⟩)
  refine ⟨line, ?_, hlineLen.trans (hfirstLen.trans hdecoded)⟩
  unfold reverseFilter
  dsimp only
  rw [hfirst]
  exact hline

/-- A line of the second filter leaves its blocks where `bpp` bytes do not fit in it, or where it is
not all in the buffer. -/
theorem reverseFilter_sub_outside (hdecoded : decoded.length = pitch)
    (hstart : input ≤ inflateBuf.length)
    (h : ¬ (bpp ≤ pitch ∧ input + pitch ≤ inflateBuf.length)) :
    reverseFilter .sub bpp pitch inflateBuf input prev decoded = none := by
  unfold reverseFilter
  dsimp only [Filter.split]
  by_cases hbpp : bpp ≤ pitch
  · have hout : ¬ input + pitch ≤ inflateBuf.length := fun hinput => h ⟨hbpp, hinput⟩
    have hlast : inflateBuf[input + (pitch - 1)]? = none := by
      apply List.getElem?_eq_none
      omega
    by_cases hfirst : pitch - 1 < bpp
    · rw [fill_none (i := pitch - 1) (List.mem_range.mpr hfirst)]
      · rfl
      · right
        intro _ _
        rw [hlast]
        rfl
    · cases fill id (fun _ i => (inflateBuf[input + i]?).bind fun b =>
          (predictFirst .sub prev i).map (· + b)) (List.range bpp) decoded with
      | none => rfl
      | some first =>
        apply fill_none (i := pitch - 1)
        · exact List.mem_range'_1.mpr ⟨Nat.le_of_not_lt hfirst, by omega⟩
        · right
          intro _ _
          rw [hlast]
          rfl
  · rw [fill_none (i := pitch) (List.mem_range.mpr (Nat.lt_of_not_le hbpp))]
    · rfl
    · left
      exact Nat.le_of_eq hdecoded

end Filters

section Lines

variable (p : RpngProcess) (ihdr : PngIhdr) (base : ℕ)

/-- The process with `k` lines read from `base` on. -/
def linesAt (k : ℕ) (prev decoded : List UInt8) : RpngProcess :=
  { p with
    h := k
    inflatePos := base + k * (p.pitch.toNat + 1)
    restoreBufSize := k * (p.pitch.toNat + 1)
    dataRestoreBufSize := k * ihdr.width.toNat
    prevScanline := some prev
    decodedScanline := some decoded }

/-- The process after its lines, with the pointer back where they began. -/
def linesDone (restored : ℕ) : RpngProcess :=
  { p with
    h := 0
    inflatePos := base
    restoreBufSize := restored
    dataRestoreBufSize := 0
    prevScanline := none
    decodedScanline := none
    passInitialized := false }

variable {p ihdr base} {palette : Vector UInt32 256} {pixels pixels' : List UInt32} {k : ℕ}
  {prev decoded line : List UInt8} {byte : UInt8} {filter : Filter}

theorem regularIterate_end (hk : ¬ k < ihdr.height.toNat) :
    pngReverseFilterRegularIterate palette ⟨pixels, k * ihdr.width.toNat⟩ ihdr
      (linesAt p ihdr base k prev decoded) =
        some (.end, ⟨pixels, 0⟩, linesDone p base (k * (p.pitch.toNat + 1))) := by
  have hk' : ¬ (linesAt p ihdr base k prev decoded).h < ihdr.height.toNat := hk
  unfold pngReverseFilterRegularIterate
  rw [if_neg hk']
  unfold endLines pngReverseFilterDeinit linesAt linesDone
  simp only [Nat.sub_self, Nat.add_sub_cancel]

theorem regularIterate_invalid (hk : k < ihdr.height.toNat)
    (hbyte : p.inflateBuf[base + k * (p.pitch.toNat + 1)]? = some byte)
    (hfilter : Filter.ofByte byte = none) :
    pngReverseFilterRegularIterate palette ⟨pixels, k * ihdr.width.toNat⟩ ihdr
      (linesAt p ihdr base k prev decoded) =
        some (.errorEnd, ⟨pixels, 0⟩, linesDone p base (k * (p.pitch.toNat + 1) + 1)) := by
  have hk' : (linesAt p ihdr base k prev decoded).h < ihdr.height.toNat := hk
  unfold pngReverseFilterRegularIterate
  rw [if_pos hk']
  simp only [linesAt, hbyte, Option.bind_some, pngReverseFilterCopyLine, hfilter, Option.map_some,
    endLines, pngReverseFilterDeinit, linesDone, Nat.sub_self]
  congr 4
  omega

theorem regularIterate_line (hk : k < ihdr.height.toNat)
    (hbyte : p.inflateBuf[base + k * (p.pitch.toNat + 1)]? = some byte)
    (hfilter : Filter.ofByte byte = some filter)
    (hline : reverseFilter filter p.bpp.toNat p.pitch.toNat p.inflateBuf
      (base + k * (p.pitch.toNat + 1) + 1) prev decoded = some line)
    (hcopy : copyPixels line ihdr palette ⟨pixels, k * ihdr.width.toNat⟩ =
      some ⟨pixels', k * ihdr.width.toNat⟩) :
    pngReverseFilterRegularIterate palette ⟨pixels, k * ihdr.width.toNat⟩ ihdr
      (linesAt p ihdr base k prev decoded) =
        some (.next, ⟨pixels', (k + 1) * ihdr.width.toNat⟩,
          linesAt p ihdr base (k + 1) line line) := by
  have hnext : (k + 1) * (p.pitch.toNat + 1) =
      k * (p.pitch.toNat + 1) + 1 + p.pitch.toNat := by
    rw [Nat.succ_mul]
    omega
  have hk' : (linesAt p ihdr base k prev decoded).h < ihdr.height.toNat := hk
  unfold pngReverseFilterRegularIterate
  rw [if_pos hk']
  simp only [linesAt, hbyte, Option.bind_some, pngReverseFilterCopyLine, hfilter, Option.map_some,
    hline, hcopy]
  rw [hnext, Nat.succ_mul]
  simp only [Nat.add_assoc]

/-- A line, or its filter, that is not inside has no result. -/
theorem regularIterate_none (hk : k < ihdr.height.toNat)
    (h : p.inflateBuf[base + k * (p.pitch.toNat + 1)]? = none ∨
      ∃ byte filter, p.inflateBuf[base + k * (p.pitch.toNat + 1)]? = some byte ∧
        Filter.ofByte byte = some filter ∧
        ((reverseFilter filter p.bpp.toNat p.pitch.toNat p.inflateBuf
          (base + k * (p.pitch.toNat + 1) + 1) prev decoded).bind fun line =>
            copyPixels line ihdr palette ⟨pixels, k * ihdr.width.toNat⟩) = none) :
    pngReverseFilterRegularIterate palette ⟨pixels, k * ihdr.width.toNat⟩ ihdr
      (linesAt p ihdr base k prev decoded) = none := by
  have hk' : (linesAt p ihdr base k prev decoded).h < ihdr.height.toNat := hk
  unfold pngReverseFilterRegularIterate
  rw [if_pos hk']
  rcases h with hbyte | ⟨byte, filter, hbyte, hfilter, hnone⟩
  · simp only [linesAt, hbyte, Option.bind_none]
  · simp only [linesAt, hbyte, Option.bind_some, pngReverseFilterCopyLine, hfilter]
    cases hline : reverseFilter filter p.bpp.toNat p.pitch.toNat p.inflateBuf
        (base + k * (p.pitch.toNat + 1) + 1) prev decoded with
    | none => rfl
    | some line =>
      rw [hline, Option.bind_some] at hnone
      rw [Option.bind_some, hnone]
      rfl

/-- Line `k` lies in the buffer and its pixels in their block. -/
structure LineFits (ihdr : PngIhdr) (bpp pitch base bufLen pixelLen k : ℕ) : Prop where
  scanline : bpp ≤ pitch
  input : base + (k + 1) * (pitch + 1) ≤ bufLen
  pixels : ∀ i < ihdr.width.toNat, PixelInside ihdr pitch i ∧
    k * ihdr.width.toNat + i < pixelLen

/-- All the lines of a pass do. -/
def LinesFit (ihdr : PngIhdr) (bpp pitch base bufLen pixelLen : ℕ) : Prop :=
  ∀ k < ihdr.height.toNat, LineFits ihdr bpp pitch base bufLen pixelLen k

/-- A line that fits is read, or ends the lines with its filter. -/
theorem regularIterate_inside (palette : Vector UInt32 256) (hk : k < ihdr.height.toNat)
    (hfits : LineFits ihdr p.bpp.toNat p.pitch.toNat base p.inflateBuf.length pixels.length k)
    (hprev : prev.length = p.pitch.toNat) (hdecoded : decoded.length = p.pitch.toNat) :
    (∃ byte restored, p.inflateBuf[base + k * (p.pitch.toNat + 1)]? = some byte ∧
        Filter.ofByte byte = none ∧
        pngReverseFilterRegularIterate palette ⟨pixels, k * ihdr.width.toNat⟩ ihdr
          (linesAt p ihdr base k prev decoded) =
            some (.errorEnd, ⟨pixels, 0⟩, linesDone p base restored)) ∨
      ∃ pixels' line, pngReverseFilterRegularIterate palette ⟨pixels, k * ihdr.width.toNat⟩ ihdr
        (linesAt p ihdr base k prev decoded) =
          some (.next, ⟨pixels', (k + 1) * ihdr.width.toNat⟩,
            linesAt p ihdr base (k + 1) line line) ∧
        pixels'.length = pixels.length ∧ line.length = p.pitch.toNat := by
  have hinput := hfits.input
  rw [Nat.succ_mul] at hinput
  have hstart : base + k * (p.pitch.toNat + 1) < p.inflateBuf.length := by omega
  obtain ⟨byte, hbyte⟩ := Option.isSome_iff_exists.mp (getElem?_isSome.mpr hstart)
  cases hfilter : Filter.ofByte byte with
  | none => exact Or.inl ⟨byte, _, hbyte, hfilter, regularIterate_invalid hk hbyte hfilter⟩
  | some filter =>
    right
    have hscanline : base + k * (p.pitch.toNat + 1) + 1 + p.pitch.toNat ≤
        p.inflateBuf.length := by omega
    obtain ⟨line, hline, hlen⟩ := reverseFilter_inside filter hfits.scanline hscanline hprev
      hdecoded
    have hinside := hfits.pixels
    rw [← hlen] at hinside
    obtain ⟨pixels', hcopy, hpixels⟩ :=
      copyPixels_inside palette ⟨pixels, k * ihdr.width.toNat⟩ hinside
    exact ⟨pixels', line, regularIterate_line hk hbyte hfilter hline hcopy, hpixels, hlen⟩

/-- In a buffer of ones every line has the second filter, and one that does not fit leaves its
blocks. -/
theorem regularIterate_outside (hk : k < ihdr.height.toNat)
    (hones : ∀ i < p.inflateBuf.length, p.inflateBuf[i]? = some 1)
    (hdecoded : decoded.length = p.pitch.toNat) (hprev : prev.length = p.pitch.toNat)
    (hfits : ¬ LineFits ihdr p.bpp.toNat p.pitch.toNat base p.inflateBuf.length pixels.length k) :
    pngReverseFilterRegularIterate palette ⟨pixels, k * ihdr.width.toNat⟩ ihdr
      (linesAt p ihdr base k prev decoded) = none := by
  apply regularIterate_none hk
  by_cases hstart : base + k * (p.pitch.toNat + 1) < p.inflateBuf.length
  · right
    refine ⟨1, .sub, hones _ hstart, rfl, ?_⟩
    by_cases hline : p.bpp.toNat ≤ p.pitch.toNat ∧
        base + k * (p.pitch.toNat + 1) + 1 + p.pitch.toNat ≤ p.inflateBuf.length
    · obtain ⟨line, hreverse, hlen⟩ := reverseFilter_inside .sub hline.1 hline.2 hprev hdecoded
      rw [hreverse, Option.bind_some]
      by_contra hcopy
      apply hfits
      refine ⟨hline.1, ?_, ?_⟩
      · rw [Nat.succ_mul]
        omega
      · intro i hi
        by_contra hpixel
        apply hcopy
        apply copyPixels_outside hi
        rw [hlen]
        exact hpixel
    · rw [reverseFilter_sub_outside hdecoded hstart hline]
      rfl
  · left
    exact List.getElem?_eq_none (Nat.le_of_not_lt hstart)

/-- Lines that fit are all read, or end with a filter that is none. -/
theorem regularLoop_inside (palette : Vector UInt32 256) {rounds : ℕ}
    (hrounds : ihdr.height.toNat - k < rounds)
    (hfits : LinesFit ihdr p.bpp.toNat p.pitch.toNat base p.inflateBuf.length pixels.length)
    (hprev : prev.length = p.pitch.toNat) (hdecoded : decoded.length = p.pitch.toNat) :
    ∃ ret pixels' restored, regularLoop palette ihdr rounds ⟨pixels, k * ihdr.width.toNat⟩
        (linesAt p ihdr base k prev decoded) =
          some (ret, ⟨pixels', 0⟩, linesDone p base restored) ∧
      (ret = .end ∨ ret = .errorEnd ∧
        ∃ (i : ℕ) (byte : UInt8), p.inflateBuf[i]? = some byte ∧ Filter.ofByte byte = none) ∧
      pixels'.length = pixels.length := by
  induction rounds generalizing k pixels prev decoded with
  | zero => exact absurd hrounds (Nat.not_lt_zero _)
  | succ rounds ih =>
    by_cases hk : k < ihdr.height.toNat
    · rcases regularIterate_inside palette hk (hfits k hk) hprev hdecoded with
        ⟨byte, restored, hbyte, hfilter, hiterate⟩ | ⟨pixels₁, line, hiterate, hpixels, hline⟩
      · refine ⟨.errorEnd, pixels, restored, ?_, Or.inr ⟨rfl, _, byte, hbyte, hfilter⟩, rfl⟩
        rw [regularLoop, hiterate]
        rfl
      · rw [← hpixels] at hfits
        obtain ⟨ret, pixels₂, restored, hloop, hret, hlen⟩ :=
          ih (k := k + 1) (by omega) hfits hline hline
        refine ⟨ret, pixels₂, restored, ?_, hret, hlen.trans hpixels⟩
        rw [regularLoop, hiterate]
        exact hloop
    · refine ⟨.end, pixels, k * (p.pitch.toNat + 1), ?_, Or.inl rfl, rfl⟩
      rw [regularLoop, regularIterate_end hk]
      rfl

theorem regularLoop_outside {rounds : ℕ}
    (hones : ∀ i < p.inflateBuf.length, p.inflateBuf[i]? = some 1)
    (hdecoded : decoded.length = p.pitch.toNat) (hprev : prev.length = p.pitch.toNat)
    {j : ℕ} (hkj : k ≤ j) (hj : j < ihdr.height.toNat)
    (hfits : ¬ LineFits ihdr p.bpp.toNat p.pitch.toNat base p.inflateBuf.length pixels.length j) :
    regularLoop palette ihdr rounds ⟨pixels, k * ihdr.width.toNat⟩
      (linesAt p ihdr base k prev decoded) = none := by
  induction rounds generalizing k pixels prev decoded with
  | zero => rfl
  | succ rounds ih =>
    have hk : k < ihdr.height.toNat := Nat.lt_of_le_of_lt hkj hj
    rw [regularLoop]
    by_cases hline : LineFits ihdr p.bpp.toNat p.pitch.toNat base p.inflateBuf.length
        pixels.length k
    · have hkj' : k + 1 ≤ j := by
        apply Nat.lt_of_le_of_ne hkj
        rintro rfl
        exact hfits hline
      rcases regularIterate_inside palette hk hline hprev hdecoded with
        ⟨byte, _, hbyte, hfilter, -⟩ | ⟨pixels₁, line, hiterate, hpixels, hlen⟩
      · rw [hones _ (List.getElem?_eq_some_iff.mp hbyte).1] at hbyte
        obtain rfl := Option.some.inj hbyte
        exact nomatch hfilter
      · rw [hiterate, Option.bind_some]
        rw [← hpixels] at hfits
        exact ih hlen hlen hkj' hfits
    · rw [regularIterate_outside hk hones hdecoded hprev hline]
      rfl

end Lines

end RetroArch.Png
