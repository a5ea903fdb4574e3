/- A saved image is decoded to the pixels it was saved from. -/

import Mathlib.Tactic.IntervalCases
import RetroArch.Png.SavedFile

namespace RetroArch.Png

open Library.Memory

section Encoded

variable {bpp len : ℕ} {prev : List UInt8} {lines : List (List UInt8)}

theorem encodeLines_cons (line : List UInt8) : encodeLines bpp prev (line :: lines) =
    (chooseFilter line prev bpp).1.toByte ::
      ((chooseFilter line prev bpp).2 ++ encodeLines bpp line lines) := by
  rw [encodeLines]
  generalize chooseFilter line prev bpp = chosen
  rfl

theorem length_encodeLines (hlines : ∀ line ∈ lines, line.length = len) :
    (encodeLines bpp prev lines).length = lines.length * (len + 1) := by
  induction lines generalizing prev with
  | nil =>
    rw [List.length_nil, Nat.zero_mul]
    rfl
  | cons line lines ih =>
    have hline := hlines line List.mem_cons_self
    have hrest : (encodeLines bpp line lines).length = lines.length * (len + 1) :=
      ih fun l hl => hlines l (List.mem_cons_of_mem line hl)
    have htarget : (chooseFilter line prev bpp).2.length = len := by
      rw [chooseFilter_target, length_filterTarget, hline]
    rw [encodeLines_cons, List.length_cons, List.length_append, htarget, hrest, List.length_cons,
      Nat.succ_mul]
    omega

theorem encodeLines_line (hlines : ∀ line ∈ lines, line.length = len) {k : ℕ}
    {before line : List UInt8} (hbefore : (prev :: lines)[k]? = some before)
    (hline : lines[k]? = some line) :
    (encodeLines bpp prev lines)[k * (len + 1)]? =
        some (chooseFilter line before bpp).1.toByte ∧
      ∀ i < len, (encodeLines bpp prev lines)[k * (len + 1) + 1 + i]? =
        (chooseFilter line before bpp).2[i]? := by
  induction lines generalizing prev k with
  | nil => exact nomatch hline
  | cons first lines ih =>
    have htarget : (chooseFilter first prev bpp).2.length = len := by
      rw [chooseFilter_target, length_filterTarget, hlines first List.mem_cons_self]
    rw [encodeLines_cons]
    cases k with
    | zero =>
      rw [List.getElem?_cons_zero] at hbefore hline
      obtain rfl := Option.some.inj hbefore
      obtain rfl := Option.some.inj hline
      rw [Nat.zero_mul]
      refine ⟨List.getElem?_cons_zero, ?_⟩
      intro i hi
      rw [Nat.zero_add, Nat.add_comm 1 i, List.getElem?_cons_succ,
        List.getElem?_append_left (by rw [htarget]; exact hi)]
    | succ k =>
      rw [List.getElem?_cons_succ] at hbefore hline
      have hrest := ih (fun l hl => hlines l (List.mem_cons_of_mem first hl)) hbefore hline
      have hskip : ∀ i, ((chooseFilter first prev bpp).1.toByte ::
          ((chooseFilter first prev bpp).2 ++ encodeLines bpp first lines))[
            (k + 1) * (len + 1) + i]? =
              (encodeLines bpp first lines)[k * (len + 1) + i]? := by
        intro i
        have hplace : (k + 1) * (len + 1) + i = len + (k * (len + 1) + i) + 1 := by
          rw [Nat.succ_mul]
          omega
        rw [hplace, List.getElem?_cons_succ,
          List.getElem?_append_right (by rw [htarget]; omega), htarget,
          Nat.add_sub_cancel_left]
      refine ⟨(hskip 0).trans hrest.1, ?_⟩
      intro i hi
      rw [Nat.add_assoc, hskip, ← Nat.add_assoc]
      exact hrest.2 i hi

end Encoded

section Geometry

variable {format : PixelFormat} {width height : UInt32}

theorem toNat_pos {v : UInt32} (h : v ≠ 0) : 0 < v.toNat := by
  apply Nat.pos_of_ne_zero
  intro hzero
  exact h (UInt32.toNat_inj.mp hzero)

/-- The bytes of the lines with their filters. -/
def encodedLength (format : PixelFormat) (width height : UInt32) : ℕ :=
  (width.toNat * format.bpp + 1) * height.toNat

/-- The bits of a line are counted in 32 bits. -/
def LineBitsFit (format : PixelFormat) (width : UInt32) : Prop :=
  width.toNat * format.bpp * 8 < 2 ^ 32

instance : Decidable (LineBitsFit format width) :=
  inferInstanceAs (Decidable (width.toNat * format.bpp * 8 < 2 ^ 32))

theorem geom_bpp (format : PixelFormat) (width height : UInt32) :
    (pngPassGeom (saveIhdr format width height)).bpp.toNat = format.bpp := by
  cases format with
  | argb =>
    have hbpp : (pngPassGeom (saveIhdr .argb width height)).bpp = (8 * 4 + 7) / 8 := rfl
    rw [hbpp]
    rfl
  | bgr24 =>
    have hbpp : (pngPassGeom (saveIhdr .bgr24 width height)).bpp = (8 * 3 + 7) / 8 := rfl
    rw [hbpp]
    rfl

theorem geom_pitch (format : PixelFormat) (width height : UInt32) :
    (pngPassGeom (saveIhdr format width height)).pitch.toNat =
      width.toNat * format.bpp * 8 % 2 ^ 32 / 8 := by
  cases format with
  | argb =>
    have hpitch : (pngPassGeom (saveIhdr .argb width height)).pitch =
        (width * 8 * 4 + 7) / 8 := rfl
    have hbpp : PixelFormat.argb.bpp = 4 := rfl
    rw [hpitch, hbpp, UInt32.toNat_div, UInt32.toNat_add, UInt32.toNat_mul, UInt32.toNat_mul]
    simp only [UInt32.reduceToNat]
    omega
  | bgr24 =>
    have hpitch : (pngPassGeom (saveIhdr .bgr24 width height)).pitch =
        (width * 8 * 3 + 7) / 8 := rfl
    have hbpp : PixelFormat.bgr24.bpp = 3 := rfl
    rw [hpitch, hbpp, UInt32.toNat_div, UInt32.toNat_add, UInt32.toNat_mul, UInt32.toNat_mul]
    simp only [UInt32.reduceToNat]
    omega

theorem geom_pitch_le (format : PixelFormat) (width height : UInt32) :
    (pngPassGeom (saveIhdr format width height)).pitch.toNat ≤ width.toNat * format.bpp := by
  rw [geom_pitch]
  omega

theorem geom_pitch_eq (height : UInt32) (hbits : LineBitsFit format width) :
    (pngPassGeom (saveIhdr format width height)).pitch.toNat = width.toNat * format.bpp := by
  rw [geom_pitch, Nat.mod_eq_of_lt hbits]
  omega

theorem geom_pitch_lt (hbits : ¬ LineBitsFit format width) :
    (pngPassGeom (saveIhdr format width height)).pitch.toNat < width.toNat * format.bpp := by
  unfold LineBitsFit at hbits
  rw [geom_pitch]
  omega

theorem geom_passSize (hlength : encodedLength format width height < 2 ^ 32) :
    (pngPassGeom (saveIhdr format width height)).passSize =
      ((pngPassGeom (saveIhdr format width height)).pitch.toNat + 1) * height.toNat := by
  have hle : ((pngPassGeom (saveIhdr format width height)).pitch.toNat + 1) * height.toNat ≤
      encodedLength format width height :=
    Nat.mul_le_mul_right _ (Nat.succ_le_succ (geom_pitch_le format width height))
  have hsize : (pngPassGeom (saveIhdr format width height)).passSize =
      (((pngPassGeom (saveIhdr format width height)).pitch + 1) * height).toNat := rfl
  rw [hsize, UInt32.toNat_mul, UInt32.toNat_add]
  generalize (pngPassGeom (saveIhdr format width height)).pitch.toNat = pitch at hle ⊢
  have hone : (1 : UInt32).toNat = 1 := rfl
  rw [hone]
  by_cases hzero : height.toNat = 0
  · rw [hzero, Nat.mul_zero, Nat.mul_zero]
  · have hpitch : pitch + 1 ≤ (pitch + 1) * height.toNat :=
      Nat.le_mul_of_pos_right _ (Nat.pos_of_ne_zero hzero)
    rw [Nat.mod_eq_of_lt (show pitch + 1 < 2 ^ 32 by omega), Nat.mod_eq_of_lt (by omega)]

theorem encodeBufSize_eq (hlength : encodedLength format width height < 2 ^ 32) :
    encodeBufSize format width height = encodedLength format width height := by
  have hbpp : (UInt32.ofNat format.bpp).toNat = format.bpp := by
    cases format with
    | argb => rfl
    | bgr24 => rfl
  have hone : (1 : UInt32).toNat = 1 := rfl
  unfold encodedLength at hlength
  unfold encodeBufSize encodedLength
  rw [UInt32.toNat_mul, UInt32.toNat_add, UInt32.toNat_mul, hbpp, hone]
  by_cases hzero : height.toNat = 0
  · rw [hzero, Nat.mul_zero, Nat.mul_zero]
  · have hline : width.toNat * format.bpp + 1 ≤ (width.toNat * format.bpp + 1) * height.toNat :=
      Nat.le_mul_of_pos_right _ (Nat.pos_of_ne_zero hzero)
    rw [Nat.mod_eq_of_lt (show width.toNat * format.bpp < 2 ^ 32 by omega),
      Nat.mod_eq_of_lt (show width.toNat * format.bpp + 1 < 2 ^ 32 by omega),
      Nat.mod_eq_of_lt hlength]

end Geometry

section Rows

variable {format : PixelFormat} {data : ℕ → UInt8} {width height : UInt32} {pitch : ℕ}

/-- The pixels of one line of the source. -/
def sourceRow (format : PixelFormat) (data : ℕ → UInt8) (width : UInt32) (pitch h : ℕ) :
    List UInt32 :=
  (List.range width.toNat).map (sourcePixel format fun i => data (h * pitch + i))

/-- The pixels of the source without what its lines are padded with. -/
def sourcePixels (format : PixelFormat) (data : ℕ → UInt8) (width height : UInt32) (pitch : ℕ) :
    List UInt32 :=
  (List.range height.toNat).flatMap (sourceRow format data width pitch)

/-- The image with its first `k` lines stored. -/
def pixelsAt (format : PixelFormat) (data : ℕ → UInt8) (width height : UInt32) (pitch k : ℕ) :
    List UInt32 :=
  (List.range k).flatMap (sourceRow format data width pitch) ++
    List.replicate ((height.toNat - k) * width.toNat) 0

theorem length_sourceRow (h : ℕ) :
    (sourceRow format data width pitch h).length = width.toNat := by
  unfold sourceRow
  rw [List.length_map, List.length_range]

theorem copyPixels_row (palette : Vector UInt32 256) {k : ℕ} (hk : k < height.toNat) :
    copyPixels (copyLine format (fun i => data (k * pitch + i)) width.toNat)
        (saveIhdr format width height) palette
        ⟨pixelsAt format data width height pitch k, k * width.toNat⟩ =
      some ⟨pixelsAt format data width height pitch (k + 1), k * width.toNat⟩ := by
  have hrow : (sourceRow format data width pitch k).length = width.toNat := length_sourceRow k
  have hstored : ((List.range k).flatMap (sourceRow format data width pitch)).length =
      k * width.toNat := length_flatMap_range (fun h => length_sourceRow h) k
  have hleft : (height.toNat - k) * width.toNat =
      width.toNat + (height.toNat - (k + 1)) * width.toNat := by
    have hsucc : height.toNat - k = height.toNat - (k + 1) + 1 := by omega
    rw [hsucc, Nat.succ_mul, Nat.add_comm]
  have hvalue : ∀ (i : ℕ) (hi : i < (sourceRow format data width pitch k).length),
      pixelAt (copyLine format (fun i => data (k * pitch + i)) width.toNat)
        (saveIhdr format width height) palette i =
          some (sourceRow format data width pitch k)[i] := by
    intro i hi
    have hi' : i < width.toNat := hrow ▸ hi
    rw [pixelAt_copyLine format width height _ palette hi', ← List.getElem?_eq_getElem hi]
    unfold sourceRow
    rw [List.getElem?_map, List.getElem?_range hi', Option.map_some]
  have hfits : k * width.toNat + (sourceRow format data width pitch k).length ≤
      (pixelsAt format data width height pitch k).length := by
    unfold pixelsAt
    rw [List.length_append, hstored, List.length_replicate, hrow, hleft]
    omega
  have hfill := fill_run hfits hvalue
  have hresult : (pixelsAt format data width height pitch k).take (k * width.toNat) ++
      sourceRow format data width pitch k ++
        (pixelsAt format data width height pitch k).drop
          (k * width.toNat + (sourceRow format data width pitch k).length) =
      pixelsAt format data width height pitch (k + 1) := by
    unfold pixelsAt
    rw [List.take_left' hstored, ← List.drop_drop, List.drop_left' hstored, hrow, hleft,
      List.drop_replicate, Nat.add_sub_cancel_left, List.range_succ, List.flatMap_append]
    simp only [List.flatMap_cons, List.flatMap_nil, List.append_nil]
  rw [hresult, hrow] at hfill
  exact congrArg (Option.map _) hfill

theorem pixelsAt_zero (hpixels : width.toNat * height.toNat < 2 ^ 32) :
    mallocPixels width height =
      ⟨pixelsAt format data width height pitch 0, 0 * width.toNat⟩ := by
  have hcount : pixelCount width height = (height.toNat - 0) * width.toNat := by
    unfold pixelCount
    rw [UInt32.toNat_mul, Nat.mod_eq_of_lt hpixels, Nat.mul_comm, Nat.sub_zero]
  unfold mallocPixels pixelsAt
  rw [hcount, Nat.zero_mul]
  rfl

theorem pixelsAt_height :
    pixelsAt format data width height pitch height.toNat =
      sourcePixels format data width height pitch := by
  unfold pixelsAt sourcePixels
  rw [Nat.sub_self, Nat.zero_mul, List.replicate_zero, List.append_nil]

end Rows

section Runs

variable {file : List UInt8} {fresh : ℕ → UInt8} {inflate : Inflate} {rpng : Rpng}
  {p : RpngProcess} {d d' : Decoding}

/-- A number of calls lead there. -/
def Reaches (file : List UInt8) (fresh : ℕ → UInt8) (inflate : Inflate) (d : Decoding) : Prop :=
  ∃ n, decode file fresh inflate n = some d

theorem Reaches.step (h : Reaches file fresh inflate d)
    (hstep : d.step file fresh inflate = some d') : Reaches file fresh inflate d' := by
  obtain ⟨n, hn⟩ := h
  refine ⟨n + 1, ?_⟩
  rw [decode, hn]
  exact hstep

theorem reaches_accepted (h : Accepted file rpng) (fresh : ℕ → UInt8) (inflate : Inflate) :
    Reaches file fresh inflate (.processing rpng (some (rpngProcessInit fresh rpng)) none) := by
  obtain ⟨before, hreads, hlast, hvalid⟩ := h
  have hstart : Reaches file fresh inflate (.processing rpng none none) := by
    apply Reaches.step (decode_reading hreads fresh inflate)
    rw [step_reading, hlast, Option.map_some]
    dsimp only
    rw [if_neg Bool.false_ne_true, if_pos hvalid]
  exact hstart.step rfl

/-- Behind the last inflated byte the lines are set up, or the decoder stops. -/
def afterDone (rpng : Rpng) (q : RpngProcess) : Decoding :=
  if (inflateDone rpng q).1 then
    .processing rpng (some (inflateDone rpng q).2.2) (some (inflateDone rpng q).2.1)
  else
    .stopped .error rpng.ihdr.width rpng.ihdr.height (some (inflateDone rpng q).2.1)

theorem step_done (hinit : p.inflateInitialized = false)
    (hdone : ¬ (0 < p.availIn ∧ 0 < p.availOut)) :
    (Decoding.processing rpng (some p) none).step file fresh inflate =
      some (afterDone rpng p) := by
  rw [step_inflating hinit]
  unfold rpngLoadImageArgbProcessInflateInit
  dsimp only
  rw [if_neg hdone, Option.map_some]
  rfl

theorem afterDone_short {q : RpngProcess} (hinfl : Inflating rpng q)
    (hplain : rpng.ihdr.interlace = 0) (hshort : q.totalOut < (pngPassGeom rpng.ihdr).passSize) :
    ∃ image, afterDone rpng q = .stopped .error rpng.ihdr.width rpng.ihdr.height image := by
  refine ⟨some (inflateDone rpng q).2.1, ?_⟩
  unfold afterDone
  rw [(inflateDone_plain hinfl hplain).1 hshort, if_neg Bool.false_ne_true]

/-- The process before its first line. -/
def firstLine (rpng : Rpng) (q : RpngProcess) : RpngProcess :=
  { setLines (rewound q) (pngPassGeom rpng.ihdr) with inflateInitialized := true }

theorem afterDone_full {q : RpngProcess} (hinfl : Inflating rpng q)
    (hplain : rpng.ihdr.interlace = 0) (hfull : (pngPassGeom rpng.ihdr).passSize ≤ q.totalOut) :
    afterDone rpng q = .processing rpng
      (some (linesAt (firstLine rpng q) rpng.ihdr 0 0 (zeroLine (pngPassGeom rpng.ihdr))
        (zeroLine (pngPassGeom rpng.ihdr))))
      (some (mallocPixels rpng.ihdr.width rpng.ihdr.height)) := by
  unfold afterDone
  rw [(inflateDone_plain hinfl hplain).2 (Nat.not_lt.mpr hfull), if_pos rfl]
  rfl

/-- One call inflates what the stream gives, and the next one at the latest goes on from there. -/
theorem reaches_done (haccepted : Accepted file rpng) (hz : rpng.idatBuf ≠ [])
    (hlen : rpng.idatBuf.length < 2 ^ 32) {room : ℕ} (hroom : inflateBufSize rpng.ihdr = room)
    (hpos : 0 < room) (hsize : room < 2 ^ 32) {trans : Transcoded}
    (htrans : zlibTrans (inflate 0 rpng.idatBuf room) rpng.idatBuf.length room = trans)
    (haccepts : trans.status = true ∨ trans.error = .bufferFull)
    (hrest : trans.bytes.length < room →
      trans.rd = rpng.idatBuf.length ∨ trans.error = .none) (fresh : ℕ → UInt8) :
    ∃ q, Inflating rpng q ∧ q.totalOut = trans.bytes.length ∧
      q.inflateBuf.take trans.bytes.length = trans.bytes ∧
      Reaches file fresh inflate (afterDone rpng q) := by
  have hstart := reaches_accepted haccepted fresh inflate
  have hinfl := inflating_init fresh rpng
  have hin : (rpngProcessInit fresh rpng).zIn = rpng.idatBuf := by
    unfold rpngProcessInit
    dsimp only
    rw [Nat.mod_eq_of_lt hlen, List.take_length]
  have hout : (rpngProcessInit fresh rpng).availOut = room := hroom
  have hzRoom : (rpngProcessInit fresh rpng).zRoom = room := by
    have hmod : (rpngProcessInit fresh rpng).zRoom = inflateBufSize rpng.ihdr % 2 ^ 32 := rfl
    rw [hmod, hroom, Nat.mod_eq_of_lt hsize]
  have havail : (rpngProcessInit fresh rpng).availIn = rpng.idatBuf.length := rfl
  have hcalls : (rpngProcessInit fresh rpng).calls = 0 := rfl
  have htotal : (rpngProcessInit fresh rpng).totalOut = 0 := rfl
  generalize rpngProcessInit fresh rpng = p at *
  have hmore : 0 < p.availIn ∧ 0 < p.availOut := by
    rw [havail, hout]
    exact ⟨List.length_pos_iff.mpr hz, hpos⟩
  obtain ⟨inflateBuf, hpokes, hnext⟩ := hinfl.write hmore.1 (inflate p.calls p.zIn p.zRoom)
  have hanswer : zlibTrans (inflate p.calls p.zIn p.zRoom) p.zIn.length p.zRoom = trans := by
    rw [hcalls, hin, hzRoom]
    exact htrans
  rw [hanswer] at hpokes hnext
  have hfailed : ¬ (!trans.status && trans.error != .bufferFull) = true := by
    rcases haccepts with hstatus | herror
    · rw [hstatus]
      exact Bool.false_ne_true
    · rw [herror, Bool.and_eq_true]
      exact fun h => Bool.false_ne_true h.2
  have hbytes : trans.bytes.length ≤ room := by
    rw [← htrans, zlibTrans_bytes, List.length_take]
    exact Nat.min_le_left _ _
  have hcall : rpngLoadImageArgbProcessInflateInit inflate rpng p =
      some (if trans.error ≠ .none then (true, none, inflated p trans inflateBuf)
        else ((inflateDone rpng (inflated p trans inflateBuf)).1,
          some (inflateDone rpng (inflated p trans inflateBuf)).2.1,
          (inflateDone rpng (inflated p trans inflateBuf)).2.2)) := by
    unfold rpngLoadImageArgbProcessInflateInit
    dsimp only
    rw [if_pos hmore, hanswer, if_neg hfailed, hpokes, Option.map_some]
    rfl
  refine ⟨inflated p trans inflateBuf, hnext, ?_, ?_, ?_⟩
  · unfold inflated
    dsimp only
    rw [htotal, Nat.zero_add]
  · unfold pokes at hpokes
    rw [htotal] at hpokes
    split_ifs at hpokes with hfits
    obtain rfl := Option.some.inj hpokes
    unfold inflated
    dsimp only
    rw [List.take_zero, List.nil_append, List.take_left]
  · have hstep : (Decoding.processing rpng (some p) none).step file fresh inflate =
        some (if trans.error ≠ .none then
          .processing rpng (some (inflated p trans inflateBuf)) none
        else afterDone rpng (inflated p trans inflateBuf)) := by
      rw [step_inflating hinfl.initialized, hcall, Option.map_some]
      split_ifs <;> rfl
    have hreach := hstart.step hstep
    split_ifs at hreach with herror
    · apply hreach.step
      apply step_done hnext.initialized
      rintro ⟨hleftIn, hleftOut⟩
      have hleftIn' : 0 < rpng.idatBuf.length - trans.rd := havail ▸ hleftIn
      have hleftOut' : 0 < room - trans.bytes.length := hout ▸ hleftOut
      rcases hrest (by omega) with hrd | hnone
      · omega
      · exact herror hnone
    · exact hreach

end Runs

section Lines

variable {file : List UInt8} {fresh : ℕ → UInt8} {inflate : Inflate} {rpng : Rpng}
  {format : PixelFormat} {data : ℕ → UInt8} {width height : UInt32} {pitch : ℕ}
  {p : RpngProcess}

/-- The line before line `k`, with zeros before the first one. -/
def lineBefore (format : PixelFormat) (data : ℕ → UInt8) (width : UInt32) (pitch : ℕ) :
    ℕ → List UInt8
  | 0 => List.replicate (width.toNat * format.bpp) 0
  | k + 1 => copyLine format (fun i => data (k * pitch + i)) width.toNat

theorem length_lineBefore (k : ℕ) :
    (lineBefore format data width pitch k).length = width.toNat * format.bpp := by
  cases k with
  | zero => exact List.length_replicate
  | succ k => exact length_copyLine _ _ _

theorem imageLines_getElem? {k : ℕ} (hk : k < height.toNat) :
    (imageLines format data width height pitch)[k]? =
      some (lineBefore format data width pitch (k + 1)) := by
  unfold imageLines
  rw [List.getElem?_map, List.getElem?_range hk]
  rfl

theorem imageLines_before {k : ℕ} (hk : k < height.toNat) :
    (List.replicate (width.toNat * format.bpp) 0 ::
      imageLines format data width height pitch)[k]? =
        some (lineBefore format data width pitch k) := by
  cases k with
  | zero => rfl
  | succ k =>
    rw [List.getElem?_cons_succ]
    exact imageLines_getElem? (Nat.lt_of_succ_lt hk)

theorem length_imageLines (line : List UInt8)
    (h : line ∈ imageLines format data width height pitch) :
    line.length = width.toNat * format.bpp := by
  obtain ⟨k, -, rfl⟩ := List.mem_map.mp h
  exact length_copyLine _ _ _

theorem length_encodeBuf : (encodeBuf format data width height pitch).length =
    encodedLength format width height := by
  have hcount : (imageLines format data width height pitch).length = height.toNat := by
    unfold imageLines
    rw [List.length_map, List.length_range]
  unfold encodeBuf encodedLength
  rw [length_encodeLines length_imageLines, hcount, Nat.mul_comm]

theorem bpp_pos (format : PixelFormat) : 0 < format.bpp := by
  cases format with
  | argb => decide
  | bgr24 => decide

/-- The place of line `k` in the bytes that are deflated. -/
theorem encodeBuf_line (format : PixelFormat) (data : ℕ → UInt8) (width : UInt32) (pitch : ℕ)
    {k : ℕ} (hk : k < height.toNat) :
    (encodeBuf format data width height pitch)[k * (width.toNat * format.bpp + 1)]? =
        some (chooseFilter (lineBefore format data width pitch (k + 1))
          (lineBefore format data width pitch k) format.bpp).1.toByte ∧
      ∀ i < width.toNat * format.bpp,
        (encodeBuf format data width height pitch)[k * (width.toNat * format.bpp + 1) + 1 + i]? =
          (chooseFilter (lineBefore format data width pitch (k + 1))
            (lineBefore format data width pitch k) format.bpp).2[i]? :=
  encodeLines_line length_imageLines (imageLines_before hk) (imageLines_getElem? hk)

/-- One line of the saved image is decoded over the one before it. -/
theorem iterate_saved (palette : Vector UInt32 256) (hwidth : width ≠ 0)
    (hbpp : p.bpp.toNat = format.bpp) (hpitch : p.pitch.toNat = width.toNat * format.bpp)
    (hbuf : p.inflateBuf = encodeBuf format data width height pitch) {k : ℕ}
    (hk : k < height.toNat) :
    pngReverseFilterRegularIterate palette
        ⟨pixelsAt format data width height pitch k, k * width.toNat⟩
        (saveIhdr format width height)
        (linesAt p (saveIhdr format width height) 0 k (lineBefore format data width pitch k)
          (lineBefore format data width pitch k)) =
      some (.next, ⟨pixelsAt format data width height pitch (k + 1), (k + 1) * width.toNat⟩,
        linesAt p (saveIhdr format width height) 0 (k + 1)
          (lineBefore format data width pitch (k + 1))
          (lineBefore format data width pitch (k + 1))) := by
  have hwidth' : 0 < width.toNat := toNat_pos hwidth
  obtain ⟨hbyte, hbytes⟩ := encodeBuf_line format data width pitch hk
  have hthis : (lineBefore format data width pitch (k + 1)).length = width.toNat * format.bpp :=
    length_lineBefore (k + 1)
  have hline : reverseFilter
      (chooseFilter (lineBefore format data width pitch (k + 1))
        (lineBefore format data width pitch k) format.bpp).1 p.bpp.toNat p.pitch.toNat
      p.inflateBuf (0 + k * (p.pitch.toNat + 1) + 1) (lineBefore format data width pitch k)
      (lineBefore format data width pitch k) =
        some (lineBefore format data width pitch (k + 1)) := by
    rw [hbpp, hpitch, ← hthis]
    apply reverseFilter_filterTarget (bpp_pos format)
    · rw [hthis]
      exact Nat.le_mul_of_pos_left _ hwidth'
    · rw [length_lineBefore, length_lineBefore]
    · rw [length_lineBefore, length_lineBefore]
    · intro i hi
      rw [hthis] at hi
      rw [hthis, hbuf, Nat.zero_add, ← chooseFilter_target]
      exact hbytes i hi
  have hcopy : copyPixels (lineBefore format data width pitch (k + 1))
      (saveIhdr format width height) palette
      ⟨pixelsAt format data width height pitch k, k * width.toNat⟩ =
        some ⟨pixelsAt format data width height pitch (k + 1), k * width.toNat⟩ :=
    copyPixels_row palette hk
  apply regularIterate_line hk _ (ofByte_toByte _) hline hcopy
  rw [hbuf, hpitch, Nat.zero_add]
  exact hbyte

/-- From its first line on the saved image is decoded to the end. -/
theorem reaches_end (hihdr : rpng.ihdr = saveIhdr format width height) (hwidth : width ≠ 0)
    (hinit : p.inflateInitialized = true) (hbpp : p.bpp.toNat = format.bpp)
    (hpitch : p.pitch.toNat = width.toNat * format.bpp)
    (hbuf : p.inflateBuf = encodeBuf format data width height pitch)
    (hstart : Reaches file fresh inflate (.processing rpng
      (some (linesAt p (saveIhdr format width height) 0 0 (lineBefore format data width pitch 0)
        (lineBefore format data width pitch 0)))
      (some ⟨pixelsAt format data width height pitch 0, 0 * width.toNat⟩))) :
    Reaches file fresh inflate (.stopped .end width height
      (some ⟨sourcePixels format data width height pitch, 0⟩)) := by
  have hplain : ¬ rpng.ihdr.interlace ≠ 0 := by
    rw [hihdr]
    exact not_not.mpr rfl
  have hlines : ∀ k ≤ height.toNat, Reaches file fresh inflate (.processing rpng
      (some (linesAt p (saveIhdr format width height) 0 k (lineBefore format data width pitch k)
        (lineBefore format data width pitch k)))
      (some ⟨pixelsAt format data width height pitch k, k * width.toNat⟩)) := by
    intro k hk
    induction k with
    | zero => exact hstart
    | succ k ih =>
      apply (ih (Nat.le_of_succ_le hk)).step
      rw [step_iterating (p := linesAt _ _ _ _ _ _) hinit]
      unfold pngReverseFilterIterate
      rw [if_neg hplain, hihdr, iterate_saved rpng.palette hwidth hbpp hpitch hbuf hk]
      rfl
  apply (hlines height.toNat (Nat.le_refl _)).step
  rw [step_iterating (p := linesAt _ _ _ _ _ _) hinit]
  unfold pngReverseFilterIterate
  have hend : pngReverseFilterRegularIterate rpng.palette
      ⟨pixelsAt format data width height pitch height.toNat, height.toNat * width.toNat⟩
      (saveIhdr format width height)
      (linesAt p (saveIhdr format width height) 0 height.toNat
        (lineBefore format data width pitch height.toNat)
        (lineBefore format data width pitch height.toNat)) =
        some (.end, ⟨pixelsAt format data width height pitch height.toNat, 0⟩,
          linesDone p 0 (height.toNat * (p.pitch.toNat + 1))) :=
    regularIterate_end (Nat.lt_irrefl _)
  rw [if_neg hplain, hihdr, hend, pixelsAt_height]
  rfl

end Lines

section Ends

variable {file : List UInt8} {fresh : ℕ → UInt8} {inflate : Inflate} {d : Decoding}
  {ret ret' : ImageProcess} {width height width' height' : UInt32} {image image' : Option Canvas}

theorem decode_add {n : ℕ} (hn : decode file fresh inflate n = some d) (k : ℕ)
    (hstay : d.step file fresh inflate = some d) :
    decode file fresh inflate (n + k) = some d := by
  induction k with
  | zero => exact hn
  | succ k ih =>
    rw [← Nat.add_assoc, decode, ih]
    exact hstay

theorem decode_none_add {n : ℕ} (hn : decode file fresh inflate n = none) (k : ℕ) :
    decode file fresh inflate (n + k) = none := by
  induction k with
  | zero => exact hn
  | succ k ih =>
    rw [← Nat.add_assoc, decode, ih]
    rfl

theorem Reaches.stopped_unique (h : Reaches file fresh inflate (.stopped ret width height image))
    (h' : Reaches file fresh inflate (.stopped ret' width' height' image')) : ret = ret' := by
  obtain ⟨n, hn⟩ := h
  obtain ⟨m, hm⟩ := h'
  have hlate := decode_add hn m rfl
  have hlate' := decode_add hm n rfl
  rw [Nat.add_comm m n, hlate] at hlate'
  injection Option.some.inj hlate'

theorem Reaches.not_stopped (h : Reaches file fresh inflate d)
    (hnone : d.step file fresh inflate = none) :
    ¬ Reaches file fresh inflate (.stopped ret width height image) := by
  rintro ⟨m, hm⟩
  obtain ⟨n, hn⟩ := h
  have hout : decode file fresh inflate (n + 1) = none := by
    rw [decode, hn]
    exact hnone
  have hlate := decode_none_add hout m
  have hlate' := decode_add hm (n + 1) rfl
  rw [Nat.add_comm m, hlate] at hlate'
  cases hlate'

end Ends

section RoundTrip

variable {deflate : Deflate} {inflate : Inflate} {format : PixelFormat} {data : ℕ → UInt8}
  {width height : UInt32} {pitch : ℕ} {z bytes : List UInt8}

/-- Of the stream `z` a call writes the bytes that were deflated from the first one on. It does not
fail, and where there is room left it has read all of the stream or comes to its end. -/
structure WritesBack (trans : Transcoded) (z bytes : List UInt8) (room : ℕ) : Prop where
  accepts : trans.status = true ∨ trans.error = .bufferFull
  bytes : trans.bytes <+: bytes
  rest : trans.bytes.length < room → trans.rd = z.length ∨ trans.error = .none

/-- `inflate` gives back what was deflated to `z`, for all the room there may be. -/
def InvertsTo (inflate : Inflate) (z bytes : List UInt8) : Prop :=
  ∀ room, z ≠ [] → 0 < room → room ≤ bytes.length →
    WritesBack (zlibTrans (inflate 0 z room) z.length room) z bytes room

/-- The stream is not cut off before its last byte. -/
def InflatesAll (inflate : Inflate) (z : List UInt8) (length : ℕ) : Prop :=
  z ≠ [] ∧ (zlibTrans (inflate 0 z length) z.length length).bytes.length = length

/-- What the deflate stream makes of the lines of an image in the space it has. -/
def deflated (deflate : Deflate) (format : PixelFormat) (data : ℕ → UInt8)
    (width height : UInt32) (pitch : ℕ) : Transcoded :=
  let encoded := encodeBuf format data width height pitch
  let room := (deflateSpace format width height).size
  zlibTrans (deflate encoded room) encoded.length room

theorem rpngSaveImage_eq {file : List UInt8}
    (hsave : rpngSaveImage deflate format data width height pitch = some file) :
    file = savedFile format width height
      (deflated deflate format data width height pitch).bytes := by
  unfold rpngSaveImage at hsave
  dsimp only at hsave
  split_ifs at hsave
  exact (Option.some.inj hsave).symm

theorem rpngSaveImage_some
    (hstatus : (deflated deflate format data width height pitch).status = true) :
    rpngSaveImage deflate format data width height pitch =
      some (savedFile format width height
        (deflated deflate format data width height pitch).bytes) := if_pos hstatus

theorem inflateBufSize_saved (hlength : encodedLength format width height < 2 ^ 32) :
    inflateBufSize (saveIhdr format width height) =
      ((pngPassGeom (saveIhdr format width height)).pitch.toNat + 1) * height.toNat := by
  have hplain : ¬ (saveIhdr format width height).interlace = 1 := by
    intro h
    exact absurd h (by decide : ¬ (0 : UInt8) = 1)
  unfold inflateBufSize
  rw [if_neg hplain, geom_passSize hlength]

/-- A width of which no line has all of its bytes leaves the lines at the first one. -/
theorem firstLine_outside (palette : Vector UInt32 256) {p : RpngProcess} (hwidth : width ≠ 0)
    (hheight : height ≠ 0) (prev : List UInt8) {filter : Filter}
    (hpitch : p.pitch.toNat < width.toNat * format.bpp) (hprev : prev.length = p.pitch.toNat)
    (hfilter : p.inflateBuf[0]? = some filter.toByte) (pixels : List UInt32) :
    pngReverseFilterRegularIterate palette ⟨pixels, 0 * width.toNat⟩
      (saveIhdr format width height)
      (linesAt p (saveIhdr format width height) 0 0 prev prev) = none := by
  have hheight' : 0 < height.toNat := toNat_pos hheight
  have hwidth' : 0 < width.toNat := toNat_pos hwidth
  apply regularIterate_none hheight'
  right
  refine ⟨filter.toByte, filter, ?_, ofByte_toByte filter, ?_⟩
  · rw [Nat.zero_mul]
    exact hfilter
  · cases hline : reverseFilter filter p.bpp.toNat p.pitch.toNat p.inflateBuf
        (0 + 0 * (p.pitch.toNat + 1) + 1) prev prev with
    | none => rfl
    | some line =>
      have hlen : line.length = p.pitch.toNat := (length_reverseFilter hline).trans hprev
      have hlast : width.toNat - 1 < width.toNat := by omega
      rw [Option.bind_some]
      apply copyPixels_outside (i := width.toNat - 1) hlast
      rintro ⟨hpixel, -⟩
      have hinside := (pixelInside_save format width height line.length _).mp hpixel
      rw [hlen, Nat.sub_add_cancel hwidth'] at hinside
      omega

/-- With a stream that is not empty, one call writes the first of the bytes that were saved. -/
theorem saved_reaches (hwidth : width ≠ 0) (hheight : height ≠ 0)
    (hlength : encodedLength format width height < 2 ^ 32) (hz : z ≠ [])
    (hsize : z.length + 12 < 2 ^ 32)
    (hinverts : InvertsTo inflate z (encodeBuf format data width height pitch))
    {room : ℕ}
    (hroom : ((pngPassGeom (saveIhdr format width height)).pitch.toNat + 1) * height.toNat = room)
    (fresh : ℕ → UInt8) :
    WritesBack (zlibTrans (inflate 0 z room) z.length room) z
        (encodeBuf format data width height pitch) room ∧
      ∃ q, Inflating (validRpng format width height z) q ∧
        q.totalOut = (zlibTrans (inflate 0 z room) z.length room).bytes.length ∧
        q.inflateBuf.take (zlibTrans (inflate 0 z room) z.length room).bytes.length =
          (zlibTrans (inflate 0 z room) z.length room).bytes ∧
        Reaches (savedFile format width height z) fresh inflate
          (afterDone (validRpng format width height z) q) := by
  have hle : room ≤ encodedLength format width height := by
    rw [← hroom]
    exact Nat.mul_le_mul_right _ (Nat.succ_le_succ (geom_pitch_le format width height))
  have hpos : 0 < room := by
    rw [← hroom]
    exact Nat.mul_pos (Nat.succ_pos _) (toNat_pos hheight)
  have hwrites := hinverts room hz hpos (by rw [length_encodeBuf]; exact hle)
  have hbuf : inflateBufSize (saveIhdr format width height) = room :=
    (inflateBufSize_saved hlength).trans hroom
  have hlen : z.length < 2 ^ 32 := by omega
  have haccepted := saved_accepted format hwidth hheight hsize
  exact ⟨hwrites, reaches_done haccepted hz hlen hbuf hpos (by omega) rfl hwrites.accepts
    hwrites.rest fresh⟩

/-- The decoder comes to the end of the image with the pixels it was saved from. -/
def Reproduces (inflate : Inflate) (format : PixelFormat) (data : ℕ → UInt8)
    (width height : UInt32) (pitch : ℕ) (file : List UInt8) : Prop :=
  ∀ fresh, ∃ n, decode file fresh inflate n =
    some (.stopped .end width height (some ⟨sourcePixels format data width height pitch, 0⟩))

/-- Lines whose bits are counted in 32 bits, all of whose bytes are inflated, are decoded. -/
theorem saved_reproduced (hwidth : width ≠ 0) (hheight : height ≠ 0)
    (hlength : encodedLength format width height < 2 ^ 32)
    (hpixels : width.toNat * height.toNat < 2 ^ 32) (hsize : z.length + 12 < 2 ^ 32)
    (hinverts : InvertsTo inflate z (encodeBuf format data width height pitch))
    (hbits : LineBitsFit format width)
    (hall : InflatesAll inflate z (encodedLength format width height)) :
    Reproduces inflate format data width height pitch (savedFile format width height z) := by
  intro fresh
  have hgeom := geom_pitch_eq height hbits
  have hroom : ((pngPassGeom (saveIhdr format width height)).pitch.toNat + 1) * height.toNat =
      encodedLength format width height := by
    rw [hgeom]
    rfl
  obtain ⟨hwrites, q, hinfl, htotal, htake, hreach⟩ := saved_reaches hwidth hheight hlength hall.1
    hsize hinverts hroom fresh
  rw [hall.2] at htotal htake
  have hbuf : q.inflateBuf = encodeBuf format data width height pitch := by
    have hlen : q.inflateBuf.length = encodedLength format width height :=
      hinfl.bufLen.trans ((inflateBufSize_saved hlength).trans hroom)
    rw [List.take_of_length_le (Nat.le_of_eq hlen)] at htake
    rw [htake]
    exact hwrites.bytes.eq_of_length (hall.2.trans length_encodeBuf.symm)
  have hpass : (pngPassGeom (saveIhdr format width height)).passSize ≤ q.totalOut := by
    rw [geom_passSize hlength, hroom, htotal]
  rw [afterDone_full hinfl rfl hpass] at hreach
  have hihdr : (validRpng format width height z).ihdr = saveIhdr format width height := rfl
  apply reaches_end (p := firstLine (validRpng format width height z) q) hihdr hwidth rfl
    (geom_bpp format width height) hgeom hbuf
  have hzero : zeroLine (pngPassGeom (saveIhdr format width height)) =
      lineBefore format data width pitch 0 := by
    unfold zeroLine
    rw [hgeom]
    rfl
  rw [← pixelsAt_zero hpixels, ← hzero]
  exact hreach

/-- No other image is decoded. -/
theorem saved_reproduced_only (hwidth : width ≠ 0) (hheight : height ≠ 0)
    (hlength : encodedLength format width height < 2 ^ 32) (hsize : z.length + 12 < 2 ^ 32)
    (hinverts : InvertsTo inflate z (encodeBuf format data width height pitch))
    (h : Reproduces inflate format data width height pitch (savedFile format width height z)) :
    LineBitsFit format width ∧ InflatesAll inflate z (encodedLength format width height) := by
  have hreached := h fun _ => 0
  have hsizeEq : (pngPassGeom (saveIhdr format width height)).passSize =
      ((pngPassGeom (saveIhdr format width height)).pitch.toNat + 1) * height.toNat :=
    geom_passSize hlength
  have hpos : 0 < ((pngPassGeom (saveIhdr format width height)).pitch.toNat + 1) *
      height.toNat := Nat.mul_pos (Nat.succ_pos _) (toNat_pos hheight)
  have henough : ∀ q, Inflating (validRpng format width height z) q →
      Reaches (savedFile format width height z) (fun _ => 0) inflate
        (afterDone (validRpng format width height z) q) →
      ((pngPassGeom (saveIhdr format width height)).pitch.toNat + 1) * height.toNat ≤
        q.totalOut := by
    intro q hinfl hreach
    rw [← hsizeEq]
    by_contra hshort
    obtain ⟨image, hstopped⟩ := afterDone_short hinfl rfl (Nat.lt_of_not_le hshort)
    rw [hstopped] at hreach
    exact nomatch hreach.stopped_unique hreached
  have hz : z ≠ [] := by
    intro hempty
    have hstart := reaches_accepted (saved_accepted format hwidth hheight hsize) (fun _ => 0)
      inflate
    have hinfl := inflating_init (fun _ => 0) (validRpng format width height z)
    generalize rpngProcessInit (fun _ => 0) (validRpng format width height z) = p at hstart hinfl
    have hnothing : ¬ (0 < p.availIn ∧ 0 < p.availOut) := by
      rintro ⟨havail, -⟩
      have hnone := (hinfl.noInput hempty).1
      omega
    have hfull := henough _ hinfl (hstart.step (step_done hinfl.initialized hnothing))
    have hnone := (hinfl.noInput hempty).2
    omega
  obtain ⟨hwrites, q, hinfl, htotal, htake, hreach⟩ := saved_reaches hwidth hheight hlength hz hsize
    hinverts rfl fun _ => 0
  have hfull := henough q hinfl hreach
  have hbits : LineBitsFit format width := by
    by_contra hbits
    rw [afterDone_full hinfl rfl (hsizeEq.trans_le hfull)] at hreach
    obtain ⟨n, hn⟩ := hreached
    apply hreach.not_stopped _ ⟨n, hn⟩
    have hplain : ¬ (validRpng format width height z).ihdr.interlace ≠ 0 := not_not.mpr rfl
    have hfilter : q.inflateBuf[0]? = some (chooseFilter (lineBefore format data width pitch 1)
        (lineBefore format data width pitch 0) format.bpp).1.toByte := by
      have hsome : 0 < q.totalOut := by omega
      have hfirst := (encodeBuf_line format data width pitch (toNat_pos hheight)).1
      rw [Nat.zero_mul] at hfirst
      obtain ⟨rest, hwritten⟩ := hwrites.bytes
      rw [← htake, ← htotal] at hwritten
      have hbuf : 0 < (q.inflateBuf.take q.totalOut).length := by
        rw [htotal, htake, ← htotal]
        exact hsome
      rw [← List.getElem?_take_of_lt hsome, ← List.getElem?_append_left hbuf, hwritten]
      exact hfirst
    have houtside := firstLine_outside (validRpng format width height z).palette
      (p := firstLine (validRpng format width height z) q) hwidth hheight
      (zeroLine (pngPassGeom (saveIhdr format width height))) (geom_pitch_lt hbits)
      List.length_replicate hfilter (mallocPixels width height).pixels
    rw [step_iterating (p := linesAt _ _ _ _ _ _) rfl]
    unfold pngReverseFilterIterate
    rw [if_neg hplain]
    rw [Nat.zero_mul] at houtside
    exact congrArg (Option.map _) houtside
  refine ⟨hbits, hz, ?_⟩
  have hroom : ((pngPassGeom (saveIhdr format width height)).pitch.toNat + 1) * height.toNat =
      encodedLength format width height := by
    rw [geom_pitch_eq height hbits]
    rfl
  rw [hroom] at htotal hfull
  apply Nat.le_antisymm
  · rw [zlibTrans_bytes, List.length_take]
    exact Nat.min_le_left _ _
  · rw [← htotal]
    exact hfull

/-- An image that is saved is decoded to its pixels exactly when the bits of a line are counted in
32 bits and the stream in the file inflates to all of the lines. -/
theorem saved_reproduced_iff {file : List UInt8}
    (hsave : rpngSaveImage deflate format data width height pitch = some file)
    (hwidth : width ≠ 0) (hheight : height ≠ 0)
    (hlength : encodedLength format width height < 2 ^ 32)
    (hpixels : width.toNat * height.toNat * 4 < 2 ^ 32)
    (hinverts : InvertsTo inflate (deflated deflate format data width height pitch).bytes
      (encodeBuf format data width height pitch))
    (hsize : (deflated deflate format data width height pitch).bytes.length + 12 < 2 ^ 32) :
    Reproduces inflate format data width height pitch file ↔
      LineBitsFit format width ∧
        InflatesAll inflate (deflated deflate format data width height pitch).bytes
          (encodedLength format width height) := by
  obtain rfl := rpngSaveImage_eq hsave
  constructor
  · intro h
    exact saved_reproduced_only hwidth hheight hlength hsize hinverts h
  · rintro ⟨hbits, hall⟩
    exact saved_reproduced hwidth hheight hlength (by omega) hsize hinverts hbits hall

/-- The stream of nine bytes that are zero. -/
def zerosDeflate : Deflate := fun input _ =>
  ⟨.streamEnd, input.length, [120, 218, 99, 96, 128, 2, 0, 0, 9, 0, 1]⟩

def zerosInflate : Inflate := fun _ z room =>
  if room < 9 then ⟨.ok, 6, List.replicate room 0⟩
  else ⟨.streamEnd, z.length, List.replicate 9 0⟩

theorem saved_reproduced_zeros : ∃ file,
    rpngSaveImage zerosDeflate .argb (fun _ => 0) 2 1 8 = some file ∧
      Reproduces zerosInflate .argb (fun _ => 0) 2 1 8 file := by
  have hencoded : encodeBuf .argb (fun _ => 0) 2 1 8 = List.replicate 9 0 := by decide
  have hinverts : InvertsTo zerosInflate
      (deflated zerosDeflate .argb (fun _ => 0) 2 1 8).bytes
      (encodeBuf .argb (fun _ => 0) 2 1 8) := by
    intro room _ hpos hroom
    have hz : (deflated zerosDeflate .argb (fun _ => 0) 2 1 8).bytes =
        [120, 218, 99, 96, 128, 2, 0, 0, 9, 0, 1] := by decide
    rw [hencoded] at hroom ⊢
    rw [hz]
    have hroom' : room ≤ 9 := hroom
    interval_cases room <;> exact ⟨by decide, by decide, by decide⟩
  refine ⟨_, rfl, ?_⟩
  apply (saved_reproduced_iff rfl (by decide) (by decide) (by decide) (by decide) hinverts
    (by decide)).mpr
  exact ⟨by decide, by decide, by decide⟩

/-- A stream that is what it was made of. -/
def copyDeflate : Deflate := fun input _ => ⟨.streamEnd, input.length, input⟩

def copyInflate : Inflate := fun _ z room =>
  ⟨if z.length ≤ room then .streamEnd else .ok, room, z⟩

theorem copyInflate_inverts (z : List UInt8) : InvertsTo copyInflate z z := by
  intro room _ _ hroom
  unfold copyInflate zlibTrans
  dsimp only
  have hwritten : (z.take room).length = room := List.length_take_of_le hroom
  by_cases hlast : z.length ≤ room
  · have hread : ¬ ((z.take room).length = room ∧ min room z.length ≠ z.length) := by
      rintro ⟨-, hread⟩
      exact hread (Nat.min_eq_right hlast)
    rw [if_pos hlast]
    dsimp only
    rw [if_neg hread]
    exact ⟨Or.inl rfl, List.take_prefix room z, fun _ => Or.inr rfl⟩
  · have hread : (z.take room).length = room ∧ min room z.length ≠ z.length := by
      refine ⟨hwritten, ?_⟩
      rw [Nat.min_eq_left hroom]
      exact fun h => hlast (Nat.le_of_eq h.symm)
    rw [if_neg hlast]
    dsimp only
    rw [if_pos hread]
    refine ⟨Or.inr rfl, List.take_prefix room z, ?_⟩
    intro hshort
    exact absurd hwritten (Nat.ne_of_lt hshort)

theorem copyDeflate_deflated (hsome : 0 < encodedLength format width height)
    (hlength : encodedLength format width height < 2 ^ 31) :
    deflated copyDeflate format data width height pitch =
      ⟨true, .none, encodedLength format width height,
        encodeBuf format data width height pitch⟩ := by
  have hsize : (deflateSpace format width height).size =
      encodedLength format width height * 2 := by
    unfold deflateSpace
    dsimp only
    rw [encodeBufSize_eq (by omega), Nat.mod_eq_of_lt (by omega)]
  have htake : (encodeBuf format data width height pitch).take
      (encodedLength format width height * 2) = encodeBuf format data width height pitch := by
    apply List.take_of_length_le
    rw [length_encodeBuf]
    omega
  unfold deflated copyDeflate zlibTrans
  dsimp only
  rw [hsize, htake, length_encodeBuf, Nat.min_self]
  rw [if_neg (by omega)]

/-- A line of `2 ^ 27` pixels of four bytes each is counted to have none. -/
theorem wide_not_reproduced : ∃ file,
    rpngSaveImage copyDeflate .argb (fun _ => 0) 0x8000000 1 0x20000000 = some file ∧
      encodedLength .argb 0x8000000 1 < 2 ^ 32 ∧
      InvertsTo copyInflate (deflated copyDeflate .argb (fun _ => 0) 0x8000000 1 0x20000000).bytes
        (encodeBuf .argb (fun _ => 0) 0x8000000 1 0x20000000) ∧
      ¬ Reproduces copyInflate .argb (fun _ => 0) 0x8000000 1 0x20000000 file := by
  have hlen : encodedLength .argb 0x8000000 1 = 2 ^ 29 + 1 := rfl
  have hdeflated : deflated copyDeflate .argb (fun _ => 0) 0x8000000 1 0x20000000 =
      ⟨true, .none, encodedLength .argb 0x8000000 1,
        encodeBuf .argb (fun _ => 0) 0x8000000 1 0x20000000⟩ :=
    copyDeflate_deflated (by omega) (by omega)
  have hinverts : InvertsTo copyInflate
      (deflated copyDeflate .argb (fun _ => 0) 0x8000000 1 0x20000000).bytes
      (encodeBuf .argb (fun _ => 0) 0x8000000 1 0x20000000) := by
    rw [hdeflated]
    exact copyInflate_inverts _
  have hsave : rpngSaveImage copyDeflate .argb (fun _ => 0) 0x8000000 1 0x20000000 =
      some (savedFile .argb 0x8000000 1
        (deflated copyDeflate .argb (fun _ => 0) 0x8000000 1 0x20000000).bytes) := by
    apply rpngSaveImage_some
    rw [hdeflated]
  refine ⟨_, hsave, by omega, hinverts, ?_⟩
  intro h
  have hsize : (deflated copyDeflate .argb (fun _ => 0) 0x8000000 1 0x20000000).bytes.length + 12 <
      2 ^ 32 := by
    rw [hdeflated]
    dsimp only
    rw [length_encodeBuf]
    omega
  have hbits := (saved_reproduced_only (by decide) (by decide) (by omega) hsize hinverts h).1
  exact absurd hbits (by decide)

end RoundTrip

end RetroArch.Png
