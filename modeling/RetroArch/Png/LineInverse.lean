/- What the encoder does to a line is undone by the decoder. -/

import RetroArch.Png.DecodeSafety
import RetroArch.Png.Encode

namespace RetroArch.Png

open Library.Bytes Library.Memory

section Lines

variable {bpp input : ℕ} {scanline prev decoded inflateBuf : List UInt8} {filter : Filter}

theorem fill_congr {α : Type*} {place : ℕ → ℕ} {elem elem' : List α → ℕ → Option α}
    {is : List ℕ} (h : ∀ i ∈ is, ∀ mem, elem mem i = elem' mem i) (mem : List α) :
    fill place elem is mem = fill place elem' is mem := by
  induction is generalizing mem with
  | nil => rfl
  | cons i is ih =>
    rw [fill, fill, h i List.mem_cons_self]
    congr 1
    funext x
    congr 1
    funext mem₁
    exact ih (fun j hj => h j (List.mem_cons_of_mem i hj)) mem₁

theorem reverseFilter_eq (filter : Filter) {pitch : ℕ} (hbpp : bpp ≤ pitch) :
    reverseFilter filter bpp pitch inflateBuf input prev decoded =
      fill id (fun scanline i => (inflateBuf[input + i]?).bind fun b =>
        (if i < filter.split bpp pitch then predictFirst filter prev i
          else predictRest filter bpp prev scanline i).map (· + b)) (List.range pitch) decoded := by
  have hsplit := split_le filter hbpp
  have hrange : List.range pitch = List.range (filter.split bpp pitch) ++
      List.range' (filter.split bpp pitch) (pitch - filter.split bpp pitch) := by
    have happend := List.range'_append_1 (s := 0) (m := filter.split bpp pitch)
      (n := pitch - filter.split bpp pitch)
    rw [Nat.zero_add, Nat.add_sub_cancel' hsplit] at happend
    rw [List.range_eq_range', List.range_eq_range', happend]
  rw [hrange, fill_append]
  unfold reverseFilter
  dsimp only
  have hfirst : ∀ i ∈ List.range (filter.split bpp pitch), ∀ scanline : List UInt8,
      ((inflateBuf[input + i]?).bind fun b => (predictFirst filter prev i).map (· + b)) =
        (inflateBuf[input + i]?).bind fun b =>
          (if i < filter.split bpp pitch then predictFirst filter prev i
            else predictRest filter bpp prev scanline i).map (· + b) := by
    intro i hi scanline
    rw [if_pos (List.mem_range.mp hi)]
  have hrest : ∀ i ∈ List.range' (filter.split bpp pitch) (pitch - filter.split bpp pitch),
      ∀ scanline : List UInt8,
      ((inflateBuf[input + i]?).bind fun b =>
          (predictRest filter bpp prev scanline i).map (· + b)) =
        (inflateBuf[input + i]?).bind fun b =>
          (if i < filter.split bpp pitch then predictFirst filter prev i
            else predictRest filter bpp prev scanline i).map (· + b) := by
    intro i hi scanline
    rw [if_neg (Nat.not_lt.mpr (List.mem_range'_1.mp hi).1)]
  rw [fill_congr hfirst]
  congr 1
  funext mem
  exact fill_congr hrest mem

theorem length_reverseFilter {pitch : ℕ}
    (h : reverseFilter filter bpp pitch inflateBuf input prev decoded = some scanline) :
    scanline.length = decoded.length := by
  obtain ⟨first, hfirst, hrest⟩ := Option.bind_eq_some_iff.mp h
  exact (length_fill hrest).trans (length_fill hfirst)

theorem predictRest_take {scanline₁ : List UInt8} {i : ℕ} (hbpp : 0 < bpp) (hi : bpp ≤ i)
    (htake : scanline₁.take i = scanline.take i) :
    predictRest filter bpp prev scanline₁ i = predictRest filter bpp prev scanline i := by
  have hback : scanline₁[i - bpp]? = scanline[i - bpp]? := by
    rw [← List.getElem?_take_of_lt (show i - bpp < i by omega), htake,
      List.getElem?_take_of_lt (show i - bpp < i by omega)]
  cases filter with
  | none => rfl
  | sub => exact hback
  | up => rfl
  | average =>
    unfold predictRest
    dsimp only
    rw [hback]
  | paeth =>
    unfold predictRest
    dsimp only
    rw [hback]

theorem predict_isSome (filter : Filter) (bpp : ℕ) {i : ℕ} (hi : i < scanline.length)
    (hprev : prev.length = scanline.length) :
    (predict filter bpp prev scanline i).isSome = true := by
  unfold predict
  split_ifs
  · exact predictFirst_isSome filter (by omega)
  · exact predictRest_isSome filter (by omega) hi

theorem reverseFilter_filterTarget (hpos : 0 < bpp) (hbpp : bpp ≤ scanline.length)
    (hprev : prev.length = scanline.length) (hdecoded : decoded.length = scanline.length)
    (hinput : ∀ i < scanline.length,
      inflateBuf[input + i]? = (filterTarget filter bpp scanline prev)[i]?) :
    reverseFilter filter bpp scanline.length inflateBuf input prev decoded = some scanline := by
  rw [reverseFilter_eq filter hbpp]
  apply fill_range hdecoded
  intro scanline₁ i hi _ htake
  have hpredict : (if i < filter.split bpp scanline.length then predictFirst filter prev i
      else predictRest filter bpp prev scanline₁ i) = predict filter bpp prev scanline i := by
    unfold predict
    split_ifs with hsplit
    · rfl
    · cases hfilter : filter with
      | none => rfl
      | up => rfl
      | sub =>
        rw [hfilter] at hsplit
        exact predictRest_take hpos (Nat.le_of_not_lt hsplit) htake
      | average =>
        rw [hfilter] at hsplit
        exact predictRest_take hpos (Nat.le_of_not_lt hsplit) htake
      | paeth =>
        rw [hfilter] at hsplit
        exact predictRest_take hpos (Nat.le_of_not_lt hsplit) htake
  obtain ⟨guess, hguess⟩ := Option.isSome_iff_exists.mp
    (predict_isSome filter bpp hi hprev)
  have htarget : (filterTarget filter bpp scanline prev)[i]? = some (scanline[i] - guess) := by
    unfold filterTarget
    rw [List.getElem?_mapIdx, List.getElem?_eq_getElem hi, Option.map_some, hguess,
      Option.getD_some]
  rw [hpredict, hinput i hi, htarget, Option.bind_some, hguess, Option.map_some,
    UInt8.add_comm, UInt8.sub_add_cancel]

theorem filterTarget_none : filterTarget .none bpp scanline prev = scanline := by
  apply List.ext_getElem?
  intro i
  unfold filterTarget
  rw [List.getElem?_mapIdx]
  cases hb : scanline[i]? with
  | none => rfl
  | some b =>
    have hpredict : predict .none bpp prev scanline i = some 0 := by
      unfold predict
      split_ifs <;> rfl
    rw [Option.map_some, hpredict, Option.getD_some, UInt8.sub_zero]

theorem better_target {target : List UInt8} {chosen : Filter × List UInt8}
    (htarget : target = filterTarget filter bpp scanline prev)
    (hchosen : chosen.2 = filterTarget chosen.1 bpp scanline prev) :
    (better filter target chosen).2 =
      filterTarget (better filter target chosen).1 bpp scanline prev := by
  unfold better
  split_ifs
  · exact htarget
  · exact hchosen

theorem chooseFilter_target (scanline prev : List UInt8) (bpp : ℕ) :
    (chooseFilter scanline prev bpp).2 =
      filterTarget (chooseFilter scanline prev bpp).1 bpp scanline prev := by
  unfold chooseFilter
  apply better_target rfl
  apply better_target rfl
  apply better_target rfl
  apply better_target rfl
  exact filterTarget_none.symm

theorem ofByte_toByte (filter : Filter) : Filter.ofByte filter.toByte = some filter := by
  cases filter <;> rfl

theorem length_filterTarget : (filterTarget filter bpp scanline prev).length = scanline.length :=
  List.length_mapIdx

end Lines

section Pixels

variable {format : PixelFormat} {width height : UInt32}

theorem length_flatMap_range {α : Type*} {f : ℕ → List α} {k : ℕ} (hf : ∀ i, (f i).length = k)
    (n : ℕ) : ((List.range n).flatMap f).length = n * k := by
  induction n with
  | zero => rw [Nat.zero_mul]; rfl
  | succ n ih =>
    rw [List.range_succ, List.flatMap_append, List.length_append, ih, Nat.succ_mul]
    simp only [List.flatMap_cons, List.flatMap_nil, List.append_nil, hf]

theorem getElem?_flatMap_range {α : Type*} {f : ℕ → List α} {n k : ℕ}
    (hf : ∀ i, (f i).length = k) {i j : ℕ} (hi : i < n) (hj : j < k) :
    ((List.range n).flatMap f)[i * k + j]? = (f i)[j]? := by
  induction n with
  | zero => exact absurd hi (Nat.not_lt_zero i)
  | succ n ih =>
    have hlen := length_flatMap_range hf n
    rw [List.range_succ, List.flatMap_append]
    rcases Nat.lt_or_ge i n with hlt | hge
    · have hin : i * k + j < n * k := by
        have hmul := Nat.mul_le_mul_right k (show i + 1 ≤ n from hlt)
        rw [Nat.succ_mul] at hmul
        omega
      rw [List.getElem?_append_left (by rw [hlen]; exact hin)]
      exact ih hlt
    · obtain rfl : i = n := by omega
      rw [List.getElem?_append_right (by rw [hlen]; omega), hlen, Nat.add_sub_cancel_left]
      simp only [List.flatMap_cons, List.flatMap_nil, List.append_nil]

theorem length_copyLine (format : PixelFormat) (src : ℕ → UInt8) (width : ℕ) :
    (copyLine format src width).length = width * format.bpp := by
  cases format with
  | argb =>
    unfold copyLine copyArgbLine
    dsimp only
    rw [length_flatMap_range (k := 4) fun _ => rfl]
    rfl
  | bgr24 =>
    unfold copyLine copyBgr24Line
    dsimp only
    rw [length_flatMap_range (k := 3) fun _ => rfl]
    rfl

/-- A pixel of the source, with full alpha where it has none. -/
def sourcePixel (format : PixelFormat) (src : ℕ → UInt8) (i : ℕ) : UInt32 :=
  match format with
  | .argb => wordAt src i
  | .bgr24 => (0xff000000 : UInt32) ||| ((src (3 * i + 2)).toUInt32 <<< 16) |||
      ((src (3 * i + 1)).toUInt32 <<< 8) ||| (src (3 * i)).toUInt32

theorem getElem_mod_byte (x : BitVec 32) {j : ℕ} (hj : j < 32) :
    (x % 256#32)[j] = (decide (j < 8) && x[j]) := by
  rw [BitVec.getElem_eq_testBit_toNat, BitVec.getElem_eq_testBit_toNat, BitVec.toNat_umod]
  exact Nat.testBit_mod_two_pow x.toNat 8 j

theorem word_parts (col : UInt32) :
    ((col >>> 24).toUInt8.toUInt32 <<< (24 : UInt32)) |||
      ((col >>> 16).toUInt8.toUInt32 <<< 16) ||| ((col >>> 8).toUInt8.toUInt32 <<< 8) |||
        col.toUInt8.toUInt32 = col := by
  apply UInt32.toBitVec_inj.mp
  ext i hi
  simp [getElem_mod_byte]
  grind

theorem pixelAt_copyLine (format : PixelFormat) (width height : UInt32) (src : ℕ → UInt8)
    (palette : Vector UInt32 256) {i : ℕ} (hi : i < width.toNat) :
    pixelAt (copyLine format src width.toNat) (saveIhdr format width height) palette i =
      some (sourcePixel format src i) := by
  cases format with
  | argb =>
    have hget : ∀ j, j < 4 → (copyLine .argb src width.toNat)[i * 4 + j]? =
        ([(wordAt src i >>> 16).toUInt8, (wordAt src i >>> 8).toUInt8, (wordAt src i).toUInt8,
          (wordAt src i >>> 24).toUInt8])[j]? := fun j hj =>
      getElem?_flatMap_range (k := 4) (f := fun i => [(wordAt src i >>> 16).toUInt8,
        (wordAt src i >>> 8).toUInt8, (wordAt src i).toUInt8,
        (wordAt src i >>> 24).toUInt8]) (fun _ => rfl) hi hj
    have hcolor : (saveIhdr .argb width height).color = .rgba := rfl
    have hdepth : (saveIhdr .argb width height).depth.toNat = 8 := rfl
    unfold pixelAt
    dsimp only
    rw [hcolor, hdepth, Nat.div_self (by decide)]
    dsimp only
    unfold pixelRgba
    rw [show 4 * i * 1 = i * 4 + 0 by omega, hget 0 (by decide),
      show i * 4 + 0 + 1 = i * 4 + 1 by omega, hget 1 (by decide),
      show i * 4 + 0 + 2 * 1 = i * 4 + 2 by omega, hget 2 (by decide),
      show i * 4 + 0 + 3 * 1 = i * 4 + 3 by omega, hget 3 (by decide)]
    exact congrArg some (word_parts (wordAt src i))
  | bgr24 =>
    have hget : ∀ j, j < 3 → (copyLine .bgr24 src width.toNat)[i * 3 + j]? =
        ([src (3 * i + 2), src (3 * i + 1), src (3 * i)])[j]? := fun j hj =>
      getElem?_flatMap_range (k := 3) (f := fun i => [src (3 * i + 2), src (3 * i + 1),
        src (3 * i)]) (fun _ => rfl) hi hj
    have hcolor : (saveIhdr .bgr24 width height).color = .rgb := rfl
    have hdepth : (saveIhdr .bgr24 width height).depth.toNat = 8 := rfl
    unfold pixelAt
    dsimp only
    rw [hcolor, hdepth, Nat.div_self (by decide)]
    dsimp only
    unfold pixelRgb
    rw [show 3 * i * 1 = i * 3 + 0 by omega, hget 0 (by decide),
      show i * 3 + 0 + 1 = i * 3 + 1 by omega, hget 1 (by decide),
      show i * 3 + 0 + 2 * 1 = i * 3 + 2 by omega, hget 2 (by decide)]
    rfl

theorem pixelInside_save (format : PixelFormat) (width height : UInt32) (pitch i : ℕ) :
    PixelInside (saveIhdr format width height) pitch i ↔ (i + 1) * format.bpp ≤ pitch := by
  unfold PixelInside
  dsimp only
  cases format with
  | argb =>
    have hcolor : (saveIhdr .argb width height).color = .rgba := rfl
    have hdepth : (saveIhdr .argb width height).depth.toNat = 8 := rfl
    have hbpp : PixelFormat.argb.bpp = 4 := rfl
    rw [hcolor, hdepth, hbpp]
    dsimp only
    omega
  | bgr24 =>
    have hcolor : (saveIhdr .bgr24 width height).color = .rgb := rfl
    have hdepth : (saveIhdr .bgr24 width height).depth.toNat = 8 := rfl
    have hbpp : PixelFormat.bgr24.bpp = 3 := rfl
    rw [hcolor, hdepth, hbpp]
    dsimp only
    omega

end Pixels

end RetroArch.Png
