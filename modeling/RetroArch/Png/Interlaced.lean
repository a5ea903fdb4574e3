/- The passes of an interlaced image: the pixels they store, and the bytes they take. -/

import RetroArch.Library.Interlacing
import RetroArch.Png.PassSafety

namespace RetroArch.Png

open Library.Memory Library.Interlacing

/-- Where pixel `i` of a pass is stored, counted as in the code. -/
def storedPlace (ihdr : PngIhdr) (pass : Adam7Pass) (i : ℕ) : ℕ :=
  (pass.y * ihdr.width + pass.x).toNat +
      i / (passWidth ihdr pass).toNat * (ihdr.width * pass.strideY).toNat +
    i % (passWidth ihdr pass).toNat * pass.strideX.toNat

/-- The places that a pass stores to, in their order. -/
def storedPlaces (ihdr : PngIhdr) (pass : Adam7Pass) : List ℕ :=
  if isEmptyPass ihdr pass then []
  else
    (List.range ((passWidth ihdr pass).toNat * (passHeight ihdr pass).toNat)).map
      (storedPlace ihdr pass)

/-- The bytes that a pass takes of the inflated ones. -/
def consumedBytes (ihdr : PngIhdr) (pass : Adam7Pass) : ℕ :=
  if isEmptyPass ihdr pass then 0 else (pngPassGeom (passIhdr ihdr pass)).passSize

/-- The columns and rows of a pass. -/
def reducedWidth (ihdr : PngIhdr) (pass : Adam7Pass) : ℕ :=
  reduced pass.x.toNat pass.strideX.toNat ihdr.width.toNat

def reducedHeight (ihdr : PngIhdr) (pass : Adam7Pass) : ℕ :=
  reduced pass.y.toNat pass.strideY.toNat ihdr.height.toNat

def pixelBits (ihdr : PngIhdr) : ℕ := ihdr.depth.toNat * ihdr.color.samples.toNat

def lineBits (ihdr : PngIhdr) (pass : Adam7Pass) : ℕ := reducedWidth ihdr pass * pixelBits ihdr

/-- The lines of a reduced image, each with its filter byte; one without columns has none. -/
def reducedBytes (ihdr : PngIhdr) (pass : Adam7Pass) : ℕ :=
  if reducedWidth ihdr pass = 0 then 0
  else ((lineBits ihdr pass + 7) / 8 + 1) * reducedHeight ihdr pass

/-- The passes store every pixel of the image once and nothing else, and take the bytes of the
reduced images. -/
structure CoversOnce (ihdr : PngIhdr) : Prop where
  once : (passes.flatMap (storedPlaces ihdr)).Perm
    (List.range (ihdr.width.toNat * ihdr.height.toNat))
  consumed : (passes.map (consumedBytes ihdr)).sum = (passes.map (reducedBytes ihdr)).sum

/-- No sum and no product of the sizes reaches 32 bits. -/
structure Unwrapped (ihdr : PngIhdr) : Prop where
  width : ihdr.width.toNat + 7 < 2 ^ 32
  height : ihdr.height.toNat + 7 < 2 ^ 32
  second : 2 < ihdr.height.toNat → 2 * ihdr.width.toNat < 2 ^ 32
  fourth : 4 < ihdr.height.toNat → 4 * ihdr.width.toNat < 2 ^ 32
  eighth : 8 < ihdr.height.toNat → 8 * ihdr.width.toNat < 2 ^ 32
  lines : ∀ pass ∈ passes, reducedBytes ihdr pass ≠ 0 →
    lineBits ihdr pass + 7 < 2 ^ 32 ∧ reducedBytes ihdr pass < 2 ^ 32

section Sizes

variable {ihdr : PngIhdr} {pass : Adam7Pass}

theorem passes_bounded : ∀ pass ∈ passes, pass.x.toNat < pass.strideX.toNat ∧
    pass.y.toNat < pass.strideY.toNat ∧ pass.strideX.toNat ≤ 8 ∧ pass.strideY.toNat ≤ 8 := by
  decide

theorem toNat_steps {start stride extent : UInt32} (hstart : start.toNat < extent.toNat)
    (hstride : 0 < stride.toNat) :
    ((extent - start + stride - 1) / stride).toNat =
      (extent.toNat - start.toNat + stride.toNat - 1) % 2 ^ 32 / stride.toNat := by
  have hextent := extent.toNat_lt
  have hlt := stride.toNat_lt
  rw [UInt32.toNat_div, UInt32.toNat_sub, UInt32.toNat_add, UInt32.toNat_sub]
  congr 1
  change (2 ^ 32 - 1 + _) % 2 ^ 32 = _
  omega

theorem steps_le {start stride extent : UInt32} (hstart : start.toNat < extent.toNat)
    (hstride : 0 < stride.toNat) :
    ((extent - start + stride - 1) / stride).toNat ≤
      reduced start.toNat stride.toNat extent.toNat := by
  rw [toNat_steps hstart hstride]
  exact Nat.div_le_div_right (Nat.mod_le _ _)

theorem steps_eq {start stride extent : UInt32} (hstart : start.toNat < extent.toNat)
    (hstride : 0 < stride.toNat) (hsmall : stride.toNat ≤ 8) (hextent : extent.toNat + 7 < 2 ^ 32) :
    ((extent - start + stride - 1) / stride).toNat =
      reduced start.toNat stride.toNat extent.toNat := by
  rw [toNat_steps hstart hstride, Nat.mod_eq_of_lt (by omega)]
  rfl

theorem isEmptyPass_iff : isEmptyPass ihdr pass = true ↔
    ihdr.width.toNat ≤ pass.x.toNat ∨ ihdr.height.toNat ≤ pass.y.toNat := by
  rw [isEmptyPass, Bool.or_eq_true, decide_eq_true_iff, decide_eq_true_iff]
  rfl

theorem reducedBytes_eq_zero (hpass : pass ∈ passes) :
    reducedBytes ihdr pass = 0 ↔ isEmptyPass ihdr pass = true := by
  obtain ⟨hx, hy, -, -⟩ := passes_bounded pass hpass
  rw [isEmptyPass_iff, ← reduced_eq_zero (Nat.zero_lt_of_lt hx),
    ← reduced_eq_zero (Nat.zero_lt_of_lt hy), reducedBytes, reducedWidth, reducedHeight]
  split_ifs with hzero
  · simp [hzero]
  · simp [hzero]

theorem passSize_le (hpass : pass ∈ passes) (hempty : ¬isEmptyPass ihdr pass = true) :
    (passWidth ihdr pass).toNat ≤ reducedWidth ihdr pass ∧
      (passHeight ihdr pass).toNat ≤ reducedHeight ihdr pass := by
  obtain ⟨hx, hy, -, -⟩ := passes_bounded pass hpass
  rw [isEmptyPass_iff, not_or, Nat.not_le, Nat.not_le] at hempty
  exact ⟨steps_le hempty.1 (Nat.zero_lt_of_lt hx), steps_le hempty.2 (Nat.zero_lt_of_lt hy)⟩

theorem passSize_eq (hwidth : ihdr.width.toNat + 7 < 2 ^ 32)
    (hheight : ihdr.height.toNat + 7 < 2 ^ 32) (hpass : pass ∈ passes)
    (hempty : ¬isEmptyPass ihdr pass = true) :
    (passWidth ihdr pass).toNat = reducedWidth ihdr pass ∧
      (passHeight ihdr pass).toNat = reducedHeight ihdr pass := by
  obtain ⟨hx, hy, hsx, hsy⟩ := passes_bounded pass hpass
  rw [isEmptyPass_iff, not_or, Nat.not_le, Nat.not_le] at hempty
  exact ⟨steps_eq hempty.1 (Nat.zero_lt_of_lt hx) hsx hwidth,
    steps_eq hempty.2 (Nat.zero_lt_of_lt hy) hsy hheight⟩

end Sizes

section Bytes

variable {ihdr : PngIhdr} {pass : Adam7Pass}

theorem passSize_wrapped (haccepted : pngProcessIhdr ihdr = true) (lineIhdr : PngIhdr)
    (hdepth : lineIhdr.depth = ihdr.depth) (hcolor : lineIhdr.colorType = ihdr.colorType) :
    (pngPassGeom lineIhdr).passSize =
      ((lineIhdr.width.toNat * pixelBits ihdr + 7) % 2 ^ 32 / 8 + 1) * lineIhdr.height.toNat %
        2 ^ 32 := by
  have hsame : lineIhdr.color = ihdr.color := by rw [PngIhdr.color, hcolor, PngIhdr.color]
  have hother : ihdr.color ≠ .other := by
    intro hother
    rw [pngProcessIhdr, hother] at haccepted
    exact Bool.false_ne_true haccepted
  have hpitch : (pngPassGeom lineIhdr).passSize =
      (((lineIhdr.width * ihdr.depth.toUInt32 * ihdr.color.samples + 7) / 8 + 1) *
        lineIhdr.height).toNat := by
    rw [pngPassGeom, hsame, hdepth]
    cases hcase : ihdr.color with
    | other => exact absurd hcase hother
    | _ => rfl
  have hline : (lineIhdr.width * ihdr.depth.toUInt32 * ihdr.color.samples + 7).toNat =
      (lineIhdr.width.toNat * pixelBits ihdr + 7) % 2 ^ 32 := by
    rw [UInt32.toNat_add, UInt32.toNat_mul, UInt32.toNat_mul, Nat.mod_mul_mod, Nat.mod_add_mod,
      Nat.mul_assoc]
    rfl
  rw [hpitch, UInt32.toNat_mul, UInt32.toNat_add, UInt32.toNat_div, hline]
  congr 2
  apply Nat.mod_eq_of_lt
  change _ / 8 + 1 < 2 ^ 32
  omega

/-- Cut off twice, the bytes of some lines are no more than they are, and as many only where
nothing is cut off. -/
theorem wrapped_le {bits lines : ℕ} (hlines : 0 < lines) :
    ((bits + 7) % 2 ^ 32 / 8 + 1) * lines % 2 ^ 32 ≤ ((bits + 7) / 8 + 1) * lines ∧
      (((bits + 7) % 2 ^ 32 / 8 + 1) * lines % 2 ^ 32 = ((bits + 7) / 8 + 1) * lines ↔
        bits + 7 < 2 ^ 32 ∧ ((bits + 7) / 8 + 1) * lines < 2 ^ 32) := by
  have hinner : (bits + 7) % 2 ^ 32 / 8 + 1 ≤ (bits + 7) / 8 + 1 := by omega
  have hmod := Nat.mod_le (((bits + 7) % 2 ^ 32 / 8 + 1) * lines) (2 ^ 32)
  have hmul := Nat.mul_le_mul_right lines hinner
  refine ⟨Nat.le_trans hmod hmul, ?_, ?_⟩
  · intro heq
    have hfits : bits + 7 < 2 ^ 32 := by
      by_contra hlong
      have hless : (bits + 7) % 2 ^ 32 / 8 + 1 < (bits + 7) / 8 + 1 := by omega
      have hmul' := Nat.mul_lt_mul_of_pos_right hless hlines
      omega
    refine ⟨hfits, ?_⟩
    rw [← heq]
    exact Nat.mod_lt _ (by decide)
  · rintro ⟨hbits, hsize⟩
    rw [Nat.mod_eq_of_lt hbits, Nat.mod_eq_of_lt hsize]

theorem consumedBytes_le (haccepted : pngProcessIhdr ihdr = true)
    (hwidth : ihdr.width.toNat + 7 < 2 ^ 32) (hheight : ihdr.height.toNat + 7 < 2 ^ 32)
    (hpass : pass ∈ passes) :
    consumedBytes ihdr pass ≤ reducedBytes ihdr pass ∧
      (consumedBytes ihdr pass = reducedBytes ihdr pass ↔ (reducedBytes ihdr pass ≠ 0 →
        lineBits ihdr pass + 7 < 2 ^ 32 ∧ reducedBytes ihdr pass < 2 ^ 32)) := by
  by_cases hempty : isEmptyPass ihdr pass = true
  · have hzero := (reducedBytes_eq_zero hpass).mpr hempty
    rw [consumedBytes, if_pos hempty, hzero]
    exact ⟨Nat.le_refl _, fun _ hnone => absurd rfl hnone, fun _ => rfl⟩
  · have hsome := mt (@reducedBytes_eq_zero ihdr pass hpass).mp hempty
    obtain ⟨hw, hh⟩ := passSize_eq hwidth hheight hpass hempty
    have hcolumns : reducedWidth ihdr pass ≠ 0 := by
      intro hzero
      apply hsome
      rw [reducedBytes, if_pos hzero]
    have hbytes : reducedBytes ihdr pass =
        ((lineBits ihdr pass + 7) / 8 + 1) * reducedHeight ihdr pass := by
      rw [reducedBytes, if_neg hcolumns]
    have hlines : 0 < reducedHeight ihdr pass := by
      rw [hbytes] at hsome
      exact Nat.pos_of_ne_zero fun hzero => hsome (by rw [hzero, Nat.mul_zero])
    rw [consumedBytes, if_neg hempty, passSize_wrapped haccepted (passIhdr ihdr pass) rfl rfl,
      show (passIhdr ihdr pass).width.toNat = reducedWidth ihdr pass from hw,
      show (passIhdr ihdr pass).height.toNat = reducedHeight ihdr pass from hh,
      imp_iff_right hsome, hbytes]
    exact wrapped_le hlines

end Bytes

section Places

variable {ihdr : PngIhdr}

/-- A pass as a grid of the image. -/
def gridOf (pass : { pass : Adam7Pass // pass ∈ passes }) : Grid where
  x := pass.1.x.toNat
  y := pass.1.y.toNat
  strideX := pass.1.strideX.toNat
  strideY := pass.1.strideY.toNat
  column := (passes_bounded pass.1 pass.2).1
  row := (passes_bounded pass.1 pass.2).2.1

theorem gridOf_one (x y : ℕ) :
    ((passes.attach.map gridOf).map fun g => if g.Has x y then 1 else 0).sum = 1 := by
  have hresidues : ∀ a < 8, ∀ b < 8,
      ((passes.attach.map gridOf).map fun g => if g.Has a b then 1 else 0).sum = 1 := by
    decide
  refine Eq.trans (congrArg List.sum ?_)
    (hresidues (x % 8) (Nat.mod_lt x (by decide)) (y % 8) (Nat.mod_lt y (by decide)))
  apply List.map_congr_left
  intro g hg
  have hdivides : g.strideX ∣ 8 ∧ g.strideY ∣ 8 := by
    revert g
    decide
  apply if_congr _ rfl rfl
  rw [Grid.Has, Grid.Has, Nat.mod_mod_of_dvd _ hdivides.1, Nat.mod_mod_of_dvd _ hdivides.2]

theorem gridOf_perm (w h : ℕ) :
    (passes.attach.flatMap fun pass => (gridOf pass).places w h).Perm (List.range (w * h)) := by
  have hperm := places_perm gridOf_one w h
  rw [List.flatMap_map] at hperm
  exact hperm

variable {pass : { pass : Adam7Pass // pass ∈ passes }}

theorem storedPlace_le (hwidth : (passWidth ihdr pass).toNat = reducedWidth ihdr pass) (i : ℕ) :
    storedPlace ihdr pass i ≤ (gridOf pass).place ihdr.width.toNat i := by
  have hstart : (pass.1.y * ihdr.width + pass.1.x).toNat ≤
      pass.1.y.toNat * ihdr.width.toNat + pass.1.x.toNat := by
    rw [UInt32.toNat_add, UInt32.toNat_mul, Nat.mod_add_mod]
    exact Nat.mod_le _ _
  have hstride : (ihdr.width * pass.1.strideY).toNat ≤
      ihdr.width.toNat * pass.1.strideY.toNat := by
    rw [UInt32.toNat_mul]
    exact Nat.mod_le _ _
  rw [storedPlace, hwidth, Grid.place]
  change _ ≤ (pass.1.y.toNat + i / reducedWidth ihdr pass * pass.1.strideY.toNat) *
    ihdr.width.toNat + (pass.1.x.toNat + i % reducedWidth ihdr pass * pass.1.strideX.toNat)
  have hrow := Nat.mul_le_mul_left (i / reducedWidth ihdr pass) hstride
  rw [Nat.add_mul, Nat.mul_assoc, Nat.mul_comm pass.1.strideY.toNat]
  omega

theorem storedPlace_eq (hwidth : (passWidth ihdr pass).toNat = reducedWidth ihdr pass)
    (hstart : pass.1.y.toNat * ihdr.width.toNat + pass.1.x.toNat < 2 ^ 32) {i : ℕ}
    (hstride : 0 < i / reducedWidth ihdr pass →
      ihdr.width.toNat * pass.1.strideY.toNat < 2 ^ 32) :
    storedPlace ihdr pass i = (gridOf pass).place ihdr.width.toNat i := by
  have hstart' : (pass.1.y * ihdr.width + pass.1.x).toNat =
      pass.1.y.toNat * ihdr.width.toNat + pass.1.x.toNat := by
    rw [UInt32.toNat_add, UInt32.toNat_mul, Nat.mod_add_mod, Nat.mod_eq_of_lt hstart]
  have hrow : i / reducedWidth ihdr pass * (ihdr.width * pass.1.strideY).toNat =
      i / reducedWidth ihdr pass * (ihdr.width.toNat * pass.1.strideY.toNat) := by
    rcases Nat.eq_zero_or_pos (i / reducedWidth ihdr pass) with hzero | hpos
    · rw [hzero, Nat.zero_mul, Nat.zero_mul]
    · rw [UInt32.toNat_mul, Nat.mod_eq_of_lt (hstride hpos)]
  rw [storedPlace, hwidth, hstart', hrow, Grid.place]
  change _ = (pass.1.y.toNat + i / reducedWidth ihdr pass * pass.1.strideY.toNat) *
    ihdr.width.toNat + (pass.1.x.toNat + i % reducedWidth ihdr pass * pass.1.strideX.toNat)
  rw [Nat.add_mul, Nat.mul_assoc, Nat.mul_comm pass.1.strideY.toNat]
  omega

theorem places_empty (hempty : isEmptyPass ihdr pass = true) :
    (gridOf pass).places ihdr.width.toNat ihdr.height.toNat = [] := by
  have hnone : (gridOf pass).width ihdr.width.toNat * (gridOf pass).height ihdr.height.toNat =
      0 := by
    rw [isEmptyPass_iff] at hempty
    rcases hempty with hw | hh
    · rw [show (gridOf pass).width ihdr.width.toNat = 0 from
        (reduced_eq_zero (Nat.zero_lt_of_lt (gridOf pass).column)).mpr hw, Nat.zero_mul]
    · rw [show (gridOf pass).height ihdr.height.toNat = 0 from
        (reduced_eq_zero (Nat.zero_lt_of_lt (gridOf pass).row)).mpr hh, Nat.mul_zero]
  rw [Grid.places, hnone]
  rfl

theorem products_fit (h : Unwrapped ihdr) {pass : Adam7Pass} (hpass : pass ∈ passes) :
    (pass.x.toNat < ihdr.width.toNat → pass.y.toNat < ihdr.height.toNat →
      pass.y.toNat * ihdr.width.toNat + pass.x.toNat < 2 ^ 32) ∧
    (pass.y.toNat + pass.strideY.toNat < ihdr.height.toNat →
      ihdr.width.toNat * pass.strideY.toNat < 2 ^ 32) := by
  obtain ⟨hwidth, hheight, hsecond, hfourth, heighth, -⟩ := h
  simp only [passes, List.mem_cons, List.not_mem_nil, or_false] at hpass
  rcases hpass with rfl | rfl | rfl | rfl | rfl | rfl | rfl
  all_goals
    simp only [UInt32.reduceToNat]
    constructor <;> intros <;> omega

theorem storedPlaces_eq (h : Unwrapped ihdr) :
    storedPlaces ihdr pass = (gridOf pass).places ihdr.width.toNat ihdr.height.toNat := by
  by_cases hempty : isEmptyPass ihdr pass = true
  · rw [storedPlaces, if_pos hempty, places_empty hempty]
  · obtain ⟨hw, hh⟩ := passSize_eq h.width h.height pass.2 hempty
    rw [storedPlaces, if_neg hempty, hw, hh]
    apply List.map_congr_left
    intro i hi
    obtain ⟨hx, hy⟩ := pixel_inside (g := gridOf pass) (List.mem_range.mp hi)
    have hfit := products_fit h pass.2
    apply storedPlace_eq hw
    · exact hfit.1 (Nat.lt_of_le_of_lt (Nat.le_add_right _ _) hx)
        (Nat.lt_of_le_of_lt (Nat.le_add_right _ _) hy)
    · intro hrow
      have hnext := Nat.mul_le_mul_right pass.1.strideY.toNat (Nat.succ_le_of_lt hrow)
      rw [Nat.one_mul] at hnext
      exact hfit.2 (Nat.lt_of_le_of_lt (Nat.add_le_add_left hnext _) hy)

theorem flatMap_passes (f : Adam7Pass → List ℕ) :
    passes.flatMap f = passes.attach.flatMap fun pass => f pass.1 := by
  have hmap := List.flatMap_map Subtype.val f passes.attach
  rw [List.attach_map_subtype_val] at hmap
  exact hmap

theorem covers_of_unwrapped (haccepted : pngProcessIhdr ihdr = true) (h : Unwrapped ihdr) :
    CoversOnce ihdr where
  once := by
    rw [flatMap_passes, show (fun pass : { pass // pass ∈ passes } => storedPlaces ihdr pass) = _
      from funext fun _ => storedPlaces_eq h]
    exact gridOf_perm _ _
  consumed := by
    apply congrArg List.sum
    apply List.map_congr_left
    intro pass hpass
    exact (consumedBytes_le haccepted h.width h.height hpass).2.mpr (h.lines pass hpass)

theorem length_storedPlaces (h : CoversOnce ihdr)
    (pass : { pass : Adam7Pass // pass ∈ passes }) :
    (storedPlaces ihdr pass).length =
      ((gridOf pass).places ihdr.width.toNat ihdr.height.toNat).length := by
  have hsum := h.once.length_eq.trans (gridOf_perm _ _).length_eq.symm
  rw [flatMap_passes, List.length_flatMap, List.length_flatMap] at hsum
  apply eq_of_sum_eq _ hsum pass (List.mem_attach passes pass)
  intro pass _
  by_cases hempty : isEmptyPass ihdr pass = true
  · rw [storedPlaces, if_pos hempty]
    exact Nat.zero_le _
  · obtain ⟨hw, hh⟩ := passSize_le pass.2 hempty
    rw [storedPlaces, if_neg hempty, Grid.places, List.length_map, List.length_map,
      List.length_range, List.length_range]
    exact Nat.mul_le_mul hw hh

theorem steps_fit {extent : UInt32} (hextent : 0 < extent.toNat)
    (h : ((extent - 0 + 8 - 1) / 8 : UInt32).toNat = reduced 0 8 extent.toNat) :
    extent.toNat + 7 < 2 ^ 32 := by
  rw [@toNat_steps 0 8 extent hextent (by decide), reduced] at h
  change (extent.toNat - 0 + 8 - 1) % 2 ^ 32 / 8 = _ at h
  omega

theorem storedPlace_covers (hwidth : ihdr.width.toNat + 7 < 2 ^ 32)
    (hheight : ihdr.height.toNat + 7 < 2 ^ 32) (h : CoversOnce ihdr)
    (hempty : ¬isEmptyPass ihdr pass = true) {i : ℕ}
    (hi : i < reducedWidth ihdr pass * reducedHeight ihdr pass) :
    storedPlace ihdr pass i = (gridOf pass).place ihdr.width.toNat i := by
  have hplaces : ∀ pass : { pass : Adam7Pass // pass ∈ passes }, ¬isEmptyPass ihdr pass = true →
      storedPlaces ihdr pass =
        (List.range (reducedWidth ihdr pass * reducedHeight ihdr pass)).map
          (storedPlace ihdr pass) := by
    intro pass hempty
    obtain ⟨hw, hh⟩ := passSize_eq hwidth hheight pass.2 hempty
    rw [storedPlaces, if_neg hempty, hw, hh]
  have hsum := h.once.sum_eq.trans (gridOf_perm _ _).sum_eq.symm
  rw [flatMap_passes, List.flatMap_def, List.flatMap_def, List.sum_flatten, List.sum_flatten,
    List.map_map, List.map_map] at hsum
  have hle : ∀ pass ∈ passes.attach, (storedPlaces ihdr pass).sum ≤
      ((gridOf pass).places ihdr.width.toNat ihdr.height.toNat).sum := by
    intro pass _
    by_cases hempty : isEmptyPass ihdr pass = true
    · rw [storedPlaces, if_pos hempty]
      exact Nat.zero_le _
    · obtain ⟨hw, -⟩ := passSize_eq hwidth hheight pass.2 hempty
      rw [hplaces pass hempty]
      exact List.sum_le_sum fun i _ => storedPlace_le hw i
  have heach := eq_of_sum_eq hle hsum pass (List.mem_attach passes pass)
  rw [hplaces pass hempty] at heach
  obtain ⟨hw, -⟩ := passSize_eq hwidth hheight pass.2 hempty
  exact eq_of_sum_eq (fun i _ => storedPlace_le hw i) heach i (List.mem_range.mpr hi)

theorem reduced_pos (pass : { pass : Adam7Pass // pass ∈ passes })
    (hx : pass.1.x.toNat < ihdr.width.toNat) (hy : pass.1.y.toNat < ihdr.height.toNat) :
    ¬isEmptyPass ihdr pass = true ∧ 0 < reducedWidth ihdr pass ∧ 0 < reducedHeight ihdr pass := by
  refine ⟨?_, Nat.pos_of_ne_zero fun hzero => ?_, Nat.pos_of_ne_zero fun hzero => ?_⟩
  · rw [isEmptyPass_iff, not_or, Nat.not_le, Nat.not_le]
    exact ⟨hx, hy⟩
  · exact Nat.not_le.mpr hx
      ((reduced_eq_zero (Nat.zero_lt_of_lt (gridOf pass).column)).mp hzero)
  · exact Nat.not_le.mpr hy ((reduced_eq_zero (Nat.zero_lt_of_lt (gridOf pass).row)).mp hzero)

theorem first_fits (hwidth : 0 < ihdr.width.toNat) (hheight : 0 < ihdr.height.toNat)
    (h : CoversOnce ihdr) :
    ihdr.width.toNat + 7 < 2 ^ 32 ∧ ihdr.height.toNat + 7 < 2 ^ 32 := by
  have hfirst : (⟨0, 0, 8, 8⟩ : Adam7Pass) ∈ passes := List.mem_cons_self
  obtain ⟨hempty, hcolumns, hlines⟩ := reduced_pos ⟨_, hfirst⟩ hwidth hheight
  obtain ⟨hw, hh⟩ := passSize_le hfirst hempty
  have hlen := length_storedPlaces h ⟨_, hfirst⟩
  rw [storedPlaces, if_neg hempty, Grid.places, List.length_map, List.length_map,
    List.length_range, List.length_range] at hlen
  change _ = reducedWidth ihdr ⟨0, 0, 8, 8⟩ * reducedHeight ihdr ⟨0, 0, 8, 8⟩ at hlen
  constructor
  · apply steps_fit hwidth
    apply Nat.le_antisymm hw
    rw [← Nat.not_lt]
    intro hless
    exact Nat.ne_of_lt (Nat.mul_lt_mul_of_lt_of_le hless hh hlines) hlen
  · apply steps_fit hheight
    apply Nat.le_antisymm hh
    rw [← Nat.not_lt]
    intro hless
    exact Nat.ne_of_lt (Nat.mul_lt_mul_of_le_of_lt hw hless hcolumns) hlen

theorem start_fits (pass : { pass : Adam7Pass // pass ∈ passes })
    (hwidth : ihdr.width.toNat + 7 < 2 ^ 32)
    (hheight : ihdr.height.toNat + 7 < 2 ^ 32) (h : CoversOnce ihdr)
    (hx : pass.1.x.toNat < ihdr.width.toNat) (hy : pass.1.y.toNat < ihdr.height.toNat) :
    pass.1.y.toNat * ihdr.width.toNat + pass.1.x.toNat < 2 ^ 32 := by
  obtain ⟨hempty, hcolumns, hlines⟩ := reduced_pos pass hx hy
  have hplace := storedPlace_covers hwidth hheight h hempty (Nat.mul_pos hcolumns hlines)
  rw [storedPlace, Grid.place, Nat.zero_div, Nat.zero_mod, Nat.zero_mul, Nat.zero_mul, Nat.zero_div,
    Nat.zero_mod, Nat.zero_mul, Nat.zero_mul, UInt32.toNat_add, UInt32.toNat_mul,
    Nat.mod_add_mod] at hplace
  change _ % 2 ^ 32 = pass.1.y.toNat * ihdr.width.toNat + pass.1.x.toNat at hplace
  rw [← hplace]
  exact Nat.mod_lt _ (by decide)

theorem stride_fits (pass : { pass : Adam7Pass // pass ∈ passes })
    (hwidth : ihdr.width.toNat + 7 < 2 ^ 32)
    (hheight : ihdr.height.toNat + 7 < 2 ^ 32) (h : CoversOnce ihdr)
    (hx : pass.1.x.toNat < ihdr.width.toNat)
    (hy : pass.1.y.toNat + pass.1.strideY.toNat < ihdr.height.toNat) :
    ihdr.width.toNat * pass.1.strideY.toNat < 2 ^ 32 := by
  have hfirst : pass.1.y.toNat < ihdr.height.toNat :=
    Nat.lt_of_le_of_lt (Nat.le_add_right _ _) hy
  have hstart := start_fits pass hwidth hheight h hx hfirst
  obtain ⟨hempty, hcolumns, -⟩ := reduced_pos pass hx hfirst
  have hlines : 1 < reducedHeight ihdr pass := by
    apply (lt_reduced (Nat.zero_lt_of_lt (gridOf pass).row)).mpr
    rw [Nat.one_mul]
    exact hy
  have hsecond : reducedWidth ihdr pass < reducedWidth ihdr pass * reducedHeight ihdr pass :=
    (Nat.lt_mul_iff_one_lt_right hcolumns).mpr hlines
  have hplace := storedPlace_covers hwidth hheight h hempty hsecond
  obtain ⟨hw, -⟩ := passSize_eq hwidth hheight pass.2 hempty
  rw [storedPlace, hw, Grid.place, UInt32.toNat_add, UInt32.toNat_mul, Nat.mod_add_mod] at hplace
  change (pass.1.y.toNat * ihdr.width.toNat + pass.1.x.toNat) % 2 ^ 32 + reducedWidth ihdr pass /
    reducedWidth ihdr pass * _ + reducedWidth ihdr pass % reducedWidth ihdr pass * _ =
      (pass.1.y.toNat + reducedWidth ihdr pass / reducedWidth ihdr pass * pass.1.strideY.toNat) *
        ihdr.width.toNat + (pass.1.x.toNat + reducedWidth ihdr pass % reducedWidth ihdr pass * _)
    at hplace
  rw [Nat.div_self hcolumns, Nat.mod_self, Nat.zero_mul, Nat.zero_mul, Nat.one_mul, Nat.one_mul,
    Nat.mod_eq_of_lt hstart, Nat.add_mul, Nat.mul_comm pass.1.strideY.toNat,
    UInt32.toNat_mul] at hplace
  have hwhole : ihdr.width.toNat * pass.1.strideY.toNat % 2 ^ 32 =
      ihdr.width.toNat * pass.1.strideY.toNat := by
    omega
  rw [← hwhole]
  exact Nat.mod_lt _ (by decide)

theorem unwrapped_of_covers (haccepted : pngProcessIhdr ihdr = true)
    (hcolumns : 0 < ihdr.width.toNat) (hlines : 0 < ihdr.height.toNat) (h : CoversOnce ihdr) :
    Unwrapped ihdr := by
  obtain ⟨hwidth, hheight⟩ := first_fits hcolumns hlines h
  refine ⟨hwidth, hheight, ?_, ?_, ?_, ?_⟩
  · intro hheight'
    exact start_fits ⟨⟨0, 2, 2, 4⟩, by simp [passes]⟩ hwidth hheight h hcolumns hheight'
  · intro hheight'
    exact start_fits ⟨⟨0, 4, 4, 8⟩, by simp [passes]⟩ hwidth hheight h hcolumns hheight'
  · intro hheight'
    rw [Nat.mul_comm]
    exact stride_fits ⟨⟨0, 0, 8, 8⟩, by simp [passes]⟩ hwidth hheight h hcolumns hheight'
  · intro pass hpass
    apply (consumedBytes_le haccepted hwidth hheight hpass).2.mp
    exact eq_of_sum_eq (fun pass hpass => (consumedBytes_le haccepted hwidth hheight hpass).1)
      h.consumed pass hpass

end Places

section Consuming

variable {palette : Vector UInt32 256} {image image' : Canvas} {ihdr : PngIhdr} {pass : Adam7Pass}
  {p p' : RpngProcess} {j off total : ℕ}

/-- The calls of the decoder as long as they go on. -/
def adam7Calls (palette : Vector UInt32 256) (ihdr : PngIhdr) :
    ℕ → Canvas → RpngProcess → Option (Canvas × RpngProcess)
  | 0, image, p => some (image, p)
  | calls + 1, image, p =>
    (pngReverseFilterAdam7 palette image ihdr p).bind fun (ret, image, p) =>
      if ret = .next then adam7Calls palette ihdr calls image p else none

end Consuming

end RetroArch.Png
