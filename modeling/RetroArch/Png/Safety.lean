/- The memory that reading and saving an image uses. -/

import RetroArch.Png.DecodeSafety
import RetroArch.Png.Encode

namespace RetroArch.Png

/-- The deflate stream writes where `rpngSaveImage` has allocated. -/
def OutSpace.Inside (space : OutSpace) : Prop :=
  ∀ i < space.size, space.offset + i < space.allocated

theorem deflateSpace_inside_iff (format : PixelFormat) (width height : UInt32) :
    (deflateSpace format width height).Inside ↔
      encodeBufSize format width height = 0 ∨ 2 ^ 31 ≤ encodeBufSize format width height := by
  have hlt : encodeBufSize format width height < 2 ^ 32 := UInt32.toNat_lt _
  unfold OutSpace.Inside deflateSpace
  dsimp only
  generalize encodeBufSize format width height = n at hlt ⊢
  constructor
  · intro hinside
    by_contra hsize
    rw [not_or, Nat.not_le] at hsize
    obtain ⟨hpos, hsmall⟩ := hsize
    have hmod : n * 2 % 2 ^ 32 = n * 2 := Nat.mod_eq_of_lt (by omega)
    have hlast := hinside (n * 2 - 1) (by omega)
    omega
  · rintro (rfl | hlarge)
    · intro i hi
      exact absurd hi (Nat.not_lt_zero i)
    · intro i hi
      have hmod : n * 2 % 2 ^ 32 = n * 2 - 2 ^ 32 := by
        rw [Nat.mod_eq_sub_mod (by omega), Nat.mod_eq_of_lt (by omega)]
      omega

/-- Reading a file and saving an image stay inside of the memory that is allocated exactly when the
sizes of an accepted file fit, and when the buffer of the saved lines is empty or so large that its
double is cut off. -/
theorem png_inside_iff (data : List UInt8) (format : PixelFormat)
    (width height : UInt32) :
    ((∀ fresh inflate n, decode data fresh inflate n ≠ none) ↔
      ∀ rpng, Accepted data rpng → SizesFit rpng.ihdr (inflatedMost rpng)) ∧
    ((deflateSpace format width height).Inside ↔
      encodeBufSize format width height = 0 ∨ 2 ^ 31 ≤ encodeBufSize format width height) := by
  constructor
  · exact decode_safe_iff data
  · exact deflateSpace_inside_iff format width height

/-- An image of `2 ^ 26` pixels of eight bytes each, whose lines are counted to have none. -/
def wideFile : List UInt8 :=
  pngMagic ++
    [0, 0, 0, 13, 0x49, 0x48, 0x44, 0x52, 4, 0, 0, 0, 0, 0, 0, 1, 16, 6, 0, 0, 0, 0, 0, 0, 0] ++
    [0, 0, 0, 1, 0x49, 0x44, 0x41, 0x54, 0, 0, 0, 0, 0] ++
    [0, 0, 0, 0, 0x49, 0x45, 0x4e, 0x44, 0, 0, 0, 0]

def wideRpng : Rpng :=
  { rpngAlloc with
    hasIhdr := true
    ihdr := ⟨0x4000000, 1, 16, 6, 0, 0, 0⟩
    buffData := 33 }

theorem wideFile_accepted : Accepted wideFile
    { wideRpng with hasIdat := true, hasIend := true, idatBuf := [0], buffData := 46 } := by
  refine ⟨{ wideRpng with hasIdat := true, idatBuf := [0], buffData := 46 }, ?_, rfl, rfl⟩
  have hstart : ReadsOn wideFile { rpngAlloc with buffData := 8 } := .start rfl
  have hihdr : ReadsOn wideFile wideRpng := .next hstart rfl
  exact .next hihdr rfl

theorem png_outside :
    (∃ n, decode wideFile (fun _ => 1) onesInflate n = none) ∧
      ¬ (deflateSpace .argb 1 1).Inside := by
  constructor
  · apply decode_outside wideFile_accepted
    intro hfits
    have hline := hfits (by decide) 0 (by decide)
    exact absurd hline.scanline (by decide)
  · intro hinside
    exact absurd (hinside 2 (by decide)) (by decide)

end RetroArch.Png
