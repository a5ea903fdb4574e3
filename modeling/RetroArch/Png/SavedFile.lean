/- The chunk reader on a file that was saved. -/

import RetroArch.Png.LineInverse

namespace RetroArch.Png

open Encodings Library.Bytes Library.Memory

section Chunks

theorem peeks_append {α : Type*} (front mid behind : List α) :
    peeks (front ++ mid ++ behind) front.length mid.length = some mid := by
  have hfits : front.length + mid.length ≤ (front ++ mid ++ behind).length := by
    rw [List.length_append, List.length_append]
    omega
  rw [peeks_of_le hfits, List.append_assoc, List.drop_left, List.take_left]

theorem length_writeChunk (size : ℕ) (body : List UInt8) :
    (writeChunk size body).length = body.length + 8 := by
  unfold writeChunk
  rw [List.length_append, List.length_append, length_toBE, length_toBE]
  omega

variable {data front behind type payload : List UInt8}

/-- A chunk that was written behind `front`. -/
structure WrittenAt (data front type payload : List UInt8) : Prop where
  eq : ∃ behind, data = front ++ writeChunk payload.length (type ++ payload) ++ behind
  four : type.length = 4
  letters : type.all isLetter = true
  size : payload.length < 2 ^ 32

theorem WrittenAt.length (h : WrittenAt data front type payload) :
    front.length + payload.length + 12 ≤ data.length := by
  obtain ⟨behind, rfl⟩ := h.eq
  have htype := h.four
  rw [List.length_append, List.length_append, length_writeChunk, List.length_append]
  omega

theorem WrittenAt.peek_size (h : WrittenAt data front type payload) :
    peeks data front.length 4 = some (toBE 4 payload.length) := by
  obtain ⟨behind, rfl⟩ := h.eq
  have hpeek := peeks_append front (toBE 4 payload.length)
    (type ++ payload ++ toBE 4 (encodingCrc32 0 (type ++ payload)).toNat ++ behind)
  rw [length_toBE] at hpeek
  unfold writeChunk
  simp only [List.append_assoc] at hpeek ⊢
  exact hpeek

theorem WrittenAt.peek_type (h : WrittenAt data front type payload) :
    peeks data (front.length + 4) 4 = some type := by
  obtain ⟨behind, rfl⟩ := h.eq
  have hpeek := peeks_append (front ++ toBE 4 payload.length) type
    (payload ++ toBE 4 (encodingCrc32 0 (type ++ payload)).toNat ++ behind)
  rw [List.length_append, length_toBE, h.four] at hpeek
  unfold writeChunk
  simp only [List.append_assoc] at hpeek ⊢
  exact hpeek

theorem WrittenAt.peek_payload (h : WrittenAt data front type payload) :
    peeks data (front.length + 8) payload.length = some payload := by
  obtain ⟨behind, rfl⟩ := h.eq
  have hpeek := peeks_append (front ++ toBE 4 payload.length ++ type) payload
    (toBE 4 (encodingCrc32 0 (type ++ payload)).toNat ++ behind)
  rw [List.length_append, List.length_append, length_toBE, h.four] at hpeek
  unfold writeChunk
  simp only [List.append_assoc] at hpeek ⊢
  exact hpeek

theorem WrittenAt.header (h : WrittenAt data front type payload) :
    readChunkHeader data front.length = some (some ⟨UInt32.ofNat payload.length, type⟩) := by
  have hlen := h.length
  have hsize : dwordBe (toBE 4 payload.length) = UInt32.ofNat payload.length := by
    unfold dwordBe
    rw [ofBE_toBE h.size]
  have hnat : (UInt32.ofNat payload.length).toNat = payload.length :=
    UInt32.toNat_ofNat_of_lt' h.size
  have hheader : ¬ buffEnd data < front.length + 8 := by
    unfold buffEnd
    omega
  have hchunk : ¬ front.length + 8 + (UInt32.ofNat payload.length).toNat > buffEnd data := by
    rw [hnat]
    unfold buffEnd
    omega
  unfold readChunkHeader
  rw [if_neg hheader, h.peek_size, Option.bind_some]
  dsimp only
  rw [hsize, if_neg hchunk, h.peek_type, Option.map_some, if_pos h.letters]

/-- A call on a chunk that was written and does not end the file moves on behind it. -/
theorem WrittenAt.iterate (h : WrittenAt data front type payload) {rpng rpng' : Rpng}
    (hpos : rpng.buffData = front.length)
    (hchunk : rpngChunk data rpng ⟨UInt32.ofNat payload.length, type⟩ = some (true, rpng'))
    (hpos' : rpng'.buffData = front.length) (hsize : payload.length + 12 < 2 ^ 32)
    (hmore : front.length + payload.length + 12 < data.length) :
    rpngIterateImage data rpng =
      some (true, { rpng' with buffData := front.length + (payload.length + 12) }) := by
  have hnat : (UInt32.ofNat payload.length + 12).toNat = payload.length + 12 := by
    rw [UInt32.toNat_add, UInt32.toNat_ofNat_of_lt' h.size]
    exact Nat.mod_eq_of_lt hsize
  have hinside : ¬ rpng.buffData > buffEnd data := by
    rw [hpos]
    unfold buffEnd
    omega
  have hnext : ¬ front.length + (payload.length + 12) > buffEnd data := by
    unfold buffEnd
    omega
  unfold rpngIterateImage
  rw [if_neg hinside, hpos, h.header, Option.bind_some]
  dsimp only
  rw [hchunk, Option.map_some]
  dsimp only
  rw [if_pos rfl, hpos', hnat, decide_eq_false hnext]
  rfl

end Chunks

section Saved

variable {format : PixelFormat} {width height : UInt32} {z : List UInt8}

/-- The file of a deflated image. -/
def savedFile (format : PixelFormat) (width height : UInt32) (z : List UInt8) : List UInt8 :=
  pngMagic ++ pngWriteIhdr (saveIhdr format width height) ++ pngWriteIdat z ++ pngWriteIend

def ihdrPayload (ihdr : PngIhdr) : List UInt8 :=
  toBE 4 ihdr.width.toNat ++ toBE 4 ihdr.height.toNat ++
    [ihdr.depth, ihdr.colorType, ihdr.compression, ihdr.filter, ihdr.interlace]

theorem length_ihdrPayload (ihdr : PngIhdr) : (ihdrPayload ihdr).length = 13 := by
  unfold ihdrPayload
  rw [List.length_append, List.length_append, length_toBE, length_toBE]
  rfl

theorem pngWriteIhdr_eq (ihdr : PngIhdr) :
    pngWriteIhdr ihdr = writeChunk (ihdrPayload ihdr).length (typeIhdr ++ ihdrPayload ihdr) := by
  rw [length_ihdrPayload]
  unfold pngWriteIhdr ihdrPayload
  simp only [List.append_assoc]

theorem length_pngWriteIhdr (ihdr : PngIhdr) : (pngWriteIhdr ihdr).length = 25 := by
  rw [pngWriteIhdr_eq, length_writeChunk, List.length_append, length_ihdrPayload]
  rfl

theorem length_pngWriteIdat (z : List UInt8) : (pngWriteIdat z).length = z.length + 12 := by
  unfold pngWriteIdat
  rw [length_writeChunk, List.length_append]
  have htype : typeIdat.length = 4 := rfl
  omega

theorem ihdr_written (format : PixelFormat) (width height : UInt32) (z : List UInt8) :
    WrittenAt (savedFile format width height z) pngMagic typeIhdr
      (ihdrPayload (saveIhdr format width height)) where
  eq := by
    refine ⟨pngWriteIdat z ++ pngWriteIend, ?_⟩
    unfold savedFile
    rw [pngWriteIhdr_eq]
    simp only [List.append_assoc]
  four := rfl
  letters := rfl
  size := by
    rw [length_ihdrPayload]
    decide

theorem idat_written (format : PixelFormat) (width height : UInt32)
    (hsize : z.length + 12 < 2 ^ 32) :
    WrittenAt (savedFile format width height z)
      (pngMagic ++ pngWriteIhdr (saveIhdr format width height)) typeIdat z where
  eq := ⟨pngWriteIend, rfl⟩
  four := rfl
  letters := rfl
  size := by omega

theorem iend_written (format : PixelFormat) (width height : UInt32) (z : List UInt8) :
    WrittenAt (savedFile format width height z)
      (pngMagic ++ pngWriteIhdr (saveIhdr format width height) ++ pngWriteIdat z) typeIend [] where
  eq := ⟨[], by rw [List.append_nil]; rfl⟩
  four := rfl
  letters := rfl
  size := by decide

theorem parse_ihdrPayload {data : List UInt8} {ihdr : PngIhdr} {buf : ℕ}
    (h : peeks data (buf + 8) 13 = some (ihdrPayload ihdr)) :
    pngParseIhdr data buf = some ihdr := by
  have hword : ∀ v : UInt32, dwordBe (toBE 4 v.toNat) = v := by
    intro v
    unfold dwordBe
    rw [ofBE_toBE v.toNat_lt, UInt32.ofNat_toNat]
  have hwidth : (ihdrPayload ihdr).take 4 = toBE 4 ihdr.width.toNat := rfl
  have hheight : ((ihdrPayload ihdr).drop 4).take 4 = toBE 4 ihdr.height.toNat := rfl
  unfold pngParseIhdr
  rw [h, Option.map_some, hwidth, hheight, hword, hword]
  rfl

/-- What the chunks of a saved file have told before the last one. -/
def savedRpng (format : PixelFormat) (width height : UInt32) (z : List UInt8) : Rpng :=
  { rpngAlloc with
    hasIhdr := true
    hasIdat := true
    idatBuf := z
    ihdr := saveIhdr format width height
    buffData := 33 + (z.length + 12) }

theorem rpngStart_saved (format : PixelFormat) (width height : UInt32) (z : List UInt8) :
    rpngStart (savedFile format width height z) =
      some (true, { rpngAlloc with buffData := 8 }) := by
  have hlen := (ihdr_written format width height z).length
  have hmagic : pngMagic.length = 8 := rfl
  have hpeek : peeks (savedFile format width height z) 0 8 = some pngMagic := by
    have happend := peeks_append [] pngMagic (pngWriteIhdr (saveIhdr format width height) ++
      pngWriteIdat z ++ pngWriteIend)
    rw [← happend]
    unfold savedFile
    simp only [List.nil_append, List.append_assoc]
    rfl
  have hlong : ¬ ((savedFile format width height z).length < 1 ∨
      buffEnd (savedFile format width height z) < 8) := by
    unfold buffEnd
    omega
  unfold rpngStart
  rw [if_neg hlong, hpeek, Option.map_some, if_pos rfl]

theorem processIhdr_save (format : PixelFormat) (width height : UInt32) :
    pngProcessIhdr (saveIhdr format width height) = true := by
  cases format with
  | argb => rfl
  | bgr24 => rfl

/-- What is known behind the header. -/
def headerRpng (format : PixelFormat) (width height : UInt32) (buffData : ℕ) : Rpng :=
  { rpngAlloc with
    hasIhdr := true
    ihdr := saveIhdr format width height
    buffData := buffData }

theorem rpngChunk_ihdr {data : List UInt8} (hwidth : width ≠ 0) (hheight : height ≠ 0)
    (hpeek : peeks data (8 + 8) 13 = some (ihdrPayload (saveIhdr format width height))) :
    rpngChunk data { rpngAlloc with buffData := 8 } ⟨13, typeIhdr⟩ =
      some (true, headerRpng format width height 8) := by
  have hzero : ¬ (decide ((saveIhdr format width height).width = 0) ||
      decide ((saveIhdr format width height).height = 0)) = true := by
    rw [Bool.or_eq_true, decide_eq_true_iff, decide_eq_true_iff]
    exact not_or.mpr ⟨hwidth, hheight⟩
  have hprocess : ¬ (!pngProcessIhdr (saveIhdr format width height)) = true := by
    rw [processIhdr_save]
    exact Bool.false_ne_true
  have hparse : (pngParseIhdr data 8).map (fun ihdr =>
      let rpng : Rpng := { rpngAlloc with buffData := 8, ihdr := ihdr }
      if ihdr.width = 0 || ihdr.height = 0 then (false, rpng)
      else if !pngProcessIhdr ihdr then (false, rpng)
      else (true, { rpng with hasIhdr := true })) =
        some (true, headerRpng format width height 8) := by
    rw [parse_ihdrPayload hpeek, Option.map_some]
    dsimp only
    rw [if_neg hzero, if_neg hprocess]
    rfl
  exact hparse

theorem rpngChunk_idat (format : PixelFormat) (width height : UInt32) {data : List UInt8}
    {buf : ℕ} {size : UInt32} (hsize : size.toNat = z.length)
    (hpeek : peeks data (buf + 8) z.length = some z) :
    rpngChunk data (headerRpng format width height buf) ⟨size, typeIdat⟩ =
      some (true, { headerRpng format width height buf with idatBuf := z, hasIdat := true }) := by
  have hplt : ¬ (!(headerRpng format width height buf).hasIhdr ||
      (headerRpng format width height buf).hasIend ||
      ((headerRpng format width height buf).ihdr.color == .plt &&
        !(headerRpng format width height buf).hasPlte)) = true := by
    cases format with
    | argb => exact Bool.false_ne_true
    | bgr24 => exact Bool.false_ne_true
  have htype : pngChunkType ⟨size, typeIdat⟩ = .idat := rfl
  unfold rpngChunk
  dsimp only
  rw [htype]
  dsimp only
  rw [if_neg hplt, hsize]
  exact congrArg (Option.map _) hpeek

/-- And behind it. -/
def validRpng (format : PixelFormat) (width height : UInt32) (z : List UInt8) : Rpng :=
  { savedRpng format width height z with hasIend := true }

theorem saved_accepted (format : PixelFormat) (hwidth : width ≠ 0) (hheight : height ≠ 0)
    (hsize : z.length + 12 < 2 ^ 32) :
    Accepted (savedFile format width height z) (validRpng format width height z) := by
  have hihdr := ihdr_written format width height z
  have hidat := idat_written format width height hsize
  have hiend := iend_written format width height z
  have hlen := hiend.length
  have hmagic : pngMagic.length = 8 := rfl
  have hfront : (pngMagic ++ pngWriteIhdr (saveIhdr format width height)).length = 33 := by
    rw [List.length_append, length_pngWriteIhdr]
    rfl
  have hbehind : (pngMagic ++ pngWriteIhdr (saveIhdr format width height) ++
      pngWriteIdat z).length = 33 + (z.length + 12) := by
    rw [List.length_append, hfront, length_pngWriteIdat]
  have hread₁ : ReadsOn (savedFile format width height z) { rpngAlloc with buffData := 8 } :=
    ReadsOn.start (rpngStart_saved format width height z)
  have hread₂ : ReadsOn (savedFile format width height z) (headerRpng format width height 33) := by
    apply hread₁.next
    have hpeek := hihdr.peek_payload
    rw [length_ihdrPayload] at hpeek
    have hnext := WrittenAt.iterate hihdr rfl
      (by rw [length_ihdrPayload]; exact rpngChunk_ihdr hwidth hheight hpeek) rfl
      (by rw [length_ihdrPayload]; decide)
      (by rw [length_ihdrPayload]; omega)
    rw [length_ihdrPayload] at hnext
    exact hnext
  have hread₃ : ReadsOn (savedFile format width height z) (savedRpng format width height z) := by
    apply hread₂.next
    have hpeek := hidat.peek_payload
    have hnext := WrittenAt.iterate hidat hfront.symm
      (by
        rw [hfront] at hpeek
        exact rpngChunk_idat format width height (UInt32.toNat_ofNat_of_lt' hidat.size) hpeek)
      hfront.symm hsize (by omega)
    rw [hfront] at hnext
    exact hnext
  refine ⟨savedRpng format width height z, hread₃, ?_, rfl⟩
  have hinside : ¬ (savedRpng format width height z).buffData >
      buffEnd (savedFile format width height z) := by
    unfold buffEnd savedRpng
    dsimp only
    omega
  have hheader := hiend.header
  rw [hbehind] at hheader
  unfold rpngIterateImage
  rw [if_neg hinside]
  have hbuf : (savedRpng format width height z).buffData = 33 + (z.length + 12) := rfl
  rw [hbuf, hheader]
  rfl

end Saved

end RetroArch.Png
