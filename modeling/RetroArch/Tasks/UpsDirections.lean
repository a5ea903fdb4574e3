/- A patch applied to either file of its pair, and exactly when both ways give the other file. -/

import RetroArch.Tasks.UpsTarget

namespace RetroArch.Tasks

open Encodings Library Library.Bytes

/-- From one file of the pair to the other. -/
def Direction (s t source result : List UInt8) : Prop :=
  (source = s ∧ result = t) ∨ (source = t ∧ result = s)

/-- The patch gives this file, in a buffer that long. -/
def Applies (patch source result target : List UInt8) : Prop :=
  ∃ out, upsApplyPatch patch source target = some ⟨.success, out, result.length⟩ ∧
    out.take result.length = result

section Header

/-- The state the reading starts from. -/
def upsStart (patch source target : List UInt8) : UpsData :=
  { patchData := patch
    sourceData := source
    targetData := target
    patchLength := patch.length % 2 ^ 32
    sourceLength := source.length % 2 ^ 32
    targetLength := target.length % 2 ^ 32
    patchOffset := 0
    sourceOffset := 0
    targetOffset := 0
    patchChecksum := ~~~0
    sourceChecksum := ~~~0
    targetChecksum := ~~~0 }

variable {s t source result target : List UInt8} {hs : List UpsHunk}

theorem bounded_upsStart (patch source target : List UInt8) :
    (upsStart patch source target).Bounded := Nat.mod_le _ _

theorem unread_upsStart (patch source target : List UInt8) :
    (upsStart patch source target).unread = patch.take (patch.length % 2 ^ 32) := rfl

theorem upsMagic_read {data : UpsData} {tail : List UInt8}
    (h : data.unread = upsMagicBytes ++ tail) :
    upsMagic data = (true, data.read upsMagicBytes) := by
  obtain ⟨ra, ua⟩ := upsPatchRead_step h
  obtain ⟨rb, ub⟩ := upsPatchRead_step ua
  obtain ⟨rc, uc⟩ := upsPatchRead_step ub
  obtain ⟨rd, -⟩ := upsPatchRead_step uc
  rw [upsMagic, ra]
  simp only [rb, rc, rd]
  rw [UpsData.read_read, UpsData.read_read, UpsData.read_read]
  rfl

theorem length_upsHeader (hs : s.length < 2 ^ 32) (ht : t.length < 2 ^ 32) :
    (upsHeader s t).length ≤ 14 := by
  have hslen := Varint.length_encode_le (show s.length < 128 ^ (4 + 1) by omega)
  have htlen := Varint.length_encode_le (show t.length < 128 ^ (4 + 1) by omega)
  rw [upsHeader, List.length_append, List.length_append, upsMagicBytes]
  simp only [List.length_cons, List.length_nil]
  omega

theorem toNat_length {n : ℕ} (h : n < 2 ^ 32) : (UInt64.ofNat n).toNat % 2 ^ 32 = n := by
  rw [UInt64.toNat_ofNat']
  omega

theorem upsApplyPatch_header {patch tail : List UInt8} (hslen : s.length < 2 ^ 32)
    (htlen : t.length < 2 ^ 32) (hlong : 18 ≤ patch.length % 2 ^ 32)
    (hunread : patch.take (patch.length % 2 ^ 32) = upsHeader s t ++ tail) :
    upsApplyPatch patch source target =
      upsApplySized ((upsStart patch source target).read (upsHeader s t)) target.length
        s.length t.length := by
  have hb := bounded_upsStart patch source target
  have hmagic : (upsStart patch source target).unread =
      upsMagicBytes ++ ((Varint.encode s.length ++ Varint.encode t.length) ++ tail) := by
    rw [unread_upsStart, hunread, upsHeader, List.append_assoc]
  have hs : ((upsStart patch source target).read upsMagicBytes).unread =
      Varint.encode s.length ++ (Varint.encode t.length ++ tail) := by
    rw [UpsData.unread_read hmagic, List.append_assoc]
  have ht := UpsData.unread_read hs
  have happly : upsApplyPatch patch source target =
      (upsDecode ((upsStart patch source target).read upsMagicBytes)).bind fun sized =>
        (upsDecode sized.2).bind fun sized' =>
          upsApplySized sized'.2 target.length (sized.1.toNat % 2 ^ 32)
            (sized'.1.toNat % 2 ^ 32) := by
    have hread := upsMagic_read hmagic
    rw [upsStart] at hread
    rw [upsApplyPatch]
    simp only
    rw [if_neg (Nat.not_lt.mpr hlong), hread]
    rfl
  rw [happly, upsDecode_encode (UpsData.bounded_read hb _) hs, Option.bind_some]
  simp only
  rw [upsDecode_encode (UpsData.bounded_read (UpsData.bounded_read hb _) _) ht, Option.bind_some]
  simp only
  rw [toNat_length hslen, toNat_length htlen, UpsData.read_read, UpsData.read_read]
  rfl

theorem not_applies_of_short {patch : List UInt8} (h : patch.length % 2 ^ 32 < 18) :
    ¬ Applies patch source result target := by
  rintro ⟨out, happly, -⟩
  rw [upsApplyPatch] at happly
  simp only at happly
  rw [if_pos h] at happly
  exact PatchError.noConfusion (congrArg UpsResult.err (Option.some.inj happly))

/-- What is left to do after the hunks. -/
def upsFinish (sourceReadLength targetReadLength targetlength : ℕ) (data : UpsData) : UpsResult :=
  let (err, data) := upsVerdict (upsRest data) sourceReadLength targetReadLength
  ⟨err, data.targetData, targetlength⟩

theorem upsFinish_of_verdict {a b n : ℕ} {data : UpsData} {err : PatchError} {bs : List UInt8}
    (h : upsVerdict (upsRest data) a b = (err, (upsRest data).read bs)) :
    upsFinish a b n data = ⟨err, (upsRest data).targetData, n⟩ := by
  rw [upsFinish, h]
  rfl

theorem upsApplySized_direction (hdir : Direction s t source result) {data : UpsData}
    (hsource : data.sourceLength = source.length) (n : ℕ) :
    upsApplySized data n s.length t.length =
      if data.targetLength < result.length then
        some ⟨.targetTooSmall, data.targetData, result.length⟩
      else
        (upsHunks data.patchLength { data with targetLength := result.length }).map
          (upsFinish s.length t.length result.length) := by
  have hknown : ¬ (data.sourceLength ≠ s.length ∧ data.sourceLength ≠ t.length) := by
    rintro ⟨hs, ht⟩
    rcases hdir with ⟨rfl, -⟩ | ⟨rfl, -⟩
    · exact hs hsource
    · exact ht hsource
  have htarget : (if data.sourceLength = s.length then t.length else s.length) =
      result.length := by
    rw [hsource]
    rcases hdir with ⟨rfl, rfl⟩ | ⟨rfl, rfl⟩
    · exact if_pos rfl
    · split_ifs with hsame
      · exact hsame
      · rfl
  rw [upsApplySized, if_neg hknown]
  unfold upsFinish
  simp only [htarget]

end Header

section Verdict

variable {s t source result : List UInt8}

/-- Both checksums and both lengths in either order are what the header and the trailer say. -/
theorem upsVerdict_success (hdir : Direction s t source result) {data : UpsData} {crc : UInt32}
    (hunread : data.unread = crcBytes (encodingCrc32 0 s) ++
      (crcBytes (encodingCrc32 0 t) ++ (crcBytes crc ++ [])))
    (hpatch : ~~~((crcBytes (encodingCrc32 0 s) ++ crcBytes (encodingCrc32 0 t)).foldl crc32Step
      data.patchChecksum) = crc)
    (hsource : ~~~data.sourceChecksum = encodingCrc32 0 source)
    (hsourceLength : data.sourceLength = source.length)
    (htarget : ~~~data.targetChecksum = encodingCrc32 0 result)
    (htargetLength : data.targetLength = result.length) :
    upsVerdict data s.length t.length = (.success, data.read (crcBytes (encodingCrc32 0 s) ++
      (crcBytes (encodingCrc32 0 t) ++ crcBytes crc))) := by
  have hs := upsReadChecksum_crcBytes hunread
  have hunread' := UpsData.unread_read hunread
  have ht := upsReadChecksum_crcBytes hunread'
  have hcrc := upsReadChecksum_crcBytes (UpsData.unread_read hunread')
  have hchecksum : ~~~((data.read (crcBytes (encodingCrc32 0 s))).read
      (crcBytes (encodingCrc32 0 t))).patchChecksum = crc := by
    rw [UpsData.read_read]
    exact hpatch
  have hsent : ∀ bs, (data.read bs).sourceLength = source.length ∧
      (data.read bs).targetLength = result.length ∧
      ~~~(data.read bs).sourceChecksum = encodingCrc32 0 source ∧
      ~~~(data.read bs).targetChecksum = encodingCrc32 0 result :=
    fun bs => ⟨hsourceLength, htargetLength, hsource, htarget⟩
  rw [upsVerdict, hs]
  simp only
  rw [ht]
  simp only
  rw [hcrc]
  simp only
  rw [if_neg (not_not.mpr hchecksum)]
  simp only [UpsData.read_read, hsent]
  rcases hdir with ⟨rfl, rfl⟩ | ⟨rfl, rfl⟩
  · rw [if_pos ⟨rfl, rfl⟩, if_pos ⟨rfl, rfl⟩, List.append_assoc]
  · by_cases hsame : encodingCrc32 0 source = encodingCrc32 0 result ∧
        source.length = result.length
    · rw [if_pos hsame, if_pos ⟨hsame.1.symm, hsame.2.symm⟩, List.append_assoc]
    · rw [if_neg hsame, if_pos ⟨rfl, rfl⟩, if_pos ⟨rfl, rfl⟩, List.append_assoc]

end Verdict

section Directions

variable {s t source result target : List UInt8} {hs : List UpsHunk}

theorem Direction.length_le (h : Direction s t source result) :
    source.length ≤ max s.length t.length ∧ result.length ≤ max s.length t.length ∧
      max s.length t.length = max source.length result.length := by
  rcases h with ⟨rfl, rfl⟩ | ⟨rfl, rfl⟩ <;> omega

theorem Direction.difference (h : Direction s t source result) (hsplit : Splits hs s t) (i : ℕ) :
    (expandAll hs).getD i 0 = source.getD i 0 ^^^ result.getD i 0 := by
  rw [hsplit.getD i]
  rcases h with ⟨rfl, rfl⟩ | ⟨rfl, rfl⟩
  · rfl
  · exact UInt8.xor_comm _ _

/-- The state the hunks are applied in. -/
def upsReady (s t source result target : List UInt8) (hs : List UpsHunk) : UpsData :=
  { (upsStart (upsPatch s t hs) source target).read (upsHeader s t) with
    targetLength := result.length }

theorem ioAt_upsReady (hsource : source.length < 2 ^ 32) :
    IoAt source result.length target [] (upsReady s t source result target hs) := by
  refine ⟨⟨rfl, Nat.mod_eq_of_lt hsource, ?_, rfl⟩, ⟨rfl, rfl, ?_, ?_⟩⟩
  · exact (Nat.zero_min _).symm
  · show target = ([] : List UInt8).take _ ++ target.drop (min 0 _)
    rw [List.take_nil, Nat.zero_min, List.drop_zero, List.nil_append]
  · show (~~~0 : UInt32) = (([] : List UInt8).take _).foldl crc32Step (~~~0)
    rw [List.take_nil, List.foldl_nil]

theorem bounded_upsReady : (upsReady s t source result target hs).Bounded :=
  bounded_upsStart (upsPatch s t hs) source target

theorem patchChecksum_upsReady : (upsReady s t source result target hs).patchChecksum =
    (upsHeader s t).foldl crc32Step (~~~0) := by
  have hstart : (upsStart (upsPatch s t hs) source target).patchChecksum = ~~~0 := rfl
  have hread := UpsData.read_patchChecksum (upsStart (upsPatch s t hs) source target)
    (upsHeader s t)
  rw [hstart] at hread
  rw [upsReady]
  exact hread

theorem patchChecksum_body (es : List UInt8) (k : ℕ) :
    ~~~((crcBytes (encodingCrc32 0 s) ++ crcBytes (encodingCrc32 0 t)).foldl crc32Step
      ((((upsReady s t source result target hs).xored es).read (hunkBytes hs)).xored
        (List.replicate k 0)).patchChecksum) = encodingCrc32 0 (upsBody s t hs) := by
  rw [xored_patchChecksum, UpsData.read_patchChecksum, xored_patchChecksum,
    patchChecksum_upsReady, ← List.foldl_append, ← List.foldl_append,
    encodingCrc32_zero (upsBody s t hs), upsBody]

theorem skip_lt (hs : List UpsHunk) (h : (expandAll hs).length ≤ 2 ^ 32) :
    ∀ hunk ∈ hs, hunk.skip < 2 ^ 32 := by
  induction hs with
  | nil =>
    intro hunk hmem
    exact absurd hmem List.not_mem_nil
  | cons first hs ih =>
    rw [expandAll_cons, List.length_append, UpsHunk.length_expand] at h
    intro hunk hmem
    rcases List.mem_cons.mp hmem with rfl | hmem
    · omega
    · exact ih (by omega) hunk hmem

/-- What the whole run comes to once the header is read. -/
theorem upsApplyPatch_ready (target : List UInt8) (hdir : Direction s t source result)
    (hslen : s.length < 2 ^ 32) (htlen : t.length < 2 ^ 32) (hlong : 18 ≤ (upsPatch s t hs).length % 2 ^ 32) {tail : List UInt8}
    (hunread : (upsPatch s t hs).take ((upsPatch s t hs).length % 2 ^ 32) =
      upsHeader s t ++ tail) :
    (upsReady s t source result target hs).unread = tail ∧
      upsApplyPatch (upsPatch s t hs) source target =
        if target.length % 2 ^ 32 < result.length then
          some ⟨.targetTooSmall, target, result.length⟩
        else
          (upsHunks ((upsPatch s t hs).length % 2 ^ 32)
            (upsReady s t source result target hs)).map
              (upsFinish s.length t.length result.length) := by
  have hsource : source.length < 2 ^ 32 := by
    have := hdir.length_le
    omega
  have hlength : ((upsStart (upsPatch s t hs) source target).read (upsHeader s t)).sourceLength =
      source.length := Nat.mod_eq_of_lt hsource
  constructor
  · have hstart : (upsStart (upsPatch s t hs) source target).unread = upsHeader s t ++ tail :=
      hunread
    exact UpsData.unread_read hstart
  · rw [upsApplyPatch_header hslen htlen hlong hunread, upsApplySized_direction hdir hlength]
    rfl

theorem upsPatch_eq (s t : List UInt8) (hs : List UpsHunk) :
    upsPatch s t hs = upsHeader s t ++ (hunkBytes hs ++ (crcBytes (encodingCrc32 0 s) ++
      (crcBytes (encodingCrc32 0 t) ++ crcBytes (encodingCrc32 0 (upsBody s t hs))))) := by
  rw [upsPatch, upsBody]
  simp only [List.append_assoc]

@[simp] theorem length_crcBytes (crc : UInt32) : (crcBytes crc).length = 4 := length_toLE 4 _

theorem length_upsPatch (s t : List UInt8) (hs : List UpsHunk) :
    (upsPatch s t hs).length = (upsHeader s t).length + ((hunkBytes hs).length + 12) := by
  rw [upsPatch_eq]
  simp only [List.length_append, length_crcBytes]

theorem length_upsHeader_ge (s t : List UInt8) : 6 ≤ (upsHeader s t).length := by
  have hs := Varint.encode_pos s.length
  have ht := Varint.encode_pos t.length
  rw [upsHeader, List.length_append, List.length_append, upsMagicBytes]
  simp only [List.length_cons, List.length_nil]
  omega

theorem length_hunkBytes_ge (hs : List UpsHunk) : hs.length ≤ (hunkBytes hs).length := by
  induction hs with
  | nil => exact Nat.le_refl 0
  | cons h hs ih =>
    rw [hunkBytes_cons, List.length_append, List.length_cons, UpsHunk.bytes]
    have := Varint.encode_pos h.skip
    simp only [List.length_append]
    omega

/-- A patch of a length that its field holds, applied in a buffer whose length its field holds. -/
theorem applies_of_small (hdir : Direction s t source result) (hslen : s.length < 2 ^ 32)
    (htlen : t.length < 2 ^ 32) (hsplit : Splits hs s t)
    (hpatch : (upsPatch s t hs).length < 2 ^ 32) (hcover : (expandAll hs).length < 2 ^ 32)
    (hroom : max s.length t.length ≤ target.length % 2 ^ 32) :
    Applies (upsPatch s t hs) source result target := by
  obtain ⟨hsourceLe, hresultLe, hmax⟩ := hdir.length_le
  have hlength := length_upsPatch s t hs
  have hheader := length_upsHeader_ge s t
  have hcount := length_hunkBytes_ge hs
  have hmod : (upsPatch s t hs).length % 2 ^ 32 = (upsPatch s t hs).length :=
    Nat.mod_eq_of_lt hpatch
  have hcapacity := Nat.mod_le target.length (2 ^ 32)
  have hunread : (upsPatch s t hs).take ((upsPatch s t hs).length % 2 ^ 32) =
      upsHeader s t ++ (hunkBytes hs ++ (crcBytes (encodingCrc32 0 s) ++
        (crcBytes (encodingCrc32 0 t) ++ crcBytes (encodingCrc32 0 (upsBody s t hs))))) := by
    rw [hmod, List.take_length]
    exact upsPatch_eq s t hs
  obtain ⟨hready, happly⟩ := upsApplyPatch_ready target hdir hslen htlen
    (by rw [hmod]; omega) hunread
  have hb : (upsReady s t source result target hs).Bounded := bounded_upsReady
  have hlong : 12 ≤ (upsReady s t source result target hs).patchLength := by
    show 12 ≤ (upsPatch s t hs).length % 2 ^ 32
    omega
  have hhunks : upsHunks ((upsPatch s t hs).length % 2 ^ 32)
      (upsReady s t source result target hs) =
        some (((upsReady s t source result target hs).xored (expandAll hs)).read
          (hunkBytes hs)) := by
    apply upsHunks_whole hs hb hlong (skip_lt hs (Nat.le_of_lt hcover)) _ hready
    · omega
    · simp only [List.length_append, length_crcBytes]
  -- the two sides of the state after the hunks and after what they leave
  have hstart : IoAt source result.length target [] (upsReady s t source result target hs) :=
    ioAt_upsReady (by omega)
  have hfits : result.length ≤ target.length := by omega
  have hio := (hstart.xored hfits (expandAll hs) hcover).read (hunkBytes hs)
  obtain ⟨k, hrest, htotal, hdone⟩ := hio.rest hfits hcover (by omega) (by omega)
  have hend : (upsRest (((upsReady s t source result target hs).xored (expandAll hs)).read
      (hunkBytes hs))).unread = crcBytes (encodingCrc32 0 s) ++ (crcBytes (encodingCrc32 0 t) ++
        (crcBytes (encodingCrc32 0 (upsBody s t hs)) ++ [])) := by
    rw [hrest, unread_xored, List.append_nil]
    apply UpsData.unread_read
    rw [unread_xored, hready]
  have hout : (patched (expandAll hs ++ List.replicate k 0) source).take result.length = result := by
    apply (take_patched_eq_iff _).mpr
    · intro i _
      rw [getD_append_zeros]
      exact hdir.difference hsplit i
    · rw [List.length_append, List.length_replicate]
      exact le_trans (by omega) (Nat.le_of_eq htotal.symm)
  have hlen : (([] : List UInt8) ++ expandAll hs ++ List.replicate k 0).length =
      max (expandAll hs).length (max source.length result.length) := by
    rw [List.length_append, List.length_replicate]
    exact htotal
  have htake : (patched ([] ++ expandAll hs ++ List.replicate k 0) source).take result.length =
      result := hout
  have hverdict := upsVerdict_success hdir hend
    (by rw [hrest]; exact patchChecksum_body (expandAll hs) k)
    (by
      rw [hdone.fromSource.sourceChecksum, hlen, List.take_of_length_le (by omega),
        encodingCrc32_zero])
    hdone.fromSource.sourceLength
    (by rw [hdone.toTarget.targetChecksum, htake, encodingCrc32_zero])
    hdone.toTarget.targetLength
  have htarget : (upsRest (((upsReady s t source result target hs).xored (expandAll hs)).read
      (hunkBytes hs))).targetData = result ++ target.drop result.length := by
    rw [hdone.toTarget.targetData, htake, hlen, Nat.min_eq_right (by omega)]
  refine ⟨result ++ target.drop result.length, ?_, List.take_left⟩
  rw [happly, if_neg (by omega), hhunks, Option.map_some, upsFinish_of_verdict hverdict, htarget]

end Directions

end RetroArch.Tasks
