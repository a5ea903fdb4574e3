/- What stands in the target, and in the running checksums, after so many bytes of differences. -/

import RetroArch.Tasks.UpsPatch

namespace RetroArch.Tasks

open Encodings

/-- The differences over the source, filled up with zeros. -/
def patched (es source : List UInt8) : List UInt8 := es.mapIdx fun i e => e ^^^ source.getD i 0

@[simp] theorem length_patched (es source : List UInt8) :
    (patched es source).length = es.length := List.length_mapIdx

theorem patched_concat (es source : List UInt8) (e : UInt8) :
    patched (es ++ [e]) source = patched es source ++ [e ^^^ source.getD es.length 0] := by
  rw [patched, List.mapIdx_concat, patched]

/-- The source side after some differences. -/
structure SourceAt (source es : List UInt8) (data : UpsData) : Prop where
  sourceData : data.sourceData = source
  sourceLength : data.sourceLength = source.length
  sourceOffset : data.sourceOffset = min es.length source.length
  sourceChecksum : data.sourceChecksum = (source.take es.length).foldl crc32Step (~~~0)

/-- The target side after them, in a buffer that held `old`. -/
structure TargetAt (source : List UInt8) (size : ℕ) (old es : List UInt8) (data : UpsData) :
    Prop where
  targetLength : data.targetLength = size
  targetOffset : data.targetOffset = es.length
  targetData : data.targetData =
    (patched es source).take size ++ old.drop (min es.length size)
  targetChecksum : data.targetChecksum = ((patched es source).take size).foldl crc32Step (~~~0)

section Step

variable {source old es : List UInt8} {size : ℕ} {data : UpsData}

theorem SourceAt.read (h : SourceAt source es data) (e : UInt8) :
    (upsSourceRead data).1 = source.getD es.length 0 ∧
      SourceAt source (es ++ [e]) (upsSourceRead data).2 := by
  have hlen : (es ++ [e]).length = es.length + 1 := List.length_append
  rw [upsSourceRead]
  split_ifs with hmore
  · rw [h.sourceOffset, h.sourceLength] at hmore
    have hoffset : data.sourceOffset = es.length := by
      rw [h.sourceOffset]
      omega
    have hlt : es.length < source.length := by omega
    refine ⟨by simp only [h.sourceData, hoffset], h.sourceData, h.sourceLength, ?_, ?_⟩
    · simp only [hlen, hoffset]
      omega
    · simp only [hlen, h.sourceData, hoffset, encodingCrc32_byte, h.sourceChecksum]
      rw [List.take_add_one, List.foldl_append, List.getElem?_eq_getElem hlt,
        List.getD_eq_getElem?_getD, List.getElem?_eq_getElem hlt]
      rfl
  · rw [h.sourceOffset, h.sourceLength] at hmore
    have hle : source.length ≤ es.length := by omega
    refine ⟨?_, h.sourceData, h.sourceLength, ?_, ?_⟩
    · rw [List.getD_eq_default _ _ hle]
    · rw [h.sourceOffset, hlen]
      omega
    · rw [h.sourceChecksum, List.take_of_length_le hle, hlen, List.take_of_length_le (by omega)]

theorem take_patched_lt (source : List UInt8) (e : UInt8) (h : es.length < size) :
    (patched (es ++ [e]) source).take size =
      (patched es source).take size ++ [e ^^^ source.getD es.length 0] := by
  rw [patched_concat, List.take_of_length_le, List.take_of_length_le]
  · rw [length_patched]
    exact Nat.le_of_lt h
  · rw [List.length_append, length_patched]
    exact h

theorem take_patched_ge (source : List UInt8) (e : UInt8) (h : size ≤ es.length) :
    (patched (es ++ [e]) source).take size = (patched es source).take size := by
  rw [patched_concat, List.take_append_of_le_length (by rw [length_patched]; exact h)]

theorem TargetAt.write (h : TargetAt source size old es data) (hsize : size ≤ old.length)
    (hlt : es.length + 1 < 2 ^ 32) (e : UInt8) :
    TargetAt source size old (es ++ [e])
      (upsTargetWrite data (e ^^^ source.getD es.length 0)) := by
  have hlen : (es ++ [e]).length = es.length + 1 := List.length_append
  have hoffset : (data.targetOffset + 1) % 2 ^ 32 = (es ++ [e]).length := by
    rw [h.targetOffset, hlen, Nat.mod_eq_of_lt hlt]
  rw [upsTargetWrite]
  split_ifs with hmore
  · rw [h.targetOffset, h.targetLength] at hmore
    have hfront : (patched es source).take size = patched es source :=
      List.take_of_length_le (by rw [length_patched]; omega)
    refine ⟨h.targetLength, hoffset, ?_, ?_⟩
    · simp only [h.targetData, h.targetOffset]
      rw [take_patched_lt source e hmore, hfront, hlen, Nat.min_eq_left (Nat.le_of_lt hmore),
        Nat.min_eq_left hmore, List.set_append_right _ _ (by rw [length_patched]),
        length_patched, Nat.sub_self, List.drop_eq_getElem_cons (by omega), List.set_cons_zero,
        List.append_assoc]
      rfl
    · simp only [encodingCrc32_byte, h.targetChecksum]
      rw [take_patched_lt source e hmore, List.foldl_append]
      rfl
  · rw [h.targetOffset, h.targetLength] at hmore
    refine ⟨h.targetLength, hoffset, ?_, ?_⟩
    · simp only [h.targetData]
      rw [take_patched_ge source e (by omega), hlen, Nat.min_eq_right (by omega),
        Nat.min_eq_right (by omega)]
    · simp only [h.targetChecksum]
      rw [take_patched_ge source e (by omega)]

end Step

section Run

variable {source old es : List UInt8} {size : ℕ} {data : UpsData}

/-- Both sides after the same differences. -/
structure IoAt (source : List UInt8) (size : ℕ) (old es : List UInt8) (data : UpsData) : Prop where
  fromSource : SourceAt source es data
  toTarget : TargetAt source size old es data

theorem IoAt.xor (h : IoAt source size old es data) (hsize : size ≤ old.length) (e : UInt8)
    (hlt : es.length + 1 < 2 ^ 32) : IoAt source size old (es ++ [e]) (upsXor e data) := by
  obtain ⟨hbyte, hsource⟩ := h.fromSource.read e
  have htarget : TargetAt source size old es (upsSourceRead data).2 := by
    rw [upsSourceRead]
    obtain ⟨h1, h2, h3, h4⟩ := h.toTarget
    split_ifs <;> exact ⟨h1, h2, h3, h4⟩
  have hwrite := htarget.write hsize hlt e
  rw [← hbyte] at hwrite
  refine ⟨?_, hwrite⟩
  obtain ⟨h1, h2, h3, h4⟩ := hsource
  rw [upsXor]
  simp only
  rw [upsTargetWrite]
  split_ifs <;> exact ⟨h1, h2, h3, h4⟩

theorem IoAt.xored (h : IoAt source size old es data) (hsize : size ≤ old.length) (fs : List UInt8)
    (hlt : (es ++ fs).length < 2 ^ 32) : IoAt source size old (es ++ fs) (data.xored fs) := by
  induction fs generalizing es data with
  | nil =>
    rw [List.append_nil]
    exact h
  | cons f fs ih =>
    have hone : es.length + 1 < 2 ^ 32 := by
      rw [List.length_append, List.length_cons] at hlt
      omega
    have hmore := ih (h.xor hsize f hone) (by rw [List.append_assoc]; exact hlt)
    rw [List.append_assoc] at hmore
    exact hmore

theorem IoAt.read (h : IoAt source size old es data) (bs : List UInt8) :
    IoAt source size old es (data.read bs) := by
  obtain ⟨⟨h1, h2, h3, h4⟩, ⟨h5, h6, h7, h8⟩⟩ := h
  exact ⟨⟨h1, h2, h3, h4⟩, ⟨h5, h6, h7, h8⟩⟩

/-- What the hunks leave is copied, up to the end of the longer file. -/
theorem IoAt.rest (h : IoAt source size old es data) (hsize : size ≤ old.length)
    (hes : es.length < 2 ^ 32) (hsource : source.length < 2 ^ 32) (hlt : size < 2 ^ 32) :
    ∃ k, upsRest data = data.xored (List.replicate k 0) ∧
      es.length + k = max es.length (max source.length size) ∧
      IoAt source size old (es ++ List.replicate k 0) (upsRest data) := by
  have hlen : ∀ k, (es ++ List.replicate k (0 : UInt8)).length = es.length + k := by
    intro k
    rw [List.length_append, List.length_replicate]
  have hcopied := h.xored hsize
    (List.replicate (data.sourceLength - data.sourceOffset) 0) (by
      rw [hlen, h.fromSource.sourceLength, h.fromSource.sourceOffset]
      omega)
  have hrest : upsRest data = data.xored (List.replicate
      (data.sourceLength - data.sourceOffset + (size - (es.length +
        (data.sourceLength - data.sourceOffset)))) 0) := by
    rw [upsRest]
    simp only [upsCopy_eq]
    rw [hcopied.toTarget.targetLength, hcopied.toTarget.targetOffset, hlen,
      UpsData.xored_xored, List.replicate_append_replicate]
  have htotal : es.length + (data.sourceLength - data.sourceOffset + (size - (es.length +
      (data.sourceLength - data.sourceOffset)))) = max es.length (max source.length size) := by
    rw [h.fromSource.sourceLength, h.fromSource.sourceOffset]
    omega
  refine ⟨_, hrest, htotal, ?_⟩
  rw [hrest]
  apply h.xored hsize
  rw [hlen, htotal]
  omega

end Run

theorem getD_append_zeros (l : List UInt8) (k i : ℕ) :
    (l ++ List.replicate k 0).getD i 0 = l.getD i 0 := by
  rcases Nat.lt_or_ge i l.length with hlt | hge
  · rw [List.getD_append _ _ _ _ hlt]
  · rw [List.getD_append_right _ _ _ _ hge, List.getD_eq_default _ _ hge,
      List.getD_eq_getElem?_getD, List.getElem?_replicate]
    split_ifs <;> rfl

theorem getD_difference (s t : List UInt8) (i : ℕ) :
    (difference s t).getD i 0 = s.getD i 0 ^^^ t.getD i 0 := by
  rcases Nat.lt_or_ge i (max s.length t.length) with hlt | hge
  · rw [difference, List.getD_eq_getElem?_getD, List.getElem?_map, List.getElem?_range hlt]
    rfl
  · rw [difference, List.getD_eq_default _ _ (by rw [List.length_map, List.length_range]; exact hge),
      List.getD_eq_default _ _ (le_trans (le_max_left _ _) hge),
      List.getD_eq_default _ _ (le_trans (le_max_right _ _) hge)]
    rfl

theorem getD_patched {es source : List UInt8} {i : ℕ} (h : i < es.length) :
    (patched es source).getD i 0 = es.getD i 0 ^^^ source.getD i 0 := by
  rw [patched, List.getD_eq_getElem?_getD, List.getElem?_mapIdx, List.getElem?_eq_getElem h,
    List.getD_eq_getElem?_getD (l := es), List.getElem?_eq_getElem h]
  rfl

theorem Splits.getD {hs : List UpsHunk} {s t : List UInt8} (h : Splits hs s t) (i : ℕ) :
    (expandAll hs).getD i 0 = s.getD i 0 ^^^ t.getD i 0 := by
  obtain ⟨k, hk⟩ := h
  have hone : ([0] : List UInt8) = List.replicate 1 0 := rfl
  rw [← getD_append_zeros _ k, hk, hone, getD_append_zeros, getD_difference]

theorem Splits.length_le {hs : List UpsHunk} {s t : List UInt8} (h : Splits hs s t) :
    (expandAll hs).length ≤ max s.length t.length + 1 := by
  obtain ⟨k, hk⟩ := h
  have hlen := congrArg List.length hk
  rw [List.length_append, List.length_append, difference, List.length_map, List.length_range,
    List.length_singleton] at hlen
  omega

theorem xor_eq_iff (a b c : UInt8) : a ^^^ b = c ↔ a = b ^^^ c := by
  constructor
  · rintro rfl
    rw [UInt8.xor_comm a b, ← UInt8.xor_assoc, UInt8.xor_self, UInt8.zero_xor]
  · rintro rfl
    rw [UInt8.xor_comm b c, UInt8.xor_assoc, UInt8.xor_self, UInt8.xor_zero]

theorem take_patched_eq_iff {es source result : List UInt8} (hlen : result.length ≤ es.length) :
    (patched es source).take result.length = result ↔
      ∀ i < result.length, es.getD i 0 = source.getD i 0 ^^^ result.getD i 0 := by
  have hat : ∀ i < result.length, ((patched es source).take result.length).getD i 0 =
      es.getD i 0 ^^^ source.getD i 0 := by
    intro i hi
    rw [List.getD_eq_getElem?_getD, List.getElem?_take_of_lt hi, ← List.getD_eq_getElem?_getD,
      getD_patched (by omega)]
  have htake : ((patched es source).take result.length).length = result.length := by
    rw [List.length_take, length_patched, Nat.min_eq_left hlen]
  constructor
  · intro h i hi
    rw [← xor_eq_iff, ← hat i hi, h]
  · intro h
    apply List.ext_getElem htake
    intro i hi hi'
    have hbyte := hat i hi'
    rw [(xor_eq_iff _ _ _).mpr (h i hi'), List.getD_eq_getElem _ _ hi,
      List.getD_eq_getElem _ _ hi'] at hbyte
    exact hbyte

end RetroArch.Tasks
