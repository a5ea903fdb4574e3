/- What goes wrong past the width of the applier's fields, and when both directions are right. -/

import RetroArch.Tasks.UpsDirections

namespace RetroArch.Tasks

open Encodings Library Library.Bytes

section Output

variable {s t source result target : List UInt8} {hs : List UpsHunk}

theorem upsPatchRead_targetData (data : UpsData) :
    (upsPatchRead data).2.targetData = data.targetData := by
  rw [upsPatchRead]
  split_ifs <;> rfl

theorem upsReadChecksum_targetData (data : UpsData) :
    (upsReadChecksum data).2.targetData = data.targetData := by
  rw [upsReadChecksum]
  simp only [upsPatchRead_targetData]

theorem upsVerdict_targetData (data : UpsData) (a b : ℕ) :
    (upsVerdict data a b).2.targetData = data.targetData := by
  rw [upsVerdict]
  rcases hs : upsReadChecksum data with ⟨source, d1⟩
  rcases ht : upsReadChecksum d1 with ⟨target, d2⟩
  rcases hp : upsReadChecksum d2 with ⟨patch, d3⟩
  have h1 := upsReadChecksum_targetData data
  have h2 := upsReadChecksum_targetData d1
  have h3 := upsReadChecksum_targetData d2
  rw [hs] at h1
  rw [ht] at h2
  rw [hp] at h3
  have hread : d3.targetData = data.targetData := h3.trans (h2.trans h1)
  simp only [ht, hp]
  split_ifs <;> exact hread

theorem upsFinish_targetdata (a b n : ℕ) (data : UpsData) :
    (upsFinish a b n data).targetdata = (upsRest data).targetData := by
  rw [upsFinish, ← upsVerdict_targetData (upsRest data) a b]

/-- A patch that applies is read past its header, in a buffer that is long enough for its field,
and its hunks come to an end. -/
theorem Applies.hunks (happlies : Applies (upsPatch s t hs) source result target)
    (hdir : Direction s t source result) (hslen : s.length < 2 ^ 32) (htlen : t.length < 2 ^ 32) :
    ∃ tail, (upsPatch s t hs).take ((upsPatch s t hs).length % 2 ^ 32) =
        upsHeader s t ++ tail ∧
      (upsReady s t source result target hs).unread = tail ∧
      12 ≤ (upsReady s t source result target hs).patchLength ∧
      result.length ≤ target.length % 2 ^ 32 ∧
      ∃ data, upsHunks ((upsPatch s t hs).length % 2 ^ 32)
          (upsReady s t source result target hs) = some data ∧
        (upsRest data).targetData.take result.length = result := by
  have hlong : 18 ≤ (upsPatch s t hs).length % 2 ^ 32 := by
    by_contra hshort
    exact not_applies_of_short (Nat.lt_of_not_le hshort) happlies
  have hheader := length_upsHeader hslen htlen
  obtain ⟨tail, htail⟩ : ∃ tail, (upsPatch s t hs).take ((upsPatch s t hs).length % 2 ^ 32) =
      upsHeader s t ++ tail := by
    obtain ⟨back, hback⟩ : ∃ back, upsPatch s t hs = upsHeader s t ++ back :=
      ⟨_, upsPatch_eq s t hs⟩
    refine ⟨back.take ((upsPatch s t hs).length % 2 ^ 32 - (upsHeader s t).length), ?_⟩
    conv_lhs => rw [hback, List.take_append, ← hback, List.take_of_length_le (by omega)]
  obtain ⟨hready, happly⟩ := upsApplyPatch_ready target hdir hslen htlen hlong htail
  obtain ⟨out, hout, htake⟩ := happlies
  rw [happly] at hout
  by_cases hroom : target.length % 2 ^ 32 < result.length
  · rw [if_pos hroom] at hout
    exact PatchError.noConfusion (congrArg UpsResult.err (Option.some.inj hout))
  · rw [if_neg hroom] at hout
    obtain ⟨data, hdata, hfinish⟩ := Option.map_eq_some_iff.mp hout
    have hlast : (upsRest data).targetData = out := by
      rw [← upsFinish_targetdata s.length t.length result.length data, hfinish]
    refine ⟨tail, htail, hready, ?_, Nat.le_of_not_lt hroom, data, hdata, ?_⟩
    · show 12 ≤ (upsPatch s t hs).length % 2 ^ 32
      omega
    · rw [hlast]
      exact htake

end Output

section Cut

variable {s t source result target : List UInt8} {hs : List UpsHunk}

theorem sent_of_output (hdir : Direction s t source result) (hslen : s.length < 2 ^ 32)
    (htlen : t.length < 2 ^ 32) (hroom : result.length ≤ target.length) {es bs : List UInt8}
    (hes : es.length < 2 ^ 32)
    (hout : (upsRest (((upsReady s t source result target hs).xored es).read bs)).targetData.take
      result.length = result) :
    ∀ i < result.length, es.getD i 0 = source.getD i 0 ^^^ result.getD i 0 := by
  obtain ⟨hsourceLe, hresultLe, -⟩ := hdir.length_le
  have hstart : IoAt source result.length target [] (upsReady s t source result target hs) :=
    ioAt_upsReady (by omega)
  obtain ⟨k, -, htotal, hdone⟩ := ((hstart.xored hroom es hes).read bs).rest hroom hes (by omega)
    (by omega)
  have hlen : result.length ≤ (es ++ List.replicate k (0 : UInt8)).length := by
    rw [List.length_append, List.length_replicate]
    exact le_trans (by omega) (Nat.le_of_eq htotal.symm)
  have hfront : (([] : List UInt8) ++ es ++ List.replicate k 0) = es ++ List.replicate k 0 := rfl
  have hpatched : (patched (es ++ List.replicate k 0) source).take result.length = result := by
    rw [hdone.toTarget.targetData, hfront, List.take_append_of_le_length, List.take_take,
      Nat.min_self] at hout
    · exact hout
    · rw [List.length_take, length_patched, Nat.min_eq_left hlen]
  intro i hi
  rw [← (take_patched_eq_iff hlen).mp hpatched i hi, getD_append_zeros]

theorem hunks_cut_of_long (hslen : s.length < 2 ^ 32) (htlen : t.length < 2 ^ 32)
    (hlong : 2 ^ 32 ≤ (upsPatch s t hs).length) {tail : List UInt8}
    (htail : (upsPatch s t hs).take ((upsPatch s t hs).length % 2 ^ 32) =
      upsHeader s t ++ tail) :
    ∃ rest, tail ++ rest = hunkBytes hs ∧ 2 ≤ rest.length := by
  have hlength := length_upsPatch s t hs
  have hheader := length_upsHeader hslen htlen
  have htailLen := congrArg List.length htail
  rw [List.length_take, List.length_append] at htailLen
  have hprefix : tail <+: hunkBytes hs := by
    have hwhole := List.take_append_drop ((upsPatch s t hs).length % 2 ^ 32) (upsPatch s t hs)
    conv_rhs at hwhole => rw [upsPatch_eq]
    rw [htail, List.append_assoc] at hwhole
    exact List.prefix_of_prefix_length_le ⟨_, List.append_cancel_left hwhole⟩ ⟨_, rfl⟩ (by omega)
  obtain ⟨rest, hrest⟩ := hprefix
  have hrestLen := congrArg List.length hrest
  rw [List.length_append] at hrestLen
  exact ⟨rest, hrest, by omega⟩

/-- Towards the longer file a cut patch leaves a difference out. -/
theorem length_of_applies (hdir : Direction s t source result)
    (hslen : s.length < 2 ^ 32) (htlen : t.length < 2 ^ 32) (hsplit : Splits hs s t)
    (hruns : FullRuns hs) (hlonger : source.length ≤ result.length)
    (happlies : Applies (upsPatch s t hs) source result target) :
    (upsPatch s t hs).length < 2 ^ 32 := by
  by_contra hlong
  obtain ⟨-, -, hmax⟩ := hdir.length_le
  have hcover := hsplit.length_le
  obtain ⟨tail, htail, hready, hpatch, hroom, data, hdata, hout⟩ :=
    happlies.hunks hdir hslen htlen
  obtain ⟨rest, hrest, hmissing⟩ := hunks_cut_of_long hslen htlen (Nat.le_of_not_lt hlong) htail
  rw [← hready] at hrest
  rcases upsHunks_cut hs hruns bounded_upsReady hpatch (skip_lt hs (by omega)) hmissing hrest
    ((upsPatch s t hs).length % 2 ^ 32) with hnever | ⟨es, bs, hhunks, ⟨i, hfull, hes⟩, hshort⟩
  · rw [hnever] at hdata
    exact Option.some_ne_none _ hdata.symm
  · rw [hhunks] at hdata
    rw [← Option.some.inj hdata] at hout
    have hfits : result.length ≤ target.length := le_trans hroom (Nat.mod_le _ _)
    have hsent := sent_of_output hdir hslen htlen hfits (by omega) hout
    rw [hdir.difference hsplit i] at hfull
    rcases Nat.lt_or_ge i result.length with hi | hi
    · rw [← hsent i hi] at hfull
      exact hfull hes
    · rw [List.getD_eq_default _ _ hi, List.getD_eq_default _ _ (le_trans hlonger hi)] at hfull
      exact hfull rfl

end Cut

section Wrap

variable {s t source result target : List UInt8} {hs : List UpsHunk}

theorem upsXor_exhausted {data : UpsData} (h : data.sourceLength ≤ data.sourceOffset) :
    upsXor 0 data = upsTargetWrite data 0 := by
  rw [upsXor, upsSourceRead, if_neg (Nat.not_lt.mpr h)]
  rfl

/-- Copies from nothing fill the target with zeros. -/
theorem upsCopy_exhausted (n : ℕ) {data : UpsData} (hsource : data.sourceLength ≤ data.sourceOffset)
    (hfits : data.targetOffset + n ≤ data.targetLength)
    (hlength : data.targetLength ≤ data.targetData.length) (hlt : data.targetLength < 2 ^ 32)
    (hzeros : data.targetData.take data.targetOffset = List.replicate data.targetOffset 0) :
    (upsCopy n data).targetData.take (data.targetOffset + n) =
      List.replicate (data.targetOffset + n) 0 := by
  induction n generalizing data with
  | zero => exact hzeros
  | succ n ih =>
    have hinside : data.targetOffset < data.targetLength := by omega
    have hwrite : upsTargetWrite data 0 =
        { data with
          targetData := data.targetData.set data.targetOffset 0
          targetChecksum := ~~~(encodingCrc32 (~~~data.targetChecksum) [0])
          targetOffset := data.targetOffset + 1 } := by
      rw [upsTargetWrite, if_pos hinside]
      simp only
      rw [Nat.mod_eq_of_lt (show data.targetOffset + 1 < 2 ^ 32 by omega)]
    have hstep : upsCopy (n + 1) data = upsCopy n (upsTargetWrite data 0) := by
      rw [upsCopy, Function.iterate_succ_apply, upsXor_exhausted hsource]
      rfl
    have hmore : (data.targetData.set data.targetOffset 0).take (data.targetOffset + 1) =
        List.replicate (data.targetOffset + 1) 0 := by
      rw [List.take_add_one, List.take_set_of_le (Nat.le_refl _), hzeros,
        List.getElem?_set_self (by omega), List.replicate_succ']
      rfl
    have hrest := @ih (upsTargetWrite data 0) (by rw [hwrite]; exact hsource)
      (by rw [hwrite]; simp only; omega)
      (by rw [hwrite]; simp only [List.length_set]; exact hlength)
      (by rw [hwrite]; exact hlt)
      (by rw [hwrite]; exact hmore)
    rw [hstep]
    have hoffset : (upsTargetWrite data 0).targetOffset = data.targetOffset + 1 := by
      rw [hwrite]
    rw [hoffset, Nat.add_assoc, Nat.add_comm 1 n] at hrest
    exact hrest

theorem upsRest_exhausted (data : UpsData) (hsource : data.sourceLength ≤ data.sourceOffset)
    (hoffset : data.targetOffset = 0) (hlength : data.targetLength ≤ data.targetData.length)
    (hlt : data.targetLength < 2 ^ 32) :
    (upsRest data).targetData.take data.targetLength = List.replicate data.targetLength 0 := by
  have hrest : upsRest data = upsCopy data.targetLength data := by
    rw [upsRest, Nat.sub_eq_zero_of_le hsource]
    simp only [upsCopy, Function.iterate_zero, id_eq, hoffset, Nat.sub_zero]
  have hcopied := upsCopy_exhausted data.targetLength hsource
    (by rw [hoffset, Nat.zero_add]) hlength hlt (by rw [hoffset]; rfl)
  rw [hrest]
  rw [hoffset, Nat.zero_add] at hcopied
  exact hcopied

theorem IoAt.wrap {size : ℕ} {old es : List UInt8} {data : UpsData}
    (h : IoAt source size old es data) (hsize : size ≤ old.length) (hsource : source.length < 2 ^ 32)
    (hes : es.length + 1 = 2 ^ 32) :
    (upsXor 0 data).sourceLength ≤ (upsXor 0 data).sourceOffset ∧
      (upsXor 0 data).targetOffset = 0 ∧ (upsXor 0 data).targetLength = size ∧
      size ≤ (upsXor 0 data).targetData.length := by
  obtain ⟨-, hread⟩ := h.fromSource.read 0
  have hlen : (es ++ [(0 : UInt8)]).length = es.length + 1 := List.length_append
  have htarget : (upsSourceRead data).2.targetOffset = es.length ∧
      (upsSourceRead data).2.targetLength = size ∧
      (upsSourceRead data).2.targetData = data.targetData := by
    rw [upsSourceRead]
    split_ifs <;> exact ⟨h.toTarget.targetOffset, h.toTarget.targetLength, rfl⟩
  have hdata : size ≤ data.targetData.length := by
    rw [h.toTarget.targetData, List.length_append, List.length_take, length_patched,
      List.length_drop]
    omega
  have hexhausted : (upsSourceRead data).2.sourceLength ≤ (upsSourceRead data).2.sourceOffset := by
    rw [hread.sourceLength, hread.sourceOffset, hlen]
    omega
  have hoffset : ((upsSourceRead data).2.targetOffset + 1) % 2 ^ 32 = 0 := by
    rw [htarget.1, hes]
    exact Nat.mod_self _
  rw [upsXor]
  simp only
  rw [upsTargetWrite]
  split_ifs
  · refine ⟨hexhausted, hoffset, htarget.2.1, ?_⟩
    simp only [List.length_set, htarget.2.2]
    exact hdata
  · refine ⟨hexhausted, hoffset, htarget.2.1, ?_⟩
    simp only [htarget.2.2]
    exact hdata

theorem expandAll_concat (hs : List UpsHunk) (h : hs ≠ []) : ∃ es, expandAll hs = es ++ [0] := by
  induction hs with
  | nil => exact absurd rfl h
  | cons first hs ih =>
    rw [expandAll_cons]
    rcases List.eq_nil_or_concat hs with rfl | ⟨init, last, rfl⟩
    · refine ⟨List.replicate first.skip 0 ++ first.run, ?_⟩
      rw [UpsHunk.expand, ← List.append_assoc]
      exact List.append_nil _
    · obtain ⟨es, hes⟩ := ih (by simp)
      exact ⟨first.expand ++ es, by rw [hes, List.append_assoc]⟩

theorem zeros_of_full (hdir : Direction s t source result) (hslen : s.length < 2 ^ 32)
    (htlen : t.length < 2 ^ 32) (hcover : (expandAll hs).length = 2 ^ 32)
    (hpatch : (upsPatch s t hs).length < 2 ^ 32)
    (happlies : Applies (upsPatch s t hs) source result target) :
    result = List.replicate result.length 0 := by
  obtain ⟨hsourceLe, hresultLe, -⟩ := hdir.length_le
  obtain ⟨tail, htail, hready, hlong, hroom, data, hdata, hout⟩ :=
    happlies.hunks hdir hslen htlen
  have hsource : source.length < 2 ^ 32 := by omega
  have hfits : result.length ≤ target.length := le_trans hroom (Nat.mod_le _ _)
  obtain ⟨es, hes⟩ := expandAll_concat hs (by
    rintro rfl
    exact absurd hcover (by decide))
  have heslen : es.length + 1 = 2 ^ 32 := by
    rw [hes, List.length_append, List.length_singleton] at hcover
    exact hcover
  have hstart : IoAt source result.length target [] (upsReady s t source result target hs) :=
    ioAt_upsReady hsource
  obtain ⟨hexhausted, hoffset, htargetLength, hbuffer⟩ :=
    (hstart.xored hfits es (by rw [List.nil_append]; omega)).wrap hfits hsource
      (by rw [List.nil_append]; exact heslen)
  rw [Nat.mod_eq_of_lt hpatch] at htail hdata
  have htail' : tail = hunkBytes hs ++ (crcBytes (encodingCrc32 0 s) ++
      (crcBytes (encodingCrc32 0 t) ++ crcBytes (encodingCrc32 0 (upsBody s t hs)))) := by
    rw [List.take_length] at htail
    rw [upsPatch_eq] at htail
    exact (List.append_cancel_left htail).symm
  have hcount := length_hunkBytes_ge hs
  have hlength := length_upsPatch s t hs
  have hhunks : upsHunks (upsPatch s t hs).length (upsReady s t source result target hs) =
      some (((upsReady s t source result target hs).xored (expandAll hs)).read
        (hunkBytes hs)) := by
    apply upsHunks_whole hs bounded_upsReady hlong (skip_lt hs (Nat.le_of_eq hcover)) _
      (hready.trans htail')
    · omega
    · simp only [List.length_append, length_crcBytes]
  have hlast : (upsReady s t source result target hs).xored (expandAll hs) =
      upsXor 0 ((upsReady s t source result target hs).xored es) := by
    rw [hes, ← UpsData.xored_xored, UpsData.xored_cons, UpsData.xored_nil]
  rw [hhunks, hlast] at hdata
  rw [← Option.some.inj hdata] at hout
  have hlast' : ((upsXor 0 ((upsReady s t source result target hs).xored es)).read
      (hunkBytes hs)).targetLength = result.length := htargetLength
  have hzeros := upsRest_exhausted ((upsXor 0
    ((upsReady s t source result target hs).xored es)).read (hunkBytes hs)) hexhausted hoffset
    (by rw [hlast']; exact hbuffer) (by rw [hlast']; omega)
  rw [hlast', hout] at hzeros
  exact hzeros

theorem expandAll_nonzero {hs : List UpsHunk} (h : hs ≠ []) (hruns : FullRuns hs) :
    ∃ i, (expandAll hs).getD i 0 ≠ 0 := by
  obtain ⟨first, rest, rfl⟩ := List.exists_cons_of_ne_nil h
  obtain ⟨i, hi, -⟩ : Misses [] (expandAll (first :: rest)) :=
    misses_hunk (hruns first List.mem_cons_self) rest rfl
  exact ⟨i, hi⟩

theorem cover_of_applies (hslen : s.length < 2 ^ 32) (htlen : t.length < 2 ^ 32)
    (hsplit : Splits hs s t) (hruns : FullRuns hs) (hpatch : (upsPatch s t hs).length < 2 ^ 32)
    (hforward : Applies (upsPatch s t hs) s t target)
    (hback : Applies (upsPatch s t hs) t s target) : (expandAll hs).length < 2 ^ 32 := by
  by_contra hfull
  have hle := hsplit.length_le
  have hcover : (expandAll hs).length = 2 ^ 32 := by omega
  have ht := zeros_of_full (Or.inl ⟨rfl, rfl⟩) hslen htlen hcover hpatch hforward
  have hs' := zeros_of_full (Or.inr ⟨rfl, rfl⟩) hslen htlen hcover hpatch hback
  have hsome : hs ≠ [] := by
    rintro rfl
    exact absurd hcover (by decide)
  obtain ⟨i, hi⟩ := expandAll_nonzero hsome hruns
  apply hi
  have hzero : ∀ n, (List.replicate n (0 : UInt8)).getD i 0 = 0 := fun n =>
    getD_append_zeros [] n i
  rw [hsplit.getD i, ht, hs', hzero, hzero]
  rfl

end Wrap

section Bidirectional

variable {s t target : List UInt8} {hs : List UpsHunk}

theorem limits_of_applies (hslen : s.length < 2 ^ 32) (htlen : t.length < 2 ^ 32)
    (hsplit : Splits hs s t) (hruns : FullRuns hs)
    (hforward : Applies (upsPatch s t hs) s t target)
    (hback : Applies (upsPatch s t hs) t s target) :
    (upsPatch s t hs).length < 2 ^ 32 ∧ (expandAll hs).length < 2 ^ 32 ∧
      max s.length t.length ≤ target.length % 2 ^ 32 := by
  obtain ⟨-, -, -, -, htroom, -⟩ := hforward.hunks (Or.inl ⟨rfl, rfl⟩) hslen htlen
  obtain ⟨-, -, -, -, hsroom, -⟩ := hback.hunks (Or.inr ⟨rfl, rfl⟩) hslen htlen
  have hpatch : (upsPatch s t hs).length < 2 ^ 32 := by
    rcases Nat.le_total s.length t.length with hle | hle
    · exact length_of_applies (Or.inl ⟨rfl, rfl⟩) hslen htlen hsplit hruns hle hforward
    · exact length_of_applies (Or.inr ⟨rfl, rfl⟩) hslen htlen hsplit hruns hle hback
  exact ⟨hpatch, cover_of_applies hslen htlen hsplit hruns hpatch hforward hback,
    Nat.max_le.mpr ⟨hsroom, htroom⟩⟩

/-- A patch gives either file of its pair from the other when the patch, what its hunks cover and,
once cut to its field, the buffer are within the width of the applier's fields, and only then where
every hunk stands for a difference. -/
theorem ups_bidirectional_iff (s t : List UInt8) (hslen : s.length < 2 ^ 32)
    (htlen : t.length < 2 ^ 32) (hs : List UpsHunk) (hsplit : Splits hs s t)
    (target : List UInt8) :
    ((upsPatch s t hs).length < 2 ^ 32 ∧ (expandAll hs).length < 2 ^ 32 ∧
        max s.length t.length ≤ target.length % 2 ^ 32 →
      Applies (upsPatch s t hs) s t target ∧ Applies (upsPatch s t hs) t s target) ∧
    (FullRuns hs →
      ((Applies (upsPatch s t hs) s t target ∧ Applies (upsPatch s t hs) t s target) ↔
        (upsPatch s t hs).length < 2 ^ 32 ∧ (expandAll hs).length < 2 ^ 32 ∧
          max s.length t.length ≤ target.length % 2 ^ 32)) := by
  have henough : (upsPatch s t hs).length < 2 ^ 32 ∧ (expandAll hs).length < 2 ^ 32 ∧
      max s.length t.length ≤ target.length % 2 ^ 32 →
      Applies (upsPatch s t hs) s t target ∧ Applies (upsPatch s t hs) t s target := by
    rintro ⟨hpatch, hcover, hfield⟩
    exact ⟨applies_of_small (Or.inl ⟨rfl, rfl⟩) hslen htlen hsplit hpatch hcover hfield,
      applies_of_small (Or.inr ⟨rfl, rfl⟩) hslen htlen hsplit hpatch hcover hfield⟩
  refine ⟨henough, fun hruns => ⟨?_, henough⟩⟩
  rintro ⟨hforward, hback⟩
  exact limits_of_applies hslen htlen hsplit hruns hforward hback

/-- One hunk whose run reaches the end of the longer file. -/
def changedHunk : UpsHunk :=
  { skip := 0
    run := [3, 3]
    run_nonzero := by simp }

theorem ups_bidirectional_changed :
    Applies (upsPatch [1] [2, 3] [changedHunk]) [1] [2, 3] [0, 0, 0, 0] ∧
      Applies (upsPatch [1] [2, 3] [changedHunk]) [2, 3] [1] [0, 0, 0, 0] := by
  apply (ups_bidirectional_iff [1] [2, 3] (by decide) (by decide) [changedHunk] ⟨0, by decide⟩
    [0, 0, 0, 0]).1
  refine ⟨?_, by decide, by decide⟩
  rw [length_upsPatch]
  decide

theorem splits_self (s : List UInt8) : Splits [] s s := by
  refine ⟨s.length + 1, ?_⟩
  have hzeros : difference s s = List.replicate s.length 0 := by
    apply List.eq_replicate_iff.mpr
    constructor
    · rw [difference, List.length_map, List.length_range, Nat.max_self]
    · intro b hb
      obtain ⟨i, -, rfl⟩ := List.mem_map.mp hb
      exact UInt8.xor_self
  rw [hzeros, List.replicate_succ']
  rfl

theorem not_applies_of_cut {s target : List UInt8} (hpos : 0 < s.length) (hlen : s.length < 2 ^ 32)
    (hcut : target.length % 2 ^ 32 = 0) :
    ¬ (Applies (upsPatch s s []) s s target ∧ Applies (upsPatch s s []) s s target) := by
  rintro ⟨hforward, hback⟩
  obtain ⟨-, -, hroom⟩ := limits_of_applies hlen hlen (splits_self s)
    (fun h hmem => absurd hmem List.not_mem_nil) hforward hback
  rw [Nat.max_self, hcut] at hroom
  omega

/-- A buffer four times as long as its file of a gibibyte, as the caller takes it. -/
theorem ups_buffer_length_cut :
    (List.replicate (2 ^ 30) (0 : UInt8)).length < 2 ^ 32 ∧
      Splits [] (List.replicate (2 ^ 30) 0) (List.replicate (2 ^ 30) 0) ∧
      max (List.replicate (2 ^ 30) (0 : UInt8)).length
        (List.replicate (2 ^ 30) (0 : UInt8)).length ≤
          (List.replicate (2 ^ 32) (0 : UInt8)).length ∧
      ¬ (Applies (upsPatch (List.replicate (2 ^ 30) 0) (List.replicate (2 ^ 30) 0) [])
          (List.replicate (2 ^ 30) 0) (List.replicate (2 ^ 30) 0) (List.replicate (2 ^ 32) 0) ∧
        Applies (upsPatch (List.replicate (2 ^ 30) 0) (List.replicate (2 ^ 30) 0) [])
          (List.replicate (2 ^ 30) 0) (List.replicate (2 ^ 30) 0) (List.replicate (2 ^ 32) 0)) := by
  have hfile : (List.replicate (2 ^ 30) (0 : UInt8)).length = 2 ^ 30 := List.length_replicate
  have hbuffer : (List.replicate (2 ^ 32) (0 : UInt8)).length = 2 ^ 32 := List.length_replicate
  refine ⟨by rw [hfile]; decide, splits_self _, ?_, ?_⟩
  · rw [hfile, hbuffer]
    decide
  · apply not_applies_of_cut
    · rw [hfile]
      decide
    · rw [hfile]
      decide
    · rw [hbuffer]
      decide

end Bidirectional

end RetroArch.Tasks
