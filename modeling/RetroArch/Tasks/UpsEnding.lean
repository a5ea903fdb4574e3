/- The loops of `ups_apply_patch` with a bound on their rounds, and the patches for which they come
   to an end. -/

import RetroArch.Tasks.UpsDirections

namespace RetroArch.Tasks

open Library

/-- The run of a hunk, in so many rounds. -/
def upsXorLoopIn : ℕ → UpsData → Option UpsData
  | 0, _ => none
  | left + 1, data =>
    let (patchXor, data) := upsPatchRead data
    let data := upsXor patchXor data
    if patchXor = 0 then some data else upsXorLoopIn left data

def upsHunkIn (rounds : ℕ) (data : UpsData) : Option UpsData :=
  (upsDecodeLoop rounds 0 1 data).bind fun (offset, data) =>
    upsXorLoopIn rounds (upsCopy (offset.toNat % 2 ^ 32) data)

def upsHunksIn (rounds : ℕ) : ℕ → UpsData → Option UpsData
  | 0, _ => none
  | left + 1, data =>
    if data.patchOffset < data.patchLength - 12 then
      (upsHunkIn rounds data).bind (upsHunksIn rounds left)
    else
      some data

def upsSourceLoopIn : ℕ → UpsData → Option UpsData
  | 0, _ => none
  | left + 1, data =>
    if data.sourceOffset < data.sourceLength then upsSourceLoopIn left (upsXor 0 data)
    else some data

def upsTargetLoopIn : ℕ → UpsData → Option UpsData
  | 0, _ => none
  | left + 1, data =>
    if data.targetOffset < data.targetLength then upsTargetLoopIn left (upsXor 0 data)
    else some data

def upsApplySizedIn (rounds : ℕ) (data : UpsData)
    (targetlength sourceReadLength targetReadLength : ℕ) : Option UpsResult :=
  if data.sourceLength ≠ sourceReadLength ∧ data.sourceLength ≠ targetReadLength then
    some ⟨.sourceInvalid, data.targetData, targetlength⟩
  else
    let targetlength :=
      if data.sourceLength = sourceReadLength then targetReadLength else sourceReadLength
    if data.targetLength < targetlength then
      some ⟨.targetTooSmall, data.targetData, targetlength⟩
    else
      (upsHunksIn rounds rounds { data with targetLength := targetlength }).bind fun data =>
        (upsSourceLoopIn rounds data).bind fun data =>
          (upsTargetLoopIn rounds data).map fun data =>
            let (err, data) := upsVerdict data sourceReadLength targetReadLength
            ⟨err, data.targetData, targetlength⟩

/-- `ups_apply_patch` with each of its loops in so many rounds; none is a loop that goes on. -/
def upsApplyPatchIn (rounds : ℕ) (patchdata sourcedata targetdata : List UInt8) :
    Option UpsResult :=
  let data := upsStart patchdata sourcedata targetdata
  if data.patchLength < 18 then
    some ⟨.patchInvalid, targetdata, targetdata.length⟩
  else
    let (magic, data) := upsMagic data
    if magic = false then
      some ⟨.patchInvalid, targetdata, targetdata.length⟩
    else
      (upsDecodeLoop rounds 0 1 data).bind fun (source, data) =>
        (upsDecodeLoop rounds 0 1 data).bind fun (target, data) =>
          upsApplySizedIn rounds data targetdata.length (source.toNat % 2 ^ 32)
            (target.toNat % 2 ^ 32)

/-- What is behind the zero that ends a run, or nothing. -/
def afterRun (bs : List UInt8) : List UInt8 := (bs.dropWhile (· != 0)).drop 1

/-- Every number that a hunk begins with ends in the patch. -/
inductive HunksEnd : List UInt8 → Prop
  | done {bs : List UInt8} (short : bs.length ≤ 12) : HunksEnd bs
  | hunk {bs rest : List UInt8} {v : ℕ} (long : 12 < bs.length)
      (number : Varint.decode bs = some (v, rest)) (more : HunksEnd (afterRun rest)) : HunksEnd bs

/-- The sizes of the patch are not those of these files. -/
def SizesRefused (sourceLength targetLength a b : ℕ) : Prop :=
  (sourceLength ≠ a ∧ sourceLength ≠ b) ∨ targetLength < if sourceLength = a then b else a

/-- The patch is refused before its numbers are read, or both sizes end in it, and they are refused
or so does every number behind them. -/
def UpsEnds (patch source target : List UInt8) : Prop :=
  let bs := patch.take (patch.length % 2 ^ 32)
  bs.length < 18 ∨ bs.take 4 ≠ upsMagicBytes ∨
    ∃ a rest b rest', Varint.decode (bs.drop 4) = some (a, rest) ∧
      Varint.decode rest = some (b, rest') ∧
      (SizesRefused (source.length % 2 ^ 32) (target.length % 2 ^ 32) (a % 2 ^ 32) (b % 2 ^ 32) ∨
        HunksEnd rest')

theorem length_afterRun_le (bs : List UInt8) : (afterRun bs).length ≤ bs.length := by
  rw [afterRun, List.length_drop]
  exact le_trans (Nat.sub_le _ _) (List.dropWhile_suffix _).length_le

section Hunks

variable {data data' : UpsData}

/-- The patch and the three lengths are what they were. -/
structure SameSizes (data data' : UpsData) : Prop where
  patchData : data'.patchData = data.patchData
  patchLength : data'.patchLength = data.patchLength
  sourceLength : data'.sourceLength = data.sourceLength
  targetLength : data'.targetLength = data.targetLength

theorem SameSizes.trans {data₁ data₂ data₃ : UpsData} (h : SameSizes data₁ data₂)
    (h' : SameSizes data₂ data₃) : SameSizes data₁ data₃ :=
  ⟨h'.patchData.trans h.patchData, h'.patchLength.trans h.patchLength,
    h'.sourceLength.trans h.sourceLength, h'.targetLength.trans h.targetLength⟩

theorem SameSizes.bounded (h : SameSizes data data') (hb : data.Bounded) : data'.Bounded := by
  rw [UpsData.Bounded, h.patchData, h.patchLength]
  exact hb

theorem sameSizes_read (data : UpsData) (bs : List UInt8) : SameSizes data (data.read bs) :=
  ⟨rfl, rfl, rfl, rfl⟩

theorem sameSizes_upsXor (e : UInt8) (data : UpsData) : SameSizes data (upsXor e data) := by
  unfold upsXor upsSourceRead upsTargetWrite
  simp only
  split_ifs <;> exact ⟨rfl, rfl, rfl, rfl⟩

theorem sameSizes_xored (es : List UInt8) (data : UpsData) : SameSizes data (data.xored es) := by
  induction es generalizing data with
  | nil => exact ⟨rfl, rfl, rfl, rfl⟩
  | cons e es ih => exact (sameSizes_upsXor e data).trans (ih _)

theorem unread_upsXor (e : UInt8) (data : UpsData) : (upsXor e data).unread = data.unread :=
  unread_xored [e] data

theorem upsXorLoopIn_some {left : ℕ} (hb : data.Bounded)
    (h : upsXorLoopIn left data = some data') :
    data'.unread = afterRun data.unread ∧ SameSizes data data' := by
  induction left generalizing data with
  | zero => cases h
  | succ left ih =>
    cases hunread : data.unread with
    | nil =>
      rw [upsXorLoopIn, upsPatchRead_end hb hunread] at h
      obtain rfl := Option.some.inj h
      refine ⟨?_, sameSizes_upsXor 0 data⟩
      rw [unread_upsXor, hunread]
      rfl
    | cons x xs =>
      obtain ⟨hread, hrest⟩ := upsPatchRead_step hunread
      have hsame := (sameSizes_read data [x]).trans (sameSizes_upsXor x _)
      have hxs : (upsXor x (data.read [x])).unread = xs := (unread_upsXor _ _).trans hrest
      rw [upsXorLoopIn, hread] at h
      simp only at h
      split_ifs at h with hzero
      · obtain rfl := Option.some.inj h
        refine ⟨?_, hsame⟩
        rw [hxs, hzero]
        rfl
      · obtain ⟨hun, hsame'⟩ := ih (hsame.bounded hb) h
        refine ⟨?_, hsame.trans hsame'⟩
        rw [hun, hxs, afterRun, afterRun, List.dropWhile_cons_of_pos (by simpa using hzero)]

theorem upsXorLoopIn_isSome {left : ℕ} (hb : data.Bounded) (hleft : data.unread.length < left) :
    ∃ data', upsXorLoopIn left data = some data' := by
  induction left generalizing data with
  | zero => exact absurd hleft (Nat.not_lt_zero _)
  | succ left ih =>
    cases hunread : data.unread with
    | nil =>
      rw [upsXorLoopIn, upsPatchRead_end hb hunread]
      exact ⟨_, rfl⟩
    | cons x xs =>
      obtain ⟨hread, hrest⟩ := upsPatchRead_step hunread
      rw [upsXorLoopIn, hread]
      simp only
      split_ifs with hzero
      · exact ⟨_, rfl⟩
      · refine ih (((sameSizes_read data [x]).trans (sameSizes_upsXor x _)).bounded hb) ?_
        rw [unread_upsXor, hrest]
        rw [hunread, List.length_cons] at hleft
        exact Nat.lt_of_succ_lt_succ hleft

theorem upsDecodeLoop_mono {left left' : ℕ} (hle : left ≤ left') {offset shift : UInt64}
    {found : UInt64 × UpsData} (h : upsDecodeLoop left offset shift data = some found) :
    upsDecodeLoop left' offset shift data = some found := by
  induction left generalizing data offset shift left' with
  | zero => cases h
  | succ left ih =>
    obtain ⟨left', rfl⟩ := Nat.exists_eq_succ_of_ne_zero (Nat.ne_zero_of_lt hle)
    rw [upsDecodeLoop] at h ⊢
    dsimp only at h ⊢
    split_ifs at h ⊢ with hlast
    · exact h
    · exact ih (Nat.le_of_succ_le_succ hle) h

theorem upsDecodeLoop_read {left v : ℕ} {rest : List UInt8} {offset shift n : UInt64}
    (hnumber : Varint.decode data.unread = some (v, rest))
    (h : upsDecodeLoop left offset shift data = some (n, data')) :
    ∃ bs, data.unread = bs ++ rest ∧ data' = data.read bs ∧
      n = offset + shift * UInt64.ofNat v := by
  obtain ⟨bs, hbs, hdecode⟩ :=
    upsDecodeLoop_some (Nat.le_max_right left data.unread.length) hnumber offset shift
  rw [upsDecodeLoop_mono (Nat.le_max_left _ _) h] at hdecode
  obtain ⟨hn, hdata⟩ := Prod.mk.inj (Option.some.inj hdecode)
  exact ⟨bs, hbs, hdata, hn⟩

theorem upsDecodeLoop_whole {rounds : ℕ} {n : UInt64} (hb : data.Bounded)
    (h : upsDecodeLoop rounds 0 1 data = some (n, data')) :
    ∃ v, Varint.decode data.unread = some (v, data'.unread) ∧ SameSizes data data' ∧
      n.toNat % 2 ^ 32 = v % 2 ^ 32 := by
  cases hnumber : Varint.decode data.unread with
  | none =>
    rw [upsDecodeLoop_none rounds hb hnumber] at h
    cases h
  | some found =>
    obtain ⟨v, rest⟩ := found
    obtain ⟨bs, hbs, rfl, rfl⟩ := upsDecodeLoop_read hnumber h
    refine ⟨v, ?_, sameSizes_read data bs, ?_⟩
    · rw [UpsData.unread_read hbs]
    · rw [UInt64.zero_add, UInt64.one_mul, UInt64.toNat_ofNat']
      omega

theorem upsHunkIn_some {rounds : ℕ} (hb : data.Bounded) (h : upsHunkIn rounds data = some data') :
    ∃ v rest, Varint.decode data.unread = some (v, rest) ∧ data'.unread = afterRun rest ∧
      SameSizes data data' := by
  obtain ⟨⟨offset, data₁⟩, hdecode, hrun⟩ := Option.bind_eq_some_iff.mp h
  cases hnumber : Varint.decode data.unread with
  | none =>
    rw [upsDecodeLoop_none rounds hb hnumber] at hdecode
    cases hdecode
  | some found =>
    obtain ⟨v, rest⟩ := found
    obtain ⟨bs, hbs, rfl, -⟩ := upsDecodeLoop_read hnumber hdecode
    simp only at hrun
    rw [upsCopy_eq] at hrun
    have hsame := (sameSizes_read data bs).trans
      (sameSizes_xored (List.replicate (offset.toNat % 2 ^ 32) 0) _)
    obtain ⟨hun, hsame'⟩ := upsXorLoopIn_some (hsame.bounded hb) hrun
    rw [unread_xored, UpsData.unread_read hbs] at hun
    exact ⟨v, rest, rfl, hun, hsame.trans hsame'⟩

theorem upsHunkIn_isSome {rounds v : ℕ} {rest : List UInt8} (hb : data.Bounded)
    (hnumber : Varint.decode data.unread = some (v, rest)) (hrounds : data.unread.length ≤ rounds) :
    ∃ data', upsHunkIn rounds data = some data' := by
  obtain ⟨bs, hbs, hdecode⟩ := upsDecodeLoop_some hrounds hnumber 0 1
  have hshort := Varint.decode_length hnumber
  have hun : ((data.read bs).xored
      (List.replicate ((0 + 1 * UInt64.ofNat v).toNat % 2 ^ 32) 0)).unread = rest := by
    rw [unread_xored, UpsData.unread_read hbs]
  rw [upsHunkIn, hdecode, Option.bind_some]
  simp only
  rw [upsCopy_eq]
  refine upsXorLoopIn_isSome (bounded_xored (UpsData.bounded_read hb bs) _) ?_
  rw [hun]
  omega

theorem upsHunksIn_some {rounds left : ℕ} (hb : data.Bounded) (hlong : 12 ≤ data.patchLength)
    (h : upsHunksIn rounds left data = some data') :
    HunksEnd data.unread ∧ SameSizes data data' := by
  induction left generalizing data with
  | zero => cases h
  | succ left ih =>
    rw [upsHunksIn] at h
    split_ifs at h with hmore
    · obtain ⟨data₁, hhunk, hrest⟩ := Option.bind_eq_some_iff.mp h
      obtain ⟨v, rest, hnumber, hun, hsame⟩ := upsHunkIn_some hb hhunk
      obtain ⟨hends, hsame'⟩ := ih (hsame.bounded hb) (hsame.patchLength ▸ hlong) hrest
      rw [hun] at hends
      exact ⟨.hunk ((loop_cond hb hlong).mp hmore) hnumber hends, hsame.trans hsame'⟩
    · obtain rfl := Option.some.inj h
      rw [loop_cond hb hlong] at hmore
      exact ⟨.done (Nat.le_of_not_lt hmore), ⟨rfl, rfl, rfl, rfl⟩⟩

/-- Hunks whose numbers end in the patch are at their end after as many rounds as it has bytes. -/
theorem upsHunksIn_isSome {rounds left : ℕ} {bs : List UInt8} (hends : HunksEnd bs)
    (hun : data.unread = bs) (hb : data.Bounded) (hlong : 12 ≤ data.patchLength)
    (hrounds : bs.length ≤ rounds) (hleft : bs.length < left) :
    ∃ data', upsHunksIn rounds left data = some data' := by
  induction hends generalizing data left with
  | @done bs short =>
    obtain ⟨left, rfl⟩ := Nat.exists_eq_succ_of_ne_zero (Nat.ne_zero_of_lt hleft)
    rw [upsHunksIn, if_neg]
    · exact ⟨data, rfl⟩
    · rw [loop_cond hb hlong, hun]
      omega
  | @hunk bs rest v long number more ih =>
    obtain ⟨left, rfl⟩ := Nat.exists_eq_succ_of_ne_zero (Nat.ne_zero_of_lt hleft)
    obtain ⟨data₁, hhunk⟩ := upsHunkIn_isSome hb (hun ▸ number) (hun ▸ hrounds)
    obtain ⟨v', rest', hnumber, hun₁, hsame⟩ := upsHunkIn_some hb hhunk
    rw [hun, number] at hnumber
    obtain ⟨-, rfl⟩ := Prod.mk.inj (Option.some.inj hnumber)
    have hshort := Varint.decode_length number
    have hle := length_afterRun_le rest
    rw [upsHunksIn, if_pos ((loop_cond hb hlong).mpr (hun ▸ long)), hhunk, Option.bind_some]
    exact ih hun₁ (hsame.bounded hb) (hsame.patchLength ▸ hlong) (by omega) (by omega)

end Hunks

theorem upsXor_offsets (data : UpsData) :
    (upsXor 0 data).sourceLength = data.sourceLength ∧
      (upsXor 0 data).targetLength = data.targetLength ∧
      (data.sourceOffset < data.sourceLength →
        (upsXor 0 data).sourceOffset = data.sourceOffset + 1) ∧
      (upsXor 0 data).targetOffset = (data.targetOffset + 1) % 2 ^ 32 := by
  unfold upsXor upsSourceRead upsTargetWrite
  simp only
  split_ifs with hsource htarget htarget
  · exact ⟨rfl, rfl, fun _ => rfl, rfl⟩
  · exact ⟨rfl, rfl, fun _ => rfl, rfl⟩
  · exact ⟨rfl, rfl, fun hlt => absurd hlt hsource, rfl⟩
  · exact ⟨rfl, rfl, fun hlt => absurd hlt hsource, rfl⟩

theorem upsSourceLoopIn_isSome {left : ℕ} {data : UpsData}
    (hleft : data.sourceLength - data.sourceOffset < left) :
    ∃ data', upsSourceLoopIn left data = some data' ∧
      data'.targetLength = data.targetLength := by
  induction left generalizing data with
  | zero => exact absurd hleft (Nat.not_lt_zero _)
  | succ left ih =>
    obtain ⟨hslen, htlen, hoffset, -⟩ := upsXor_offsets data
    rw [upsSourceLoopIn]
    split_ifs with hmore
    · have hless : (upsXor 0 data).sourceLength - (upsXor 0 data).sourceOffset < left := by
        rw [hslen, hoffset hmore]
        omega
      obtain ⟨data', hloop, hlength⟩ := ih hless
      exact ⟨data', hloop, hlength.trans htlen⟩
    · exact ⟨data, rfl, rfl⟩

theorem upsTargetLoopIn_isSome {left : ℕ} {data : UpsData} (hlt : data.targetLength < 2 ^ 32)
    (hleft : data.targetLength - data.targetOffset < left) :
    ∃ data', upsTargetLoopIn left data = some data' := by
  induction left generalizing data with
  | zero => exact absurd hleft (Nat.not_lt_zero _)
  | succ left ih =>
    obtain ⟨-, htlen, -, hoffset⟩ := upsXor_offsets data
    rw [upsTargetLoopIn]
    split_ifs with hmore
    · have hless : (upsXor 0 data).targetLength - (upsXor 0 data).targetOffset < left := by
        rw [htlen, hoffset, Nat.mod_eq_of_lt (by omega)]
        omega
      exact ih (htlen ▸ hlt) hless
    · exact ⟨data, rfl⟩

section Whole

variable {data : UpsData}

theorem upsMagic_spec (hlong : 4 ≤ data.unread.length) :
    upsMagic data =
      (decide (data.unread.take 4 = upsMagicBytes), data.read (data.unread.take 4)) := by
  obtain ⟨a, b, c, d, hfour⟩ := length_four
    (show (data.unread.take 4).length = 4 by rw [List.length_take]; omega)
  have hunread : data.unread = a :: b :: c :: d :: data.unread.drop 4 := by
    have hsplit := (List.take_append_drop 4 data.unread).symm
    rw [hfour] at hsplit
    exact hsplit
  obtain ⟨ra, ua⟩ := upsPatchRead_step hunread
  obtain ⟨rb, ub⟩ := upsPatchRead_step ua
  obtain ⟨rc, uc⟩ := upsPatchRead_step ub
  obtain ⟨rd, -⟩ := upsPatchRead_step uc
  rw [upsMagic, ra]
  simp only
  rw [rb]
  simp only
  rw [rc]
  simp only
  rw [rd, hfour]
  simp only [UpsData.read_read]
  rfl

/-- Behind the sizes the run ends when they are refused, and else when the hunks do. -/
theorem upsApplySizedIn_iff (hb : data.Bounded) (hlong : 12 ≤ data.patchLength)
    (targetlength a b : ℕ) (ha : a < 2 ^ 32) (hbl : b < 2 ^ 32) :
    ((∃ rounds result, upsApplySizedIn rounds data targetlength a b = some result) ↔
        SizesRefused data.sourceLength data.targetLength a b ∨ HunksEnd data.unread) ∧
      (SizesRefused data.sourceLength data.targetLength a b ∨ HunksEnd data.unread →
        ∀ rounds, data.unread.length + data.sourceLength + a + b < rounds →
          ∃ result, upsApplySizedIn rounds data targetlength a b = some result) := by
  have hends : SizesRefused data.sourceLength data.targetLength a b ∨ HunksEnd data.unread →
      ∀ rounds, data.unread.length + data.sourceLength + a + b < rounds →
        ∃ result, upsApplySizedIn rounds data targetlength a b = some result := by
    intro hor rounds hrounds
    rw [upsApplySizedIn]
    by_cases hsource : data.sourceLength ≠ a ∧ data.sourceLength ≠ b
    · rw [if_pos hsource]
      exact ⟨_, rfl⟩
    · rw [if_neg hsource]
      dsimp only
      generalize hsize : (if data.sourceLength = a then b else a) = size at *
      have hsizelt : size < 2 ^ 32 ∧ size ≤ a + b := by
        rw [← hsize]
        split_ifs <;> omega
      by_cases htarget : data.targetLength < size
      · rw [if_pos htarget]
        exact ⟨_, rfl⟩
      · rw [if_neg htarget]
        have hhunks : HunksEnd data.unread := by
          rcases hor with (hno | hno) | hhunks
          · exact absurd hno hsource
          · rw [hsize] at hno
            exact absurd hno htarget
          · exact hhunks
        have hb' : ({ data with targetLength := size } : UpsData).Bounded := hb
        have hshort : data.unread.length < rounds := by omega
        obtain ⟨data₁, h₁⟩ := upsHunksIn_isSome hhunks (by rfl) hb' hlong hshort.le hshort
        obtain ⟨-, hsame⟩ := upsHunksIn_some hb' hlong h₁
        have hslen₁ : data₁.sourceLength = data.sourceLength := hsame.sourceLength
        have hleft₁ : data₁.sourceLength - data₁.sourceOffset < rounds := by omega
        obtain ⟨data₂, h₂, hlength₂⟩ := upsSourceLoopIn_isSome hleft₁
        have htlen₂ : data₂.targetLength = size := hlength₂.trans hsame.targetLength
        have hleft₂ : data₂.targetLength - data₂.targetOffset < rounds := by omega
        obtain ⟨data₃, h₃⟩ := upsTargetLoopIn_isSome (htlen₂ ▸ hsizelt.1) hleft₂
        rw [h₁, Option.bind_some, h₂, Option.bind_some, h₃]
        exact ⟨_, rfl⟩
  refine ⟨⟨?_, fun hor => ⟨_, hends hor _ (Nat.lt_succ_self _)⟩⟩, hends⟩
  rintro ⟨rounds, result, h⟩
  rw [upsApplySizedIn] at h
  by_cases hsource : data.sourceLength ≠ a ∧ data.sourceLength ≠ b
  · exact .inl (.inl hsource)
  · rw [if_neg hsource] at h
    dsimp only at h
    by_cases htarget : data.targetLength < if data.sourceLength = a then b else a
    · exact .inl (.inr htarget)
    · rw [if_neg htarget] at h
      obtain ⟨data₁, h₁, -⟩ := Option.bind_eq_some_iff.mp h
      have hb' : ({ data with
          targetLength := if data.sourceLength = a then b else a } : UpsData).Bounded := hb
      exact .inr (upsHunksIn_some hb' hlong h₁).1

/-- The state behind the magic. -/
def upsSized (patch source target : List UInt8) : UpsData :=
  (upsStart patch source target).read upsMagicBytes

variable {patch source target : List UInt8}

theorem length_unread_start :
    (upsStart patch source target).unread.length = patch.length % 2 ^ 32 := by
  rw [unread_upsStart, List.length_take]
  exact Nat.min_eq_left (Nat.mod_le _ _)

/-- A patch is refused, or its sizes are read behind its magic. -/
theorem upsApplyPatchIn_header (patch source target : List UInt8) :
    ((patch.take (patch.length % 2 ^ 32)).length < 18 ∨
        (patch.take (patch.length % 2 ^ 32)).take 4 ≠ upsMagicBytes) ∧
        (∀ rounds, ∃ result, upsApplyPatchIn rounds patch source target = some result) ∨
      18 ≤ (patch.take (patch.length % 2 ^ 32)).length ∧
        (patch.take (patch.length % 2 ^ 32)).take 4 = upsMagicBytes ∧
        ∀ rounds, upsApplyPatchIn rounds patch source target =
          (upsDecodeLoop rounds 0 1 (upsSized patch source target)).bind fun (a, data) =>
            (upsDecodeLoop rounds 0 1 data).bind fun (b, data) =>
              upsApplySizedIn rounds data target.length (a.toNat % 2 ^ 32)
                (b.toNat % 2 ^ 32) := by
  have hlen : (upsStart patch source target).unread.length = patch.length % 2 ^ 32 :=
    length_unread_start
  have hplen : (upsStart patch source target).patchLength = patch.length % 2 ^ 32 := rfl
  rw [← unread_upsStart patch source target]
  by_cases hshort : patch.length % 2 ^ 32 < 18
  · refine .inl ⟨.inl (hlen ▸ hshort), fun rounds => ?_⟩
    rw [upsApplyPatchIn]
    simp only [hplen, if_pos hshort]
    exact ⟨_, rfl⟩
  · have hspec := upsMagic_spec (show 4 ≤ (upsStart patch source target).unread.length by omega)
    by_cases hmagic : (upsStart patch source target).unread.take 4 = upsMagicBytes
    · rw [hmagic, decide_eq_true rfl] at hspec
      refine .inr ⟨by omega, hmagic, fun rounds => ?_⟩
      rw [upsApplyPatchIn]
      simp only [hplen, if_neg hshort, hspec, Bool.true_eq_false, if_false]
      rfl
    · rw [decide_eq_false hmagic] at hspec
      refine .inl ⟨.inr hmagic, fun rounds => ?_⟩
      rw [upsApplyPatchIn]
      simp only [hplen, if_neg hshort, hspec, if_true]
      exact ⟨_, rfl⟩

theorem sameSizes_sized : SameSizes (upsStart patch source target) (upsSized patch source target) :=
  sameSizes_read _ _

theorem unread_sized (hmagic : (patch.take (patch.length % 2 ^ 32)).take 4 = upsMagicBytes) :
    (upsSized patch source target).unread = (patch.take (patch.length % 2 ^ 32)).drop 4 := by
  refine UpsData.unread_read ?_
  rw [unread_upsStart, ← hmagic, List.take_append_drop]

theorem ends_of_run {rounds : ℕ} {result : UpsResult}
    (h : upsApplyPatchIn rounds patch source target = some result) :
    UpsEnds patch source target := by
  rcases upsApplyPatchIn_header patch source target with
    ⟨hshort | hmagic, -⟩ | ⟨hlong, hmagic, hrun⟩
  · exact .inl hshort
  · exact .inr (.inl hmagic)
  · rw [hrun] at h
    obtain ⟨⟨a, data₁⟩, h₁, h⟩ := Option.bind_eq_some_iff.mp h
    obtain ⟨⟨b, data₂⟩, h₂, h⟩ := Option.bind_eq_some_iff.mp h
    have hb := sameSizes_sized.bounded (bounded_upsStart patch source target)
    obtain ⟨va, hva, hsame₁, ha⟩ := upsDecodeLoop_whole hb h₁
    obtain ⟨vb, hvb, hsame₂, hbm⟩ := upsDecodeLoop_whole (hsame₁.bounded hb) h₂
    rw [unread_sized hmagic] at hva
    have hsame := (sameSizes_sized.trans hsame₁).trans hsame₂
    refine .inr (.inr ⟨va, data₁.unread, vb, data₂.unread, hva, hvb, ?_⟩)
    simp only [ha, hbm] at h
    have hplen : 12 ≤ data₂.patchLength := by
      rw [hsame.patchLength]
      rw [← unread_upsStart patch source target, length_unread_start] at hlong
      exact le_trans (by decide) hlong
    have hends := (upsApplySizedIn_iff (hsame.bounded (bounded_upsStart patch source target)) hplen
      target.length (va % 2 ^ 32) (vb % 2 ^ 32) (Nat.mod_lt _ (by decide))
      (Nat.mod_lt _ (by decide))).1.mp ⟨rounds, result, h⟩
    rwa [hsame.sourceLength, hsame.targetLength] at hends

theorem run_of_ends (h : UpsEnds patch source target) :
    ∃ rounds result, upsApplyPatchIn rounds patch source target = some result := by
  rcases upsApplyPatchIn_header patch source target with ⟨-, hrun⟩ | ⟨hlong, hmagic, hrun⟩
  · exact ⟨0, hrun 0⟩
  rcases h with hshort | hother | ⟨va, rest, vb, rest', hva, hvb, hor⟩
  · omega
  · exact absurd hmagic hother
  have hb := sameSizes_sized.bounded (bounded_upsStart patch source target)
  have hun : (upsSized patch source target).unread = _ := unread_sized hmagic
  rw [← hun] at hva
  have hshorta := Varint.decode_length hva
  have hshortb := Varint.decode_length hvb
  let rounds := (upsSized patch source target).unread.length + source.length % 2 ^ 32 +
    va % 2 ^ 32 + vb % 2 ^ 32 + 1
  have hrounds₁ : (upsSized patch source target).unread.length ≤ rounds := by omega
  obtain ⟨bs₁, hbs₁, h₁⟩ := upsDecodeLoop_some hrounds₁ hva 0 1
  obtain ⟨va', hva', hsame₁, ha⟩ := upsDecodeLoop_whole hb h₁
  rw [hva] at hva'
  obtain ⟨rfl, hrest⟩ := Prod.mk.inj (Option.some.inj hva')
  rw [hrest] at hvb hshorta hshortb
  have hrounds₂ : ((upsSized patch source target).read bs₁).unread.length ≤ rounds := by omega
  obtain ⟨bs₂, hbs₂, h₂⟩ := upsDecodeLoop_some hrounds₂ hvb 0 1
  obtain ⟨vb', hvb', hsame₂, hbm⟩ := upsDecodeLoop_whole (hsame₁.bounded hb) h₂
  rw [hvb] at hvb'
  obtain ⟨rfl, hrest'⟩ := Prod.mk.inj (Option.some.inj hvb')
  have hsame := (sameSizes_sized.trans hsame₁).trans hsame₂
  have hslen : _ = source.length % 2 ^ 32 := hsame.sourceLength
  have htlen : _ = target.length % 2 ^ 32 := hsame.targetLength
  rw [hrest', ← hslen, ← htlen] at hor
  have hplen : 12 ≤ (((upsSized patch source target).read bs₁).read bs₂).patchLength := by
    rw [hsame.patchLength]
    rw [← unread_upsStart patch source target, length_unread_start] at hlong
    exact le_trans (by decide) hlong
  obtain ⟨result, h⟩ := (upsApplySizedIn_iff (hsame.bounded (bounded_upsStart patch source target))
    hplen target.length (va % 2 ^ 32) (vb % 2 ^ 32) (Nat.mod_lt _ (by decide))
    (Nat.mod_lt _ (by decide))).2 hor rounds (by
      rw [hslen, ← hrest']
      omega)
  refine ⟨rounds, result, ?_⟩
  rw [hrun, h₁, Option.bind_some]
  simp only
  rw [h₂, Option.bind_some]
  simp only [ha, hbm]
  exact h

/-- The run comes to an end exactly for the patches whose numbers do. -/
theorem ups_ends_iff (patch source target : List UInt8) :
    (∃ rounds result, upsApplyPatchIn rounds patch source target = some result) ↔
      UpsEnds patch source target :=
  ⟨fun ⟨_, _, h⟩ => ends_of_run h, run_of_ends⟩

/-- Zeros behind the two sizes. -/
def endlessPatch : List UInt8 := upsMagicBytes ++ [0x81, 0x81] ++ List.replicate 13 0

theorem ups_endless :
    ¬ ∃ rounds result, upsApplyPatchIn rounds endlessPatch [7] [0] = some result := by
  rintro ⟨rounds, result, hrun⟩
  rcases ends_of_run hrun with hshort | hother | ⟨a, rest, b, rest', ha, hb, hor⟩
  · exact absurd hshort (by decide)
  · exact absurd rfl hother
  · have ha' : (1, (0x81 : UInt8) :: List.replicate 13 0) = (a, rest) := Option.some.inj ha
    obtain ⟨rfl, rfl⟩ := Prod.mk.inj ha'
    have hb' : (1, List.replicate 13 (0 : UInt8)) = (b, rest') := Option.some.inj hb
    obtain ⟨rfl, rfl⟩ := Prod.mk.inj hb'
    rcases hor with (⟨hne, -⟩ | hsmall) | hends
    · exact absurd rfl hne
    · exact absurd hsmall (by decide)
    · cases hends with
      | done short => exact absurd short (by decide)
      | hunk _ number _ =>
        have hnone : Varint.decode (List.replicate 13 0) = none := by decide
        rw [hnone] at number
        cases number

end Whole

end RetroArch.Tasks
