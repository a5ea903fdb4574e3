/- The applier's reads and its loops, round by round, over what is left of the patch. -/

import RetroArch.Tasks.BpsScript

namespace RetroArch.Tasks

open Encodings Library Library.Bytes

section Readers

theorem ok_bind {α β : Type} (a : α) (f : α → Except BpsFault β) :
    ((Except.ok a : Except BpsFault α) >>= f) = f a := rfl

theorem error_bind {α β : Type} (e : BpsFault) (f : α → Except BpsFault β) :
    ((Except.error e : Except BpsFault α) >>= f) = .error e := rfl

theorem error_ne_ok {α : Type} {e : BpsFault} {a : α} :
    (Except.error e : Except BpsFault α) ≠ .ok a := nofun

theorem bind_eq_ok {α β : Type} {x : Except BpsFault α} {f : α → Except BpsFault β} {b : β} :
    (x >>= f) = .ok b ↔ ∃ a, x = .ok a ∧ f a = .ok b := by
  cases x with
  | error e =>
    rw [error_bind]
    constructor
    · intro h
      exact absurd h error_ne_ok
    · rintro ⟨a, h, -⟩
      exact absurd h error_ne_ok
  | ok a =>
    rw [ok_bind]
    constructor
    · exact fun h => ⟨a, rfl, h⟩
    · rintro ⟨a', h, hf⟩
      obtain rfl := Except.ok.inj h
      exact hf

/-- What is left of the patch and how far the offsets have come, in buffers of these lengths. -/
structure BpsAt (sourceLength targetLength : ℕ) (bs : List UInt8) (o : BpsOffsets)
    (bps : BpsData) : Prop where
  unread : bps.modifyData.drop bps.modifyOffset = bs
  sourceLength : bps.sourceData.length = sourceLength
  targetLength : bps.targetData.length = targetLength
  output : bps.outputOffset = o.output
  source : bps.sourceOffset = o.source
  target : bps.targetOffset = o.target

variable {S T : ℕ} {bs rest : List UInt8} {o : BpsOffsets} {bps : BpsData}

theorem bpsRead_cons {b : UInt8} (h : BpsAt S T (b :: bs) o bps) :
    ∃ bps', bpsRead bps = .ok (b, bps') ∧ BpsAt S T bs o bps' := by
  have hget : bps.modifyData[bps.modifyOffset]? = some b := by
    have hfirst := congrArg List.head? h.unread
    rw [List.head?_drop] at hfirst
    exact hfirst
  have hrest : bps.modifyData.drop (bps.modifyOffset + 1) = bs := by
    rw [← List.drop_drop, h.unread]
    rfl
  rw [bpsRead, hget]
  exact ⟨_, rfl, hrest, h.sourceLength, h.targetLength, h.output, h.source, h.target⟩

theorem bpsRead_nil (h : BpsAt S T [] o bps) : bpsRead bps = .error .modifyRead := by
  have hget : bps.modifyData[bps.modifyOffset]? = none := by
    have hfirst := congrArg List.head? h.unread
    rw [List.head?_drop] at hfirst
    exact hfirst
  rw [bpsRead, hget]

theorem bpsDecodeLoop_some {left : ℕ} (hleft : left = bs.length) {v : ℕ}
    (hv : Varint.decode bs = some (v, rest)) (h : BpsAt S T bs o bps) (data shift : UInt64) :
    ∃ bps', bpsDecodeLoop left data shift bps = .ok (data + shift * UInt64.ofNat v, bps') ∧
      BpsAt S T rest o bps' := by
  induction left generalizing bs v data shift bps with
  | zero =>
    rw [List.eq_nil_of_length_eq_zero hleft.symm] at hv
    exact absurd hv (Option.some_ne_none _).symm
  | succ left ih =>
    obtain ⟨x, xs, rfl⟩ := List.exists_cons_of_length_pos (show 0 < bs.length by omega)
    obtain ⟨bps₁, hread, hat⟩ := bpsRead_cons h
    have hlt := x.toNat_lt
    rw [Varint.decode] at hv
    rw [bpsDecodeLoop, hread, ok_bind]
    simp only [Varint.toUInt64_digit]
    by_cases hlast : 128 ≤ x.toNat
    · rw [if_pos hlast] at hv
      obtain ⟨rfl, rfl⟩ := Prod.mk.inj (Option.some.inj hv)
      have hdigit : x.toNat % 128 = x.toNat - 128 := by omega
      refine ⟨bps₁, ?_, hat⟩
      rw [if_pos ((Varint.digit_bits x).1.mpr hlast), hdigit, UInt64.mul_comm]
    · rw [if_neg hlast] at hv
      obtain ⟨⟨v', rest'⟩, hdecode, hv'⟩ := Option.map_eq_some_iff.mp hv
      obtain ⟨rfl, rfl⟩ := Prod.mk.inj hv'
      rw [List.length_cons] at hleft
      obtain ⟨bps₂, hloop, hat₂⟩ := ih (by omega) hdecode hat
        (data + UInt64.ofNat (x.toNat % 128) * shift + shift <<< 7) (shift <<< 7)
      have hdigit : x.toNat % 128 = x.toNat := by omega
      refine ⟨bps₂, ?_, hat₂⟩
      rw [if_neg (fun hx => hlast ((Varint.digit_bits x).1.mp hx)), hloop,
        Varint.shiftLeft_seven, Varint.decode_digit, hdigit]

theorem bpsDecodeLoop_none {left : ℕ} (hleft : left = bs.length) (hv : Varint.decode bs = none)
    (h : BpsAt S T bs o bps) (data shift : UInt64) :
    bpsDecodeLoop left data shift bps = .error .modifyRead := by
  induction left generalizing bs data shift bps with
  | zero => rfl
  | succ left ih =>
    obtain ⟨x, xs, rfl⟩ := List.exists_cons_of_length_pos (show 0 < bs.length by omega)
    obtain ⟨bps₁, hread, hat⟩ := bpsRead_cons h
    rw [Varint.decode] at hv
    rw [bpsDecodeLoop, hread, ok_bind]
    by_cases hlast : 128 ≤ x.toNat
    · rw [if_pos hlast] at hv
      exact absurd hv (Option.some_ne_none _)
    · rw [if_neg hlast, Option.map_eq_none_iff] at hv
      rw [List.length_cons] at hleft
      simp only
      rw [if_neg (fun hx => hlast ((Varint.digit_bits x).1.mp hx))]
      exact ih (by omega) hv hat _ _

theorem BpsAt.length (h : BpsAt S T bs o bps) :
    bps.modifyData.length - bps.modifyOffset = bs.length := by
  rw [← h.unread, List.length_drop]

theorem bpsDecode_some {n : UInt64} (hn : bpsNumberAt bs = some (n, rest))
    (h : BpsAt S T bs o bps) :
    ∃ bps', bpsDecode bps = .ok (n, bps') ∧ BpsAt S T rest o bps' := by
  obtain ⟨⟨v, rest'⟩, hdecode, hv⟩ := Option.map_eq_some_iff.mp hn
  obtain ⟨rfl, rfl⟩ := Prod.mk.inj hv
  obtain ⟨bps', hloop, hat⟩ := bpsDecodeLoop_some h.length hdecode h 0 1
  refine ⟨bps', ?_, hat⟩
  rw [bpsDecode, hloop, UInt64.zero_add, UInt64.one_mul]

theorem bpsDecode_none (hn : bpsNumberAt bs = none) (h : BpsAt S T bs o bps) :
    bpsDecode bps = .error .modifyRead :=
  bpsDecodeLoop_none h.length (Option.map_eq_none_iff.mp hn) h 0 1

end Readers

section Sending

variable {S T : ℕ} {bs rest : List UInt8} {o : BpsOffsets} {bps : BpsData}

/-- One round of a loop. -/
def bpsRound (fetch : BpsFetch) (bps : BpsData) : Except BpsFault BpsData := do
  let (data, bps) ← fetch bps
  bpsWrite bps data

theorem bpsSend_succ (fetch : BpsFetch) (n : ℕ) (bps : BpsData) :
    bpsSend fetch (n + 1) bps = bpsRound fetch bps >>= bpsSend fetch n := by
  rw [bpsSend, bpsRound]
  cases fetch bps with
  | error e => rfl
  | ok found => rfl

/-- Where a loop stands after each round, and the rounds that stay within the buffers. -/
structure BpsPath (S T : ℕ) (fetch : BpsFetch) (unread : ℕ → List UInt8)
    (offsets : ℕ → BpsOffsets) (can : ℕ → Prop) : Prop where
  ok : ∀ k bps, BpsAt S T (unread k) (offsets k) bps → can k →
    ∃ bps', bpsRound fetch bps = .ok bps' ∧ BpsAt S T (unread (k + 1)) (offsets (k + 1)) bps'
  fault : ∀ k bps, BpsAt S T (unread k) (offsets k) bps → ¬ can k →
    ∃ e, bpsRound fetch bps = .error e

variable {fetch : BpsFetch} {unread : ℕ → List UInt8} {offsets : ℕ → BpsOffsets} {can : ℕ → Prop}

theorem bpsSend_ok (hp : BpsPath S T fetch unread offsets can) (n k : ℕ)
    (h : BpsAt S T (unread k) (offsets k) bps) (hcan : ∀ i < n, can (k + i)) :
    ∃ bps', bpsSend fetch n bps = .ok bps' ∧
      BpsAt S T (unread (k + n)) (offsets (k + n)) bps' := by
  induction n generalizing k bps with
  | zero => exact ⟨bps, rfl, h⟩
  | succ n ih =>
    obtain ⟨bps₁, hround, hat⟩ := hp.ok k bps h (hcan 0 (Nat.succ_pos n))
    obtain ⟨bps₂, hsend, hat₂⟩ := ih (k + 1) hat (by
      intro i hi
      rw [Nat.add_assoc, Nat.add_comm 1 i]
      exact hcan (i + 1) (Nat.succ_lt_succ hi))
    refine ⟨bps₂, ?_, ?_⟩
    · rw [bpsSend_succ, hround, ok_bind, hsend]
    · rw [Nat.add_assoc, Nat.add_comm 1 n] at hat₂
      exact hat₂

theorem bpsSend_fault (hp : BpsPath S T fetch unread offsets can) (n k : ℕ)
    (h : BpsAt S T (unread k) (offsets k) bps) {i : ℕ} (hi : i < n) (hcan : ¬ can (k + i)) :
    ∃ e, bpsSend fetch n bps = .error e := by
  induction n generalizing k i bps with
  | zero => exact absurd hi (Nat.not_lt_zero i)
  | succ n ih =>
    rw [bpsSend_succ]
    by_cases hfirst : can k
    · obtain ⟨bps₁, hround, hat⟩ := hp.ok k bps h hfirst
      cases i with
      | zero => exact absurd hfirst hcan
      | succ i =>
        rw [Nat.add_comm i 1, ← Nat.add_assoc] at hcan
        rw [hround, ok_bind]
        exact ih (k + 1) hat (Nat.lt_of_succ_lt_succ hi) hcan
    · obtain ⟨e, hround⟩ := hp.fault k bps h hfirst
      exact ⟨e, by rw [hround, error_bind]⟩

theorem bpsWrite_ok (h : BpsAt S T bs o bps) (hroom : o.output < T) (data : UInt8) :
    ∃ bps', bpsWrite bps data = .ok bps' ∧
      BpsAt S T bs { o with output := o.output + 1 } bps' := by
  rw [bpsWrite, if_pos (by rw [h.output, h.targetLength]; exact hroom)]
  refine ⟨_, rfl, h.unread, h.sourceLength, ?_, ?_, h.source, h.target⟩
  · simp only [List.length_set]
    exact h.targetLength
  · simp only [h.output]

theorem bpsWrite_full (h : BpsAt S T bs o bps) (hfull : T ≤ o.output) (data : UInt8) :
    bpsWrite bps data = .error .targetWrite := by
  rw [bpsWrite, if_neg (by rw [h.output, h.targetLength]; exact Nat.not_lt.mpr hfull)]

theorem BpsPath.of_fetch (next : ℕ → BpsOffsets)
    (hsame : ∀ k, (next k).output = (offsets k).output)
    (hnext : ∀ k, offsets (k + 1) = { next k with output := (next k).output + 1 })
    (hok : ∀ k bps, BpsAt S T (unread k) (offsets k) bps → can k →
      ∃ data bps', fetch bps = .ok (data, bps') ∧ BpsAt S T (unread (k + 1)) (next k) bps')
    (hfault : ∀ k bps, BpsAt S T (unread k) (offsets k) bps → ¬ can k →
      ∃ e, fetch bps = .error e) :
    BpsPath S T fetch unread offsets (fun k => can k ∧ (offsets k).output < T) where
  ok := by
    rintro k bps h ⟨hcan, hroom⟩
    obtain ⟨data, bps₁, hfetch, hat⟩ := hok k bps h hcan
    rw [bpsRound, hfetch, ok_bind, hnext k]
    exact bpsWrite_ok hat (by rw [hsame k]; exact hroom) data
  fault := by
    intro k bps h hnot
    by_cases hcan : can k
    · obtain ⟨data, bps₁, hfetch, hat⟩ := hok k bps h hcan
      refine ⟨.targetWrite, ?_⟩
      rw [bpsRound, hfetch, ok_bind]
      refine bpsWrite_full hat ?_ data
      rw [hsame k]
      exact Nat.le_of_not_lt fun hroom => hnot ⟨hcan, hroom⟩
    · obtain ⟨e, hfetch⟩ := hfault k bps h hcan
      exact ⟨e, by rw [bpsRound, hfetch, error_bind]⟩

end Sending

section Modes

variable {S T : ℕ} {bs rest : List UInt8} {o : BpsOffsets} {bps : BpsData}

theorem sourceRead_path (S T : ℕ) (bs : List UInt8) (o : BpsOffsets) :
    BpsPath S T bpsSourceByte (fun _ => bs) (fun k => { o with output := o.output + k })
      (fun k => o.output + k < S ∧ o.output + k < T) := by
  apply BpsPath.of_fetch (fun k => { o with output := o.output + k })
  · exact fun k => rfl
  · exact fun k => rfl
  · intro k bps h hcan
    rw [bpsSourceByte, h.output, List.getElem?_eq_getElem (by rw [h.sourceLength]; exact hcan)]
    exact ⟨_, bps, rfl, h⟩
  · intro k bps h hcan
    rw [bpsSourceByte, h.output,
      List.getElem?_eq_none (by rw [h.sourceLength]; exact Nat.le_of_not_lt hcan)]
    exact ⟨_, rfl⟩

theorem targetRead_path (S T : ℕ) (bs : List UInt8) (o : BpsOffsets) :
    BpsPath S T bpsRead (fun k => bs.drop k) (fun k => { o with output := o.output + k })
      (fun k => k < bs.length ∧ o.output + k < T) := by
  apply BpsPath.of_fetch (fun k => { o with output := o.output + k })
  · exact fun k => rfl
  · exact fun k => rfl
  · intro k bps h hcan
    rw [List.drop_eq_getElem_cons hcan] at h
    obtain ⟨bps', hread, hat⟩ := bpsRead_cons h
    exact ⟨_, bps', hread, hat⟩
  · intro k bps h hcan
    rw [List.drop_eq_nil_of_le (Nat.le_of_not_lt hcan)] at h
    exact ⟨_, bpsRead_nil h⟩

theorem sourceCopy_path (S T : ℕ) (bs : List UInt8) (o : BpsOffsets) :
    BpsPath S T bpsSourceCopyByte (fun _ => bs)
      (fun k => { o with output := o.output + k, source := o.source + k })
      (fun k => o.source + k < S ∧ o.output + k < T) := by
  apply BpsPath.of_fetch
    (fun k => { o with output := o.output + k, source := o.source + k + 1 })
  · exact fun k => rfl
  · exact fun k => rfl
  · intro k bps h hcan
    rw [bpsSourceCopyByte, h.source,
      List.getElem?_eq_getElem (by rw [h.sourceLength]; exact hcan)]
    exact ⟨_, _, rfl, h.unread, h.sourceLength, h.targetLength, h.output, rfl, h.target⟩
  · intro k bps h hcan
    rw [bpsSourceCopyByte, h.source,
      List.getElem?_eq_none (by rw [h.sourceLength]; exact Nat.le_of_not_lt hcan)]
    exact ⟨_, rfl⟩

theorem targetCopy_path (S T : ℕ) (bs : List UInt8) (o : BpsOffsets) :
    BpsPath S T bpsTargetCopyByte (fun _ => bs)
      (fun k => { o with output := o.output + k, target := o.target + k })
      (fun k => (o.target < o.output ∧ o.target + k < T) ∧ o.output + k < T) := by
  have hlen : ∀ k bps, BpsAt S T bs
      { o with output := o.output + k, target := o.target + k } bps →
      (bps.targetData.take bps.outputOffset).length = min (o.output + k) T := by
    intro k bps h
    rw [List.length_take, h.output, h.targetLength]
  apply BpsPath.of_fetch
    (fun k => { o with output := o.output + k, target := o.target + k + 1 })
  · exact fun k => rfl
  · exact fun k => rfl
  · intro k bps h hcan
    have hlt : o.target + k < (bps.targetData.take bps.outputOffset).length := by
      rw [hlen k bps h]
      omega
    rw [bpsTargetCopyByte, h.target, List.getElem?_eq_getElem hlt]
    exact ⟨_, _, rfl, h.unread, h.sourceLength, h.targetLength, h.output, h.source, rfl⟩
  · intro k bps h hcan
    have hge : (bps.targetData.take bps.outputOffset).length ≤ o.target + k := by
      rw [hlen k bps h]
      omega
    rw [bpsTargetCopyByte, h.target, List.getElem?_eq_none hge]
    exact ⟨_, rfl⟩

/-- A loop from its first round: all its rounds are within the buffers, or it ends in a fault. -/
theorem bpsSend_spec {fetch : BpsFetch} {unread : ℕ → List UInt8} {offsets : ℕ → BpsOffsets}
    {can : ℕ → Prop} (hp : BpsPath S T fetch unread offsets can) (n : ℕ)
    (h : BpsAt S T (unread 0) (offsets 0) bps) :
    ((∀ k < n, can k) → ∃ bps', bpsSend fetch n bps = .ok bps' ∧
        BpsAt S T (unread n) (offsets n) bps') ∧
      (¬ (∀ k < n, can k) → ∃ e, bpsSend fetch n bps = .error e) := by
  have hzero : ∀ k, 0 + k = k := Nat.zero_add
  constructor
  · intro hcan
    obtain ⟨bps', hsend, hat⟩ := bpsSend_ok hp n 0 h (fun k hk => by rw [hzero]; exact hcan k hk)
    rw [hzero] at hat
    exact ⟨bps', hsend, hat⟩
  · intro hnot
    obtain ⟨k, hk⟩ := not_forall.mp hnot
    obtain ⟨hlt, hcan⟩ := Classical.not_imp.mp hk
    exact bpsSend_fault hp n 0 h hlt (by rw [hzero]; exact hcan)

/-- The action at the start of the unread bytes is carried out exactly if it fits. -/
theorem bpsAction_spec (h : BpsAt S T bs o bps) :
    (bpsActionAt bs = none ∧ ∃ e, bpsAction bps = .error e) ∨
      ∃ a rest, bpsActionAt bs = some (a, rest) ∧
        (a.Fits S T o → ∃ bps', bpsAction bps = .ok bps' ∧ BpsAt S T rest (a.advance o) bps') ∧
        (¬ a.Fits S T o → ∃ e, bpsAction bps = .error e) := by
  rw [bpsAction, bpsActionAt]
  cases hn : bpsNumberAt bs with
  | none =>
    left
    rw [bpsDecode_none hn h, error_bind]
    exact ⟨rfl, _, rfl⟩
  | some found =>
    obtain ⟨n, rest⟩ := found
    obtain ⟨bps₁, hdecode, hat⟩ := bpsDecode_some hn h
    rw [hdecode, ok_bind, Option.bind_some]
    simp only
    generalize n.toNat / 4 = len
    rcases n.toNat % 4 with _ | _ | _ | mode
    · right
      refine ⟨_, rest, rfl, ?_⟩
      have hsend := bpsSend_spec (sourceRead_path S T rest o) (len + 1) hat
      have hfits : (∀ k < len + 1, o.output + k < S ∧ o.output + k < T) ↔
          (BpsAction.sourceRead (len + 1)).Fits S T o := by
        rw [BpsAction.Fits]
        constructor
        · intro hall
          have := hall len (Nat.lt_succ_self len)
          omega
        · intro hfit k hk
          omega
      rw [hfits] at hsend
      exact hsend
    · have hsend := bpsSend_spec (targetRead_path S T rest o) (len + 1) hat
      simp only
      split_ifs with hmore
      · right
        refine ⟨_, _, rfl, ?_⟩
        have hfits : (∀ k < len + 1, k < rest.length ∧ o.output + k < T) ↔
            (BpsAction.targetRead (len + 1)).Fits S T o := by
          rw [BpsAction.Fits]
          constructor
          · intro hall
            have := hall len (Nat.lt_succ_self len)
            omega
          · intro hfit k hk
            omega
        rw [hfits] at hsend
        exact hsend
      · left
        refine ⟨rfl, hsend.2 fun hall => ?_⟩
        have := hall len (Nat.lt_succ_self len)
        omega
    · cases hv : bpsNumberAt rest with
      | none =>
        left
        rw [bpsDecode_none hv hat]
        exact ⟨rfl, _, rfl⟩
      | some found =>
        obtain ⟨v, rest'⟩ := found
        obtain ⟨bps₂, hoffset, hat₂⟩ := bpsDecode_some hv hat
        right
        refine ⟨_, rest', rfl, ?_⟩
        rw [hoffset, ok_bind]
        have hjump : BpsAt S T rest' { o with source := bpsJump o.source (bpsOffset v) }
            { bps₂ with sourceOffset := bpsJump bps₂.sourceOffset (bpsOffset v) } :=
          ⟨hat₂.unread, hat₂.sourceLength, hat₂.targetLength, hat₂.output,
            congrArg (bpsJump · (bpsOffset v)) hat₂.source, hat₂.target⟩
        have hsend := bpsSend_spec (sourceCopy_path S T rest'
          { o with source := bpsJump o.source (bpsOffset v) }) (len + 1) hjump
        have hfits : (∀ k < len + 1, bpsJump o.source (bpsOffset v) + k < S ∧
            o.output + k < T) ↔
            (BpsAction.sourceCopy (len + 1) (bpsOffset v)).Fits S T o := by
          rw [BpsAction.Fits]
          constructor
          · intro hall
            have := hall len (Nat.lt_succ_self len)
            omega
          · intro hfit k hk
            omega
        rw [hfits] at hsend
        exact hsend
    · cases hv : bpsNumberAt rest with
      | none =>
        left
        rw [bpsDecode_none hv hat]
        exact ⟨rfl, _, rfl⟩
      | some found =>
        obtain ⟨v, rest'⟩ := found
        obtain ⟨bps₂, hoffset, hat₂⟩ := bpsDecode_some hv hat
        right
        refine ⟨_, rest', rfl, ?_⟩
        rw [hoffset, ok_bind]
        have hjump : BpsAt S T rest' { o with target := bpsJump o.target (bpsOffset v) }
            { bps₂ with targetOffset := bpsJump bps₂.targetOffset (bpsOffset v) } :=
          ⟨hat₂.unread, hat₂.sourceLength, hat₂.targetLength, hat₂.output, hat₂.source,
            congrArg (bpsJump · (bpsOffset v)) hat₂.target⟩
        have hsend := bpsSend_spec (targetCopy_path S T rest'
          { o with target := bpsJump o.target (bpsOffset v) }) (len + 1) hjump
        have hfits : (∀ k < len + 1, (bpsJump o.target (bpsOffset v) < o.output ∧
            bpsJump o.target (bpsOffset v) + k < T) ∧ o.output + k < T) ↔
            (BpsAction.targetCopy (len + 1) (bpsOffset v)).Fits S T o := by
          rw [BpsAction.Fits]
          constructor
          · intro hall
            have := hall len (Nat.lt_succ_self len)
            omega
          · intro hfit k hk
            omega
        rw [hfits] at hsend
        exact hsend

end Modes

end RetroArch.Tasks
