/- What a success of the applier says of its output. -/

import RetroArch.Tasks.BpsSafety

set_option maxRecDepth 10000

namespace RetroArch.Tasks

open Encodings Library.Bytes

def BpsAction.length : BpsAction → ℕ
  | .sourceRead length => length
  | .targetRead length => length
  | .sourceCopy length _ => length
  | .targetCopy length _ => length

/-- `modify_target_checksum`, the second of the three at the end of the patch. -/
def bpsTargetChecksum (patch : List UInt8) : UInt32 :=
  UInt32.ofNat (ofLE ((patch.drop (patch.length - 8)).take 4))

/-- How many bytes the actions of a patch have written when its checksums are read. -/
def bpsProduced (patch source target : List UInt8) : Except BpsFault ℕ := do
  let (_, bps) ← bpsExpect bpsMagic (bpsStart patch source target)
  let (_, bps) ← bpsDecode bps
  let (_, bps) ← bpsDecode bps
  let (modifyMarkupSize, bps) ← bpsDecode bps
  let bps ← bpsSkip modifyMarkupSize.toNat bps
  let bps ← bpsActions (bps.modifyData.length - 12 - bps.modifyOffset) bps
  .ok bps.outputOffset

/-- The output is as long as the result says, and has the checksum that is in the patch. -/
def BpsVerified (patch source target : List UInt8) (result : BpsResult) : Prop :=
  bpsProduced patch source target = .ok result.targetLength ∧
    encodingCrc32 0 (result.targetData.take result.targetLength) = bpsTargetChecksum patch

/-- The actions of a patch give as many bytes as its header says. -/
def BpsFills (patch : List UInt8) : Prop :=
  ∃ sourceSize targetSize body actions,
    bpsSizesAt patch = some (sourceSize, targetSize, body) ∧ BpsScript body actions ∧
      (actions.map BpsAction.length).sum = targetSize

section Keeping

/-- A fetch that keeps `I`. -/
def BpsFetch.Keeps (I : BpsData → Prop) (fetch : BpsFetch) : Prop :=
  ∀ {bps data bps'}, I bps → fetch bps = .ok (data, bps') → I bps'

/-- What is not about the offsets of copies, and is kept where a byte is read or written. -/
structure BpsKept (I : BpsData → Prop) : Prop where
  read : BpsFetch.Keeps I bpsRead
  write : ∀ {bps data bps'}, I bps → bpsWrite bps data = .ok bps' → I bps'
  jump : ∀ {bps} (source target : ℕ), I bps →
    I { bps with sourceOffset := source, targetOffset := target }

variable {I : BpsData → Prop} {bps bps' : BpsData}

theorem fetched_of_ok {get : Option UInt8} {fault : BpsFault} {after : UInt8 → UInt8 × BpsData}
    {fetched : UInt8 × BpsData}
    (h : (match get with
      | none => Except.error fault
      | some b => .ok (after b)) = .ok fetched) : ∃ b, get = some b ∧ after b = fetched := by
  cases get with
  | none => exact absurd h error_ne_ok
  | some b => exact ⟨b, rfl, Except.ok.inj h⟩

theorem keeps_bpsSourceByte : BpsFetch.Keeps I bpsSourceByte := by
  intro bps data bps' h hread
  obtain ⟨b, -, hmoved⟩ := fetched_of_ok hread
  obtain ⟨-, rfl⟩ := Prod.mk.inj hmoved
  exact h

theorem BpsKept.sourceCopyByte (hkept : BpsKept I) : BpsFetch.Keeps I bpsSourceCopyByte := by
  intro bps data bps' h hread
  obtain ⟨b, -, hmoved⟩ := fetched_of_ok hread
  obtain ⟨-, rfl⟩ := Prod.mk.inj hmoved
  exact hkept.jump _ bps.targetOffset h

theorem BpsKept.targetCopyByte (hkept : BpsKept I) : BpsFetch.Keeps I bpsTargetCopyByte := by
  intro bps data bps' h hread
  obtain ⟨b, -, hmoved⟩ := fetched_of_ok hread
  obtain ⟨-, rfl⟩ := Prod.mk.inj hmoved
  exact hkept.jump bps.sourceOffset _ h

theorem BpsKept.send (hkept : BpsKept I) {fetch : BpsFetch} (hkeeps : fetch.Keeps I) (n : ℕ)
    (h : I bps) (hsend : bpsSend fetch n bps = .ok bps') : I bps' := by
  induction n generalizing bps with
  | zero =>
    obtain rfl := Except.ok.inj hsend
    exact h
  | succ n ih =>
    rw [bpsSend] at hsend
    obtain ⟨⟨data, bps₁⟩, hfetch, hsend⟩ := bind_eq_ok.mp hsend
    obtain ⟨bps₂, hwrite, hsend⟩ := bind_eq_ok.mp hsend
    exact ih (hkept.write (hkeeps h hfetch) hwrite) hsend

theorem BpsKept.decodeLoop (hkept : BpsKept I) {left : ℕ} {data shift n : UInt64} (h : I bps)
    (hdecode : bpsDecodeLoop left data shift bps = .ok (n, bps')) : I bps' := by
  induction left generalizing bps data shift with
  | zero => exact absurd hdecode error_ne_ok
  | succ left ih =>
    rw [bpsDecodeLoop] at hdecode
    obtain ⟨⟨x, bps₁⟩, hread, hdecode⟩ := bind_eq_ok.mp hdecode
    have h₁ := hkept.read h hread
    simp only at hdecode
    split_ifs at hdecode with hlast
    · obtain ⟨-, rfl⟩ := Prod.mk.inj (Except.ok.inj hdecode)
      exact h₁
    · exact ih h₁ hdecode

theorem BpsKept.decode (hkept : BpsKept I) {n : UInt64} (h : I bps)
    (hdecode : bpsDecode bps = .ok (n, bps')) : I bps' := hkept.decodeLoop h hdecode

theorem BpsKept.action (hkept : BpsKept I) (h : I bps) (haction : bpsAction bps = .ok bps') :
    I bps' := by
  rw [bpsAction] at haction
  obtain ⟨⟨length, bps₁⟩, hdecode, haction⟩ := bind_eq_ok.mp haction
  have h₁ := hkept.decode h hdecode
  simp only at haction
  split at haction
  · exact hkept.send keeps_bpsSourceByte _ h₁ haction
  · exact hkept.send hkept.read _ h₁ haction
  · obtain ⟨⟨data, bps₂⟩, hoffset, haction⟩ := bind_eq_ok.mp haction
    have h₂ := hkept.jump (bpsJump bps₂.sourceOffset (bpsOffset data)) bps₂.targetOffset
      (hkept.decode h₁ hoffset)
    exact hkept.send hkept.sourceCopyByte _ h₂ haction
  · obtain ⟨⟨data, bps₂⟩, hoffset, haction⟩ := bind_eq_ok.mp haction
    have h₂ := hkept.jump bps₂.sourceOffset (bpsJump bps₂.targetOffset (bpsOffset data))
      (hkept.decode h₁ hoffset)
    exact hkept.send hkept.targetCopyByte _ h₂ haction

theorem BpsKept.actions (hkept : BpsKept I) {left : ℕ} (h : I bps)
    (hactions : bpsActions left bps = .ok bps') : I bps' := by
  induction left generalizing bps with
  | zero =>
    obtain rfl := Except.ok.inj hactions
    exact h
  | succ left ih =>
    rw [bpsActions] at hactions
    split_ifs at hactions with hmore
    · obtain ⟨bps₁, haction, hactions⟩ := bind_eq_ok.mp hactions
      exact ih (hkept.action h haction) hactions
    · obtain rfl := Except.ok.inj hactions
      exact h

theorem BpsKept.skip (hkept : BpsKept I) {n : ℕ} (h : I bps) (hskip : bpsSkip n bps = .ok bps') :
    I bps' := by
  induction n generalizing bps with
  | zero =>
    obtain rfl := Except.ok.inj hskip
    exact h
  | succ n ih =>
    rw [bpsSkip] at hskip
    obtain ⟨⟨b, bps₁⟩, hread, hskip⟩ := bind_eq_ok.mp hskip
    exact ih (hkept.read h hread) hskip

theorem BpsKept.expect (hkept : BpsKept I) {cs : List UInt8} {known : Bool} (h : I bps)
    (hexpect : bpsExpect cs bps = .ok (known, bps')) : I bps' := by
  induction cs generalizing bps with
  | nil =>
    obtain ⟨-, rfl⟩ := Prod.mk.inj (Except.ok.inj hexpect)
    exact h
  | cons c cs ih =>
    rw [bpsExpect] at hexpect
    obtain ⟨⟨b, bps₁⟩, hread, hexpect⟩ := bind_eq_ok.mp hexpect
    have h₁ := hkept.read h hread
    simp only at hexpect
    split_ifs at hexpect with hother
    · obtain ⟨-, rfl⟩ := Prod.mk.inj (Except.ok.inj hexpect)
      exact h₁
    · exact ih h₁ hexpect

theorem BpsKept.readChecksum (hkept : BpsKept I) {crc : UInt32} (h : I bps)
    (hread : bpsReadChecksum bps = .ok (crc, bps')) : I bps' := by
  rw [bpsReadChecksum] at hread
  obtain ⟨⟨a, bps₁⟩, ra, hread⟩ := bind_eq_ok.mp hread
  obtain ⟨⟨b, bps₂⟩, rb, hread⟩ := bind_eq_ok.mp hread
  obtain ⟨⟨c, bps₃⟩, rc, hread⟩ := bind_eq_ok.mp hread
  obtain ⟨⟨d, bps₄⟩, rd, hread⟩ := bind_eq_ok.mp hread
  obtain ⟨-, rfl⟩ := Prod.mk.inj (Except.ok.inj hread)
  exact hkept.read (hkept.read (hkept.read (hkept.read h ra) rb) rc) rd

end Keeping

section Summing

variable {patch source : List UInt8}

/-- The checksum is that of what has been written. -/
structure BpsSummed (patch : List UInt8) (bps : BpsData) : Prop where
  modify : bps.modifyData = patch
  within : bps.outputOffset ≤ bps.targetData.length
  checksum : bps.targetChecksum =
    (bps.targetData.take bps.outputOffset).foldl crc32Step (~~~0)

theorem bpsSummed_kept : BpsKept (BpsSummed patch) where
  read := by
    intro bps data bps' h hread
    obtain ⟨b, -, hmoved⟩ := fetched_of_ok hread
    obtain ⟨-, rfl⟩ := Prod.mk.inj hmoved
    exact ⟨h.modify, h.within, h.checksum⟩
  write := by
    intro bps data bps' h hwrite
    rw [bpsWrite] at hwrite
    split_ifs at hwrite with hroom
    obtain rfl := Except.ok.inj hwrite
    refine ⟨h.modify, ?_, ?_⟩
    · change bps.outputOffset + 1 ≤ (bps.targetData.set bps.outputOffset data).length
      rw [List.length_set]
      exact hroom
    · change ~~~(encodingCrc32 (~~~bps.targetChecksum) [data]) =
        ((bps.targetData.set bps.outputOffset data).take (bps.outputOffset + 1)).foldl crc32Step
          (~~~0)
      have htake : (bps.targetData.set bps.outputOffset data).take (bps.outputOffset + 1) =
          bps.targetData.take bps.outputOffset ++ [data] := by
        rw [List.take_add_one, List.take_set_of_le (Nat.le_refl _), List.getElem?_set_self hroom]
        rfl
      rw [encodingCrc32_byte, htake, List.foldl_append, ← h.checksum]
      rfl
  jump _ _ h := ⟨h.modify, h.within, h.checksum⟩

/-- The source is left alone, and the checksum is that of what has been read of the patch. -/
structure BpsAccounted (patch source : List UInt8) (bps : BpsData) : Prop where
  modify : bps.modifyData = patch
  source : bps.sourceData = source
  checksum : bps.modifyChecksum = (patch.take bps.modifyOffset).foldl crc32Step (~~~0)

theorem bpsAccounted_kept : BpsKept (BpsAccounted patch source) where
  read := by
    intro bps data bps' h hread
    obtain ⟨b, hget, hmoved⟩ := fetched_of_ok hread
    obtain ⟨-, rfl⟩ := Prod.mk.inj hmoved
    rw [h.modify] at hget
    refine ⟨h.modify, h.source, ?_⟩
    change ~~~(encodingCrc32 (~~~bps.modifyChecksum) [b]) =
      (patch.take (bps.modifyOffset + 1)).foldl crc32Step (~~~0)
    rw [encodingCrc32_byte, List.take_add_one, hget, List.foldl_append, ← h.checksum]
    rfl
  write := by
    intro bps data bps' h hwrite
    rw [bpsWrite] at hwrite
    split_ifs at hwrite with hroom
    obtain rfl := Except.ok.inj hwrite
    exact ⟨h.modify, h.source, h.checksum⟩
  jump _ _ h := ⟨h.modify, h.source, h.checksum⟩

end Summing

section Verified

variable {S T : ℕ} {bs : List UInt8} {o : BpsOffsets} {bps bps' : BpsData}

theorem bpsReadChecksum_value {crc : UInt32} (h : BpsAt S T bs o bps)
    (hread : bpsReadChecksum bps = .ok (crc, bps')) :
    crc = UInt32.ofNat (ofLE (bs.take 4)) ∧ bps'.targetData = bps.targetData ∧
      bps'.targetChecksum = bps.targetChecksum := by
  have hkept : ∀ {bps : BpsData} {b : UInt8} {bps' : BpsData}, bpsRead bps = .ok (b, bps') →
      bps'.targetData = bps.targetData ∧ bps'.targetChecksum = bps.targetChecksum := by
    intro bps b bps' hread
    rw [bpsRead] at hread
    split at hread
    · exact absurd hread error_ne_ok
    · obtain ⟨-, rfl⟩ := Prod.mk.inj (Except.ok.inj hread)
      exact ⟨rfl, rfl⟩
  rw [bpsReadChecksum] at hread
  obtain ⟨⟨a, bps₁⟩, ra, hread⟩ := bind_eq_ok.mp hread
  obtain ⟨⟨b, bps₂⟩, rb, hread⟩ := bind_eq_ok.mp hread
  obtain ⟨⟨c, bps₃⟩, rc, hread⟩ := bind_eq_ok.mp hread
  obtain ⟨⟨d, bps₄⟩, rd, hread⟩ := bind_eq_ok.mp hread
  obtain ⟨rfl, rfl⟩ := Prod.mk.inj (Except.ok.inj hread)
  obtain ⟨rest₁, rfl, ha⟩ := bpsRead_ok ra h
  obtain ⟨rest₂, rfl, hb⟩ := bpsRead_ok rb ha
  obtain ⟨rest₃, rfl, hc⟩ := bpsRead_ok rc hb
  obtain ⟨rest₄, rfl, hd⟩ := bpsRead_ok rd hc
  refine ⟨rfl, ?_, ?_⟩
  · rw [(hkept rd).1, (hkept rc).1, (hkept rb).1, (hkept ra).1]
  · rw [(hkept rd).2, (hkept rc).2, (hkept rb).2, (hkept ra).2]

theorem bpsSummed_start (patch source target : List UInt8) :
    BpsSummed patch (bpsStart patch source target) := ⟨rfl, Nat.zero_le _, rfl⟩

/-- A success has compared the three checksums with those read. -/
theorem bpsVerdict_success {n : ℕ} {result : BpsResult} (h : BpsAt S T bs o bps)
    (hverdict : bpsVerdict bps n = .ok result) (hsuccess : result.err = .success) :
    result = ⟨.success, bps.targetData, n⟩ ∧
      ~~~bps.targetChecksum = UInt32.ofNat (ofLE ((bs.drop 4).take 4)) ∧
      ∀ patch source, BpsAccounted patch source bps →
        encodingCrc32 0 source = UInt32.ofNat (ofLE (bs.take 4)) ∧
          ∃ k, patch.drop k = bs.drop 8 ∧
            encodingCrc32 0 (patch.take k) = UInt32.ofNat (ofLE ((bs.drop 8).take 4)) := by
  rw [bpsVerdict] at hverdict
  obtain ⟨⟨crc₁, bps₁⟩, h₁, hverdict⟩ := bind_eq_ok.mp hverdict
  obtain ⟨⟨crc₂, bps₂⟩, h₂, hverdict⟩ := bind_eq_ok.mp hverdict
  obtain ⟨⟨crc₃, bps₃⟩, h₃, hverdict⟩ := bind_eq_ok.mp hverdict
  obtain ⟨-, hat₁⟩ := bpsReadChecksum_ok h₁ h
  obtain ⟨-, hat₂⟩ := bpsReadChecksum_ok h₂ hat₁
  obtain ⟨hcrc₁, hdata₁, hsum₁⟩ := bpsReadChecksum_value h h₁
  obtain ⟨hcrc₂, hdata₂, hsum₂⟩ := bpsReadChecksum_value hat₁ h₂
  obtain ⟨hcrc₃, hdata₃, hsum₃⟩ := bpsReadChecksum_value hat₂ h₃
  simp only at hverdict
  rw [hdata₃, hdata₂, hdata₁, hsum₃, hsum₂, hsum₁] at hverdict
  split_ifs at hverdict with hsource htarget hpatch
  · rw [← Except.ok.inj hverdict] at hsuccess
    cases hsuccess
  · rw [← Except.ok.inj hverdict] at hsuccess
    cases hsuccess
  · rw [← Except.ok.inj hverdict] at hsuccess
    cases hsuccess
  · refine ⟨(Except.ok.inj hverdict).symm, (not_not.mp htarget).trans hcrc₂, ?_⟩
    intro patch source haccounted
    have hread := bpsAccounted_kept.readChecksum (bpsAccounted_kept.readChecksum haccounted h₁) h₂
    have hunread := hat₂.unread
    rw [hread.modify, List.drop_drop] at hunread
    refine ⟨?_, bps₂.modifyOffset, hunread, ?_⟩
    · rw [← (bpsAccounted_kept.readChecksum hread h₃).source]
      exact (not_not.mp hsource).trans hcrc₁
    · rw [encodingCrc32_zero, ← hread.checksum, not_not.mp hpatch, hcrc₃, List.drop_drop]

theorem output_advance (actions : List BpsAction) (o : BpsOffsets) :
    (actions.foldl BpsAction.advance o).output = o.output + (actions.map BpsAction.length).sum := by
  induction actions generalizing o with
  | nil => rfl
  | cons a actions ih =>
    rw [List.foldl_cons, ih, List.map_cons, List.sum_cons, ← Nat.add_assoc]
    cases a <;> rfl

/-- A run that succeeds has come to its verdict with the three checksums in front of it. -/
theorem bpsApplyPatch_verdict {patch source target : List UInt8} {result : BpsResult}
    (hrun : bpsApplyPatch patch source target = .ok result) (hsuccess : result.err = .success) :
    ∃ sourceSize targetSize body actions o bps,
      bpsSizesAt patch = some (sourceSize, targetSize, body) ∧
      BpsScript body actions ∧ o.output = (actions.map BpsAction.length).sum ∧
      bpsProduced patch source target = .ok bps.outputOffset ∧
      BpsAt source.length target.length (patch.drop (patch.length - 12)) o bps ∧
      12 ≤ patch.length ∧ bpsVerdict bps targetSize = .ok result ∧
      ∀ I, BpsKept I → I (bpsStart patch source target) → I bps := by
  rw [bpsApplyPatch] at hrun
  split_ifs at hrun with hshort
  · rw [← Except.ok.inj hrun] at hsuccess
    cases hsuccess
  change (bpsExpect bpsMagic (bpsStart patch source target) >>= _) = _ at hrun
  obtain ⟨⟨known, bps₀⟩, h₀, hrun⟩ := bind_eq_ok.mp hrun
  have hstart := bpsAt_start patch source target
  obtain ⟨bps₀', h₀', hat₀⟩ := bpsExpect_spec bpsMagic
    (show bpsMagic.length ≤ patch.length by exact le_trans (by decide) (Nat.le_of_not_lt hshort))
    hstart
  obtain ⟨hknown, rfl⟩ := Prod.mk.inj (Except.ok.inj (h₀.symm.trans h₀'))
  simp only at hrun
  split_ifs at hrun with hother
  · rw [← Except.ok.inj hrun] at hsuccess
    cases hsuccess
  rw [Bool.not_eq_false] at hother
  have hmagic : patch.take bpsMagic.length = bpsMagic :=
    of_decide_eq_true (hknown.symm.trans hother)
  have hat : BpsAt source.length target.length (patch.drop 4) ⟨0, 0, 0⟩ bps₀ := hat₀ hmagic
  rw [bpsApplySized] at hrun
  obtain ⟨⟨sourceSize, bps₁⟩, h₁, hrun⟩ := bind_eq_ok.mp hrun
  obtain ⟨⟨targetSize, bps₂⟩, h₂, hrun⟩ := bind_eq_ok.mp hrun
  obtain ⟨⟨markup, bps₃⟩, h₃, hrun⟩ := bind_eq_ok.mp hrun
  obtain ⟨bps₄, h₄, hrun⟩ := bind_eq_ok.mp hrun
  obtain ⟨rest₁, n₁, hat₁⟩ := bpsDecode_ok h₁ hat
  obtain ⟨rest₂, n₂, hat₂⟩ := bpsDecode_ok h₂ hat₁
  obtain ⟨rest₃, n₃, hat₃⟩ := bpsDecode_ok h₃ hat₂
  obtain ⟨hmarkup, hat₄⟩ := bpsSkip_ok h₄ hat₃
  have hkeeps : ∀ I, BpsKept I → I (bpsStart patch source target) → I bps₄ := fun I hkept h =>
    hkept.skip (hkept.decode (hkept.decode (hkept.decode (hkept.expect h h₀) h₁) h₂) h₃) h₄
  split_ifs at hrun with hsource htarget
  · rw [← Except.ok.inj hrun] at hsuccess
    cases hsuccess
  · rw [← Except.ok.inj hrun] at hsuccess
    cases hsuccess
  obtain ⟨bps₅, h₅, hverdict⟩ := bind_eq_ok.mp hrun
  have hlen := hat₄.length
  obtain ⟨tail, o', hat₅, hle, hscript⟩ := bpsActions_ok h₅ hat₄ (by omega)
  have htail := Nat.le_antisymm hle (bpsVerdict_ok hverdict hat₅)
  obtain ⟨actions, hbody, -, hend⟩ := hscript htail
  have hkeeps₅ : ∀ I, BpsKept I → I (bpsStart patch source target) → I bps₅ := fun I hkept h =>
    hkept.actions (hkeeps I hkept h) h₅
  have hsummed₅ := hkeeps₅ _ bpsSummed_kept (bpsSummed_start patch source target)
  have hunread := hat₅.unread
  rw [hsummed₅.modify] at hunread
  have hoffset : patch.length - bps₅.modifyOffset = 12 := by
    rw [← List.length_drop, hunread]
    exact htail
  obtain rfl : tail = patch.drop (patch.length - 12) := by
    rw [← hunread]
    congr 1
    omega
  refine ⟨sourceSize.toNat, targetSize.toNat, _, actions, o', bps₅, ?_, hbody, ?_, ?_, hat₅,
    by omega, hverdict, hkeeps₅⟩
  · rw [bpsSizesAt, n₁, Option.bind_some]
    simp only
    rw [n₂, Option.bind_some]
    simp only
    rw [n₃, Option.bind_some]
    simp only
    rw [if_pos hmarkup]
  · rw [hend, output_advance]
    exact Nat.zero_add _
  · rw [bpsProduced, h₀, ok_bind]
    simp only
    rw [h₁, ok_bind]
    simp only
    rw [h₂, ok_bind]
    simp only
    rw [h₃, ok_bind]
    simp only
    rw [h₄, ok_bind, h₅, ok_bind]

/-- What a success tells: the run, the bytes that were written and the checksum of them. -/
theorem bpsApplyPatch_success {patch source target : List UInt8} {result : BpsResult}
    (hrun : bpsApplyPatch patch source target = .ok result) (hsuccess : result.err = .success) :
    ∃ sourceSize body actions, bpsSizesAt patch = some (sourceSize, result.targetLength, body) ∧
      BpsScript body actions ∧
      bpsProduced patch source target = .ok (actions.map BpsAction.length).sum ∧
      encodingCrc32 0 (result.targetData.take (actions.map BpsAction.length).sum) =
        bpsTargetChecksum patch := by
  obtain ⟨sourceSize, _, body, actions, o, bps, hsizes, hbody, hsum, hproduced, hat, hlong,
    hverdict, hkeeps⟩ := bpsApplyPatch_verdict hrun hsuccess
  have hsummed := hkeeps _ bpsSummed_kept (bpsSummed_start patch source target)
  obtain ⟨rfl, hchecksum, -⟩ := bpsVerdict_success hat hverdict hsuccess
  rw [hat.output, hsum] at hproduced
  refine ⟨sourceSize, body, actions, hsizes, hbody, hproduced, ?_⟩
  rw [encodingCrc32_zero, ← hsum, ← hat.output, ← hsummed.checksum, hchecksum, bpsTargetChecksum,
    List.drop_drop]
  congr 4
  omega

theorem bpsScript_unique {bs : List UInt8} {as as' : List BpsAction} (h : BpsScript bs as)
    (h' : BpsScript bs as') : as = as' := by
  induction h generalizing as' with
  | done trailer =>
    cases h' with
    | done => rfl
    | action long => omega
  | action long first more ih =>
    cases h' with
    | done trailer => omega
    | action _ first' more' =>
      obtain ⟨rfl, rfl⟩ := Prod.mk.inj (Option.some.inj (first.symm.trans first'))
      rw [ih more']

/-- A success is about the whole output exactly when the actions fill it. -/
theorem bps_verified_iff (patch source target : List UInt8) (result : BpsResult)
    (hrun : bpsApplyPatch patch source target = .ok result) (hsuccess : result.err = .success) :
    BpsVerified patch source target result ↔ BpsFills patch := by
  obtain ⟨sourceSize, body, actions, hsizes, hbody, hproduced, hchecksum⟩ :=
    bpsApplyPatch_success hrun hsuccess
  constructor
  · rintro ⟨hlength, -⟩
    rw [hproduced] at hlength
    exact ⟨sourceSize, result.targetLength, body, actions, hsizes, hbody, Except.ok.inj hlength⟩
  · rintro ⟨sourceSize', targetSize, body', actions', hsizes', hbody', hsum⟩
    rw [hsizes] at hsizes'
    obtain ⟨-, hpair⟩ := Prod.mk.inj (Option.some.inj hsizes')
    obtain ⟨rfl, rfl⟩ := Prod.mk.inj hpair
    rw [bpsScript_unique hbody' hbody] at hsum
    rw [hsum] at hproduced hchecksum
    exact ⟨hproduced, hchecksum⟩

theorem bpsApplyPatch_checksums {patch source target : List UInt8} {result : BpsResult}
    (hrun : bpsApplyPatch patch source target = .ok result) (hsuccess : result.err = .success) :
    encodingCrc32 0 source = UInt32.ofNat (ofLE ((patch.drop (patch.length - 12)).take 4)) ∧
      encodingCrc32 0 (patch.take (patch.length - 4)) =
        UInt32.ofNat (ofLE ((patch.drop (patch.length - 4)).take 4)) := by
  obtain ⟨_, _, _, _, _, bps, -, -, -, -, hat, hlong, hverdict, hkeeps⟩ :=
    bpsApplyPatch_verdict hrun hsuccess
  have haccounted := hkeeps (BpsAccounted patch source) bpsAccounted_kept ⟨rfl, rfl, rfl⟩
  obtain ⟨-, -, hall⟩ := bpsVerdict_success hat hverdict hsuccess
  obtain ⟨hsource, k, hdrop, hpatch⟩ := hall patch source haccounted
  have hlast : patch.length - 12 + 8 = patch.length - 4 := by omega
  rw [List.drop_drop, hlast] at hdrop hpatch
  have hk : k = patch.length - 4 := by
    have hlengths := congrArg List.length hdrop
    rw [List.length_drop, List.length_drop] at hlengths
    omega
  exact ⟨hsource, hk ▸ hpatch⟩

/-- What is applied to a file is not applied to it with up to four bytes in a row damaged. -/
theorem bps_source_burst (patch front w w' back target target' : List UInt8) (result : BpsResult)
    (hlen : w.length = w'.length) (hburst : w.length ≤ 4) (hdamaged : w ≠ w')
    (hrun : bpsApplyPatch patch (front ++ w ++ back) target = .ok result)
    (hsuccess : result.err = .success) {result' : BpsResult}
    (hrun' : bpsApplyPatch patch (front ++ w' ++ back) target' = .ok result') :
    result'.err ≠ .success := by
  intro hsuccess'
  have hcrc := (bpsApplyPatch_checksums hrun hsuccess).1
  have hcrc' := (bpsApplyPatch_checksums hrun' hsuccess').1
  exact hdamaged (eq_of_crc32_eq hlen hburst (hcrc.trans hcrc'.symm))

/-- Nor is a patch with up to four bytes in a row damaged in front of its own checksum, whatever
it is applied to. -/
theorem bps_patch_burst (front w w' back source source' target target' : List UInt8)
    (result : BpsResult) (hlen : w.length = w'.length) (hburst : w.length ≤ 4) (hdamaged : w ≠ w')
    (hback : 4 ≤ back.length)
    (hrun : bpsApplyPatch (front ++ w ++ back) source target = .ok result)
    (hsuccess : result.err = .success) {result' : BpsResult}
    (hrun' : bpsApplyPatch (front ++ w' ++ back) source' target' = .ok result') :
    result'.err ≠ .success := by
  intro hsuccess'
  have hcrc := (bpsApplyPatch_checksums hrun hsuccess).2
  have hcrc' := (bpsApplyPatch_checksums hrun' hsuccess').2
  have hsplit : ∀ w : List UInt8, (front ++ w ++ back).length - 4 =
      (front ++ w).length + (back.length - 4) := by
    intro w
    rw [List.length_append]
    omega
  rw [hsplit, List.take_length_add_append, List.drop_length_add_append] at hcrc hcrc'
  exact hdamaged (eq_of_crc32_eq hlen hburst (hcrc.trans hcrc'.symm))

/-- Three bytes of the patch for a target of three. -/
def wholePatch : List UInt8 :=
  bpsMagic ++ [0x81, 0x83, 0x80, 0x89, 0x01, 0x02, 0x03] ++
    [0x2e, 0x7a, 0x66, 0x4c, 0x1d, 0x80, 0xbc, 0x55, 0x86, 0xa8, 0x86, 0x6f]

theorem bps_source_burst_whole : ∃ result, bpsApplyPatch wholePatch [8] [0, 0, 0, 0] = .ok result ∧
    result.err ≠ .success := by
  have hrun : bpsApplyPatch wholePatch [8] [0, 0, 0, 0] =
      .ok ⟨.sourceChecksumInvalid, [1, 2, 3, 0], 4⟩ := by decide
  exact ⟨_, hrun, bps_source_burst wholePatch [] [7] [8] [] [0, 0, 0, 0] [0, 0, 0, 0]
    ⟨.success, [1, 2, 3, 0], 3⟩ rfl (by decide) (by decide) (by decide) rfl hrun⟩

theorem bps_patch_burst_whole : ∃ result, bpsApplyPatch (wholePatch.set 10 4) [7] [0, 0, 0, 0] =
    .ok result ∧ result.err ≠ .success := by
  have hrun : bpsApplyPatch (wholePatch.set 10 4) [7] [0, 0, 0, 0] =
      .ok ⟨.targetChecksumInvalid, [1, 2, 4, 0], 4⟩ := by decide
  exact ⟨_, hrun, bps_patch_burst (wholePatch.take 10) [3] [4] (wholePatch.drop 11) [7] [7]
    [0, 0, 0, 0] [0, 0, 0, 0] ⟨.success, [1, 2, 3, 0], 3⟩ rfl (by decide) (by decide) (by decide)
    (by decide) rfl hrun⟩

theorem bps_verified_whole :
    bpsApplyPatch wholePatch [7] [0, 0, 0, 0] = .ok ⟨.success, [1, 2, 3, 0], 3⟩ ∧
      BpsVerified wholePatch [7] [0, 0, 0, 0] ⟨.success, [1, 2, 3, 0], 3⟩ := by
  have hrun : bpsApplyPatch wholePatch [7] [0, 0, 0, 0] = .ok ⟨.success, [1, 2, 3, 0], 3⟩ := by
    decide
  refine ⟨hrun, (bps_verified_iff wholePatch [7] [0, 0, 0, 0] _ hrun rfl).mpr ?_⟩
  refine ⟨1, 3, wholePatch.drop 7, [.targetRead 3], by decide, ?_, rfl⟩
  have hdone : BpsScript (wholePatch.drop 11) [] := .done (by decide)
  exact .action (by decide) (by rfl) hdone

/-- Three bytes of the patch for a target of four. -/
def partPatch : List UInt8 :=
  bpsMagic ++ [0x81, 0x84, 0x80, 0x89, 0x01, 0x02, 0x03] ++
    [0x2e, 0x7a, 0x66, 0x4c, 0x1d, 0x80, 0xbc, 0x55, 0x46, 0x02, 0x4b, 0x0a]

theorem bps_part_success :
    bpsApplyPatch partPatch [7] [0, 0, 0, 9] = .ok ⟨.success, [1, 2, 3, 9], 4⟩ ∧
      bpsProduced partPatch [7] [0, 0, 0, 9] = .ok 3 ∧
      encodingCrc32 0 [1, 2, 3, 9] ≠ bpsTargetChecksum partPatch := by
  decide

end Verified

end RetroArch.Tasks
