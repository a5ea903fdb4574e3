/- The applier stays within its buffers exactly when the patch asks for nothing outside them. -/

import RetroArch.Tasks.BpsRounds

namespace RetroArch.Tasks

open Library.Bytes

section Actions

variable {S T : ℕ} {bs rest : List UInt8} {o : BpsOffsets} {bps bps' : BpsData}

theorem bpsLoop_cond (h : BpsAt S T bs o bps) :
    bps.modifyOffset < bps.modifyData.length - 12 ↔ 12 < bs.length := by
  have := h.length
  omega

theorem bpsActions_fit {actions : List BpsAction} (hs : BpsScript bs actions)
    (hfit : FitAll S T o actions) (h : BpsAt S T bs o bps) (left : ℕ)
    (hleft : bs.length - 12 ≤ left) :
    ∃ bps' rest o', bpsActions left bps = .ok bps' ∧ BpsAt S T rest o' bps' ∧
      rest.length = 12 := by
  induction hs generalizing o bps left with
  | @done bs trailer =>
    refine ⟨bps, bs, o, ?_, h, trailer⟩
    cases left with
    | zero => rfl
    | succ left =>
      rw [bpsActions, if_neg]
      rw [bpsLoop_cond h]
      omega
  | @action bs rest a actions long first more ih =>
    obtain ⟨left, rfl⟩ := Nat.exists_eq_succ_of_ne_zero (show left ≠ 0 by omega)
    rw [FitAll] at hfit
    rcases bpsAction_spec h with ⟨hnone, -⟩ | ⟨a', rest', hsome, hok, -⟩
    · rw [hnone] at first
      exact absurd first (Option.some_ne_none _).symm
    · rw [hsome] at first
      obtain ⟨rfl, rfl⟩ := Prod.mk.inj (Option.some.inj first)
      obtain ⟨bps₁, haction, hat⟩ := hok hfit.1
      have hshort := bpsActionAt_length hsome
      obtain ⟨bps₂, rest₂, o₂, hactions, hat₂, hlen⟩ := ih hfit.2 hat left (by omega)
      refine ⟨bps₂, rest₂, o₂, ?_, hat₂, hlen⟩
      rw [bpsActions, if_pos ((bpsLoop_cond h).mpr long), haction, ok_bind, hactions]

/-- A run of actions without a fault is a script that fits, if it leaves the checksums whole. -/
theorem bpsActions_ok {left : ℕ} (hrun : bpsActions left bps = .ok bps')
    (h : BpsAt S T bs o bps) (hleft : bs.length - 12 ≤ left) :
    ∃ rest o', BpsAt S T rest o' bps' ∧ rest.length ≤ 12 ∧
      (rest.length = 12 → ∃ actions, BpsScript bs actions ∧ FitAll S T o actions ∧
        o' = actions.foldl BpsAction.advance o) := by
  induction left generalizing bs o bps with
  | zero =>
    obtain rfl := Except.ok.inj hrun
    exact ⟨bs, o, h, by omega, fun hlen => ⟨[], BpsScript.done hlen, trivial, rfl⟩⟩
  | succ left ih =>
    rw [bpsActions] at hrun
    by_cases hlong : 12 < bs.length
    · rw [if_pos ((bpsLoop_cond h).mpr hlong)] at hrun
      obtain ⟨bps₁, haction, hrest⟩ := bind_eq_ok.mp hrun
      rcases bpsAction_spec h with ⟨-, e, herror⟩ | ⟨a, rest, hsome, hok, hfault⟩
      · rw [herror] at haction
        exact absurd haction error_ne_ok
      · by_cases hfit : a.Fits S T o
        · obtain ⟨bps₂, haction', hat⟩ := hok hfit
          rw [haction] at haction'
          obtain rfl := Except.ok.inj haction'
          have hshort := bpsActionAt_length hsome
          obtain ⟨rest₂, o₂, hat₂, hle, hmore⟩ := ih hrest hat (by omega)
          refine ⟨rest₂, o₂, hat₂, hle, fun hlen => ?_⟩
          obtain ⟨actions, hscript, hall, hend⟩ := hmore hlen
          exact ⟨a :: actions, BpsScript.action hlong hsome hscript, ⟨hfit, hall⟩, hend⟩
        · obtain ⟨e, herror⟩ := hfault hfit
          rw [herror] at haction
          exact absurd haction error_ne_ok
    · rw [if_neg (fun hgo => hlong ((bpsLoop_cond h).mp hgo))] at hrun
      obtain rfl := Except.ok.inj hrun
      exact ⟨bs, o, h, by omega, fun hlen => ⟨[], BpsScript.done hlen, trivial, rfl⟩⟩

end Actions

section Reads

variable {S T : ℕ} {bs rest : List UInt8} {o : BpsOffsets} {bps bps' : BpsData}

theorem bpsRead_ok {b : UInt8} (hread : bpsRead bps = .ok (b, bps')) (h : BpsAt S T bs o bps) :
    ∃ rest, bs = b :: rest ∧ BpsAt S T rest o bps' := by
  cases bs with
  | nil =>
    rw [bpsRead_nil h] at hread
    exact absurd hread error_ne_ok
  | cons b' rest =>
    obtain ⟨bps₁, hread', hat⟩ := bpsRead_cons h
    rw [hread'] at hread
    obtain ⟨rfl, rfl⟩ := Prod.mk.inj (Except.ok.inj hread)
    exact ⟨rest, rfl, hat⟩

theorem bpsDecode_ok {n : UInt64} (hdecode : bpsDecode bps = .ok (n, bps'))
    (h : BpsAt S T bs o bps) :
    ∃ rest, bpsNumberAt bs = some (n, rest) ∧ BpsAt S T rest o bps' := by
  cases hn : bpsNumberAt bs with
  | none =>
    rw [bpsDecode_none hn h] at hdecode
    exact absurd hdecode error_ne_ok
  | some found =>
    obtain ⟨n', rest⟩ := found
    obtain ⟨bps₁, hdecode', hat⟩ := bpsDecode_some hn h
    rw [hdecode'] at hdecode
    obtain ⟨rfl, rfl⟩ := Prod.mk.inj (Except.ok.inj hdecode)
    exact ⟨rest, rfl, hat⟩

theorem bpsSkip_within {n : ℕ} (hn : n ≤ bs.length) (h : BpsAt S T bs o bps) :
    ∃ bps', bpsSkip n bps = .ok bps' ∧ BpsAt S T (bs.drop n) o bps' := by
  induction n generalizing bs bps with
  | zero => exact ⟨bps, rfl, h⟩
  | succ n ih =>
    obtain ⟨b, bs, rfl⟩ := List.exists_cons_of_length_pos (show 0 < bs.length by omega)
    obtain ⟨bps₁, hread, hat⟩ := bpsRead_cons h
    obtain ⟨bps₂, hskip, hat₂⟩ := ih (Nat.le_of_succ_le_succ hn) hat
    refine ⟨bps₂, ?_, hat₂⟩
    rw [bpsSkip, hread, ok_bind]
    exact hskip

theorem bpsSkip_ok {n : ℕ} (hskip : bpsSkip n bps = .ok bps') (h : BpsAt S T bs o bps) :
    n ≤ bs.length ∧ BpsAt S T (bs.drop n) o bps' := by
  induction n generalizing bs bps with
  | zero =>
    obtain rfl := Except.ok.inj hskip
    exact ⟨Nat.zero_le _, h⟩
  | succ n ih =>
    rw [bpsSkip] at hskip
    obtain ⟨⟨b, bps₁⟩, hread, hmore⟩ := bind_eq_ok.mp hskip
    obtain ⟨rest, rfl, hat⟩ := bpsRead_ok hread h
    obtain ⟨hle, hat'⟩ := ih hmore hat
    exact ⟨Nat.succ_le_succ hle, hat'⟩

theorem bpsReadChecksum_within (hlen : 4 ≤ bs.length) (h : BpsAt S T bs o bps) :
    ∃ crc bps', bpsReadChecksum bps = .ok (crc, bps') ∧ BpsAt S T (bs.drop 4) o bps' := by
  match bs, hlen with
  | a :: b :: c :: d :: rest, _ =>
    obtain ⟨bps₁, ra, ha⟩ := bpsRead_cons h
    obtain ⟨bps₂, rb, hb⟩ := bpsRead_cons ha
    obtain ⟨bps₃, rc, hc⟩ := bpsRead_cons hb
    obtain ⟨bps₄, rd, hd⟩ := bpsRead_cons hc
    refine ⟨UInt32.ofNat (ofLE [a, b, c, d]), bps₄, ?_, hd⟩
    rw [bpsReadChecksum, ra, ok_bind]
    simp only
    rw [rb, ok_bind]
    simp only
    rw [rc, ok_bind]
    simp only
    rw [rd, ok_bind]

theorem bpsReadChecksum_ok {crc : UInt32} (hread : bpsReadChecksum bps = .ok (crc, bps'))
    (h : BpsAt S T bs o bps) : 4 ≤ bs.length ∧ BpsAt S T (bs.drop 4) o bps' := by
  rw [bpsReadChecksum] at hread
  obtain ⟨⟨a, bps₁⟩, ra, hread⟩ := bind_eq_ok.mp hread
  obtain ⟨⟨b, bps₂⟩, rb, hread⟩ := bind_eq_ok.mp hread
  obtain ⟨⟨c, bps₃⟩, rc, hread⟩ := bind_eq_ok.mp hread
  obtain ⟨⟨d, bps₄⟩, rd, hread⟩ := bind_eq_ok.mp hread
  obtain ⟨-, rfl⟩ := Prod.mk.inj (Except.ok.inj hread)
  obtain ⟨rest₁, rfl, ha⟩ := bpsRead_ok ra h
  obtain ⟨rest₂, rfl, hb⟩ := bpsRead_ok rb ha
  obtain ⟨rest₃, rfl, hc⟩ := bpsRead_ok rc hb
  obtain ⟨rest₄, rfl, hd⟩ := bpsRead_ok rd hc
  simp only [List.length_cons]
  exact ⟨by omega, hd⟩

theorem bpsVerdict_within (n : ℕ) (hlen : 12 ≤ bs.length) (h : BpsAt S T bs o bps) :
    ∃ result, bpsVerdict bps n = .ok result := by
  obtain ⟨crc₁, bps₁, h₁, hat₁⟩ := bpsReadChecksum_within (by omega) h
  obtain ⟨crc₂, bps₂, h₂, hat₂⟩ := bpsReadChecksum_within (by rw [List.length_drop]; omega) hat₁
  obtain ⟨crc₃, bps₃, h₃, -⟩ := bpsReadChecksum_within
    (by rw [List.length_drop, List.length_drop]; omega) hat₂
  rw [bpsVerdict, h₁, ok_bind]
  simp only
  rw [h₂, ok_bind]
  simp only
  rw [h₃, ok_bind]
  simp only
  split_ifs <;> exact ⟨_, rfl⟩

theorem bpsVerdict_ok {n : ℕ} {result : BpsResult} (hverdict : bpsVerdict bps n = .ok result)
    (h : BpsAt S T bs o bps) : 12 ≤ bs.length := by
  rw [bpsVerdict] at hverdict
  obtain ⟨⟨crc₁, bps₁⟩, h₁, hverdict⟩ := bind_eq_ok.mp hverdict
  obtain ⟨⟨crc₂, bps₂⟩, h₂, hverdict⟩ := bind_eq_ok.mp hverdict
  obtain ⟨⟨crc₃, bps₃⟩, h₃, -⟩ := bind_eq_ok.mp hverdict
  obtain ⟨-, hat₁⟩ := bpsReadChecksum_ok h₁ h
  obtain ⟨-, hat₂⟩ := bpsReadChecksum_ok h₂ hat₁
  obtain ⟨hlen, -⟩ := bpsReadChecksum_ok h₃ hat₂
  rw [List.length_drop, List.length_drop] at hlen
  omega

end Reads

section Header

variable {S T : ℕ} {bs rest : List UInt8} {o : BpsOffsets} {bps bps' : BpsData}

/-- The header is compared without a fault, and is read to its end only where it is as expected. -/
theorem bpsExpect_spec (cs : List UInt8) (hlen : cs.length ≤ bs.length) (h : BpsAt S T bs o bps) :
    ∃ bps', bpsExpect cs bps = .ok (decide (bs.take cs.length = cs), bps') ∧
      (bs.take cs.length = cs → BpsAt S T (bs.drop cs.length) o bps') := by
  induction cs generalizing bs bps with
  | nil => exact ⟨bps, rfl, fun _ => h⟩
  | cons c cs ih =>
    obtain ⟨b, bs, rfl⟩ := List.exists_cons_of_length_pos
      (Nat.lt_of_lt_of_le (Nat.succ_pos cs.length) hlen)
    obtain ⟨bps₁, hread, hat⟩ := bpsRead_cons h
    rw [bpsExpect, hread, ok_bind]
    simp only [List.length_cons, List.take_succ_cons, List.drop_succ_cons]
    by_cases hsame : b = c
    · obtain ⟨bps₂, hexpect, hat₂⟩ := ih (Nat.le_of_succ_le_succ hlen) hat
      refine ⟨bps₂, ?_, fun hall => hat₂ (List.cons.inj hall).2⟩
      rw [if_neg (not_not.mpr hsame), hexpect, hsame]
      simp only [List.cons.injEq, true_and]
    · refine ⟨bps₁, ?_, fun hall => absurd (List.cons.inj hall).1 hsame⟩
      rw [if_pos hsame]
      simp only [List.cons.injEq, hsame, false_and, decide_false]

/-- The run after the header comes to its end: refused for a size, or with all its actions within
the files. -/
theorem bpsApplySized_ok {patch : List UInt8} {result : BpsResult}
    (hrun : bpsApplySized bps = .ok result) (h : BpsAt S T (patch.drop 4) ⟨0, 0, 0⟩ bps) :
    ∃ sourceSize targetSize body, bpsSizesAt patch = some (sourceSize, targetSize, body) ∧
      ((S < sourceSize ∨ T < targetSize) ∧ result.err ≠ .success ∨
        sourceSize ≤ S ∧ targetSize ≤ T ∧
          ∃ actions, BpsScript body actions ∧ FitAll S T ⟨0, 0, 0⟩ actions) := by
  rw [bpsApplySized] at hrun
  obtain ⟨⟨source, bps₁⟩, h₁, hrun⟩ := bind_eq_ok.mp hrun
  obtain ⟨⟨target, bps₂⟩, h₂, hrun⟩ := bind_eq_ok.mp hrun
  obtain ⟨⟨markup, bps₃⟩, h₃, hrun⟩ := bind_eq_ok.mp hrun
  obtain ⟨bps₄, h₄, hrun⟩ := bind_eq_ok.mp hrun
  obtain ⟨rest₁, n₁, hat₁⟩ := bpsDecode_ok h₁ h
  obtain ⟨rest₂, n₂, hat₂⟩ := bpsDecode_ok h₂ hat₁
  obtain ⟨rest₃, n₃, hat₃⟩ := bpsDecode_ok h₃ hat₂
  obtain ⟨hmarkup, hat₄⟩ := bpsSkip_ok h₄ hat₃
  have hsizes : bpsSizesAt patch =
      some (source.toNat, target.toNat, rest₃.drop markup.toNat) := by
    rw [bpsSizesAt, n₁, Option.bind_some]
    simp only
    rw [n₂, Option.bind_some]
    simp only
    rw [n₃, Option.bind_some]
    simp only
    rw [if_pos hmarkup]
  refine ⟨_, _, _, hsizes, ?_⟩
  rw [hat₄.sourceLength, hat₄.targetLength] at hrun
  by_cases hsource : source.toNat > S
  · rw [if_pos hsource] at hrun
    obtain rfl := Except.ok.inj hrun
    exact Or.inl ⟨Or.inl hsource, nofun⟩
  · rw [if_neg hsource] at hrun
    by_cases htarget : target.toNat > T
    · rw [if_pos htarget] at hrun
      obtain rfl := Except.ok.inj hrun
      exact Or.inl ⟨Or.inr htarget, nofun⟩
    · rw [if_neg htarget] at hrun
      obtain ⟨bps₅, hactions, hverdict⟩ := bind_eq_ok.mp hrun
      have hlen := hat₄.length
      obtain ⟨tail, o', hat₅, hle, hscript⟩ := bpsActions_ok hactions hat₄ (by omega)
      have htail := bpsVerdict_ok hverdict hat₅
      obtain ⟨actions, hbody, hfit, -⟩ := hscript (Nat.le_antisymm hle htail)
      exact Or.inr ⟨Nat.le_of_not_lt hsource, Nat.le_of_not_lt htarget, actions, hbody, hfit⟩

/-- Sizes that are whole are enough for an error, actions within the files for an end. -/
theorem bpsApplySized_within {patch : List UInt8} {sourceSize targetSize : ℕ} {body : List UInt8}
    (hsizes : bpsSizesAt patch = some (sourceSize, targetSize, body))
    (h : BpsAt S T (patch.drop 4) ⟨0, 0, 0⟩ bps) :
    (S < sourceSize ∨ T < targetSize →
        ∃ result, bpsApplySized bps = .ok result ∧ result.err ≠ .success) ∧
      ((∃ actions, BpsScript body actions ∧ FitAll S T ⟨0, 0, 0⟩ actions) →
        ∃ result, bpsApplySized bps = .ok result) := by
  obtain ⟨⟨source, rest₁⟩, n₁, hsizes⟩ := Option.bind_eq_some_iff.mp hsizes
  obtain ⟨⟨target, rest₂⟩, n₂, hsizes⟩ := Option.bind_eq_some_iff.mp hsizes
  obtain ⟨⟨markup, rest₃⟩, n₃, hsizes⟩ := Option.bind_eq_some_iff.mp hsizes
  simp only at hsizes
  split_ifs at hsizes with hmarkup
  obtain ⟨rfl, hpair⟩ := Prod.mk.inj (Option.some.inj hsizes)
  obtain ⟨rfl, rfl⟩ := Prod.mk.inj hpair
  obtain ⟨bps₁, h₁, hat₁⟩ := bpsDecode_some n₁ h
  obtain ⟨bps₂, h₂, hat₂⟩ := bpsDecode_some n₂ hat₁
  obtain ⟨bps₃, h₃, hat₃⟩ := bpsDecode_some n₃ hat₂
  obtain ⟨bps₄, h₄, hat₄⟩ := bpsSkip_within hmarkup hat₃
  rw [bpsApplySized, h₁, ok_bind]
  simp only
  rw [h₂, ok_bind]
  simp only
  rw [h₃, ok_bind]
  simp only
  rw [h₄, ok_bind, hat₄.sourceLength, hat₄.targetLength]
  constructor
  · intro hsize
    split_ifs with hsource htarget
    · exact ⟨_, rfl, nofun⟩
    · exact ⟨_, rfl, nofun⟩
    · omega
  · rintro ⟨actions, hscript, hfit⟩
    split_ifs
    · exact ⟨_, rfl⟩
    · exact ⟨_, rfl⟩
    · have hlen := hat₄.length
      obtain ⟨bps₅, tail, o', hactions, hat₅, htail⟩ :=
        bpsActions_fit hscript hfit hat₄
          (bps₄.modifyData.length - 12 - bps₄.modifyOffset) (by omega)
      rw [hactions, ok_bind]
      exact bpsVerdict_within _ (by omega) hat₅

end Header

section Safety

variable {patch source target : List UInt8}

/-- The run makes no access outside, and gives an error for a patch that asks for one. -/
def BpsSafe (patch source target : List UInt8) : Prop :=
  ∃ result, bpsApplyPatch patch source target = .ok result ∧
    (¬ BpsWithin patch source.length target.length → result.err ≠ .success)

/-- The state in which the header is read. -/
def bpsStart (patch source target : List UInt8) : BpsData :=
  { modifyData := patch
    sourceData := source
    targetData := target
    modifyOffset := 0
    sourceOffset := 0
    targetOffset := 0
    outputOffset := 0
    modifyChecksum := ~~~0
    targetChecksum := ~~~0 }

theorem bpsAt_start (patch source target : List UInt8) :
    BpsAt source.length target.length patch ⟨0, 0, 0⟩ (bpsStart patch source target) :=
  ⟨rfl, rfl, rfl, rfl, rfl, rfl⟩

theorem bpsApplyPatch_long (source target : List UInt8) (hlong : 19 ≤ patch.length) :
    patch.take 4 ≠ bpsMagic ∧ bpsApplyPatch patch source target =
        .ok ⟨.patchInvalidHeader, target, target.length⟩ ∨
      patch.take 4 = bpsMagic ∧ ∃ bps, bpsApplyPatch patch source target = bpsApplySized bps ∧
        BpsAt source.length target.length (patch.drop 4) ⟨0, 0, 0⟩ bps := by
  obtain ⟨bps, hexpect, hat⟩ := bpsExpect_spec bpsMagic
    (show bpsMagic.length ≤ patch.length by exact le_trans (by decide) hlong)
    (bpsAt_start patch source target)
  rw [bpsStart] at hexpect
  rw [bpsApplyPatch, if_neg (Nat.not_lt.mpr hlong)]
  simp only
  rw [hexpect, ok_bind]
  by_cases hmagic : patch.take 4 = bpsMagic
  · right
    refine ⟨hmagic, bps, ?_, hat hmagic⟩
    have hknown : decide (patch.take bpsMagic.length = bpsMagic) = true := decide_eq_true hmagic
    simp only [hknown]
    exact if_neg nofun
  · left
    refine ⟨hmagic, ?_⟩
    have hknown : decide (patch.take bpsMagic.length = bpsMagic) = false := decide_eq_false hmagic
    simp only [hknown]
    exact if_pos trivial

theorem safe_of_refused (h : BpsRefused patch source.length target.length) :
    BpsSafe patch source target := by
  rcases Nat.lt_or_ge patch.length 19 with hshort | hlong
  · refine ⟨⟨.patchTooSmall, target, target.length⟩, ?_, fun _ => nofun⟩
    rw [bpsApplyPatch, if_pos hshort]
  · rcases bpsApplyPatch_long source target hlong with
      ⟨-, happly⟩ | ⟨hmagic, bps, happly, hat⟩
    · exact ⟨_, happly, fun _ => nofun⟩
    · rcases h with hshort | hother | ⟨sourceSize, targetSize, body, hsizes, hsize⟩
      · omega
      · exact absurd hmagic hother
      · obtain ⟨result, hrun, herr⟩ := (bpsApplySized_within hsizes hat).1 hsize
        exact ⟨result, happly.trans hrun, fun _ => herr⟩

theorem safe_of_within (h : BpsWithin patch source.length target.length) :
    BpsSafe patch source target := by
  have hwithin := h
  obtain ⟨hlong, hmagic, sourceSize, targetSize, body, hsizes, -, -, hscript⟩ := h
  rcases bpsApplyPatch_long source target hlong with
    ⟨hother, -⟩ | ⟨-, bps, happly, hat⟩
  · exact absurd hmagic hother
  · obtain ⟨result, hrun⟩ := (bpsApplySized_within hsizes hat).2 hscript
    exact ⟨result, happly.trans hrun, fun hnot => absurd hwithin hnot⟩

theorem refused_or_within_of_ok {result : BpsResult}
    (hrun : bpsApplyPatch patch source target = .ok result) :
    BpsRefused patch source.length target.length ∨
      BpsWithin patch source.length target.length := by
  rcases Nat.lt_or_ge patch.length 19 with hshort | hlong
  · exact Or.inl (Or.inl hshort)
  · rcases bpsApplyPatch_long source target hlong with
      ⟨hother, -⟩ | ⟨hmagic, bps, happly, hat⟩
    · exact Or.inl (Or.inr (Or.inl hother))
    · rw [happly] at hrun
      obtain ⟨sourceSize, targetSize, body, hsizes, ⟨hsize, -⟩ | ⟨hs, ht, hscript⟩⟩ :=
        bpsApplySized_ok hrun hat
      · exact Or.inl (Or.inr (Or.inr ⟨sourceSize, targetSize, body, hsizes, hsize⟩))
      · exact Or.inr ⟨hlong, hmagic, sourceSize, targetSize, body, hsizes, hs, ht, hscript⟩

/-- The applier is memory safe on exactly the patches that one of its checks turns away and those
that ask for nothing outside the two files. -/
theorem bps_safe_iff (patch source target : List UInt8) :
    BpsSafe patch source target ↔
      BpsRefused patch source.length target.length ∨
        BpsWithin patch source.length target.length := by
  constructor
  · rintro ⟨result, hrun, -⟩
    exact refused_or_within_of_ok hrun
  · rintro (hrefused | hwithin)
    · exact safe_of_refused hrefused
    · exact safe_of_within hwithin

/-- Five bytes of the patch for a target of four. -/
def overrunPatch : List UInt8 :=
  bpsMagic ++ [0x81, 0x84, 0x80] ++ [0x91, 1, 2, 3, 4, 5] ++ List.replicate 12 0

theorem bps_target_overrun :
    bpsApplyPatch overrunPatch [7] [0, 0, 0, 0] = .error .targetWrite ∧
      ¬ BpsSafe overrunPatch [7] [0, 0, 0, 0] := by
  have hrun : bpsApplyPatch overrunPatch [7] [0, 0, 0, 0] = .error .targetWrite := by
    decide
  refine ⟨hrun, ?_⟩
  rintro ⟨result, hok, -⟩
  rw [hrun] at hok
  exact absurd hok error_ne_ok

end Safety

end RetroArch.Tasks
