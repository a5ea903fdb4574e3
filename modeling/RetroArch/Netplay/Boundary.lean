/- The commands that lose their place in the stream, and that no others do. -/

import RetroArch.Netplay.Framing

namespace RetroArch.Netplay.Boundary

open Library.Bytes Library.Rewinding Delta State Io Messaging Reading Command ShortRead Framing

variable {σ : Type}

section Chase

variable {np np' : NetplayT σ} {i : ℕ}

/-- What a chase through the buffer goes by: which slots are used, by which frames. -/
def slots (np : NetplayT σ) : ℕ × Cursor × (ℕ → Bool × ℕ) :=
  (np.bufferSize, np.cursors.self, fun ptr => ((np.buffer ptr).used, (np.buffer ptr).frame))

theorem slots_setFrame {ptr : ℕ} {f : DeltaFrame σ} (hused : f.used = (np.buffer ptr).used)
    (hframe : f.frame = (np.buffer ptr).frame) : slots (np.setFrame ptr f) = slots np := by
  have hsame : (fun p => (((np.setFrame ptr f).buffer p).used,
      ((np.setFrame ptr f).buffer p).frame)) =
        fun p => ((np.buffer p).used, (np.buffer p).frame) := by
    funext p
    by_cases hp : p = ptr
    · subst hp
      rw [NetplayT.setFrame_buffer, hused, hframe]
    · rw [NetplayT.setFrame]
      simp only [Function.update_of_ne hp]
  exact Prod.ext rfl (Prod.ext rfl hsame)

theorem slots_markReal (np : NetplayT σ) (ptr clientNum : ℕ) :
    slots (markReal np ptr clientNum) = slots np := slots_setFrame rfl rfl

theorem slots_zeroInput (np : NetplayT σ) (ptr clientNum devices : ℕ) :
    slots (zeroInput np ptr clientNum devices) = slots np ∧
      heard (zeroInput np ptr clientNum devices) i = heard np i := by
  rw [zeroInput]
  refine List.foldlRecOn (motive := fun np' => slots np' = slots np ∧ heard np' i = heard np i)
    _ _ ⟨rfl, rfl⟩ fun np' hnp' device _ => ?_
  generalize hmade : realStateFor np' ptr device clientNum = made
  obtain ⟨entry, np₁⟩ := made
  have hnp₁ : np₁ = (realStateFor np' ptr device clientNum).2 := by rw [hmade]
  have hslots : slots np₁ = slots np' ∧ heard np₁ i = heard np' i := by
    rw [hnp₁]
    exact ⟨slots_setFrame rfl rfl, rfl⟩
  cases entry with
  | none => exact ⟨hslots.1.trans hnp'.1, hslots.2.trans hnp'.2⟩
  | some k =>
    refine ⟨Eq.trans ?_ (hslots.1.trans hnp'.1), Eq.trans rfl (hslots.2.trans hnp'.2)⟩
    exact slots_setFrame rfl rfl

theorem slots_sendPastFrame (np : NetplayT σ) (j ptr clientNum devices : ℕ) :
    slots (sendPastFrame np j ptr clientNum devices) = slots np ∧
      heard (sendPastFrame np j ptr clientNum devices) i = heard np i := by
  have hzero := slots_zeroInput (i := i) np ptr clientNum devices
  rw [sendPastFrame]
  generalize zeroInput np ptr clientNum devices = np₁ at hzero
  refine ⟨?_, (heard_sendInputFrameOnly _ i _ j clientNum false).trans hzero.2⟩
  have hlocal : slots (np₁.setFrame ptr { np₁.buffer ptr with haveLocal := true }) = slots np₁ :=
    slots_setFrame rfl rfl
  have hmarked := slots_markReal (np₁.setFrame ptr { np₁.buffer ptr with haveLocal := true }) ptr
    clientNum
  generalize markReal (np₁.setFrame ptr { np₁.buffer ptr with haveLocal := true }) ptr clientNum =
    np₂ at hmarked
  have hgame : slots (game (sendInputFrameOnly np₂ (np₂.buffer ptr) j clientNum false).2) =
      slots (game np₂) := congrArg slots (game_sendInputFrameOnly np₂ _ j clientNum false)
  calc slots (sendInputFrameOnly np₂ (np₂.buffer ptr) j clientNum false).2
      = slots np₂ := hgame
    _ = slots np₁ := hmarked.trans hlocal
    _ = slots np := hzero.1

/-- The slot is used by a frame before our own, so that the chase goes on from it. -/
def Behind (np : NetplayT σ) (ptr : ℕ) : Prop :=
  (np.buffer ptr).used = true ∧ (np.buffer ptr).frame < np.cursors.self.frameCount

theorem behind_of_slots (h : slots np' = slots np) (ptr : ℕ) : Behind np' ptr ↔ Behind np ptr := by
  have hself : np'.cursors.self = np.cursors.self := congrArg (fun s => s.2.1) h
  have hslot : ((np'.buffer ptr).used, (np'.buffer ptr).frame) =
      ((np.buffer ptr).used, (np.buffer ptr).frame) := congrArg (fun s => s.2.2 ptr) h
  obtain ⟨hused, hframe⟩ := Prod.mk.inj hslot
  rw [Behind, Behind, hself, hused, hframe]

/-- The chase ends at the first slot that is not behind us; with none of those it does not end. -/
theorem sendPastFrames_spec (j clientNum devices fuel ptr : ℕ) (np : NetplayT σ) :
    ((∀ k < fuel, Behind np ((nextPtr np.bufferSize)^[k] ptr)) →
        sendPastFrames j clientNum devices fuel ptr np = none) ∧
      ((∃ k < fuel, ¬ Behind np ((nextPtr np.bufferSize)^[k] ptr)) →
        ∃ np', sendPastFrames j clientNum devices fuel ptr np = some np' ∧
          heard np' i = heard np i) := by
  induction fuel generalizing ptr np with
  | zero =>
    refine ⟨fun _ => rfl, ?_⟩
    rintro ⟨k, hk, -⟩
    exact absurd hk (Nat.not_lt_zero k)
  | succ fuel ih =>
    obtain ⟨hslots, hheard⟩ := slots_sendPastFrame (i := i) np j ptr clientNum devices
    obtain ⟨hforever, hends⟩ := ih (nextPtr np.bufferSize ptr)
      (sendPastFrame np j ptr clientNum devices)
    have hsize : (sendPastFrame np j ptr clientNum devices).bufferSize = np.bufferSize :=
      congrArg Prod.fst hslots
    have hself : (sendPastFrame np j ptr clientNum devices).cursors.self = np.cursors.self :=
      congrArg (fun s => s.2.1) hslots
    have hstep : ∀ k, Behind (sendPastFrame np j ptr clientNum devices)
        ((nextPtr np.bufferSize)^[k] (nextPtr np.bufferSize ptr)) ↔
          Behind np ((nextPtr np.bufferSize)^[k + 1] ptr) := fun k => by
      rw [behind_of_slots hslots, Function.iterate_succ_apply]
    simp only [hsize, hstep] at hforever hends
    rw [sendPastFrames]
    simp only [hsize, hself]
    by_cases hbehind : Behind np ptr
    · rw [if_pos ⟨hbehind.1, hbehind.2.le⟩, if_neg hbehind.2.ne]
      constructor
      · exact fun hall => hforever fun k hk => hall (k + 1) (Nat.succ_lt_succ hk)
      · rintro ⟨k, hk, hnot⟩
        cases k with
        | zero => exact absurd hbehind hnot
        | succ k =>
          obtain ⟨np', hsome, hsame⟩ := hends ⟨k, Nat.lt_of_succ_lt_succ hk, hnot⟩
          exact ⟨np', hsome, hsame.trans hheard⟩
    · refine ⟨fun hall => absurd (hall 0 (Nat.succ_pos fuel)) hbehind, fun _ => ?_⟩
      split_ifs with hpast hsame
      · exact ⟨_, rfl, hheard⟩
      · exact absurd ⟨hpast.1, lt_of_le_of_ne hpast.2 hsame⟩ hbehind
      · exact ⟨np, rfl, rfl⟩

theorem skipToFrame_some (frame fuel ptr frameCount : ℕ) (np : NetplayT σ)
    (hfuel : frame < frameCount + fuel) (hpos : 0 < fuel) :
    ∃ ready np', skipToFrame frame fuel ptr frameCount np = some (ready, np') ∧
      heard np' i = heard np i := by
  induction fuel generalizing ptr frameCount np with
  | zero => exact absurd hpos (Nat.lt_irrefl 0)
  | succ fuel ih =>
    rw [skipToFrame]
    have hready : ∀ np', (if (np.buffer ptr).used = true then some np
        else np.frameReady ptr frameCount) = some np' → heard np' i = heard np i := by
      intro np' hsome
      split_ifs at hsome
      · obtain rfl := Option.some.inj hsome
        rfl
      · obtain ⟨f, -, rfl⟩ := Option.map_eq_some_iff.mp hsome
        rfl
    simp only
    generalize (if (np.buffer ptr).used = true then some np
      else np.frameReady ptr frameCount) = slot at hready
    cases slot with
    | none => exact ⟨false, np, rfl, rfl⟩
    | some np₁ =>
      have hsame := hready np₁ rfl
      simp only
      split_ifs with hlast
      · exact ⟨true, _, rfl, hsame⟩
      · obtain ⟨ready, np₂, hskip, hheard⟩ := ih
          (nextPtr (np₁.setFrame ptr { np₁.buffer ptr with haveLocal := true }).bufferSize ptr)
          (frameCount + 1) (np₁.setFrame ptr { np₁.buffer ptr with haveLocal := true })
          (by omega) (by omega)
        exact ⟨ready, np₂, hskip, hheard.trans hsame⟩

end Chase

section Lost

variable {np : NetplayT σ} {i n : ℕ} {whole rest payload more : List UInt8} {faults : List Bool}

theorem not_framed_none : ¬ Framed i whole more (none : Outcome σ) := by
  rintro ⟨ret, np', heq, -⟩
  exact (Option.some_ne_none _ heq.symm)

theorem framed_recv_iff (h : Standing np i whole rest faults) {k : ℕ} (hk : k ≤ rest.length)
    {fail : NetplayT σ → Outcome σ} {next : List UInt8 → NetplayT σ → Outcome σ}
    (hfail : ∀ np', Framed i whole more (fail np')) :
    Framed i whole more (RECV np i k fail next) ↔
      (faults.headD false = false → Framed i whole more (next (rest.take k) (afterField np i k))) := by
  cases hfault : faults.headD false with
  | true =>
    have hkept : Framed i whole more (RECV np i k fail next) := by
      rw [RECV, h.netplayRecv, if_pos hfault]
      exact hfail _
    exact ⟨fun _ => Bool.noConfusion, fun _ => hkept⟩
  | false =>
    rw [h.recv_full hk hfault]
    exact ⟨fun hnext _ => hnext, fun hnext => hnext rfl⟩

/-- The chase of past frames meets no slot at which it ends. -/
def ChasesForEver (np : NetplayT σ) : Prop :=
  ∀ k < np.bufferSize + 1, Behind np ((nextPtr np.bufferSize)^[k] np.cursors.server.ptr)

/-- MODE makes us play from a frame that we are past, and the chase of past frames does not end. -/
def ModeChases (np : NetplayT σ) (payload : List UInt8) : Prop :=
  let frame := (ntohls payload).getD 0 0
  let info := (ntohls payload).getD 1 0
  info % 2 ^ 16 < MAX_CLIENTS ∧ info.testBit 31 = true ∧ info.testBit 30 = true ∧
    info.testBit 29 = false ∧ frame = np.cursors.server.frameCount ∧ np.selfMode ≠ .playing ∧
    frame ≤ np.cursors.self.frameCount ∧ ChasesForEver np

theorem framed_sendPastFrames (clientNum devices : ℕ) (h : Standing np i whole more faults) :
    Framed i whole more ((sendPastFrames i clientNum devices (np.bufferSize + 1)
      np.cursors.server.ptr np).bind fun np => done np i) ↔ ¬ ChasesForEver np := by
  obtain ⟨hforever, hends⟩ := sendPastFrames_spec (i := i) i clientNum devices
    (np.bufferSize + 1) np.cursors.server.ptr np
  by_cases hchase : ChasesForEver np
  · rw [hforever hchase]
    exact ⟨fun hframed => absurd hframed not_framed_none, fun hnot => absurd hchase hnot⟩
  · have hstop := hchase
    rw [ChasesForEver] at hstop
    push Not at hstop
    obtain ⟨np', hsome, hheard⟩ := hends hstop
    rw [hsome]
    exact ⟨fun _ => hchase, fun _ => (h.of_heard hheard).done⟩

theorem framed_modeYouPlay {frame clientNum devices : ℕ} {slave : Bool}
    (h : Standing np i whole more faults) :
    Framed i whole more (modeYouPlay np i frame clientNum devices slave) ↔
      ¬ (slave = false ∧ frame = np.cursors.server.frameCount ∧ np.selfMode ≠ .playing ∧
        frame ≤ np.cursors.self.frameCount ∧ ChasesForEver np) := by
  have hplayer : Standing (becomePlayer np clientNum devices slave) i whole more faults :=
    h.of_heard rfl
  have hslots : slots (becomePlayer np clientNum devices slave) = slots np := rfl
  rw [modeYouPlay]
  split_ifs with hframe hmode hpast
  · exact ⟨fun _ hall => hframe hall.2.1, fun _ => framed_nak np i⟩
  · exact ⟨fun _ hall => hall.2.2.1 hmode, fun _ => framed_nak np i⟩
  · refine (framed_sendPastFrames clientNum devices hplayer).trans (not_congr ?_)
    have hchase : ChasesForEver (becomePlayer np clientNum devices slave) ↔ ChasesForEver np :=
      Iff.rfl
    rw [hchase]
    exact ⟨fun hchase => ⟨hpast.1, not_not.mp hframe, hmode, hpast.2, hchase⟩,
      fun hall => hall.2.2.2.2⟩
  · refine ⟨fun _ hall => hpast ⟨hall.1, hall.2.2.2.1⟩, fun _ => ?_⟩
    obtain ⟨ready, np', hskip, hheard⟩ := skipToFrame_some (i := i) frame
      (frame - np.cursors.self.frameCount + 1) np.cursors.self.ptr np.cursors.self.frameCount
      (becomePlayer np clientNum devices slave) (by omega) (Nat.succ_pos _)
    rw [hskip]
    cases ready with
    | true => exact (hplayer.of_heard hheard).done
    | false => exact framed_nak np' i

theorem heard_startPlaying (np : NetplayT σ) (i clientNum devices : ℕ) :
    heard (startPlaying np clientNum devices) i = heard np i := rfl

theorem heard_stopPlaying (np : NetplayT σ) (i clientNum : ℕ) :
    heard (stopPlaying np clientNum) i = heard np i := rfl

theorem framed_modeFrom {words : List UInt8} (h : Standing np i whole more faults) :
    Framed i whole more (modeFrom np i words) ↔ ¬ ModeChases np words := by
  have hkept : Standing (modeReceived np ((ntohls words).getD 0 0) words) i whole more faults :=
    h.of_heard rfl
  simp only [modeFrom, ModeChases]
  generalize (ntohls words).getD 0 0 = frame at hkept
  generalize (ntohls words).getD 1 0 = info
  split_ifs with hclient hyou hplaying hmode hplays hframe
  · exact ⟨fun _ hall => absurd hall.1 (Nat.not_lt.mpr hclient), fun _ => framed_nak _ i⟩
  · refine (framed_modeYouPlay hkept).trans (not_congr ?_)
    exact ⟨fun hchase => ⟨Nat.lt_of_not_le hclient, hyou, hplaying, hchase⟩,
      fun hchase => hchase.2.2.2⟩
  · exact ⟨fun _ hall => hplaying hall.2.2.1, fun _ => framed_nak _ i⟩
  · refine ⟨fun _ hall => hplaying hall.2.2.1, fun _ => ?_⟩
    exact (hkept.of_heard (heard_stopPlaying _ i _)).done
  · exact ⟨fun _ hall => hyou hall.2.1, fun _ => framed_nak _ i⟩
  · refine ⟨fun _ hall => hyou hall.2.1, fun _ => ?_⟩
    exact (hkept.of_heard (heard_startPlaying _ i _ _)).done
  · refine ⟨fun _ hall => hyou hall.2.1, fun _ => ?_⟩
    exact (hkept.of_heard (heard_stopPlaying _ i _)).done

theorem framed_getMode (h : Standing np i whole (payload ++ more) faults)
    (hn : payload.length = n) : Framed i whole more (getMode np i n) ↔
      ¬ (np.isServer = false ∧ n = 60 ∧ faults.headD false = false ∧ ModeChases np payload) := by
  rw [getMode]
  split_ifs with hserver hsize
  · exact ⟨fun _ hall => Bool.noConfusion (hserver.symm.trans hall.1), fun _ => framed_nak np i⟩
  · exact ⟨fun _ hall => hsize hall.2.1, fun _ => framed_nak np i⟩
  · have hsixty : n = 60 := not_not.mp hsize
    have hafter : Standing (afterField np i (15 * 4)) i whole more faults.tail :=
      h.whole_field (hn.trans hsixty)
    rw [framed_recv_iff h (by rw [List.length_append]; omega) (framed_nak · i),
      List.take_left' (hn.trans hsixty), framed_modeFrom hafter]
    have hsame : ModeChases (afterField np i (15 * 4)) payload ↔ ModeChases np payload := Iff.rfl
    rw [hsame]
    constructor
    · exact fun hnext hall => hnext hall.2.2.1 hall.2.2.2
    · exact fun hnot hsound hchase =>
        hnot ⟨Bool.eq_false_of_not_eq_true hserver, hsixty, hsound, hchase⟩

/-- PLAY is granted to a client whose number has no bit in the bitmaps. -/
def PlaysBeyond (np : NetplayT σ) (i : ℕ) : Prop :=
  let c := np.connection i
  np.isServer = true ∧ c.delayFrame = 0 ∧ c.canPlay = true ∧ c.mode ≠ .playing ∧ c.mode ≠ .slave ∧
    MAX_CLIENTS ≤ i + 1

theorem framed_getPlay (settings : Settings) (h : Standing np i whole (payload ++ more) faults)
    (hn : payload.length = n) : Framed i whole more (getPlay settings np i n) ↔
      ¬ (n = 4 ∧ faults.headD false = false ∧ PlaysBeyond np i) := by
  rw [getPlay]
  split_ifs with hsize
  · exact ⟨fun _ hall => hsize hall.1, fun _ => framed_nak np i⟩
  · have hfour : n = 4 := not_not.mp hsize
    have hafter : Standing (afterField np i 4) i whole more faults.tail :=
      h.whole_field (hn.trans hfour)
    have hconnection : (afterField np i 4).connection i =
        { np.connection i with
          recvPacketBuffer := ((np.connection i).recvPacketBuffer.read 4).2
          recvFaults := (np.connection i).recvFaults.tail } := connection_retape h.lt _ _
    rw [framed_recv_iff h (by rw [List.length_append]; omega) (framed_nak · i)]
    simp only [hconnection]
    rw [PlaysBeyond]
    split_ifs with hserver hdelay hcan hmode
    · exact ⟨fun _ hall => Bool.noConfusion (hserver.symm.trans hall.2.2.1),
        fun _ _ => framed_nak _ i⟩
    · exact ⟨fun _ hall => hdelay hall.2.2.2.1,
        fun _ _ => (hafter.of_heard (heard_refuseMode _ i _ _)).done⟩
    · exact ⟨fun _ hall => Bool.noConfusion (hcan.symm.trans hall.2.2.2.2.1),
        fun _ _ => (hafter.of_heard (heard_refuseMode _ i _ _)).done⟩
    · exact ⟨fun _ hall => hmode.elim hall.2.2.2.2.2.1 hall.2.2.2.2.2.2.1,
        fun _ _ => framed_nak _ i⟩
    · have hanswer : Framed i whole more ((handlePlay settings (afterField np i 4) (i + 1) (some i)
          (ntohl ((payload ++ more).take 4))).bind fun np => done np i) ↔ ¬ MAX_CLIENTS ≤ i + 1 := by
        constructor
        · intro hframed hbeyond
          rw [handlePlay, if_pos hbeyond] at hframed
          exact not_framed_none hframed
        · intro hclient
          cases hplay : handlePlay settings (afterField np i 4) (i + 1) (some i)
              (ntohl ((payload ++ more).take 4)) with
          | none =>
            rw [handlePlay, if_neg hclient] at hplay
            exact absurd hplay (Option.some_ne_none _)
          | some np' => exact (hafter.of_heard (heard_handlePlay hplay)).done
      rw [hanswer]
      push Not at hmode
      constructor
      · exact fun hnext hall => hnext hall.2.1 hall.2.2.2.2.2.2.2
      · refine fun hnot hsound hbeyond => hnot ⟨hfour, hsound, ?_, not_not.mp hdelay, ?_, hmode.1,
          hmode.2, hbeyond⟩
        · exact Bool.eq_true_of_not_eq_false hserver
        · exact Bool.eq_true_of_not_eq_false hcan

/-- NOINPUT is accepted whose payload is not its one field. -/
def NoinputAccepts (np : NetplayT σ) (n : ℕ) (bytes : List UInt8) : Prop :=
  np.isServer = false ∧ n ≠ 4 ∧ 4 ≤ bytes.length ∧
    ntohl (bytes.take 4) ≤ np.cursors.server.frameCount

theorem framed_getNoinput (h : Standing np i whole (payload ++ more) faults)
    (hn : payload.length = n) : Framed i whole more (getNoinput np i) ↔
      ¬ (faults.headD false = false ∧ NoinputAccepts np n (payload ++ more)) := by
  rw [getNoinput, NoinputAccepts]
  split_ifs with hserver
  · exact ⟨fun _ hall => Bool.noConfusion (hserver.symm.trans hall.2.1),
      fun _ => framed_nak np i⟩
  · rcases Nat.lt_or_ge (payload ++ more).length 4 with hshort | hlong
    · refine ⟨fun _ hall => Nat.not_lt.mpr hall.2.2.2.1 hshort, fun _ => ?_⟩
      exact h.recv (framed_nak · i) fun hfull => absurd hshort (Nat.not_lt.mpr hfull)
    · have hafter := h.after 4
      have hdone : ∀ np' : NetplayT σ, Standing np' i whole ((payload ++ more).drop 4) faults.tail →
          (Framed i whole more (done np' i) ↔ n = 4) := by
        intro np' hnp'
        constructor
        · intro hframed
          by_contra hne
          refine hnp'.not_done (fun hsame => hne ?_) hframed
          have hlen := congrArg List.length hsame
          rw [List.length_drop, List.length_append] at hlen
          rw [List.length_append] at hlong
          omega
        · intro hfour
          rw [List.drop_left' (hn.trans hfour)] at hnp'
          exact hnp'.done
      have hserver' : np.isServer = false := Bool.eq_false_of_not_eq_true hserver
      have hexactly : ntohl ((payload ++ more).take 4) ≤ np.cursors.server.frameCount →
          ((faults.headD false = false → n = 4) ↔ ¬ (faults.headD false = false ∧
            np.isServer = false ∧ n ≠ 4 ∧ 4 ≤ (payload ++ more).length ∧
              ntohl ((payload ++ more).take 4) ≤ np.cursors.server.frameCount)) := by
        intro hle
        constructor
        · exact fun hfour hall => hall.2.2.1 (hfour hall.1)
        · intro hnot hsound
          by_contra hne
          exact hnot ⟨hsound, hserver', hne, hlong, hle⟩
      rw [framed_recv_iff h hlong (framed_nak · i)]
      have hcursor : (afterField np i 4).cursors.server = np.cursors.server := rfl
      simp only [hcursor]
      split_ifs with hbefore hnow
      · exact (imp_congr_right fun _ => hdone _ hafter).trans (hexactly hbefore.le)
      · exact ⟨fun _ hall => hnow (Nat.le_antisymm hall.2.2.2.2 (Nat.le_of_not_lt hbefore)),
          fun _ _ => framed_nak _ i⟩
      · refine Iff.trans (imp_congr_right fun _ => hdone _ ?_) (hexactly (not_not.mp hnow).le)
        exact hafter.of_heard rfl

end Lost

section Framing

variable {np : NetplayT σ} {i cmd n : ℕ} {whole rest payload more : List UInt8}
  {faults : List Bool}

/-- Of a command of size `n`: it is DISCONNECT, it leaves the stream at a boundary or the call
returns false, or it is a RESET that the counters do not follow. -/
def Keeps (np : NetplayT σ) (i cmd n : ℕ) (whole more : List UInt8) (outcome : Outcome σ) : Prop :=
  cmd = 0x0002 ∨ Framed i whole more outcome ∨
    cmd = 0x0046 ∧ outcome = none ∧ ResetsToZero np i n

/-- What loses the place in the stream: a payload no one looks at, a payload of NOINPUT that is not
its one field, and what does not end. -/
def Loses (np : NetplayT σ) (i cmd : ℕ) (payload more : List UInt8) (faults : List Bool) : Prop :=
  cmd ∈ [0x0000, 0x0041, 0x0044] ∧ payload ≠ [] ∨
    faults.headD false = false ∧
      (cmd = 0x0004 ∧ NoinputAccepts np payload.length (payload ++ more) ∨
        cmd = 0x0025 ∧ payload.length = 4 ∧ PlaysBeyond np i ∨
        cmd = 0x0026 ∧ np.isServer = false ∧ payload.length = 60 ∧ ModeChases np payload)

theorem keeps_iff {outcome : Outcome σ} (hdisconnect : cmd ≠ 0x0002) (hreset : cmd ≠ 0x0046) :
    Keeps np i cmd n whole more outcome ↔ Framed i whole more outcome := by
  rw [Keeps, or_iff_right hdisconnect]
  exact or_iff_left fun hzero => hreset hzero.1

theorem framed_unread (h : Standing np i whole (payload ++ more) faults) :
    Framed i whole more (done np i) ↔ payload = [] := by
  constructor
  · intro hframed
    by_contra hne
    exact h.not_done (fun hsame => hne (List.append_left_eq_self.mp hsame)) hframed
  · rintro rfl
    exact h.done

theorem keeps_handleCmd (pf : Platform σ) (settings : Settings) (cmd : ℕ)
    (h : Standing np i whole (payload ++ more) faults) :
    Keeps np i cmd payload.length whole more (handleCmd pf settings np i cmd payload.length) ↔
      ¬ Loses np i cmd payload more faults := by
  have hunread : ∀ np' : NetplayT σ, heard np' i = heard np i → cmd ∈ [0x0000, 0x0041, 0x0044] →
      (Keeps np i cmd payload.length whole more (done np' i) ↔
        ¬ Loses np i cmd payload more faults) := by
    intro np' hheard hcmd
    have hsmall : cmd ≠ 0x0002 ∧ cmd ≠ 0x0046 ∧ cmd ≠ 0x0004 ∧ cmd ≠ 0x0025 ∧ cmd ≠ 0x0026 := by
      simp only [List.mem_cons, List.not_mem_nil, or_false] at hcmd
      omega
    rw [keeps_iff hsmall.1 hsmall.2.1, framed_unread (h.of_heard hheard), Loses]
    simp only [hcmd, hsmall, true_and, false_and, or_false, and_false, ne_eq, not_not]
  have hkept : ∀ {outcome : Outcome σ}, Keeps np i cmd payload.length whole more outcome →
      cmd ∉ [0x0000, 0x0041, 0x0044, 0x0004, 0x0025, 0x0026] →
        (Keeps np i cmd payload.length whole more outcome ↔ ¬ Loses np i cmd payload more faults) := by
    intro outcome hkeeps hcmd
    refine iff_of_true hkeeps ?_
    simp only [List.mem_cons, List.not_mem_nil, or_false, not_or] at hcmd
    simp only [Loses, List.mem_cons, List.not_mem_nil, or_false, hcmd, false_and, and_false,
      not_false_eq_true]
  rw [handleCmd.eq_def]
  split
  · exact hunread np rfl (by decide)
  · exact hkept (Or.inr (Or.inl (framed_refused np))) (by decide)
  · exact hkept (Or.inl rfl) (by decide)
  · exact hkept (Or.inr (Or.inl (framed_getInput h rfl))) (by decide)
  · rw [keeps_iff (by decide) (by decide), framed_getNoinput h rfl]
    simp [Loses]
  · exact hkept (Or.inr (Or.inl (framed_getSpectate h rfl))) (by decide)
  · rw [keeps_iff (by decide) (by decide), framed_getPlay settings h rfl]
    simp [Loses, and_left_comm]
  · rw [keeps_iff (by decide) (by decide), framed_getMode h rfl]
    simp [Loses, and_left_comm]
  · exact hkept (Or.inr (Or.inl (framed_getModeRefused h rfl))) (by decide)
  · exact hkept (Or.inr (Or.inl (framed_getCrc pf h rfl))) (by decide)
  · exact hunread _ rfl (by decide)
  · refine hkept (Or.inr ?_) (by decide)
    rcases framed_getLoad pf false h rfl with hframed | hzero
    · exact Or.inl hframed
    · exact absurd hzero.1 Bool.false_ne_true
  · refine hkept (Or.inr ?_) (by decide)
    rcases framed_getLoad pf true h rfl with hframed | hzero
    · exact Or.inl hframed
    · exact Or.inr ⟨rfl, hzero.2⟩
  · exact hkept (Or.inr (Or.inl (framed_getPause h rfl))) (by decide)
  · exact hunread _ (heard_remoteUnpaused np i i) (by decide)
  · exact hkept (Or.inr (Or.inl (framed_getStall h rfl))) (by decide)
  · refine hkept (Or.inr (Or.inl (framed_nak np i))) ?_
    simp only [List.mem_cons, List.not_mem_nil, or_false, not_or]
    tauto

theorem recv_field {field : List UInt8} (h : Standing np i whole (field ++ rest) faults)
    (hn : field.length = n) (fail : NetplayT σ → Outcome σ)
    (next : List UInt8 → NetplayT σ → Outcome σ) :
    RECV np i n fail next =
      if faults.headD false = true then
        fail (np.retape i (np.connection i).recvPacketBuffer faults.tail)
      else next field (afterField np i n) := by
  subst hn
  rw [RECV, h.netplayRecv]
  split_ifs with hfault hshort
  · rfl
  · rw [List.length_append] at hshort
    exact absurd hshort (Nat.not_lt.mpr (Nat.le_add_right _ _))
  · simp only [List.take_left' rfl]

/-- The header has been read, or the socket failed before that. -/
theorem netplayGetCmd_header (pf : Platform σ) (settings : Settings) (hs : Handshake)
    (hready : (np.connection i).mode.ready = true) (hcmd : cmd < 2 ^ 32)
    (hlen : payload.length < 2 ^ 32)
    (h : Standing np i whole (command cmd payload ++ more) faults) :
    netplayGetCmd pf settings hs np i =
      if faults.headD false = true then
        refused (np.retape i (np.connection i).recvPacketBuffer faults.tail)
      else if faults.tail.headD false = true then
        refused ((afterField np i 4).retape i
          ((afterField np i 4).connection i).recvPacketBuffer faults.tail.tail)
      else handleCmd pf settings (afterField (afterField np i 4) i 4) i cmd payload.length := by
  rw [command, List.append_assoc, List.append_assoc] at h
  have hafter := h.after 4
  rw [List.drop_left' (length_htonl cmd)] at hafter
  rw [netplayGetCmd, if_neg (by rw [hready]; exact Bool.noConfusion),
    recv_field h (length_htonl cmd), recv_field hafter (length_htonl payload.length),
    ntohl_htonl hcmd, ntohl_htonl hlen]

/-- Where the place in the stream is lost: the header is read, and what follows loses it. -/
def LosesFraming (np : NetplayT σ) (i cmd : ℕ) (payload more : List UInt8) : Prop :=
  let faults := (np.connection i).recvFaults
  faults.headD false = false ∧ faults.tail.headD false = false ∧
    Loses np i cmd payload more faults.tail.tail

theorem loses_afterField (hi : i < np.connections.length) (k : ℕ) :
    Loses (afterField np i k) i cmd payload more faults ↔ Loses np i cmd payload more faults := by
  have hplays : PlaysBeyond (afterField np i k) i ↔ PlaysBeyond np i := by
    rw [PlaysBeyond, PlaysBeyond, afterField, connection_retape hi]
    exact Iff.rfl
  rw [Loses, Loses, hplays]
  exact Iff.rfl

theorem command_drop (cmd : ℕ) (payload more : List UInt8) :
    ((command cmd payload ++ more).drop 4).drop 4 = payload ++ more := by
  rw [command, List.append_assoc, List.drop_left' (length_htonl cmd), List.append_assoc,
    List.drop_left' (length_htonl payload.length)]

/-- Whatever the state and the command, the stream is left at a boundary, unless the payload is
not looked at or is not done with. -/
theorem framing_kept_iff (pf : Platform σ) (settings : Settings) (hs : Handshake)
    (hi : i < np.connections.length) (hready : (np.connection i).mode.ready = true)
    (hcmd : cmd < 2 ^ 32) (hlen : payload.length < 2 ^ 32)
    (hcells : (np.connection i).recvPacketBuffer.cells = command cmd payload ++ more)
    (hcursor : (np.connection i).recvPacketBuffer.cursor = 0) :
    Keeps np i cmd payload.length (command cmd payload ++ more) more
      (netplayGetCmd pf settings hs np i) ↔ ¬ LosesFraming np i cmd payload more := by
  have hstart : Standing np i (command cmd payload ++ more) (command cmd payload ++ more)
      (np.connection i).recvFaults :=
    ⟨hi, hcells, by rw [Tape.rest, hcursor, hcells, List.drop_zero], rfl⟩
  rw [netplayGetCmd_header pf settings hs hready hcmd hlen hstart, LosesFraming]
  split_ifs with hfirst hsecond
  · refine iff_of_true (Or.inr (Or.inl (framed_refused _))) fun hall => ?_
    exact Bool.noConfusion (hfirst.symm.trans hall.1)
  · refine iff_of_true (Or.inr (Or.inl (framed_refused _))) fun hall => ?_
    exact Bool.noConfusion (hsecond.symm.trans hall.2.1)
  · have hheader := (hstart.after 4).after 4
    rw [command_drop] at hheader
    have hkept := keeps_handleCmd pf settings cmd hheader
    rw [loses_afterField (hstart.after 4).lt, loses_afterField hi] at hkept
    refine Iff.trans hkept (not_congr ?_)
    exact ⟨fun hloses => ⟨Bool.eq_false_of_not_eq_true hfirst,
      Bool.eq_false_of_not_eq_true hsecond, hloses⟩, fun hall => hall.2.2⟩

/-- A client whose server has sent one command. -/
def hearing (cmd : ℕ) (payload : List UInt8) : NetplayT ℕ :=
  { netplayNew idleCore false false 0 false false false [] (fun _ => 0) 0 with
    connections := [{ Connection.zero with
      active := true
      mode := .playing
      recvPacketBuffer := ⟨command cmd payload ++ [], 0, Nat.zero_le _⟩ }] }

theorem framing_kept_stall : Keeps (hearing 0x0045 [0, 0, 0, 1]) 0 0x0045 4
    (command 0x0045 [0, 0, 0, 1] ++ []) []
    (netplayGetCmd idleCore openSettings .wait (hearing 0x0045 [0, 0, 0, 1]) 0) := by
  apply (framing_kept_iff idleCore openSettings .wait Nat.one_pos rfl (by decide) (by decide) rfl
    rfl).mpr
  rintro ⟨-, -, hunread | ⟨-, hread⟩⟩
  · exact absurd hunread.1 (by decide)
  · exact absurd hread (by simp)

/-- The byte of an ACK is left in front of the next command. -/
theorem long_ack_unframed : ¬ Keeps (hearing 0x0000 [1]) 0 0x0000 1 (command 0x0000 [1] ++ []) []
    (netplayGetCmd idleCore openSettings .wait (hearing 0x0000 [1]) 0) := by
  have hstart : Standing (hearing 0x0000 [1]) 0 (command 0x0000 [1] ++ [])
      (command 0x0000 [1] ++ []) [] := ⟨Nat.one_pos, rfl, rfl, rfl⟩
  rw [keeps_iff (by decide) (by decide),
    netplayGetCmd_header idleCore openSettings .wait rfl (by decide) (by decide) hstart]
  have hheader := (hstart.after 4).after 4
  rw [command_drop] at hheader
  exact hheader.not_done (by decide)

end Framing

end RetroArch.Netplay.Boundary
