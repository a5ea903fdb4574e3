/- The frame pointers of a session and its frame counters stay in step in every run. -/

import RetroArch.Netplay.Clock

namespace RetroArch.Netplay.Alignment

open Library.Lockstep Library.Run Library.Rewinding Delta State Io Messaging Reading Command Resolve
open Savestate Clock Frames Poll Sync Session

variable {σ : Type}

variable {n base : ℕ} {np np' : NetplayT σ}

theorem at_earlier {least : Option Cursor} {c d : Cursor} (hleast : ∀ d, least = some d → At n base d)
    (hc : At n base c) (hd : earlier least c = some d) : At n base d := by
  cases least with
  | none => exact Option.some.inj hd ▸ hc
  | some l =>
    simp only [earlier] at hd
    split_ifs at hd
    · exact Option.some.inj hd ▸ hc
    · exact hleast d hd

theorem at_leastUnread (h : Aligned n base np) {c : Cursor} (hc : leastUnread np = some c) :
    At n base c := by
  have hplayers : ∀ d, (List.range MAX_CLIENTS).foldl (fun least client =>
      if np.roster.connectedPlayers.testBit client ∧
          np.roster.connectedSlaves.testBit client = false then
        earlier least (np.cursors.read client)
      else least) none = some d → At n base d := by
    refine List.foldlRecOn (motive := fun least => ∀ d, least = some d → At n base d) _ _
      (fun d hd => by cases hd) fun least hleast client _ => ?_
    split_ifs
    · exact fun d hd => at_earlier hleast (h.read client) hd
    · exact hleast
  simp only [leastUnread] at hc
  split_ifs at hc
  · exact hplayers c hc
  · exact at_earlier hplayers h.server hc

theorem aligned_updateUnread (h : Aligned n base np) :
    Aligned n base (netplayUpdateUnreadPtr np) := by
  refine { h with unread := ?_ }
  simp only [netplayUpdateUnreadPtr]
  split_ifs
  · exact h.self
  · cases hleast : leastUnread np with
    | none => exact h.self
    | some c => exact at_leastUnread h hleast

theorem at_atLeast {run c : Cursor} (hrun : At n base run) (hc : At n base c) :
    At n base (atLeast run c) := by
  rw [atLeast]
  split_ifs
  · exact hrun
  · exact hc

theorem aligned_ignorePast (h : Aligned n base np) : Aligned n base (ignorePast np) := by
  have hunread := aligned_updateUnread h
  simp only [ignorePast]
  split_ifs
  · refine aligned_updateUnread { hunread with server := ?_, read := ?_ }
    · exact at_atLeast hunread.run hunread.server
    · intro client
      simp only [readToRun]
      split_ifs
      · exact at_atLeast hunread.run (hunread.read client)
      · exact hunread.read client
  · exact hunread

theorem aligned_forceFuture (h : Aligned n base np) : Aligned n base (netplayForceFuture np) := by
  have hrun : Aligned n base (runToSelf np) := { h with run := h.self }
  have hpast := aligned_ignorePast hrun
  exact { hpast with other := at_atLeast hpast.run hpast.other }

theorem aligned_loadSavestate (pf : Platform σ) (info : Option (ℕ × Option σ)) (save : Bool)
    (h : Aligned n base np) : Aligned n base (netplayLoadSavestate pf np info save) := by
  have hforced := aligned_forceFuture h
  simp only [netplayLoadSavestate]
  split
  · exact hforced.of_frames (frames_shareSavestate pf _ _ _)
  · cases hready : (netplayForceFuture np).frameReady _ _ with
    | none => exact hforced
    | some np' =>
      exact ((hforced.frameReady hready).setFrame _ _).of_frames (frames_shareSavestate pf _ _ _)
  · cases hready : (netplayForceFuture np).frameReady _ _ with
    | none => exact hforced
    | some np' =>
      simp only
      cases pf.serialize np'.core with
      | none => exact hforced.frameReady hready
      | some s =>
        exact ((hforced.frameReady hready).setFrame _ _).of_frames
          (frames_shareSavestate pf _ _ _)

theorem aligned_coreReset (h : Aligned n base np) : Aligned n base (netplayCoreReset np) :=
  (aligned_forceFuture h).of_frames (frames_sendTo _ _ _)

theorem clock_handleFrameHash (pf : Platform σ) (np : NetplayT σ) (ptr : ℕ) :
    clock (netplayHandleFrameHash pf np ptr) = clock np := by
  simp only [netplayHandleFrameHash]
  split_ifs
  · exact (clock_of_game (game_netplayCmdCrc _ _ _)).trans (clock_setFrame _ _ _)
  · rfl
  · rfl
  · rfl
  · exact clock_of_frames (frames_requestSavestate np)
  · rfl
  · rfl

theorem clock_resolveInput (np : NetplayT σ) (ptr : ℕ) (resim : Bool) :
    clock (netplayResolveInput np ptr resim).2 = clock np := by
  simp only [netplayResolveInput]
  exact clock_setFrame _ _ _

theorem aligned_markLocal (f : DeltaFrame σ) (h : Aligned n base np) :
    Aligned n base (markLocal np f) := by
  simp only [markLocal]
  split_ifs
  · exact (h.setFrame _ _).setRead _ (h.next h.self)
  · exact h.setFrame _ _

theorem aligned_getSelfInputState {input : LocalInput} {ready : Bool} (h : Aligned n base np)
    (hself : getSelfInputState input np = some (ready, np')) : Aligned n base np' := by
  simp only [getSelfInputState] at hself
  cases hready : np.frameReady np.cursors.self.ptr np.cursors.self.frameCount with
  | none =>
    rw [hready] at hself
    obtain ⟨-, rfl⟩ := Prod.mk.inj (Option.some.inj hself)
    exact h
  | some np'' =>
    have h'' := h.frameReady hready
    rw [hready] at hself
    simp only at hself
    split_ifs at hself
    · obtain ⟨-, rfl⟩ := Prod.mk.inj (Option.some.inj hself)
      exact h''
    all_goals
      obtain ⟨-, rfl⟩ := Prod.mk.inj (Option.some.inj hself)
      have hmarked := aligned_markLocal
        (captureInput np'' input (np''.buffer np.cursors.self.ptr)) h''
      have hsent := hmarked.of_frames (frames_sendCurInputs _)
    · exact hsent.of_game (game_delayedStateChange _)
    · exact hsent

theorem aligned_handleSlave {i : ℕ} (h : Aligned n base np)
    (hslave : handleSlave np i = some np') : Aligned n base np' := by
  simp only [handleSlave] at hslave
  split_ifs at hslave
  · exact Option.some.inj hslave ▸ h
  · exact Option.some.inj hslave ▸ h
  · obtain ⟨f, -, rfl⟩ := Option.map_eq_some_iff.mp hslave
    have hframe := h.setFrame np.cursors.self.ptr f
    have hsent := hframe.of_game (game_sendInputFrame _ f none (i + 1) false)
    exact hsent.setRead _ (hsent.next h.self)

theorem aligned_handleSlaves (h : Aligned n base np) (hslaves : netplayHandleSlaves np = some np') :
    Aligned n base np' := by
  rw [netplayHandleSlaves, foldlM_eq_run] at hslaves
  exact run_invariant (fun _ _ _ h hstep => aligned_handleSlave h hstep) h hslaves

theorem aligned_pollConnection {pf : Platform σ} {settings : Settings} {r : Round} {i : ℕ}
    {had : Bool} (h : Aligned n base np)
    (hpoll : pollConnection pf settings r np i = some (had, np')) : Aligned n base np' := by
  have hdelivered : Aligned n base (deliver np i (r.traffic i)) := h.setConnection i _
  simp only [pollConnection] at hpoll
  split_ifs at hpoll
  · obtain ⟨⟨ret, np''⟩, hcmd, hret⟩ := Option.map_eq_some_iff.mp hpoll
    have h'' := aligned_getCmd (r.handshakes i) hdelivered _ _ hcmd
    cases ret with
    | refused =>
      obtain ⟨-, rfl⟩ := Prod.mk.inj hret
      exact h''.of_game (game_hangup _ _)
    | dropped =>
      obtain ⟨-, rfl⟩ := Prod.mk.inj hret
      exact h''.of_game (game_hangup _ _)
    | idle =>
      obtain ⟨-, rfl⟩ := Prod.mk.inj hret
      exact h''
    | handled =>
      obtain ⟨-, rfl⟩ := Prod.mk.inj hret
      exact h''
  · obtain ⟨-, rfl⟩ := Prod.mk.inj (Option.some.inj hpoll)
    exact hdelivered

theorem aligned_pollRound {pf : Platform σ} {settings : Settings} {r : Round} {had : Bool}
    (h : Aligned n base np) (hround : pollRound pf settings r np = some (had, np')) :
    Aligned n base np' := by
  rw [pollRound, foldlM_eq_run] at hround
  refine run_invariant (I := fun s : Bool × NetplayT σ => Aligned n base s.2) ?_ h hround
  rintro ⟨had, np⟩ i ⟨had', np'⟩ h hstep
  obtain ⟨⟨_, np''⟩, hpoll, hret⟩ := Option.map_eq_some_iff.mp hstep
  obtain ⟨-, rfl⟩ := Prod.mk.inj hret
  exact aligned_pollConnection h hpoll

theorem aligned_pollRounds {pf : Platform σ} {settings : Settings} {block ready : Bool}
    (rs : List Round) (h : Aligned n base np)
    (hrounds : pollRounds pf settings block rs np = some (ready, np')) : Aligned n base np' := by
  induction rs generalizing np with
  | nil => cases hrounds
  | cons r rs ih =>
    obtain ⟨⟨had, np''⟩, hround, hrest⟩ := Option.bind_eq_some_iff.mp hrounds
    have h'' := aligned_pollRound h hround
    have hunread := aligned_updateUnread h''
    simp only at hrest
    split_ifs at hrest
    · obtain ⟨-, rfl⟩ := Prod.mk.inj (Option.some.inj hrest)
      exact hunread
    · obtain ⟨-, rfl⟩ := Prod.mk.inj (Option.some.inj hrest)
      exact hunread
    · exact ih hunread hrest
    · exact ih h'' hrest
    · obtain ⟨-, rfl⟩ := Prod.mk.inj (Option.some.inj hrest)
      exact h''

theorem aligned_pollNetInput {pf : Platform σ} {settings : Settings} {block ready : Bool}
    {rs : List Round} (h : Aligned n base np)
    (hpoll : netplayPollNetInput pf settings block rs np = some (ready, np')) :
    Aligned n base np' := by
  rw [netplayPollNetInput] at hpoll
  split_ifs at hpoll
  · exact aligned_pollRounds rs h hpoll
  · obtain ⟨-, rfl⟩ := Prod.mk.inj (Option.some.inj hpoll)
    exact h

theorem aligned_afterNetInput {settings : Settings} {now : ℕ} (h : Aligned n base np)
    (hafter : afterNetInput settings now np = some np') : Aligned n base np' := by
  have hresolved := h.of_clock (clock_resolveInput np np.cursors.run.ptr false)
  obtain ⟨np'', hslaves, rfl⟩ := Option.map_eq_some_iff.mp hafter
  have h'' : Aligned n base np'' := by
    split_ifs at hslaves
    · exact aligned_handleSlaves hresolved hslaves
    · exact Option.some.inj hslaves ▸ hresolved
  refine (aligned_updateUnread h'').of_frames ?_
  rw [frames_dropStalled, frames_considerStall, frames_unstall, frames_adjustLatency]

theorem aligned_netplayPoll {pf : Platform σ} {settings : Settings} {env : PollEnv}
    (h : Aligned n base np) (hpoll : netplayPoll pf settings env np = some np') :
    Aligned n base np' := by
  have hstart : Aligned n base ({ np with canPoll := false } : NetplayT σ) := h.of_clock rfl
  obtain ⟨⟨ready, np₁⟩, hself, hpoll⟩ := Option.bind_eq_some_iff.mp hpoll
  have h₁ := aligned_getSelfInputState hstart hself
  cases ready with
  | false => exact Option.some.inj hpoll ▸ h₁.of_frames (frames_hangupAll np₁)
  | true =>
    simp only at hpoll
    split_ifs at hpoll
    · exact Option.some.inj hpoll ▸ h₁
    · obtain ⟨⟨ready, np₂⟩, hnet, hpoll⟩ := Option.bind_eq_some_iff.mp hpoll
      have h₂ := aligned_pollNetInput (aligned_updateUnread h₁) hnet
      cases ready with
      | false => exact Option.some.inj hpoll ▸ h₂.of_frames (frames_hangupAll np₂)
      | true => exact aligned_afterNetInput h₂ hpoll

theorem aligned_parity (h : Aligned n base np) : Aligned n base (parity np) := by
  simp only [parity]
  split_ifs
  · exact { h.setFrame np.cursors.self.ptr
      { np.buffer np.cursors.self.ptr with state := (np.buffer np.cursors.run.ptr).state } with
      run := h.self }
  · exact h

theorem aligned_takeSavestate (pf : Platform σ) (h : Aligned n base np) :
    Aligned n base (takeSavestate pf np) := by
  have hcleared : Aligned n base (setState np np.cursors.run.ptr none) := h.setFrame _ _
  simp only [takeSavestate]
  split_ifs
  · exact hcleared
  all_goals
    split
    · exact hcleared.of_clock rfl
    · rename_i s _
      have hstate : Aligned n base (setState (setState np np.cursors.run.ptr none)
          np.cursors.run.ptr (some s)) := hcleared.setFrame _ _
      generalize setState (setState np np.cursors.run.ptr none) np.cursors.run.ptr (some s) =
        np' at hstate
      split_ifs
      · exact (aligned_loadSavestate pf _ _ (aligned_parity hstate)).of_clock rfl
      · exact hstate

theorem aligned_preSerialize (pf : Platform σ) (h : Aligned n base np) :
    Aligned n base (preSerialize pf np) := by
  simp only [preSerialize]
  cases hready : np.frameReady np.cursors.run.ptr np.cursors.run.frameCount with
  | none => exact h
  | some np' =>
    have htaken := aligned_takeSavestate pf (h.frameReady hready)
    simp only
    split_ifs
    · exact htaken.of_clock rfl
    · exact htaken

theorem aligned_inputPollNet {pf : Platform σ} {settings : Settings} {env : PollEnv}
    (h : Aligned n base np) (hpoll : inputPollNet pf settings env np = some np') :
    Aligned n base np' := by
  rw [inputPollNet] at hpoll
  split_ifs at hpoll
  · exact aligned_netplayPoll h hpoll
  · exact Option.some.inj hpoll ▸ h

theorem aligned_syncPreFrame {pf : Platform σ} {settings : Settings} {env : FrameEnv}
    {ready : Bool} (h : Aligned n base np)
    (hpre : netplaySyncPreFrame pf settings env np = some (ready, np')) :
    Aligned n base np' := by
  have hserialized := aligned_preSerialize pf h
  obtain ⟨np'', hpoll, hret⟩ := Option.map_eq_some_iff.mp hpre
  obtain ⟨-, rfl⟩ := Prod.mk.inj hret
  refine aligned_inputPollNet (hserialized.of_frames ?_) hpoll
  split_ifs
  · exact frames_acceptConnection _
  · rfl

theorem aligned_finishFrame (stalled : Bool) (h : Aligned n base np) :
    Aligned n base (finishFrame np stalled) := by
  refine { h with self := ?_, run := ?_ }
  · simp only [finishFrame]
    split_ifs
    all_goals first
      | exact h.next h.self
      | exact h.self
  · simp only [finishFrame]
    split_ifs
    · exact h.run
    · exact h.next h.run

theorem aligned_skipAhead (pf : Platform σ) (frames : ℕ) (h : Aligned n base np) :
    Aligned n base (skipAhead pf frames np).2 := by
  induction frames generalizing np with
  | zero => exact h
  | succ frames ih =>
    have hresolved : Aligned n base (netplayResolveInput np np.cursors.other.ptr true).2 :=
      h.of_clock (clock_resolveInput _ _ _)
    simp only [skipAhead]
    split_ifs
    · dsimp only
      exact hresolved
    · have hhashed := hresolved.of_clock (clock_handleFrameHash pf _ np.cursors.other.ptr)
      refine ih (hhashed.moveOther ?_)
      rw [hhashed.size]
      exact InStep.next h.other
    · exact h

theorem aligned_skipSimulated (frames : ℕ) (h : ReplayAligned n base np) :
    ReplayAligned n base (skipSimulated frames np) := by
  induction frames generalizing np with
  | zero => exact h
  | succ frames ih =>
    have hresolved : ReplayAligned n base (netplayResolveInput np np.cursors.replay.ptr true).2 :=
      h.of_clock (clock_resolveInput _ _ _)
    simp only [skipSimulated]
    split_ifs
    · exact hresolved
    · refine ih (hresolved.toAligned.atReplay ?_)
      rw [hresolved.size]
      exact InStep.next h.at_replay
    · exact h

theorem aligned_findReplay (pf : Platform σ) (h : Aligned n base np) :
    ReplayAligned n base (findReplay pf np) := by
  have hstart := h.atReplay h.other
  simp only [findReplay]
  generalize (setReplay np np.cursors.other).cursors.run.frameCount -
    (setReplay np np.cursors.other).cursors.other.frameCount = frames
  have hskipped := aligned_skipAhead pf frames hstart.toAligned
  split_ifs
  · exact hstart
  · generalize skipAhead pf frames (setReplay np np.cursors.other) = res at hskipped ⊢
    rcases res with ⟨_ | _, np'⟩
    · exact hskipped.atReplay hskipped.other
    · exact aligned_skipSimulated _ (hskipped.atReplay hskipped.other)

theorem clock_replayKeyboard (pf : Platform σ) (np : NetplayT σ) :
    clock (replayKeyboard pf np) = clock np := by
  simp only [replayKeyboard]
  split_ifs <;> rfl

theorem aligned_startReplay (pf : Platform σ) (h : ReplayAligned n base np) :
    ReplayAligned n base (startReplay pf np) := by
  have hon : ReplayAligned n base ({ np with isReplay := true } : NetplayT σ) :=
    ⟨{ h.toAligned with replay := fun _ => h.at_replay }, h.at_replay⟩
  have hkeys := hon.of_clock (clock_replayKeyboard pf _)
  simp only [startReplay]
  split_ifs
  · exact hkeys.of_clock (clock_waitAndInit pf 60 _)
  · exact hkeys.of_clock rfl

theorem clock_rememberState (pf : Platform σ) (np : NetplayT σ) :
    clock (rememberState pf np) = clock np := by
  have hstate : clock (setState np np.cursors.replay.ptr (pf.serialize np.core)) = clock np := rfl
  simp only [rememberState]
  split_ifs
  · exact (clock_handleFrameHash pf _ _).trans hstate
  · exact hstate

theorem aligned_replayFrame (pf : Platform σ) (h : ReplayAligned n base np) :
    ReplayAligned n base (replayFrame pf np) := by
  have hresolved : ReplayAligned n base
      (netplayResolveInput (rememberState pf np) np.cursors.replay.ptr true).2 :=
    (h.of_clock (clock_rememberState pf np)).of_clock (clock_resolveInput _ _ _)
  have hrun : ReplayAligned n base
      (coreRun pf (netplayResolveInput (rememberState pf np) np.cursors.replay.ptr true).2) :=
    hresolved.of_frames (frames_coreRun pf _)
  refine hrun.toAligned.atReplay ?_
  rw [hrun.size]
  exact InStep.next h.at_replay

theorem aligned_replayedFrames (pf : Platform σ) (stalled : Bool) (frames : ℕ)
    (h : Aligned n base np) : Aligned n base (replayedFrames pf stalled frames np) := by
  have hfinished := aligned_finishFrame stalled h
  have hfound := aligned_findReplay pf (hfinished.of_frames (frames_resetIfForced pf _))
  exact (Function.Iterate.rec (ReplayAligned n base) (aligned_startReplay pf hfound)
    (fun _ => aligned_replayFrame pf) frames).toAligned

theorem aligned_endReplay (frameRunTimeAvg : ℕ) (h : Aligned n base np) :
    Aligned n base (endReplay np frameRunTimeAvg) := by
  have hother : At n base
      (if np.cursors.unread.frameCount < np.cursors.run.frameCount then np.cursors.unread
        else np.cursors.run) := by
    split_ifs
    · exact h.unread
    · exact h.run
  have hmoved := h.moveOther hother
  exact { hmoved with replay := fun hreplay => by cases hreplay }

theorem aligned_replay (pf : Platform σ) (env : FrameEnv) (h : ReplayAligned n base np) :
    Aligned n base (replay pf env np) := by
  simp only [replay]
  split_ifs
  · refine aligned_endReplay _ ?_
    exact (Function.Iterate.rec (ReplayAligned n base) (aligned_startReplay pf h)
      (fun _ => aligned_replayFrame pf) _).toAligned
  · exact h.toAligned

theorem aligned_syncPostFrame (pf : Platform σ) (env : FrameEnv) (stalled : Bool)
    (h : Aligned n base np) : Aligned n base (netplaySyncPostFrame pf env stalled np) := by
  have hfinished := aligned_finishFrame stalled h
  simp only [netplaySyncPostFrame]
  split_ifs
  · exact (hfinished.moveOther hfinished.self).of_clock rfl
  · have hfound := aligned_findReplay pf (hfinished.of_frames (frames_resetIfForced pf _))
    exact (aligned_replay pf env hfound).of_frames (frames_tryCatchUp _ _ _)

theorem aligned_preFrame {pf : Platform σ} {settings : Settings} {env : FrameEnv}
    {clearance : Clearance} (h : Aligned n base np)
    (hpre : netplayPreFrame pf settings env np = some (clearance, np')) :
    Aligned n base np' := by
  have hpaused : Aligned n base
      (if np.localPaused then netplayFrontendPaused np false else np) := by
    split_ifs
    · exact h.of_frames (frames_frontendPaused _ _)
    · exact h
  simp only [netplayPreFrame] at hpre
  obtain ⟨⟨ready, np''⟩, hsync, hret⟩ := Option.map_eq_some_iff.mp hpre
  have h'' : Aligned n base np'' := by
    refine aligned_syncPreFrame ?_ hsync
    split_ifs at hpaused ⊢
    all_goals first
      | exact hpaused.of_clock (clock_tryInit pf _)
      | exact hpaused
  simp only at hret
  split_ifs at hret
  · obtain ⟨-, rfl⟩ := Prod.mk.inj hret
    exact h''.of_frames (frames_hangupAll np'')
  · obtain ⟨-, rfl⟩ := Prod.mk.inj hret
    exact aligned_syncPostFrame pf env true h''
  · obtain ⟨-, rfl⟩ := Prod.mk.inj hret
    exact h''

theorem aligned_postFrame (pf : Platform σ) (env : FrameEnv) (h : Aligned n base np) :
    Aligned n base (netplayPostFrame pf env np).2 := by
  have hsynced := aligned_syncPostFrame pf env false (aligned_updateUnread h)
  have hflushed := hsynced.of_frames (frames_flushAll _)
  simp only [netplayPostFrame]
  split_ifs
  · exact hflushed.of_frames (frames_hangupAll _)
  · exact hflushed

theorem aligned_cmdMode {settings : Settings} {mode : ConnectionMode} (h : Aligned n base np)
    (hmode : netplayCmdMode settings np mode = some np') : Aligned n base np' := by
  have hplay : ∀ request, (if np.isServer then handlePlay settings np 0 none request
      else some (netplaySendRawCmd np 0 (.play request)).2) = some np' → Aligned n base np' := by
    intro request hplay
    split_ifs at hplay
    · exact aligned_handlePlay h hplay
    · exact Option.some.inj hplay ▸ h.of_frames (frames_send _ _ _)
  simp only [netplayCmdMode] at hmode
  cases mode with
  | spectating =>
    obtain rfl := Option.some.inj hmode
    refine h.of_frames ?_
    split_ifs
    · exact frames_handleSpectate _ _ _
    · exact frames_send _ _ _
  | slave => exact hplay _ hmode
  | playing => exact hplay _ hmode
  | _ => exact Option.some.inj hmode ▸ h

theorem aligned_togglePlaySpectate {settings : Settings} (h : Aligned n base np)
    (htoggle : netplayTogglePlaySpectate settings np = some np') : Aligned n base np' := by
  rw [netplayTogglePlaySpectate] at htoggle
  split_ifs at htoggle
  · refine aligned_cmdMode ?_ htoggle
    exact h.of_clock rfl
  · exact aligned_cmdMode h htoggle
  · exact Option.some.inj htoggle ▸ h

theorem aligned_desyncPop (pf : Platform σ) (h : Aligned n base np) :
    Aligned n base (netplayDesyncPop pf np) := by
  have hpopped : Aligned n base ({ np with desync := np.desync - 1 } : NetplayT σ) := h.of_clock rfl
  simp only [netplayDesyncPop]
  split_ifs
  · exact h
  · exact aligned_loadSavestate pf none true hpopped
  · exact hpopped

theorem aligned_syncReceived (h : Aligned n base np) (hreplay : np.isReplay = false)
    (info : SyncInfo) :
    Aligned n (info.frame + (n - np.cursors.self.ptr)) (syncReceived np info) := by
  have hself : At n (info.frame + (n - np.cursors.self.ptr)) ⟨np.cursors.self.ptr, info.frame⟩ :=
    InStep.rebase h.self.lt info.frame
  exact
    { size := h.size
      self := hself
      run := hself
      other := hself
      unread := hself
      server := hself
      read := fun _ => hself
      replay := fun hon => by
        rw [show (syncReceived np info).isReplay = np.isReplay from rfl, hreplay] at hon
        cases hon }

theorem aligned_handshakePreSync {settings : Settings} {info : SyncInfo} (h : Aligned n base np)
    (hreplay : np.isReplay = false) :
    Gives (Aligned n (info.frame + (n - np.cursors.self.ptr)))
      (netplayHandshakePreSync settings np info) := by
  have hplaying := (aligned_syncReceived h hreplay info).setConnection 0
    fun c => { c with mode := .playing }
  have hready := hplaying.of_frames (frames_handshakeReady _)
  simp only [netplayHandshakePreSync]
  refine Gives.some (Aligned.of_game ?_ (game_netplaySendCurInput _ 0))
  split_ifs
  · exact hready.of_clock rfl
  · exact Aligned.of_frames (hready.of_clock rfl) (frames_send _ _ _)

theorem aligned_step {pf : Platform σ} {settings : Settings} {event : Event σ}
    (h : Aligned n base np) (hstep : step pf settings np event = some np') :
    ∃ base', Aligned n base' np' := by
  cases event with
  | sync info =>
    simp only [step] at hstep
    split_ifs at hstep with hwhen
    obtain ⟨hserver, hreplay⟩ := not_or.mp hwhen
    obtain ⟨⟨ret, np''⟩, hsync, rfl⟩ := Option.map_eq_some_iff.mp hstep
    exact ⟨_, aligned_handshakePreSync h (Bool.eq_false_iff.mpr hreplay) ret np'' hsync⟩
  | arrive i t => exact ⟨base, Option.some.inj hstep ▸ h.setConnection i _⟩
  | accept =>
    simp only [step] at hstep
    split_ifs at hstep
    exact ⟨base, Option.some.inj hstep ▸ h.of_frames (frames_acceptConnection np)⟩
  | getCmd i handshake =>
    simp only [step] at hstep
    split_ifs at hstep
    obtain ⟨⟨ret, np''⟩, hcmd, hret⟩ := Option.map_eq_some_iff.mp hstep
    have h'' := aligned_getCmd handshake h ret np'' hcmd
    refine ⟨base, ?_⟩
    cases ret with
    | refused => exact hret ▸ h''.of_game (game_hangup np'' i)
    | dropped => exact hret ▸ h''.of_game (game_hangup np'' i)
    | idle => exact hret ▸ h''
    | handled => exact hret ▸ h''
  | hangup i => exact ⟨base, Option.some.inj hstep ▸ h.of_game (game_hangup np i)⟩
  | selfInput input =>
    obtain ⟨⟨ready, np''⟩, hself, rfl⟩ := Option.map_eq_some_iff.mp hstep
    exact ⟨base, aligned_getSelfInputState h hself⟩
  | updateUnread => exact ⟨base, Option.some.inj hstep ▸ aligned_updateUnread h⟩
  | pollNetInput block rounds =>
    obtain ⟨⟨ready, np''⟩, hpoll, rfl⟩ := Option.map_eq_some_iff.mp hstep
    exact ⟨base, aligned_pollNetInput h hpoll⟩
  | resolveInput resim =>
    obtain rfl := Option.some.inj hstep
    exact ⟨base, h.of_clock (clock_resolveInput _ _ _)⟩
  | handleSlaves => exact ⟨base, aligned_handleSlaves h hstep⟩
  | afterNetInput now =>
    simp only [step] at hstep
    exact ⟨base, aligned_afterNetInput h hstep⟩
  | preFrame env =>
    obtain ⟨⟨clearance, np''⟩, hpre, rfl⟩ := Option.map_eq_some_iff.mp hstep
    exact ⟨base, aligned_preFrame h hpre⟩
  | coreRun => exact ⟨base, Option.some.inj hstep ▸ h.of_frames (frames_coreRun pf np)⟩
  | postFrame env => exact ⟨base, Option.some.inj hstep ▸ aligned_postFrame pf env h⟩
  | syncPostFrame env stalled =>
    exact ⟨base, Option.some.inj hstep ▸ aligned_syncPostFrame pf env stalled h⟩
  | replaying stalled frames =>
    simp only [step] at hstep
    split_ifs at hstep
    exact ⟨base, Option.some.inj hstep ▸ aligned_replayedFrames pf stalled frames h⟩
  | loadSavestate info =>
    exact ⟨base, Option.some.inj hstep ▸ aligned_loadSavestate pf info true h⟩
  | coreReset => exact ⟨base, Option.some.inj hstep ▸ aligned_coreReset h⟩
  | togglePlaySpectate => exact ⟨base, aligned_togglePlaySpectate h hstep⟩
  | paused paused =>
    exact ⟨base, Option.some.inj hstep ▸ h.of_frames (frames_frontendPaused np paused)⟩
  | desyncPush =>
    refine ⟨base, Option.some.inj hstep ▸ ?_⟩
    exact h.of_clock rfl
  | desyncPop => exact ⟨base, Option.some.inj hstep ▸ aligned_desyncPop pf h⟩

theorem aligned_netplayNew (pf : Platform σ) (isServer stateless : Bool) (checkFrames : ℤ)
    (noSave noTrans init : Bool) (nick : List UInt8) (devices : ℕ → ℕ) (core : σ) :
    Aligned (netplayNew pf isServer stateless checkFrames noSave noTrans init nick devices
      core).bufferSize 0
      (netplayNew pf isServer stateless checkFrames noSave noTrans init nick devices core) := by
  have hstart : At (netplayNew pf isServer stateless checkFrames noSave noTrans init nick devices
      core).bufferSize 0 ⟨0, 0⟩ := by
    refine ⟨?_, Nat.ModEq.refl _⟩
    simp only [netplayNew, NETPLAY_MAX_STALL_FRAMES]
    split_ifs <;> decide
  exact
    { size := rfl
      self := hstart
      run := hstart
      other := hstart
      unread := hstart
      server := hstart
      read := fun _ => hstart
      replay := fun _ => hstart }

/-- The frame pointers of a session that C code compares with one another: the server's own frame
on a client, the replayed frame in a replay, and the frames read from connected players. -/
inductive Tracked (np : NetplayT σ) : Cursor → Prop
  | self : Tracked np np.cursors.self
  | run : Tracked np np.cursors.run
  | other : Tracked np np.cursors.other
  | unread : Tracked np np.cursors.unread
  | server (h : np.isServer = false) : Tracked np np.cursors.server
  | replay (h : np.isReplay = true) : Tracked np np.cursors.replay
  | read (client : ℕ) (h : np.roster.connectedPlayers.testBit client = true) :
      Tracked np (np.cursors.read client)

theorem at_tracked (h : Aligned n base np) {c : Cursor} (hc : Tracked np c) :
    At n base c := by
  cases hc with
  | self => exact h.self
  | run => exact h.run
  | other => exact h.other
  | unread => exact h.unread
  | server _ => exact h.server
  | replay hreplay => exact h.replay hreplay
  | read client _ => exact h.read client

/-- In every state of a session, two frame pointers are as far apart as the counters that go with
them, modulo the number of delta frames, and both point into the buffer. -/
theorem cursors_in_step {pf : Platform σ} {settings : Settings} {isServer stateless : Bool}
    {checkFrames : ℤ} {noSave noTrans init : Bool} {nick : List UInt8} {devices : ℕ → ℕ}
    {core : σ} {np : NetplayT σ}
    (hreach : Reaches pf settings
      (netplayNew pf isServer stateless checkFrames noSave noTrans init nick devices core) np)
    {a b : Cursor} (ha : Tracked np a) (hb : Tracked np b) :
    a.ptr < np.bufferSize ∧ b.ptr < np.bufferSize ∧
      (a.ptr : ℤ) - b.ptr ≡ a.frameCount - b.frameCount [ZMOD np.bufferSize] := by
  obtain ⟨events, hrun⟩ := hreach
  obtain ⟨base, h⟩ := run_invariant
    (I := fun np' : NetplayT σ => ∃ base, Aligned (netplayNew pf isServer stateless checkFrames
      noSave noTrans init nick devices core).bufferSize base np')
    (fun np event np' ⟨base, h⟩ hstep => aligned_step h hstep)
    ⟨0, aligned_netplayNew pf isServer stateless checkFrames noSave noTrans init nick devices core⟩
    hrun
  have hat := at_tracked h ha
  have hbt := at_tracked h hb
  rw [h.size]
  exact ⟨hat.lt, hbt.lt, InStep.sub_modEq hat hbt⟩

/-- A client that was told frame 100 and ran it is one frame ahead of its server. -/
theorem cursors_in_step_synced : ∃ np : NetplayT ℕ,
    Reaches idleCore openSettings
      (netplayNew idleCore false false 0 false false false [] (fun _ => 0) 0) np ∧
    np.cursors.self = ⟨1, 101⟩ ∧ np.cursors.server = ⟨0, 100⟩ ∧
      ((1 : ℕ) : ℤ) - (0 : ℕ) ≡ (101 : ℕ) - (100 : ℕ) [ZMOD np.bufferSize] := by
  let info : SyncInfo := ⟨100, 1, false, fun _ => 0, fun _ => 0, fun _ => 0, []⟩
  let env : FrameEnv := ⟨false, ⟨⟨false, fun _ _ => []⟩, [], 0⟩, 0⟩
  have hrun : (run (step idleCore openSettings)
      (netplayNew idleCore false false 0 false false false [] (fun _ => 0) 0)
      [.sync info, .syncPostFrame env false]).map
        (fun np => (np.cursors.self, np.cursors.server, np.isServer)) =
      some (⟨1, 101⟩, ⟨0, 100⟩, false) := by
    decide
  obtain ⟨np, hreached, hcursors⟩ := Option.map_eq_some_iff.mp hrun
  obtain ⟨hself, hcursors⟩ := Prod.mk.inj hcursors
  obtain ⟨hserver, hclient⟩ := Prod.mk.inj hcursors
  have hreach : Reaches idleCore openSettings
      (netplayNew idleCore false false 0 false false false [] (fun _ => 0) 0) np := ⟨_, hreached⟩
  have hstep := (cursors_in_step hreach .self (.server hclient)).2.2
  rw [hself, hserver] at hstep
  exact ⟨np, hreach, hself, hserver, hstep⟩

end RetroArch.Netplay.Alignment
