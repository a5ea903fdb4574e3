/- The ring of delta frames, and what sending, stalling and changes of players leave of it. -/

import RetroArch.Netplay.Session

namespace RetroArch.Netplay.Frames

open Delta State Io Messaging Reading Command Resolve Savestate Poll Sync Session

variable {σ : Type} {np np' : NetplayT σ}

/-- The delta frames with their cursors, and whose they are. -/
def frames (np : NetplayT σ) :
    Cursors × ℕ × Bool × (ℕ → DeltaFrame σ) × (ℕ → ℕ) × Bool × ℕ :=
  (np.cursors, np.bufferSize, np.isReplay, np.buffer, np.configDevices, np.isServer,
    np.selfClientNum)

theorem frames_of_game (hgame : game np' = game np) : frames np' = frames np := by
  have hframes := congrArg frames hgame
  exact hframes

theorem frames_send (np : NetplayT σ) (i : ℕ) (m : Message) :
    frames (netplaySendRawCmd np i m).2 = frames np :=
  frames_of_game (game_send np i m)

theorem frames_sendAll (np : NetplayT σ) (except : Option ℕ) (m : Message) :
    frames (netplaySendRawCmdAll np except m) = frames np :=
  frames_of_game (game_sendAll np except m)

theorem frames_handleSpectate (np : NetplayT σ) (clientNum : ℕ) (connection : Option ℕ) :
    frames (handleSpectate np clientNum connection) = frames np := by
  cases connection with
  | none => exact frames_sendAll _ _ _
  | some i => exact frames_send _ _ _

theorem frames_refuseMode (np : NetplayT σ) (connection : Option ℕ) (reason : ℕ) :
    frames (refuseMode np connection reason) = frames np := by
  cases connection with
  | none => rfl
  | some i => exact frames_send _ _ _

theorem frames_admitPlayer (np : NetplayT σ) (clientNum : ℕ) (connection : Option ℕ)
    (frame devices : ℕ) (slave : Bool) :
    frames (admitPlayer np clientNum connection frame devices slave) = frames np := by
  cases connection with
  | none => exact frames_sendAll _ _ _
  | some i => exact (frames_send _ _ _).trans (frames_sendAll _ _ _)

theorem frames_playDevices (np : NetplayT σ) (clientNum : ℕ) (connection : Option ℕ)
    (frame devices : ℕ) (shareMode : UInt8) (slave : Bool) :
    frames (playDevices np clientNum connection frame devices shareMode slave) = frames np := by
  rw [playDevices]
  split_ifs
  · exact frames_admitPlayer _ _ _ _ _ _
  · exact frames_refuseMode _ _ _

theorem frames_playAny (np : NetplayT σ) (clientNum : ℕ) (connection : Option ℕ)
    (frame : ℕ) (shareMode : UInt8) (slave : Bool) :
    frames (playAny np clientNum connection frame shareMode slave) = frames np := by
  rw [playAny]
  cases availableDevice np with
  | none =>
    simp only
    split_ifs
    · rfl
    · exact frames_refuseMode _ _ _
  | some device => exact frames_admitPlayer _ _ _ _ _ _

theorem frames_requestSavestate (np : NetplayT σ) :
    frames (netplayCmdRequestSavestate np) = frames np := by
  rw [netplayCmdRequestSavestate]
  split_ifs
  · rfl
  · rfl
  · exact frames_send _ _ _

theorem frames_sendFlushAll (np : NetplayT σ) (except : Option ℕ) :
    frames (netplaySendFlushAll np except) = frames np := by
  refine frames_of_game (game_forConnections (fun np k => ?_) np)
  split_ifs
  · rcases hflush : netplaySendFlush np k with ⟨_ | _, np'⟩
    · have hgame := game_flush np k
      rw [hflush] at hgame
      exact (game_hangup np' k).trans hgame
    · have hgame := game_flush np k
      rw [hflush] at hgame
      exact hgame
  · rfl

theorem frames_handshakeSync (np : NetplayT σ) (i : ℕ) (sram : List UInt8) :
    frames (netplayHandshakeSync np i sram).2 = frames np := by
  simp only [netplayHandshakeSync]
  generalize Message.sync np.cursors.self.frameCount _ _ _ _ _ sram = m
  have hsent := frames_send np i m
  rcases hres : netplaySendRawCmd np i m with ⟨_ | _, np'⟩
  · rw [hres] at hsent
    exact hsent
  · rw [hres] at hsent
    refine Eq.trans ?_ hsent
    simp only [netplayHandshakeReady]
    split_ifs <;> rfl

theorem sendPastFrames_keeps {P : NetplayT σ → Prop} {np np' : NetplayT σ}
    {i clientNum devices : ℕ}
    (hsend : ∀ np ptr, P np → P (sendPastFrame np i ptr clientNum devices)) (fuel ptr : ℕ)
    (h : P np) (hsent : sendPastFrames i clientNum devices fuel ptr np = some np') : P np' := by
  induction fuel generalizing np ptr with
  | zero => cases hsent
  | succ fuel ih =>
    have hframe := hsend np ptr h
    simp only [sendPastFrames] at hsent
    split_ifs at hsent
    · exact Option.some.inj hsent ▸ hframe
    · exact ih _ hframe hsent
    · exact Option.some.inj hsent ▸ h

theorem skipToFrame_keeps {P : NetplayT σ → Prop} {np np' : NetplayT σ} {frame : ℕ}
    (hmake : ∀ np np' ptr frameCount, P np → np.frameReady ptr frameCount = some np' → P np')
    (hlocal : ∀ np ptr, P np → P (np.setFrame ptr { np.buffer ptr with haveLocal := true }))
    (fuel ptr frameCount : ℕ) {ready : Bool} (h : P np)
    (hskip : skipToFrame frame fuel ptr frameCount np = some (ready, np')) : P np' := by
  induction fuel generalizing np ptr frameCount with
  | zero => cases hskip
  | succ fuel ih =>
    rw [skipToFrame] at hskip
    rcases hready : (if (np.buffer ptr).used = true then some np
      else np.frameReady ptr frameCount) with _ | np''
    · simp only [hready] at hskip
      obtain ⟨-, rfl⟩ := Prod.mk.inj (Option.some.inj hskip)
      exact h
    · have h'' : P np'' := by
        split_ifs at hready
        · exact Option.some.inj hready ▸ h
        · exact hmake _ _ _ _ h hready
      simp only [hready] at hskip
      split_ifs at hskip
      · obtain ⟨-, rfl⟩ := Prod.mk.inj (Option.some.inj hskip)
        exact hlocal _ _ h''
      · exact ih _ _ (hlocal _ _ h'') hskip

theorem gives_finishHandshake {P : NetplayT σ → Prop} {np : NetplayT σ} {i : ℕ}
    {nick sram : List UInt8}
    (hsync :
      P (netplayHandshakeSync (np.setConnection i fun c => { c with nick := nick }) i sram).2)
    (hsend : ∀ np', P np' → P (netplaySendCurInput np' i).2) :
    Gives P (finishHandshake np i nick sram) := by
  rw [finishHandshake]
  rcases hres : netplayHandshakeSync (np.setConnection i fun c => { c with nick := nick }) i sram
    with ⟨_ | _, np'⟩
  · rw [hres] at hsync
    exact Receptive.refused hsync
  · rw [hres] at hsync
    have hsent := hsend np' hsync
    simp only
    rcases hres' : netplaySendCurInput np' i with ⟨_ | _, np''⟩
    · rw [hres'] at hsent
      exact Gives.some hsent
    · rw [hres'] at hsent
      exact Gives.some hsent

theorem frames_sendTo (np : NetplayT σ) (chosen : Connection → Bool) (m : Message) :
    frames (sendTo np chosen m) = frames np := by
  refine frames_of_game (game_forConnections (fun np i => ?_) np)
  split_ifs
  · exact game_sendOrHangup np i m
  · rfl

theorem frames_hangupAll (np : NetplayT σ) : frames (hangupAll np) = frames np :=
  frames_of_game (game_forConnections game_hangup np)

theorem frames_sendSavestate (pf : Platform σ) (np : NetplayT σ) (size : ℕ) (state : Option σ)
    (cx : ℕ) : frames (netplaySendSavestate pf np size state cx) = frames np := by
  rw [netplaySendSavestate]
  cases pf.deflate cx state with
  | none => exact frames_hangupAll np
  | some zdata => exact frames_sendTo np _ _

theorem frames_shareSavestate (pf : Platform σ) (np : NetplayT σ) (size : ℕ) (state : Option σ) :
    frames (shareSavestate pf np size state) = frames np := by
  simp only [shareSavestate]
  split_ifs
  · rfl
  · rw [frames_sendSavestate, frames_sendSavestate]
  · rw [frames_sendSavestate]
  · rw [frames_sendSavestate]
  · rfl

theorem frames_sendCurInputs (np : NetplayT σ) : frames (sendCurInputs np) = frames np := by
  refine frames_of_game (game_forConnections (fun np i => ?_) np)
  split_ifs
  · exact game_netplaySendCurInput np i
  · rfl

theorem frames_adjustLatency (settings : Settings) (np : NetplayT σ) :
    frames (adjustLatency settings np) = frames np := by
  simp only [adjustLatency]
  split_ifs <;> rfl

theorem frames_unstall (np : NetplayT σ) : frames (unstall np) = frames np := by
  simp only [unstall]
  split
  case h_1 => split_ifs <;> rfl
  case h_2 => split_ifs <;> rfl
  case h_3 => rfl
  case h_4 => split_ifs <;> rfl
  all_goals rfl

theorem frames_blame (np : NetplayT σ) : frames (blame np) = frames np := by
  refine List.foldlRecOn (motive := fun np' => frames np' = frames np) _ _ rfl
    fun np' hnp' client _ => ?_
  simp only
  split_ifs
  · exact hnp'
  · exact hnp'

theorem frames_considerStall (now : ℕ) (np : NetplayT σ) :
    frames (considerStall now np) = frames np := by
  simp only [considerStall]
  split_ifs
  all_goals first
    | rfl
    | exact frames_blame _

theorem frames_dropStalled (now : ℕ) (np : NetplayT σ) : frames (dropStalled now np) = frames np := by
  have hfold : ∀ {step : Bool × NetplayT σ → ℕ → Bool × NetplayT σ},
      (∀ s i, frames (step s i).2 = frames s.2) → ∀ n,
        frames ((List.range n).foldl step (false, np)).2 = frames np := fun {step} hstep n =>
    List.foldlRecOn (motive := fun s : Bool × NetplayT σ => frames s.2 = frames np) _ step rfl
      fun s hs i _ => (hstep s i).trans hs
  simp only [dropStalled]
  split_ifs
  all_goals first
    | rfl
    | exact frames_hangupAll np
    | refine hfold (fun s i => ?_) _
      split_ifs
      · exact frames_of_game (game_hangup _ _)
      · rfl

theorem frames_acceptConnection (np : NetplayT σ) :
    frames (acceptConnection np) = frames np := by
  simp only [acceptConnection]
  split <;> rfl

theorem frames_resetIfForced (pf : Platform σ) (np : NetplayT σ) :
    frames (resetIfForced pf np) = frames np := by
  rw [resetIfForced]
  split_ifs <;> rfl

theorem frames_coreRun (pf : Platform σ) (np : NetplayT σ) : frames (coreRun pf np) = frames np := rfl

theorem frames_requestStalls (np : NetplayT σ) : frames (requestStalls np) = frames np := by
  refine frames_of_game (game_forConnections (fun np i => ?_) np)
  simp only
  split_ifs
  · exact (game_send _ _ _).trans (game_setConnection _ _ _)
  · rfl

theorem frames_tryCatchUp (stalled : Bool) (now : ℕ) (np : NetplayT σ) :
    frames (tryCatchUp stalled now np) = frames np := by
  simp only [tryCatchUp]
  split_ifs
  all_goals first
    | rfl
    | exact frames_requestStalls _

theorem frames_frontendPaused (np : NetplayT σ) (paused : Bool) :
    frames (netplayFrontendPaused np paused) = frames np := by
  simp only [netplayFrontendPaused]
  split_ifs
  · rfl
  · rfl
  all_goals
    refine Eq.trans (frames_of_game (game_forConnections (fun np i => ?_) _)) ?_
    · split_ifs
      · exact (game_flush _ _).trans (game_send _ _ _)
      · rfl
    · rfl

theorem frames_flushAll (np : NetplayT σ) : frames (flushAll np) = frames np := by
  refine frames_of_game (game_forConnections (fun np i => ?_) np)
  split_ifs
  · rcases hflush : netplaySendFlush np i with ⟨_ | _, np'⟩
    · have hgame := game_flush np i
      rw [hflush] at hgame
      exact (game_hangup np' i).trans hgame
    · have hgame := game_flush np i
      rw [hflush] at hgame
      exact hgame
  · rfl

theorem frames_handshakeReady (np : NetplayT σ) : frames (netplayHandshakeReady np) = frames np := by
  simp only [netplayHandshakeReady]
  split_ifs <;> rfl

end RetroArch.Netplay.Frames
