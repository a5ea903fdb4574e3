/- What sending to every connection and hanging up can do to a session. -/

import RetroArch.Library.Run
import RetroArch.Netplay.Io

namespace RetroArch.Netplay.Messaging

open Library.Run Delta State Io

variable {σ : Type}

/-- `remote_unpaused` before it tells the others. -/
def unpaused (np : NetplayT σ) (i : ℕ) : NetplayT σ :=
  let np := np.setConnection i fun c => { c with paused := false }
  { np with remotePaused := np.connections.any fun sc => sc.active && sc.paused }

/-- A property that hanging up and the commands sent on the way keep. -/
structure Kept (P : NetplayT σ → Prop) : Prop where
  disconnect : ∀ np i, P np → (np.connection i).active = true → P (disconnect np i)
  unpause : ∀ np i, P np → P (unpaused np i)
  resume : ∀ np i, P np → P (netplaySendRawCmd np i .resume).2

variable {P : NetplayT σ → Prop} {np : NetplayT σ}

theorem sendAllWith_kept {hangup : NetplayT σ → ℕ → NetplayT σ}
    (hhangup : ∀ np i, P np → P (hangup np i)) {m : Message} {except : Option ℕ}
    (hsend : ∀ np i, P np → reaches np except i = true → P (netplaySendRawCmd np i m).2)
    (h : P np) : P (sendAllWith hangup np except m) := by
  rw [sendAllWith]
  refine List.foldlRecOn _ _ h fun np hnp i _ => ?_
  by_cases hreach : reaches np except i = true
  · rw [if_pos hreach]
    have hsent := hsend np i hnp hreach
    rcases hres : netplaySendRawCmd np i m with ⟨_ | _, np'⟩
    · rw [hres] at hsent
      exact hhangup _ _ hsent
    · rw [hres] at hsent
      exact hsent
  · rw [if_neg hreach]
    exact hnp

theorem Kept.remoteUnpausedWith (hP : Kept P) {hangup : NetplayT σ → ℕ → NetplayT σ}
    (hhangup : ∀ np i, P np → P (hangup np i)) (h : P np) (i : ℕ) :
    P (remoteUnpausedWith hangup np i) := by
  have hun := hP.unpause np i h
  have hcases : Io.remoteUnpausedWith hangup np i =
      if (unpaused np i).remotePaused = false ∧ (unpaused np i).localPaused = false then
        sendAllWith hangup (unpaused np i) (some i) .resume
      else unpaused np i := rfl
  rw [hcases]
  split_ifs
  · exact sendAllWith_kept hhangup (fun np i h _ => hP.resume np i h) hun
  · exact hun

theorem Kept.hangupAt (hP : Kept P) (depth : ℕ) (h : P np) (i : ℕ) : P (hangupAt depth np i) := by
  induction depth generalizing np i with
  | zero =>
    simp only [Io.hangupAt]
    split_ifs with hactive
    · exact hP.disconnect np i h hactive
    · exact hP.disconnect np i h hactive
    · exact h
  | succ depth ih =>
    simp only [Io.hangupAt]
    split_ifs with hactive hpaused
    · exact hP.remoteUnpausedWith (fun np i h => ih h i) (hP.disconnect np i h hactive) i
    · exact hP.disconnect np i h hactive
    · exact h

theorem Kept.hangup (hP : Kept P) (h : P np) (i : ℕ) : P (netplayHangup np i) :=
  hP.hangupAt _ h i

theorem Kept.sendAll (hP : Kept P) {m : Message} {except : Option ℕ}
    (hsend : ∀ np i, P np → reaches np except i = true → P (netplaySendRawCmd np i m).2)
    (h : P np) : P (netplaySendRawCmdAll np except m) :=
  sendAllWith_kept (P := P) (fun _ i h => hP.hangup h i) hsend h

theorem Kept.remoteUnpaused (hP : Kept P) (h : P np) (i : ℕ) : P (remoteUnpaused np i) :=
  hP.remoteUnpausedWith (fun _ i h => hP.hangup h i) h i

theorem Kept.sendInputFrameOnly (hP : Kept P) {dframe : DeltaFrame σ} {only clientNum : ℕ}
    {slave : Bool}
    (hsend : ∀ np m, P np → P (netplaySendRawCmd np only m).2) (h : P np) :
    P (sendInputFrameOnly np dframe only clientNum slave).2 := by
  have hsent := hsend np (inputFrame np dframe clientNum slave) h
  rw [Io.sendInputFrameOnly]
  rcases hres : netplaySendRawCmd np only (inputFrame np dframe clientNum slave) with ⟨_ | _, np'⟩
  · rw [hres] at hsent
    exact hP.hangup hsent only
  · rw [hres] at hsent
    exact hsent

theorem Kept.sendInputFrame (hP : Kept P) {dframe : DeltaFrame σ} {except : Option ℕ}
    {clientNum : ℕ} {slave : Bool}
    (hsend : ∀ np i m, P np → reaches np except i = true → P (netplaySendRawCmd np i m).2)
    (h : P np) : P (sendInputFrame np dframe except clientNum slave) := by
  rw [Io.sendInputFrame]
  refine List.foldlRecOn _ _ h fun np' hnp i _ => ?_
  by_cases hreach : reaches np' except i = true ∧
      ((np'.connection i).mode ≠ .playing ∨ i + 1 ≠ clientNum)
  · rw [if_pos hreach]
    have hsent := hsend np' i (inputFrame np dframe clientNum slave) hnp hreach.1
    rcases hres : netplaySendRawCmd np' i (inputFrame np dframe clientNum slave) with ⟨_ | _, np''⟩
    · rw [hres] at hsent
      exact hP.hangup hsent i
    · rw [hres] at hsent
      exact hsent
  · rw [if_neg hreach]
    exact hnp

/-- A session without its connections, its players and what hanging up sets with them. -/
def game (np : NetplayT σ) : NetplayT σ :=
  { np with
    connections := [], roster := ⟨0, 0, fun _ => 0, fun _ => 0, np.roster.deviceShareModes⟩
    isConnected := false, selfMode := .none, stall := .none, remotePaused := false }

theorem buffer_of_game {np np' : NetplayT σ} (h : game np = game np') : np.buffer = np'.buffer := by
  have hbuffer := congrArg NetplayT.buffer h
  exact hbuffer

@[simp] theorem game_send (np : NetplayT σ) (i : ℕ) (m : Message) :
    game (netplaySendRawCmd np i m).2 = game np := by
  rw [netplaySendRawCmd]
  split_ifs <;> rfl

@[simp] theorem game_flush (np : NetplayT σ) (i : ℕ) :
    game (netplaySendFlush np i).2 = game np := rfl

@[simp] theorem game_setConnection (np : NetplayT σ) (i : ℕ) (f : Connection → Connection) :
    game (np.setConnection i f) = game np := rfl

theorem game_disconnect (np : NetplayT σ) (i : ℕ) : game (disconnect np i) = game np := by
  simp only [disconnect]
  split_ifs <;> rfl

theorem kept_game (np : NetplayT σ) : Kept fun np' => game np' = game np where
  disconnect np' i h _ := (game_disconnect np' i).trans h
  unpause _ _ h := h
  resume np' i h := (game_send np' i _).trans h

@[simp] theorem game_hangup (np : NetplayT σ) (i : ℕ) : game (netplayHangup np i) = game np :=
  (kept_game np).hangup rfl i

@[simp] theorem game_sendAll (np : NetplayT σ) (except : Option ℕ) (m : Message) :
    game (netplaySendRawCmdAll np except m) = game np :=
  (kept_game np).sendAll (fun np' i h _ => (game_send np' i m).trans h) rfl

@[simp] theorem game_remoteUnpaused (np : NetplayT σ) (i : ℕ) :
    game (remoteUnpaused np i) = game np :=
  (kept_game np).remoteUnpaused rfl i

@[simp] theorem game_sendInputFrame (np : NetplayT σ) (dframe : DeltaFrame σ)
    (except : Option ℕ) (clientNum : ℕ) (slave : Bool) :
    game (sendInputFrame np dframe except clientNum slave) = game np :=
  (kept_game np).sendInputFrame (fun np' i m h _ => (game_send np' i m).trans h) rfl

@[simp] theorem game_sendInputFrameOnly (np : NetplayT σ) (dframe : DeltaFrame σ)
    (only clientNum : ℕ) (slave : Bool) :
    game (sendInputFrameOnly np dframe only clientNum slave).2 = game np :=
  (kept_game np).sendInputFrameOnly (fun np' m h => (game_send np' only m).trans h) rfl

@[simp] theorem game_forConnections {f : NetplayT σ → ℕ → NetplayT σ}
    (h : ∀ np i, game (f np i) = game np) (np : NetplayT σ) :
    game (forConnections np f) = game np :=
  List.foldlRecOn (motive := fun np' => game np' = game np) _ _ rfl
    fun np' hnp' i _ => (h np' i).trans hnp'

theorem game_sendOrHangup (np : NetplayT σ) (i : ℕ) (m : Message) :
    game (match netplaySendRawCmd np i m with
      | (true, np) => np
      | (false, np) => netplayHangup np i) = game np := by
  have hsent := game_send np i m
  rcases hres : netplaySendRawCmd np i m with ⟨_ | _, np'⟩
  · rw [hres] at hsent
    exact (game_hangup np' i).trans hsent
  · rw [hres] at hsent
    exact hsent

@[simp] theorem game_netplayCmdCrc (np : NetplayT σ) (frame crc : ℕ) :
    game (netplayCmdCrc np frame crc) = game np := by
  refine game_forConnections (fun np i => ?_) np
  split_ifs
  · exact game_send np i _
  · rfl

theorem game_sendOthers (dframe : DeltaFrame σ) (i : ℕ) (np : NetplayT σ) (clients : List ℕ) :
    game (sendOthers dframe i np clients).2 = game np := by
  induction clients generalizing np with
  | nil => rfl
  | cons client rest ih =>
    rw [sendOthers]
    split_ifs
    · have hsent := game_sendInputFrameOnly np dframe i client false
      rcases hres : sendInputFrameOnly np dframe i client false with ⟨_ | _, np'⟩
      · rw [hres] at hsent
        exact hsent
      · rw [hres] at hsent
        exact (ih np').trans hsent
    · exact ih np

theorem game_sendSelf (np : NetplayT σ) (dframe : DeltaFrame σ) (i : ℕ) :
    game (sendSelf np dframe i).2 = game np := by
  rw [sendSelf]
  split_ifs
  · have hsent := game_sendInputFrameOnly np dframe i np.selfClientNum
      (decide (np.selfMode = .slave))
    rcases hres : sendInputFrameOnly np dframe i np.selfClientNum
      (decide (np.selfMode = .slave)) with ⟨_ | _, np'⟩
    · rw [hres] at hsent
      exact hsent
    · rw [hres] at hsent
      exact hsent
  · rfl

@[simp] theorem game_netplaySendCurInput (np : NetplayT σ) (i : ℕ) :
    game (netplaySendCurInput np i).2 = game np := by
  simp only [netplaySendCurInput]
  split_ifs
  · have hothers := game_sendOthers (np.buffer np.cursors.self.ptr) i np
      (List.range' 1 (MAX_CLIENTS - 1))
    rcases hres : sendOthers (np.buffer np.cursors.self.ptr) i np
      (List.range' 1 (MAX_CLIENTS - 1)) with ⟨_ | _, np'⟩
    · rw [hres] at hothers
      exact hothers
    · rw [hres] at hothers
      simp only
      split_ifs
      · have hsent := game_send np' i (.noinput np'.cursors.self.frameCount)
        rcases hres' : netplaySendRawCmd np' i (.noinput np'.cursors.self.frameCount) with
          ⟨_ | _, np''⟩
        · rw [hres'] at hsent
          exact hsent.trans hothers
        · rw [hres'] at hsent
          exact (game_sendSelf np'' _ i).trans (hsent.trans hothers)
      · exact (game_sendSelf np' _ i).trans hothers
  · exact game_sendSelf np _ i

@[simp] theorem game_delayedStateChange (np : NetplayT σ) :
    game (netplayDelayedStateChange np) = game np := by
  refine game_forConnections (fun np i => ?_) np
  simp only [delayedStateChangeFor]
  split_ifs
  · exact game_sendAll _ _ _
  · rfl

end RetroArch.Netplay.Messaging
