/- A PLAY request and the answer to it, whatever happens to the other connections on the way. -/

import RetroArch.Netplay.Command

namespace RetroArch.Netplay.Play

open Library.Bits Library.Rewinding Delta State Io Messaging Reading Command

variable {σ : Type}

section Failing

variable {np np' : NetplayT σ} {i j : ℕ}

/-- Of the sends made on the connection since, one found its socket broken. -/
def SendFailed (before after : Connection) : Prop :=
  ∃ k, after.sendFaults = before.sendFaults.drop k ∧ true ∈ before.sendFaults.take k

theorem setConnection_of_ge (f : Connection → Connection) (h : np.connections.length ≤ i) :
    np.setConnection i f = np := by
  rw [NetplayT.setConnection, List.modify_eq_self h]

theorem sendFaults_setConnection (np : NetplayT σ) (i j : ℕ) {f : Connection → Connection}
    (hf : ∀ c, (f c).sendFaults = c.sendFaults) :
    ((np.setConnection j f).connection i).sendFaults = (np.connection i).sendFaults := by
  by_cases hij : j = i
  · subst hij
    rcases Nat.lt_or_ge j np.connections.length with hlt | hge
    · rw [np.connection_setConnection f hlt, hf]
    · rw [setConnection_of_ge f hge]
  · rw [np.connection_setConnection_ne f hij]

theorem SendFailed.more {before after after' : Connection} (h : SendFailed before after)
    (hmore : after'.sendFaults = after.sendFaults ∨
      after'.sendFaults = after.sendFaults.tail) : SendFailed before after' := by
  obtain ⟨k, hdrop, hfault⟩ := h
  rcases hmore with hsame | htail
  · exact ⟨k, hsame.trans hdrop, hfault⟩
  · refine ⟨k + 1, ?_, ?_⟩
    · rw [htail, hdrop, List.tail_drop]
    · exact List.take_subset_take_left _ (Nat.le_succ k) hfault

theorem sendFaults_send (np : NetplayT σ) (i j : ℕ) (m : Message) :
    ((netplaySendRawCmd np j m).2.connection i).sendFaults = (np.connection i).sendFaults ∨
      ((netplaySendRawCmd np j m).2.connection i).sendFaults =
        (np.connection i).sendFaults.tail := by
  by_cases hij : j = i
  · subst hij
    rcases Nat.lt_or_ge j np.connections.length with hlt | hge
    · right
      rw [netplaySendRawCmd]
      split_ifs <;> rw [np.connection_setConnection _ hlt]
    · left
      rw [netplaySendRawCmd]
      split_ifs <;> rw [setConnection_of_ge _ hge]
  · left
    rw [netplaySendRawCmd]
    split_ifs <;> rw [np.connection_setConnection_ne _ hij]

theorem connection_disconnect (np : NetplayT σ) (i j : ℕ) :
    ∃ f : Connection → Connection,
      (disconnect np j).connection i = (np.setConnection j f).connection i ∧
        ∀ c, (f c).sendFaults = c.sendFaults := by
  simp only [disconnect]
  split_ifs
  · refine ⟨_, congrArg (fun cs : List Connection => cs.getD i .zero)
      (List.modify_modify_eq _ _ _ _), fun c => rfl⟩
  · exact ⟨_, rfl, fun c => rfl⟩
  · exact ⟨_, rfl, fun c => rfl⟩

theorem kept_sendFailed (before : Connection) (i : ℕ) :
    Kept fun np : NetplayT σ => SendFailed before (np.connection i) where
  disconnect np j h _ := by
    obtain ⟨f, hconnection, hf⟩ := connection_disconnect np i j
    refine h.more (Or.inl ?_)
    rw [hconnection, sendFaults_setConnection np i j hf]
  unpause np j h := h.more (Or.inl (sendFaults_setConnection np i j fun _ => rfl))
  resume np j h := h.more (sendFaults_send np i j _)

end Failing

section Telling

variable {np₀ np np' : NetplayT σ} {i j : ℕ}

/-- Since `np₀` connection `i` has been sent nothing but RESUME, and its player is where they
were. -/
structure Told (np₀ : NetplayT σ) (i : ℕ) (np : NetplayT σ) : Prop where
  server : np.isServer = true
  length : i < np.connections.length
  sends : ∃ k, (np.connection i).sendFaults = (np₀.connection i).sendFaults.drop k
  resumes : ∃ r, (np.connection i).sendPacketBuffer =
    (np₀.connection i).sendPacketBuffer ++ List.replicate r .resume
  mode : (np.connection i).mode = (np₀.connection i).mode
  player : np.roster.connectedPlayers.testBit (i + 1) =
    np₀.roster.connectedPlayers.testBit (i + 1)
  devices : np.roster.clientDevices (i + 1) = np₀.roster.clientDevices (i + 1)
  clients : ∀ device, (np.roster.deviceClients device).testBit (i + 1) =
    (np₀.roster.deviceClients device).testBit (i + 1)

/-- That, or the socket has failed. -/
def Tracked (np₀ : NetplayT σ) (i : ℕ) (np : NetplayT σ) : Prop :=
  SendFailed (np₀.connection i) (np.connection i) ∨ Told np₀ i np

theorem Told.start (hserver : np.isServer = true) (hlength : i < np.connections.length) :
    Told np i np :=
  ⟨hserver, hlength, ⟨0, rfl⟩, ⟨0, (List.append_nil _).symm⟩, rfl, rfl, rfl, fun _ => rfl⟩

theorem Told.same (h : Told np₀ i np) (hserver : np'.isServer = np.isServer)
    (hlength : np'.connections.length = np.connections.length)
    (hconnection : np'.connection i = np.connection i) (hroster : np'.roster = np.roster) :
    Told np₀ i np' where
  server := hserver.trans h.server
  length := hlength ▸ h.length
  sends := hconnection ▸ h.sends
  resumes := hconnection ▸ h.resumes
  mode := hconnection ▸ h.mode
  player := hroster ▸ h.player
  devices := hroster ▸ h.devices
  clients := hroster ▸ h.clients

theorem told_send_ne (h : Told np₀ i np) (hij : j ≠ i) (m : Message) :
    Told np₀ i (netplaySendRawCmd np j m).2 := by
  rw [netplaySendRawCmd]
  split_ifs
  · exact h.same rfl (np.setConnection_length j _) (np.connection_setConnection_ne _ hij) rfl
  · exact h.same rfl (np.setConnection_length j _) (np.connection_setConnection_ne _ hij) rfl

theorem sendFailed_of_fault {before after after' : Connection} {k : ℕ}
    (hsends : after.sendFaults = before.sendFaults.drop k)
    (hfault : after.sendFaults.headD false = true)
    (htail : after'.sendFaults = after.sendFaults.tail) : SendFailed before after' := by
  refine ⟨k + 1, ?_, ?_⟩
  · rw [htail, hsends, List.tail_drop]
  · rw [hsends] at hfault
    cases hrest : before.sendFaults.drop k with
    | nil =>
      rw [hrest] at hfault
      exact absurd hfault Bool.false_ne_true
    | cons fault rest =>
      rw [hrest] at hfault
      have htrue : fault = true := hfault
      have hget : before.sendFaults[k]? = some true := by
        rw [← List.head?_drop, hrest, htrue]
        rfl
      rw [List.take_add_one, hget]
      exact List.mem_append_right _ List.mem_cons_self

theorem told_resume (h : Told np₀ i np) :
    (netplaySendRawCmd np i .resume).1 = true ∧ Told np₀ i (netplaySendRawCmd np i .resume).2 ∨
      (netplaySendRawCmd np i .resume).1 = false ∧
        SendFailed (np₀.connection i) ((netplaySendRawCmd np i .resume).2.connection i) := by
  obtain ⟨k, hsends⟩ := h.sends
  obtain ⟨r, hresumes⟩ := h.resumes
  rw [netplaySendRawCmd]
  split_ifs with hfault
  · right
    refine ⟨rfl, sendFailed_of_fault hsends hfault ?_⟩
    rw [np.connection_setConnection _ h.length]
  · left
    refine ⟨rfl, h.server, ?_, ⟨k + 1, ?_⟩, ⟨r + 1, ?_⟩, ?_, h.player, h.devices, h.clients⟩
    · rw [NetplayT.setConnection_length]
      exact h.length
    · rw [np.connection_setConnection _ h.length]
      simp only [hsends, List.tail_drop]
    · rw [np.connection_setConnection _ h.length]
      simp only [hresumes, List.replicate_succ', List.append_assoc]
    · rw [np.connection_setConnection _ h.length]
      exact h.mode

theorem told_disconnect_ne (h : Told np₀ i np) (hij : j ≠ i) : Told np₀ i (disconnect np j) := by
  have hne : i + 1 ≠ j + 1 := fun heq => hij (Nat.succ.inj heq).symm
  simp only [disconnect]
  split_ifs with hserver hplayer
  · have hleft : Told np₀ i { np with roster := leave np.roster (j + 1) } := by
      refine ⟨h.server, h.length, h.sends, h.resumes, h.mode, ?_, ?_, fun device => ?_⟩
      · exact (testBit_clearBit_ne _ hne).trans h.player
      · exact (Function.update_of_ne hne _ _).trans h.devices
      · exact (testBit_clearBit_ne _ hne).trans (h.clients device)
    refine hleft.same rfl ?_ ?_ rfl
    · exact ((NetplayT.setConnection_length _ j _).trans (NetplayT.setConnection_length _ j _))
    · exact (NetplayT.connection_setConnection_ne _ _ hij).trans
        (np.connection_setConnection_ne _ hij)
  · exact h.same rfl (np.setConnection_length j _) (np.connection_setConnection_ne _ hij) rfl
  · exact absurd h.server hserver

theorem told_unpaused (h : Told np₀ i np) (j : ℕ) : Told np₀ i (unpaused np j) := by
  by_cases hij : j = i
  · subst hij
    have hconnection : (unpaused np j).connection j = { np.connection j with paused := false } :=
      np.connection_setConnection _ h.length
    refine ⟨h.server, ?_, ?_, ?_, ?_, h.player, h.devices, h.clients⟩
    · exact (np.setConnection_length j _).symm ▸ h.length
    · rw [hconnection]
      exact h.sends
    · rw [hconnection]
      exact h.resumes
    · rw [hconnection]
      exact h.mode
  · exact h.same rfl (np.setConnection_length j _) (np.connection_setConnection_ne _ hij) rfl

/-- Hanging up other connections tells this one no more than that the game goes on. -/
theorem tracked_sendAllWith {hangup : NetplayT σ → ℕ → NetplayT σ}
    (hother : ∀ np j, j ≠ i → Tracked np₀ i np → Tracked np₀ i (hangup np j))
    (hfailed : ∀ np j, SendFailed (np₀.connection i) (np.connection i) →
      SendFailed (np₀.connection i) ((hangup np j).connection i))
    {except : Option ℕ} {m : Message} (hm : m = .resume ∨ except = some i)
    (h : Tracked np₀ i np) : Tracked np₀ i (sendAllWith hangup np except m) := by
  rw [sendAllWith]
  refine List.foldlRecOn _ _ h fun np hnp j _ => ?_
  by_cases hreach : reaches np except j = true
  · rw [if_pos hreach]
    rcases hnp with hnp | hnp
    · have hsent := hnp.more (sendFaults_send np i j m)
      rcases hres : netplaySendRawCmd np j m with ⟨_ | _, np'⟩
      · rw [hres] at hsent
        exact Or.inl (hfailed np' j hsent)
      · rw [hres] at hsent
        exact Or.inl hsent
    · by_cases hij : j = i
      · subst hij
        rcases hm with rfl | rfl
        · rcases hres : netplaySendRawCmd np j .resume with ⟨_ | _, np'⟩
          · have hsent := told_resume hnp
            rw [hres] at hsent
            rcases hsent with ⟨hok, -⟩ | ⟨-, hsent⟩
            · exact absurd hok Bool.false_ne_true
            · exact Or.inl (hfailed np' j hsent)
          · have hsent := told_resume hnp
            rw [hres] at hsent
            rcases hsent with ⟨-, hsent⟩ | ⟨hfail, -⟩
            · exact Or.inr hsent
            · exact absurd hfail.symm Bool.false_ne_true
        · rw [reaches, decide_eq_false (not_not.mpr rfl)] at hreach
          exact absurd hreach Bool.false_ne_true
      · have hsent := told_send_ne hnp hij m
        rcases hres : netplaySendRawCmd np j m with ⟨_ | _, np'⟩
        · rw [hres] at hsent
          exact hother np' j hij (Or.inr hsent)
        · rw [hres] at hsent
          exact Or.inr hsent
  · rw [if_neg hreach]
    exact hnp

theorem tracked_remoteUnpausedWith {hangup : NetplayT σ → ℕ → NetplayT σ}
    (hother : ∀ np j, j ≠ i → Tracked np₀ i np → Tracked np₀ i (hangup np j))
    (hfailed : ∀ np j, SendFailed (np₀.connection i) (np.connection i) →
      SendFailed (np₀.connection i) ((hangup np j).connection i))
    (h : Tracked np₀ i np) (j : ℕ) : Tracked np₀ i (remoteUnpausedWith hangup np j) := by
  have hun : Tracked np₀ i (unpaused np j) := by
    rcases h with h | h
    · exact Or.inl ((kept_sendFailed _ i).unpause np j h)
    · exact Or.inr (told_unpaused h j)
  have hcases : remoteUnpausedWith hangup np j =
      if (unpaused np j).remotePaused = false ∧ (unpaused np j).localPaused = false then
        sendAllWith hangup (unpaused np j) (some j) .resume
      else unpaused np j := rfl
  rw [hcases]
  split_ifs
  · exact tracked_sendAllWith hother hfailed (Or.inl rfl) hun
  · exact hun

theorem tracked_hangupAt (depth : ℕ) (h : Tracked np₀ i np) (hij : j ≠ i) :
    Tracked np₀ i (hangupAt depth np j) := by
  have hdisconnect : ∀ np : NetplayT σ, ∀ j, j ≠ i → (np.connection j).active = true →
      Tracked np₀ i np → Tracked np₀ i (disconnect np j) := by
    rintro np j hij hactive (h | h)
    · exact Or.inl ((kept_sendFailed _ i).disconnect np j h hactive)
    · exact Or.inr (told_disconnect_ne h hij)
  induction depth generalizing np j with
  | zero =>
    simp only [hangupAt]
    split_ifs with hactive
    · exact hdisconnect np j hij hactive h
    · exact hdisconnect np j hij hactive h
    · exact h
  | succ depth ih =>
    simp only [hangupAt]
    split_ifs with hactive hpaused
    · exact tracked_remoteUnpausedWith (fun np j hij h => ih h hij)
        (fun np j h => (kept_sendFailed _ i).hangupAt depth h j)
        (hdisconnect np j hij hactive h) j
    · exact hdisconnect np j hij hactive h
    · exact h

theorem tracked_announce (h : Tracked np₀ i np) (m : Message) :
    Tracked np₀ i (netplaySendRawCmdAll np (some i) m) :=
  tracked_sendAllWith (fun np _ hij h => tracked_hangupAt np.connections.length h hij)
    (fun _ j h => (kept_sendFailed _ i).hangup h j) (Or.inr rfl) h

end Telling

section Answers

/-- What answers a PLAY. -/
def isAnswer : Message → Bool
  | .mode .. | .modeRefused _ => true
  | _ => false

/-- Among what the connection was sent since, this is the one answer. -/
def AnsweredWith (before after : Connection) (m : Message) : Prop :=
  ∃ sent, after.sendPacketBuffer = before.sendPacketBuffer ++ sent ∧ sent.filter isAnswer = [m]

/-- The client plays, with at least one device, and is told so. -/
structure Admits (before : Connection) (i : ℕ) (np : NetplayT σ) : Prop where
  mode : (np.connection i).mode = .playing ∨ (np.connection i).mode = .slave
  player : np.roster.connectedPlayers.testBit (i + 1) = true
  device : ∃ device < MAX_INPUT_DEVICES,
    (np.roster.clientDevices (i + 1)).testBit device = true ∧
      (np.roster.deviceClients device).testBit (i + 1) = true
  told : ∃ frame info devices shareModes nick,
    AnsweredWith before (np.connection i) (.mode frame info devices shareModes nick) ∧
      info.testBit 31 = true ∧ info.testBit 30 = true

/-- The client is where it was, and is told so. -/
structure Refuses (before : Connection) (roster : Roster) (i : ℕ) (np : NetplayT σ) : Prop where
  mode : (np.connection i).mode = before.mode
  roster : np.roster = roster
  told : ∃ reason, AnsweredWith before (np.connection i) (.modeRefused reason)

/-- One of the two answers, unless a send on the connection failed. -/
def Answers (before : Connection) (roster : Roster) (i : ℕ) (np : NetplayT σ) : Prop :=
  SendFailed before (np.connection i) ∨ Admits before i np ∨ Refuses before roster i np

variable {np np' : NetplayT σ} {i : ℕ} {before : Connection} {roster : Roster}

theorem Answers.same (h : Answers before roster i np) (hroster : np'.roster = np.roster)
    (hmode : (np'.connection i).mode = (np.connection i).mode)
    (hfaults : (np'.connection i).sendFaults = (np.connection i).sendFaults)
    (hbuffer : (np'.connection i).sendPacketBuffer = (np.connection i).sendPacketBuffer) :
    Answers before roster i np' := by
  have hanswered : ∀ m, AnsweredWith before (np.connection i) m →
      AnsweredWith before (np'.connection i) m := by
    rintro m ⟨sent, hsent, hone⟩
    exact ⟨sent, hbuffer.trans hsent, hone⟩
  rcases h with h | h | h
  · exact Or.inl (h.more (Or.inl hfaults))
  · obtain ⟨frame, info, devices, shareModes, nick, htold, hbits⟩ := h.told
    refine Or.inr (Or.inl ⟨hmode ▸ h.mode, hroster ▸ h.player, hroster ▸ h.device, ?_⟩)
    exact ⟨frame, info, devices, shareModes, nick, hanswered _ htold, hbits⟩
  · obtain ⟨reason, htold⟩ := h.told
    exact Or.inr (Or.inr ⟨hmode.trans h.mode, hroster.trans h.roster, reason,
      hanswered _ htold⟩)

theorem answers_retape (np : NetplayT σ) (i : ℕ) (t : Tape UInt8) (faults : List Bool) :
    Answers before roster i (np.retape i t faults) ↔ Answers before roster i np := by
  rcases Nat.lt_or_ge i np.connections.length with hlt | hge
  · have hconnection := connection_retape hlt t faults
    constructor
    · exact fun h => h.same rfl (by rw [hconnection]) (by rw [hconnection]) (by rw [hconnection])
    · exact fun h => h.same rfl (by rw [hconnection]) (by rw [hconnection]) (by rw [hconnection])
  · rw [NetplayT.retape, setConnection_of_ge _ hge]

theorem answers_refuseMode (hlt : i < np.connections.length)
    (hfaults : (np.connection i).sendFaults = before.sendFaults)
    (hbuffer : (np.connection i).sendPacketBuffer = before.sendPacketBuffer)
    (hmode : (np.connection i).mode = before.mode) (reason : ℕ) :
    Answers before np.roster i (refuseMode np (some i) reason) := by
  rw [refuseMode, netplaySendRawCmd]
  split_ifs with hfault
  · left
    have hdrop : (np.connection i).sendFaults = before.sendFaults.drop 0 := hfaults
    refine sendFailed_of_fault hdrop hfault ?_
    rw [np.connection_setConnection _ hlt]
  · refine Or.inr (Or.inr ⟨?_, rfl, reason, [.modeRefused reason], ?_, rfl⟩)
    · rw [np.connection_setConnection _ hlt]
      exact hmode
    · rw [np.connection_setConnection _ hlt]
      simp only [hbuffer]

theorem filter_replicate_resume (r : ℕ) (m : Message) (hm : isAnswer m = true) :
    (List.replicate r Message.resume ++ [m]).filter isAnswer = [m] := by
  have hresume : ¬ isAnswer .resume = true := Bool.false_ne_true
  rw [List.filter_append, List.filter_replicate_of_neg hresume, List.nil_append,
    List.filter_cons_of_pos hm, List.filter_nil]

theorem modeYou_bits (slave clientNum : ℕ) :
    (NETPLAY_CMD_MODE_BIT_PLAYING ||| slave ||| NETPLAY_CMD_MODE_BIT_YOU |||
        clientNum).testBit 31 = true ∧
      (NETPLAY_CMD_MODE_BIT_PLAYING ||| slave ||| NETPLAY_CMD_MODE_BIT_YOU |||
        clientNum).testBit 30 = true := by
  simp only [Nat.testBit_or]
  have hyou : NETPLAY_CMD_MODE_BIT_YOU.testBit 31 = true := by decide
  have hplaying : NETPLAY_CMD_MODE_BIT_PLAYING.testBit 30 = true := by decide
  rw [hyou, hplaying]
  simp only [Bool.or_true, Bool.true_or, and_self]

/-- The session with the player marked as playing. -/
def markPlaying (np : NetplayT σ) (i devices : ℕ) (slave : Bool) : NetplayT σ :=
  let np := np.setConnection i fun c => { c with mode := if slave then .slave else .playing }
  let roster := join np.roster (i + 1) devices
  { np with
    roster := { roster with
      connectedSlaves :=
        if slave then setBit roster.connectedSlaves (i + 1) else roster.connectedSlaves } }

theorem admitPlayer_eq (np : NetplayT σ) (i frame devices : ℕ) (slave : Bool) :
    ∃ toOthers slaveBit shareModes nick, admitPlayer np (i + 1) (some i) frame devices slave =
      (netplaySendRawCmd
        (netplaySendRawCmdAll (markPlaying np i devices slave) (some i) toOthers) i
        (.mode frame (NETPLAY_CMD_MODE_BIT_PLAYING ||| slaveBit |||
          NETPLAY_CMD_MODE_BIT_YOU ||| (i + 1)) devices shareModes nick)).2 :=
  ⟨_, _, _, _, rfl⟩

/-- A player who is marked as playing is told so, whatever becomes of the others. -/
theorem answers_admitPlayer (hserver : np.isServer = true) (hlt : i < np.connections.length)
    (hfaults : (np.connection i).sendFaults = before.sendFaults)
    (hbuffer : (np.connection i).sendPacketBuffer = before.sendPacketBuffer) {devices : ℕ}
    (hdevices : ∃ device < MAX_INPUT_DEVICES, devices.testBit device = true) (frame : ℕ)
    (slave : Bool) :
    Answers before roster i (admitPlayer np (i + 1) (some i) frame devices slave) := by
  obtain ⟨toOthers, slaveBit, shareModes, nick, hadmission⟩ :=
    admitPlayer_eq np i frame devices slave
  rw [hadmission]
  generalize hmarked : markPlaying np i devices slave = marked
  have hconnection : marked.connection i =
      { np.connection i with mode := if slave then .slave else .playing } := by
    rw [← hmarked]
    exact np.connection_setConnection _ hlt
  have hroster : marked.roster.connectedPlayers = setBit np.roster.connectedPlayers (i + 1) ∧
      marked.roster.clientDevices = Function.update np.roster.clientDevices (i + 1) devices ∧
      marked.roster.deviceClients = fun device =>
        if devices.testBit device then setBit (np.roster.deviceClients device) (i + 1)
        else np.roster.deviceClients device := by
    rw [← hmarked]
    exact ⟨rfl, rfl, rfl⟩
  have hstart : Told marked i marked := by
    apply Told.start
    · rw [← hmarked]
      exact hserver
    · rw [← hmarked]
      exact (np.setConnection_length i _).symm ▸ hlt
  have hfaults' : (marked.connection i).sendFaults = before.sendFaults := by
    rw [hconnection]
    exact hfaults
  rcases tracked_announce (Or.inr hstart) toOthers with hfailed | htold
  · left
    have hbefore : SendFailed before
        ((netplaySendRawCmdAll marked (some i) toOthers).connection i) := by
      obtain ⟨k, hdrop, hfault⟩ := hfailed
      rw [hfaults'] at hdrop hfault
      exact ⟨k, hdrop, hfault⟩
    exact hbefore.more (sendFaults_send _ i i _)
  · generalize netplaySendRawCmdAll marked (some i) toOthers = told at htold
    obtain ⟨k, hsends⟩ := htold.sends
    obtain ⟨r, hresumes⟩ := htold.resumes
    rw [hfaults'] at hsends
    rw [hconnection] at hresumes
    simp only [hbuffer] at hresumes
    rw [netplaySendRawCmd]
    split_ifs with hfault
    · left
      refine sendFailed_of_fault hsends hfault ?_
      rw [told.connection_setConnection _ htold.length]
    · refine Or.inr (Or.inl ⟨?_, ?_, ?_, ?_⟩)
      · rw [told.connection_setConnection _ htold.length]
        simp only [htold.mode, hconnection]
        cases slave
        · exact Or.inl rfl
        · exact Or.inr rfl
      · refine htold.player.trans ?_
        rw [hroster.1, testBit_setBit, decide_eq_true rfl, Bool.true_or]
      · obtain ⟨device, hlt16, hbit⟩ := hdevices
        refine ⟨device, hlt16, ?_, ?_⟩
        · have hown : told.roster.clientDevices (i + 1) = devices := by
            rw [htold.devices, hroster.2.1, Function.update_self]
          show (told.roster.clientDevices (i + 1)).testBit device = true
          rw [hown]
          exact hbit
        · refine (htold.clients device).trans ?_
          rw [hroster.2.2]
          simp only [hbit, if_true, testBit_setBit, decide_true, Bool.true_or]
      · refine ⟨frame, _, devices, shareModes, nick,
          ⟨List.replicate r .resume ++ [_], ?_, filter_replicate_resume r _ rfl⟩,
          modeYou_bits slaveBit (i + 1)⟩
        rw [told.connection_setConnection _ htold.length]
        simp only [hresumes, List.append_assoc]

end Answers

section Request

variable {np : NetplayT σ} {i : ℕ} {before : Connection} {roster : Roster}

theorem not_answers_of_silent (hfaults : (np.connection i).sendFaults = before.sendFaults)
    (hbuffer : (np.connection i).sendPacketBuffer = before.sendPacketBuffer) :
    ¬ Answers before roster i np := by
  have hsilent : ∀ m, ¬ AnsweredWith before (np.connection i) m := by
    rintro m ⟨sent, hsent, hone⟩
    rw [hbuffer] at hsent
    rw [List.self_eq_append_right.mp hsent] at hone
    exact absurd hone (List.cons_ne_nil m []).symm
  rintro (⟨k, hdrop, hfault⟩ | h | h)
  · rw [hfaults] at hdrop
    have hlen := congrArg List.length hdrop
    rw [List.length_drop] at hlen
    rcases Nat.eq_zero_or_pos k with rfl | hpos
    · exact absurd hfault List.not_mem_nil
    · rw [List.eq_nil_of_length_eq_zero (show before.sendFaults.length = 0 by omega),
        List.take_nil] at hfault
      exact absurd hfault List.not_mem_nil
  · obtain ⟨_, _, _, _, _, htold, -⟩ := h.told
    exact hsilent _ htold
  · obtain ⟨_, htold⟩ := h.told
    exact hsilent _ htold

/-- A request for any device, which is to be shared, where the one device there is is taken. -/
def OnlyDeviceTaken (np : NetplayT σ) (request : ℕ) : Prop :=
  request % 2 ^ 16 = 0 ∧ availableDevice np = none ∧
    np.configDevices 1 = RETRO_DEVICE_NONE ∧
    fixShareMode (UInt8.ofNat (request / 2 ^ 16)) ≠ 0 ∧ np.roster.deviceShareModes 0 ≠ 0

instance (np : NetplayT σ) (request : ℕ) : Decidable (OnlyDeviceTaken np request) :=
  inferInstanceAs (Decidable (_ ∧ _))

theorem exists_device {devices : ℕ} (h : devices % 2 ^ 16 ≠ 0) :
    ∃ device < MAX_INPUT_DEVICES, (devices % 2 ^ 16).testBit device = true := by
  obtain ⟨device, hbit⟩ := Nat.exists_testBit_of_ne_zero h
  refine ⟨device, ?_, hbit⟩
  by_contra hge
  have hfalse := Nat.testBit_eq_false_of_lt (lt_of_lt_of_le
    (Nat.mod_lt devices (Nat.two_pow_pos 16))
    (Nat.pow_le_pow_right (Nat.succ_pos 1) (Nat.le_of_not_lt hge)))
  rw [hfalse] at hbit
  exact Bool.false_ne_true hbit

theorem availableDevice_lt {device : ℕ} (h : availableDevice np = some device) :
    device < MAX_INPUT_DEVICES := by
  have hmem := (List.takeWhile_sublist _).subset (List.mem_of_find?_eq_some h)
  exact List.mem_range.mp hmem

/-- The share modes are set before the player is marked. -/
theorem answers_admitShared (shareModes : ℕ → UInt8) (hserver : np.isServer = true)
    (hlt : i < np.connections.length)
    (hfaults : (np.connection i).sendFaults = before.sendFaults)
    (hbuffer : (np.connection i).sendPacketBuffer = before.sendPacketBuffer) {devices : ℕ}
    (hdevices : ∃ device < MAX_INPUT_DEVICES, devices.testBit device = true) (frame : ℕ)
    (slave : Bool) :
    Answers before roster i
      (admitPlayer (setShareModes np shareModes) (i + 1) (some i) frame devices slave) := by
  have hset : (setShareModes np shareModes).isServer = true := hserver
  exact answers_admitPlayer hset hlt hfaults hbuffer hdevices frame slave

section Handler

variable (settings : Settings) (hserver : np.isServer = true) (hlt : i < np.connections.length)
  (request : ℕ) (hfaults : (np.connection i).sendFaults = before.sendFaults)
  (hbuffer : (np.connection i).sendPacketBuffer = before.sendPacketBuffer)
  (hmode : (np.connection i).mode = before.mode)

include hserver hlt hfaults hbuffer hmode

theorem answers_playDevices {devices : ℕ}
    (hdevices : ∃ device < MAX_INPUT_DEVICES, devices.testBit device = true) (frame : ℕ)
    (shareMode : UInt8) (slave : Bool) :
    Answers before np.roster i
      (playDevices np (i + 1) (some i) frame devices shareMode slave) := by
  rw [playDevices]
  split_ifs
  · exact answers_admitShared _ hserver hlt hfaults hbuffer hdevices frame slave
  · exact answers_refuseMode hlt hfaults hbuffer hmode _

theorem answers_playAny (frame : ℕ) (shareMode : UInt8) (slave : Bool) :
    Answers before np.roster i (playAny np (i + 1) (some i) frame shareMode slave) ↔
      ¬ (availableDevice np = none ∧ np.configDevices 1 = RETRO_DEVICE_NONE ∧
        shareMode ≠ 0 ∧ np.roster.deviceShareModes 0 ≠ 0) := by
  rw [playAny]
  cases hdevice : availableDevice np with
  | some device =>
    refine iff_of_true ?_ fun h => Option.some_ne_none _ h.1
    refine answers_admitShared _ hserver hlt hfaults hbuffer
      ⟨device, availableDevice_lt hdevice, ?_⟩ frame slave
    rw [Nat.shiftLeft_eq, one_mul, Nat.testBit_two_pow_self]
  | none =>
    simp only [true_and]
    split_ifs with honly
    · exact iff_of_false (not_answers_of_silent hfaults hbuffer) (not_not.mpr honly)
    · exact iff_of_true (answers_refuseMode hlt hfaults hbuffer hmode _) honly

theorem handlePlay_spec (hclient : i + 1 < MAX_CLIENTS) :
    ∃ np', handlePlay settings np (i + 1) (some i) request = some np' ∧
      (Answers before np.roster i np' ↔ ¬ OnlyDeviceTaken np request) := by
  have hread : (np.setRead (i + 1) (playStart np (some i))).isServer = true := hserver
  rw [handlePlay, if_neg (Nat.not_le.mpr hclient)]
  refine ⟨_, rfl, ?_⟩
  rw [OnlyDeviceTaken]
  split_ifs with hdevices
  · refine iff_of_true ?_ fun h => hdevices h.1
    exact answers_playDevices hread hlt hfaults hbuffer hmode
      (exists_device hdevices) _ _ _
  · rw [not_ne_iff.mp hdevices]
    have hany := answers_playAny hread hlt
      hfaults hbuffer hmode (playStart np (some i)).frameCount
      (fixShareMode (UInt8.ofNat (request / 2 ^ 16))) (playsSlave settings (some i) request)
    rw [show (0 : ℕ) = 0 ↔ True from iff_of_true rfl trivial, true_and]
    exact hany

end Handler

/-- The request, once its payload is there, ends in one of the two answers. -/
def PlayAnswered (settings : Settings) (np : NetplayT σ) (i : ℕ) : Prop :=
  ∃ ret np', getPlay settings np i 4 = some (ret, np') ∧
    Answers (np.connection i) np.roster i np'

/-- A request to a server is answered exactly if it is turned away before a place is looked for, or
comes from one of the players there can be and is not for the one device that is taken. -/
theorem play_answered_iff (settings : Settings) (np : NetplayT σ) (i : ℕ)
    (payload more : List UInt8) (hserver : np.isServer = true)
    (hmode : (np.connection i).mode = .connected ∨ (np.connection i).mode = .spectating)
    (hpayload : payload.length = 4) (h : Arrived np i (payload ++ more)) :
    PlayAnswered settings np i ↔
      (np.connection i).delayFrame ≠ 0 ∨ (np.connection i).canPlay = false ∨
        i + 1 < MAX_CLIENTS ∧ ¬ OnlyDeviceTaken np (ntohl payload) := by
  have hread : (afterField np i 4).connection i =
      { np.connection i with
        recvPacketBuffer := ((np.connection i).recvPacketBuffer.read 4).2
        recvFaults := (np.connection i).recvFaults.tail } := connection_retape h.lt _ _
  have hlt : i < (afterField np i 4).connections.length :=
    (np.setConnection_length i _).symm ▸ h.lt
  have hfaults : ((afterField np i 4).connection i).sendFaults =
      (np.connection i).sendFaults := by rw [hread]
  have hbuffer : ((afterField np i 4).connection i).sendPacketBuffer =
      (np.connection i).sendPacketBuffer := by rw [hread]
  have hsame : ((afterField np i 4).connection i).mode = (np.connection i).mode := by rw [hread]
  have hrefused : ∀ reason, Answers (np.connection i) np.roster i
      (netplayRecvFlush (refuseMode (afterField np i 4) (some i) reason) i) := by
    intro reason
    rw [netplayRecvFlush, answers_retape]
    exact answers_refuseMode hlt hfaults hbuffer hsame reason
  rw [PlayAnswered, getPlay, if_neg (not_not.mpr rfl), RECV_full h hpayload]
  simp only [hread]
  rw [if_neg (show ¬ (afterField np i 4).isServer = false by
    rw [show (afterField np i 4).isServer = np.isServer from rfl, hserver]
    exact nofun)]
  by_cases hdelay : (np.connection i).delayFrame ≠ 0
  · rw [if_pos hdelay]
    exact iff_of_true ⟨_, _, rfl, hrefused _⟩ (Or.inl hdelay)
  · rw [if_neg hdelay]
    by_cases hplay : (np.connection i).canPlay = false
    · rw [if_pos hplay]
      exact iff_of_true ⟨_, _, rfl, hrefused _⟩ (Or.inr (Or.inl hplay))
    · have hidle : ¬ ((np.connection i).mode = .playing ∨ (np.connection i).mode = .slave) := by
        rcases hmode with hmode | hmode <;> rw [hmode] <;> exact nofun
      rw [if_neg hplay, if_neg hidle]
      rw [or_iff_right hdelay, or_iff_right hplay]
      by_cases hclient : i + 1 < MAX_CLIENTS
      · have hread : (afterField np i 4).isServer = true := hserver
        obtain ⟨np', hhandle, hspec⟩ := handlePlay_spec settings hread hlt (ntohl payload)
          hfaults hbuffer hsame hclient
        rw [hhandle, Option.bind_some]
        have hdone : Answers (np.connection i) np.roster i (netplayRecvFlush np' i) ↔
            ¬ OnlyDeviceTaken np (ntohl payload) := by
          rw [netplayRecvFlush, answers_retape]
          exact hspec
        constructor
        · rintro ⟨ret, np'', heq, hanswers⟩
          obtain ⟨-, rfl⟩ := Prod.mk.inj (Option.some.inj heq)
          exact ⟨hclient, hdone.mp hanswers⟩
        · rintro ⟨-, hnot⟩
          exact ⟨_, _, rfl, hdone.mpr hnot⟩
      · refine iff_of_false ?_ fun hc => hclient hc.1
        rintro ⟨ret, np'', heq, -⟩
        rw [handlePlay, if_pos (Nat.le_of_not_lt hclient)] at heq
        exact absurd heq (Option.some_ne_none _).symm

/-- A server with one device, which it plays with itself (1) or not (0), how it shares it, and a
spectator whose request for any device, to be shared, has arrived. -/
def oneDeviceServer (plays : ℕ) (shareMode : UInt8) : NetplayT ℕ :=
  { netplayNew idleCore true false 0 false false false []
      (fun device => if device = 0 then RETRO_DEVICE_JOYPAD else RETRO_DEVICE_NONE) 0 with
    selfMode := if plays = 0 then .spectating else .playing
    selfDevices := plays
    connections := [{ Connection.zero with
      active := true
      mode := .spectating
      canPlay := true
      recvPacketBuffer := ⟨htonl 0x00240000, 0, Nat.zero_le _⟩ }]
    roster := ⟨plays, 0, fun client => if client = 0 then plays else 0,
      fun device => if device = 0 then plays else 0,
      fun device => if device = 0 then shareMode else 0⟩ }

theorem arrived_oneDeviceServer (plays : ℕ) (shareMode : UInt8) :
    Arrived (oneDeviceServer plays shareMode) 0 (htonl 0x00240000 ++ []) where
  lt := Nat.one_pos
  sound := by
    intro fault hfault
    exact absurd hfault List.not_mem_nil
  rest := rfl

theorem play_answered_free : PlayAnswered openSettings (oneDeviceServer 0 0) 0 := by
  apply (play_answered_iff openSettings (oneDeviceServer 0 0) 0 (htonl 0x00240000) [] rfl
    (Or.inr rfl) rfl (arrived_oneDeviceServer 0 0)).mpr
  exact Or.inr (Or.inr ⟨by decide, fun h => absurd h.2.1 (by decide)⟩)

/-- Sharing the one device with the player who has it is not answered. -/
theorem only_device_unanswered :
    OnlyDeviceTaken (oneDeviceServer 1 0x24) 0x00240000 ∧
      ¬ PlayAnswered openSettings (oneDeviceServer 1 0x24) 0 := by
  refine ⟨by decide, ?_⟩
  rintro ⟨ret, np', hplay, hanswers⟩
  have hrun : getPlay openSettings (oneDeviceServer 1 0x24) 0 4 =
      some (.handled, netplayRecvFlush
        ((afterField (oneDeviceServer 1 0x24) 0 4).setRead 1 ⟨1, 1⟩) 0) := rfl
  rw [hrun] at hplay
  obtain ⟨-, rfl⟩ := Prod.mk.inj (Option.some.inj hplay)
  refine not_answers_of_silent ?_ ?_ hanswers
  · rfl
  · rfl

end Request

end RetroArch.Netplay.Play
