/- Where each command leaves the stream: at its start, at the start of the next, or refused. -/

import RetroArch.Netplay.WholeInput

namespace RetroArch.Netplay.Framing

open Library.Bytes Library.Rewinding Delta State Io Messaging Reading Command ShortRead WholeInput

variable {σ : Type}

section Heard

variable {np np' : NetplayT σ} {i j : ℕ}

/-- The receiving side of connection `i`. -/
def heard (np : NetplayT σ) (i : ℕ) : ℕ × Tape UInt8 × List Bool :=
  (np.connections.length, (np.connection i).recvPacketBuffer, (np.connection i).recvFaults)

theorem heard_setConnection (np : NetplayT σ) (i j : ℕ) {f : Connection → Connection}
    (hf : ∀ c, (f c).recvPacketBuffer = c.recvPacketBuffer ∧ (f c).recvFaults = c.recvFaults) :
    heard (np.setConnection j f) i = heard np i := by
  have hlen := np.setConnection_length j f
  rw [heard, heard, hlen]
  by_cases hij : j = i
  · subst hij
    rcases Nat.lt_or_ge j np.connections.length with hlt | hge
    · rw [np.connection_setConnection f hlt, (hf _).1, (hf _).2]
    · rw [NetplayT.setConnection, NetplayT.connection, List.modify_eq_self hge]
      rfl
  · rw [np.connection_setConnection_ne f hij]

@[simp] theorem heard_send (np : NetplayT σ) (i j : ℕ) (m : Message) :
    heard (netplaySendRawCmd np j m).2 i = heard np i := by
  rw [netplaySendRawCmd]
  split_ifs
  · exact heard_setConnection np i j fun c => ⟨rfl, rfl⟩
  · exact heard_setConnection np i j fun c => ⟨rfl, rfl⟩

theorem heard_disconnect (np : NetplayT σ) (i j : ℕ) :
    heard (disconnect np j) i = heard np i := by
  have hactive : heard (np.setConnection j fun c => { c with active := false }) i = heard np i :=
    heard_setConnection np i j fun c => ⟨rfl, rfl⟩
  simp only [disconnect]
  split_ifs
  · refine Eq.trans ?_ hactive
    exact heard_setConnection _ i j fun c => ⟨rfl, rfl⟩
  · exact hactive
  · exact hactive

theorem kept_heard (np : NetplayT σ) (i : ℕ) :
    Kept fun np' : NetplayT σ => heard np' i = heard np i where
  disconnect np' j h _ := (heard_disconnect np' i j).trans h
  unpause np' j h := by
    have hsame : heard (np'.setConnection j fun c => { c with paused := false }) i =
        heard np' i := heard_setConnection np' i j fun c => ⟨rfl, rfl⟩
    exact hsame.trans h
  resume np' j h := (heard_send np' i j _).trans h

@[simp] theorem heard_hangup (np : NetplayT σ) (i j : ℕ) :
    heard (netplayHangup np j) i = heard np i := (kept_heard np i).hangup rfl j

@[simp] theorem heard_sendAll (np : NetplayT σ) (i : ℕ) (except : Option ℕ) (m : Message) :
    heard (netplaySendRawCmdAll np except m) i = heard np i :=
  (kept_heard np i).sendAll (fun np' j h _ => (heard_send np' i j m).trans h) rfl

@[simp] theorem heard_remoteUnpaused (np : NetplayT σ) (i j : ℕ) :
    heard (remoteUnpaused np j) i = heard np i := (kept_heard np i).remoteUnpaused rfl j

@[simp] theorem heard_sendInputFrame (np : NetplayT σ) (i : ℕ) (dframe : DeltaFrame σ)
    (except : Option ℕ) (clientNum : ℕ) (slave : Bool) :
    heard (sendInputFrame np dframe except clientNum slave) i = heard np i :=
  (kept_heard np i).sendInputFrame (fun np' j m h _ => (heard_send np' i j m).trans h) rfl

@[simp] theorem heard_sendInputFrameOnly (np : NetplayT σ) (i : ℕ) (dframe : DeltaFrame σ)
    (only clientNum : ℕ) (slave : Bool) :
    heard (sendInputFrameOnly np dframe only clientNum slave).2 i = heard np i :=
  (kept_heard np i).sendInputFrameOnly (fun np' m h => (heard_send np' i only m).trans h) rfl

theorem heard_forConnections {f : NetplayT σ → ℕ → NetplayT σ}
    (h : ∀ np j, heard (f np j) i = heard np i) (np : NetplayT σ) :
    heard (forConnections np f) i = heard np i :=
  List.foldlRecOn (motive := fun np' => heard np' i = heard np i) _ _ rfl
    fun np' hnp' j _ => (h np' j).trans hnp'

theorem heard_sendFlushAll (np : NetplayT σ) (i : ℕ) (except : Option ℕ) :
    heard (netplaySendFlushAll np except) i = heard np i := by
  refine heard_forConnections (fun np k => ?_) np
  split_ifs
  · have hflush : heard (netplaySendFlush np k).2 i = heard np i :=
      heard_setConnection np i k fun c => ⟨rfl, rfl⟩
    rcases hres : netplaySendFlush np k with ⟨_ | _, np'⟩
    · rw [hres] at hflush
      exact (heard_hangup np' i k).trans hflush
    · rw [hres] at hflush
      exact hflush
  · rfl

end Heard

section Standing

variable {np np' : NetplayT σ} {i : ℕ} {whole rest more : List UInt8} {faults : List Bool}

/-- Of the command that starts `whole` all but `rest` has been read. -/
structure Standing (np : NetplayT σ) (i : ℕ) (whole rest : List UInt8) (faults : List Bool) :
    Prop where
  lt : i < np.connections.length
  cells : (np.connection i).recvPacketBuffer.cells = whole
  rest : (np.connection i).recvPacketBuffer.rest = rest
  faults : (np.connection i).recvFaults = faults

/-- The call returns false, or goes back to the start, or on to what follows the command. -/
def Framed (i : ℕ) (whole more : List UInt8) (outcome : Outcome σ) : Prop :=
  ∃ ret np', outcome = some (ret, np') ∧
    (ret = .refused ∨ ret = .dropped ∨
      ret = .idle ∧ (np'.connection i).recvPacketBuffer.rest = whole ∨
      ret = .handled ∧ (np'.connection i).recvPacketBuffer.rest = more)

theorem Standing.of_heard (h : Standing np i whole rest faults)
    (hheard : heard np' i = heard np i) : Standing np' i whole rest faults := by
  obtain ⟨hlen, hboth⟩ := Prod.mk.inj hheard
  obtain ⟨htape, hfaults⟩ := Prod.mk.inj hboth
  exact ⟨hlen ▸ h.lt, htape ▸ h.cells, htape ▸ h.rest, hfaults ▸ h.faults⟩

theorem framed_refused (np : NetplayT σ) : Framed i whole more (refused np) :=
  ⟨.refused, np, rfl, Or.inl rfl⟩

theorem framed_nak (np : NetplayT σ) (j : ℕ) : Framed i whole more (nak np j) :=
  ⟨.refused, _, rfl, Or.inl rfl⟩

theorem Standing.shrt (h : Standing np i whole rest faults) :
    Framed i whole more (Reading.shrt np i) := by
  refine ⟨.idle, _, rfl, Or.inr (Or.inr (Or.inl ⟨rfl, ?_⟩))⟩
  rw [netplayRecvReset, connection_retape h.lt]
  exact h.cells

theorem Standing.done (h : Standing np i whole more faults) :
    Framed i whole more (Reading.done np i) := by
  refine ⟨.handled, _, rfl, Or.inr (Or.inr (Or.inr ⟨rfl, ?_⟩))⟩
  rw [netplayRecvFlush, connection_retape h.lt]
  exact h.rest

theorem Standing.not_done (h : Standing np i whole rest faults) (hne : rest ≠ more) :
    ¬ Framed i whole more (Reading.done np i) := by
  have hrest : ((netplayRecvFlush np i).connection i).recvPacketBuffer.rest = rest := by
    rw [netplayRecvFlush, connection_retape h.lt]
    exact h.rest
  rintro ⟨ret, np', heq, hways⟩
  obtain ⟨rfl, rfl⟩ := Prod.mk.inj (Option.some.inj heq)
  rcases hways with hret | hret | ⟨hret, -⟩ | ⟨-, hmore⟩
  · exact Ret.noConfusion hret
  · exact Ret.noConfusion hret
  · exact Ret.noConfusion hret
  · exact hne (hrest.symm.trans hmore)

theorem Standing.after (h : Standing np i whole rest faults) (n : ℕ) :
    Standing (afterField np i n) i whole (rest.drop n) faults.tail := by
  have hconnection := connection_retape h.lt ((np.connection i).recvPacketBuffer.read n).2
    (np.connection i).recvFaults.tail
  refine ⟨(np.setConnection_length i _).symm ▸ h.lt, ?_, ?_, ?_⟩
  · rw [afterField, hconnection]
    exact h.cells
  · rw [afterField, hconnection]
    simp only [Tape.read_rest, h.rest]
  · rw [afterField, hconnection]
    simp only [h.faults]

theorem Standing.netplayRecv (h : Standing np i whole rest faults) (n : ℕ) :
    Reading.netplayRecv np i n =
      (if faults.headD false = true then
          (.failed, np.retape i (np.connection i).recvPacketBuffer faults.tail)
        else (if rest.length < n then .short (rest.take n) else .full (rest.take n),
          afterField np i n)) := by
  have hread : ((np.connection i).recvPacketBuffer.read n).1 = rest.take n := by
    rw [Tape.read, h.rest]
  rw [Reading.netplayRecv, afterField]
  simp only [h.faults, hread, List.length_take]
  by_cases hfault : faults.headD false = true
  · rw [if_pos hfault, if_pos hfault]
  · rw [if_neg hfault, if_neg hfault]
    by_cases hshort : rest.length < n
    · rw [if_pos hshort, if_pos (by omega)]
    · rw [if_neg hshort, if_neg (by omega)]

theorem Standing.recv_full (h : Standing np i whole rest faults) {n : ℕ} (hn : n ≤ rest.length)
    (hsound : faults.headD false = false) (fail : NetplayT σ → Outcome σ)
    (next : List UInt8 → NetplayT σ → Outcome σ) :
    RECV np i n fail next = next (rest.take n) (afterField np i n) := by
  rw [RECV, h.netplayRecv, if_neg (by rw [hsound]; exact Bool.false_ne_true),
    if_neg (Nat.not_lt.mpr hn)]

/-- Reading a field: its socket fails, it is not all there, or it is read. -/
theorem Standing.recv (h : Standing np i whole rest faults) {n : ℕ}
    {fail : NetplayT σ → Outcome σ} {next : List UInt8 → NetplayT σ → Outcome σ}
    (hfail : ∀ np', Framed i whole more (fail np'))
    (hnext : n ≤ rest.length → faults.headD false = false →
      Standing (afterField np i n) i whole (rest.drop n) faults.tail →
        Framed i whole more (next (rest.take n) (afterField np i n))) :
    Framed i whole more (RECV np i n fail next) := by
  cases hfault : faults.headD false with
  | true =>
    rw [RECV, h.netplayRecv, if_pos hfault]
    exact hfail _
  | false =>
    rcases Nat.lt_or_ge rest.length n with hshort | hfull
    · rw [RECV, h.netplayRecv, if_neg (by rw [hfault]; exact Bool.false_ne_true), if_pos hshort]
      exact (h.after n).shrt
    · rw [h.recv_full hfull hfault]
      exact hnext hfull hfault (h.after n)

end Standing

section Players

variable {np : NetplayT σ} {i : ℕ}

theorem heard_handleSpectate (np : NetplayT σ) (i j clientNum : ℕ) :
    heard (handleSpectate np clientNum (some j)) i = heard np i := by
  rw [handleSpectate]
  refine (heard_send _ i j _).trans ?_
  exact heard_setConnection np i j fun c => ⟨rfl, rfl⟩

theorem heard_refuseMode (np : NetplayT σ) (i : ℕ) (connection : Option ℕ) (reason : ℕ) :
    heard (refuseMode np connection reason) i = heard np i := by
  cases connection with
  | none => rfl
  | some j => exact heard_send np i j _

theorem heard_admitPlayer (np : NetplayT σ) (i j clientNum frame devices : ℕ) (slave : Bool) :
    heard (admitPlayer np clientNum (some j) frame devices slave) i = heard np i := by
  rw [admitPlayer]
  refine (heard_send _ i j _).trans ((heard_sendAll _ i (some j) _).trans ?_)
  exact heard_setConnection np i j fun c => ⟨rfl, rfl⟩

theorem heard_handlePlay {settings : Settings} {np' : NetplayT σ} {j clientNum request : ℕ}
    (h : handlePlay settings np clientNum (some j) request = some np') :
    heard np' i = heard np i := by
  rw [handlePlay] at h
  split_ifs at h with hclient
  obtain rfl := Option.some.inj h
  split_ifs
  · rw [playDevices]
    split_ifs
    · exact heard_admitPlayer _ i j _ _ _ _
    · exact heard_refuseMode _ i _ _
  · rw [playAny]
    cases availableDevice (np.setRead clientNum (playStart np (some j))) with
    | some device => exact heard_admitPlayer _ i j _ _ _ _
    | none =>
      simp only
      split_ifs
      · rfl
      · exact heard_refuseMode _ i _ _

end Players

section Small

variable {np : NetplayT σ} {i n : ℕ} {whole payload more : List UInt8} {faults : List Bool}

theorem framed_getSpectate (h : Standing np i whole (payload ++ more) faults)
    (hn : payload.length = n) : Framed i whole more (getSpectate np i n) := by
  simp only [getSpectate]
  split_ifs with hserver hsize hmode
  · exact framed_nak np i
  · exact framed_nak np i
  · exact framed_nak np i
  · have hempty : payload = [] := List.eq_nil_of_length_eq_zero (hn.trans (not_not.mp hsize))
    rw [hempty] at h
    exact (h.of_heard (heard_handleSpectate np i i (i + 1))).done

theorem Standing.whole_field (h : Standing np i whole (payload ++ more) faults)
    (hn : payload.length = n) :
    Standing (afterField np i n) i whole more faults.tail := by
  have hafter := h.after n
  rw [List.drop_left' hn] at hafter
  exact hafter

theorem framed_getModeRefused (h : Standing np i whole (payload ++ more) faults)
    (hn : payload.length = n) : Framed i whole more (getModeRefused np i n) := by
  rw [getModeRefused]
  split_ifs with hserver hsize
  · exact framed_nak np i
  · exact framed_nak np i
  · exact h.recv (framed_nak · i) fun _ _ _ => (not_not.mp hsize ▸ h.whole_field hn).done

theorem framed_getStall (h : Standing np i whole (payload ++ more) faults)
    (hn : payload.length = n) : Framed i whole more (getStall np i n) := by
  rw [getStall]
  split_ifs with hsize
  · exact framed_nak np i
  · refine h.recv (framed_nak · i) fun _ _ _ => ?_
    have hafter := not_not.mp hsize ▸ h.whole_field hn
    simp only
    split_ifs
    · exact framed_nak _ i
    · refine Standing.done (hafter.of_heard ?_)
      exact heard_setConnection (afterField np i 4) i i fun c => ⟨rfl, rfl⟩
    · exact hafter.done

theorem framed_getPause (h : Standing np i whole (payload ++ more) faults)
    (hn : payload.length = n) : Framed i whole more (getPause np i n) := by
  rw [getPause]
  split_ifs with hsize
  · exact framed_nak np i
  · refine h.recv (framed_nak · i) fun _ _ _ => ?_
    have hafter := not_not.mp hsize ▸ h.whole_field hn
    have hpaused : heard ((afterField np i 32).setConnection i fun c =>
        { c with paused := true }) i = heard (afterField np i 32) i :=
      heard_setConnection (afterField np i 32) i i fun c => ⟨rfl, rfl⟩
    simp only
    split_ifs
    · exact hafter.done
    · refine Standing.done (hafter.of_heard ?_)
      exact (heard_sendFlushAll _ i _).trans ((heard_sendAll _ i _ _).trans hpaused)
    · exact Standing.done (hafter.of_heard hpaused)

theorem framed_getCrc (pf : Platform σ) (h : Standing np i whole (payload ++ more) faults)
    (hn : payload.length = n) : Framed i whole more (getCrc pf np i n) := by
  rw [getCrc]
  split_ifs with hsize
  · exact framed_nak np i
  · refine h.recv (framed_nak · i) fun _ _ _ => ?_
    have hafter := not_not.mp hsize ▸ h.whole_field hn
    simp only
    split
    · exact hafter.done
    · split_ifs
      · refine Standing.done (hafter.of_heard ?_)
        rw [netplayCmdRequestSavestate]
        split_ifs
        · rfl
        · rfl
        · exact heard_send _ i 0 _
      · exact hafter.done
      · exact Standing.done (hafter.of_heard rfl)

end Small

section Input

variable {np : NetplayT σ} {i n : ℕ} {whole payload more : List UInt8} {faults : List Bool}

theorem framed_dropWords (words : ℕ) (h : Standing np i whole (payload ++ more) faults)
    (hn : payload.length = words * 4) : Framed i whole more (dropWords i words np) := by
  induction words generalizing np payload faults with
  | zero =>
    rw [List.eq_nil_of_length_eq_zero (hn.trans (Nat.zero_mul 4))] at h
    exact h.done
  | succ words ih =>
    rw [dropWords]
    refine h.recv (framed_nak · i) fun _ _ hafter => ?_
    rw [List.drop_append_of_le_length (by omega)] at hafter
    exact ih hafter (by rw [List.length_drop]; omega)

/-- The data of the devices is read to its end, whatever it is copied into. -/
theorem framed_copyInput {ptr clientNum : ℕ} {next : NetplayT σ → Outcome σ}
    (hnext : ∀ np faults, Standing np i whole more faults → Framed i whole more (next np))
    (devices : List ℕ) (hlt : ∀ device ∈ devices, device < MAX_INPUT_DEVICES)
    (h : Standing np i whole (payload ++ more) faults)
    (hn : payload.length = bytesOf np.configDevices devices) :
    Framed i whole more (copyInput i ptr clientNum next devices np) := by
  induction devices generalizing np payload faults with
  | nil =>
    rw [List.eq_nil_of_length_eq_zero (hn.trans (Nat.zero_mul 4))] at h
    exact hnext np faults h
  | cons device rest ih =>
    have hsum : bytesOf np.configDevices (device :: rest) =
        deviceSize (np.configDevices device) * 4 + bytesOf np.configDevices rest := by
      rw [bytesOf, bytesOf, List.map_cons, List.sum_cons, Nat.add_mul]
    rw [hsum] at hn
    rw [copyInput]
    generalize hmade : realStateFor np ptr device clientNum = made
    obtain ⟨entry, np₁⟩ := made
    have hnp₁ : np₁ = (realStateFor np ptr device clientNum).2 := by rw [hmade]
    have hconfig : np₁.configDevices = np.configDevices := by
      rw [hnp₁]
      rfl
    have hstand : Standing np₁ i whole (payload ++ more) faults := by
      rw [hnp₁]
      exact h.of_heard rfl
    have hsize : np₁.expectedInputSize (1 <<< device) = deviceSize (np.configDevices device) := by
      rw [NetplayT.expectedInputSize, hconfig]
      exact netplayExpectedInputSize_single _ (hlt device List.mem_cons_self)
    cases entry with
    | none => exact framed_nak np₁ i
    | some k =>
      simp only
      rw [hsize, hstand.netplayRecv]
      cases hfault : faults.headD false with
      | true =>
        rw [if_pos rfl]
        exact framed_refused _
      | false =>
        have hafter := hstand.after (deviceSize (np.configDevices device) * 4)
        rw [if_neg Bool.false_ne_true, if_neg (by rw [List.length_append]; omega)]
        rw [List.drop_append_of_le_length (by omega)] at hafter
        refine ih (fun d hd => hlt d (List.mem_cons_of_mem _ hd)) (hafter.of_heard rfl) ?_
        have hsame : (setEntry (afterField np₁ i (deviceSize (np.configDevices device) * 4))
            ptr device k fun _ => (ntohls ((payload ++ more).take
              (deviceSize (np.configDevices device) * 4))).map UInt32.ofNat).configDevices =
            np.configDevices := hconfig
        rw [hsame, List.length_drop]
        omega

theorem heard_advanceRead (np : NetplayT σ) (i j ptr clientNum : ℕ) :
    heard (advanceRead np j ptr clientNum) i = heard np i := by
  rw [advanceRead]
  split_ifs
  · simp only
    split_ifs
    · exact heard_sendInputFrame _ i _ _ _ _
    · rfl
  · rfl

theorem framed_inputReceived {ptr clientNum : ℕ} (h : Standing np i whole more faults) :
    Framed i whole more (inputReceived i ptr clientNum np) := by
  refine Standing.done (h.of_heard ?_)
  rw [followServer]
  split_ifs
  · exact heard_advanceRead _ i i ptr clientNum
  · exact heard_advanceRead _ i i ptr clientNum

theorem framed_inputFrom {frameNum clientNum : ℕ}
    (h : Standing np i whole (payload ++ more) faults) (hn : payload.length + 8 = n) :
    Framed i whole more (inputFrom np i n frameNum clientNum) := by
  simp only [inputFrom]
  split_ifs with hmode hmax hsize hclient hold hnew
  · exact framed_nak np i
  · exact framed_nak np i
  · exact framed_nak np i
  · exact framed_nak np i
  · exact framed_dropWords _ h (by have := not_not.mp hsize; omega)
  · exact framed_nak np i
  · generalize inputClient np i clientNum = client at hsize
    cases hready : np.frameReady (np.cursors.read client).ptr
        (np.cursors.read client).frameCount with
    | none => exact h.shrt
    | some np' =>
      obtain ⟨f, -, rfl⟩ := Option.map_eq_some_iff.mp hready
      refine framed_copyInput (fun _ _ h => framed_inputReceived h) _
        (fun device hd => (mem_devicesOf.mp hd).1) (h.of_heard rfl) ?_
      have hexact := not_not.mp hsize
      rw [NetplayT.expectedInputSize, netplayExpectedInputSize] at hexact
      rw [bytesOf]
      show _ = (List.map (fun device => deviceSize (np.configDevices device)) _).sum * 4
      omega

theorem framed_getInput (h : Standing np i whole (payload ++ more) faults)
    (hn : payload.length = n) : Framed i whole more (getInput np i n) := by
  rw [getInput]
  split_ifs with hsize
  · exact framed_nak np i
  · refine h.recv framed_refused fun _ _ hframe => ?_
    refine hframe.recv framed_refused fun _ _ hclient => ?_
    rw [List.drop_drop, List.drop_append_of_le_length (by omega)] at hclient
    exact framed_inputFrom hclient (by rw [List.length_drop]; omega)

end Input

section Load

variable {np : NetplayT σ} {i n : ℕ} {whole payload more : List UInt8} {faults : List Bool}

theorem isServer_tryInit (pf : Platform σ) (np : NetplayT σ) :
    (netplayTryInitSerialization pf np).2.isServer = np.isServer := by
  simp only [netplayTryInitSerialization]
  split_ifs
  · rfl
  · rfl
  · cases pf.serialize np.core <;> rfl

theorem isServer_waitAndInit (pf : Platform σ) (left : ℕ) (np : NetplayT σ) :
    (netplayWaitAndInitSerialization pf left np).isServer = np.isServer :=
  waitAndInit_kept (P := fun np' => np'.isServer = np.isServer)
    (fun np' h => (isServer_tryInit pf np').trans h) (fun _ h => h) left rfl

theorem isServer_initForLoad (pf : Platform σ) (np : NetplayT σ) :
    (initForLoad pf np).isServer = np.isServer := by
  rw [initForLoad]
  split_ifs
  · exact isServer_waitAndInit pf 60 np
  · exact isServer_waitAndInit pf 60 _
  · rfl

theorem loadCursor_initForLoad (pf : Platform σ) (np : NetplayT σ) (i : ℕ) :
    loadCursor (initForLoad pf np) i = loadCursor np i := by
  have hheld := (held_initForLoad pf np).1
  have hread : (initForLoad pf np).cursors.read = np.cursors.read :=
    congrArg (fun h => h.2.1) hheld
  have hcursor : (initForLoad pf np).cursors.server = np.cursors.server :=
    congrArg (fun h => h.2.2.1) hheld
  rw [loadCursor, loadCursor, isServer_initForLoad, hread, hcursor]

theorem framed_loadAt {load : Cursor} {reset : Bool} (h : Standing np i whole more faults)
    (hfollowed : reset = false ∨ load.frameCount ≠ 0) :
    Framed i whole more (loadAt np i load reset) := by
  have hjump : ¬ (loadJumps np load reset = true ∧ load.frameCount = 0) := by
    rintro ⟨hbefore, hzero⟩
    rcases hfollowed with rfl | hne
    · rw [loadJumps, Bool.or_false, decide_eq_true_eq, hzero] at hbefore
      exact Nat.not_lt_zero _ hbefore
    · exact hne hzero
  rw [loadAt, if_neg hjump]
  exact Standing.done (h.of_heard rfl)

theorem framed_receiveSavestate (pf : Platform σ) {load : Cursor}
    (h : Standing np i whole (payload ++ more) faults) (hn : payload.length + 4 = n)
    (hsize : 8 ≤ n) : Framed i whole more (receiveSavestate pf i n load np) := by
  rw [receiveSavestate]
  refine h.recv (framed_nak · i) fun _ _ hisize => ?_
  split_ifs
  · exact framed_nak _ i
  · rw [List.drop_append_of_le_length (by omega)] at hisize
    refine hisize.recv (framed_nak · i) fun _ _ hdata => ?_
    rw [List.drop_left' (by rw [List.length_drop]; omega)] at hdata
    exact framed_loadAt (hdata.of_heard rfl) (Or.inl rfl)

/-- RESET of the first frame: its payload is read, and a counter is put below 0. -/
def ResetsToZero (np : NetplayT σ) (i n : ℕ) : Prop :=
  n = 4 ∧ (loadCursor np i).frameCount = 0

theorem framed_getLoad (pf : Platform σ) (reset : Bool)
    (h : Standing np i whole (payload ++ more) faults) (hn : payload.length = n) :
    Framed i whole more (getLoad pf np i n reset) ∨
      reset = true ∧ getLoad pf np i n reset = none ∧ ResetsToZero np i n := by
  rw [getLoad]
  have hheard : heard (initForLoad pf np) i = heard np i := by
    have hconnections := (held_initForLoad pf np).2
    rw [heard, heard, NetplayT.connection, NetplayT.connection, hconnections]
  have hstart : loadCursor (initForLoad pf np) i = loadCursor np i :=
    loadCursor_initForLoad pf np i
  have hstand := h.of_heard hheard
  rw [ResetsToZero, ← hstart]
  generalize initForLoad pf np = np₁ at hstand
  split_ifs with hmode hserver hsize
  · exact Or.inl (framed_nak _ i)
  · exact Or.inl (framed_nak _ i)
  · exact Or.inl (framed_nak _ i)
  · rw [loadFrame, RECV, hstand.netplayRecv]
    have hframe := hstand.after 4
    have hload : loadCursor (afterField np₁ i 4) i = loadCursor np₁ i := rfl
    split_ifs with hfault hshort
    · exact Or.inl (framed_nak _ i)
    · exact Or.inl hframe.shrt
    · simp only [hload]
      split_ifs
      · exact Or.inl (framed_nak _ i)
      · cases hready : (afterField np₁ i 4).frameReady (loadCursor np₁ i).ptr
            (loadCursor np₁ i).frameCount with
        | none => exact Or.inl hframe.shrt
        | some np₂ =>
          obtain ⟨f, -, rfl⟩ := Option.map_eq_some_iff.mp hready
          have hready' : Standing ((afterField np₁ i 4).setFrame (loadCursor np₁ i).ptr f) i whole
              ((payload ++ more).drop 4) faults.tail := hframe.of_heard rfl
          cases reset with
          | true =>
            have hfour : n = 4 := by
              by_contra hne
              exact hsize (Or.inr ⟨rfl, hne⟩)
            rw [List.drop_left' (hn.trans hfour)] at hready'
            by_cases hzero : (loadCursor np₁ i).frameCount = 0
            · refine Or.inr ⟨rfl, ?_, hfour, hzero⟩
              simp only
              rw [loadAt, if_pos ⟨Bool.or_true _, hzero⟩]
            · exact Or.inl (framed_loadAt (hready'.of_heard rfl) (Or.inr hzero))
          | false =>
            have height : 8 ≤ n := by
              by_contra hlt
              exact hsize (Or.inl ⟨rfl, Or.inl (Nat.lt_of_not_le hlt)⟩)
            rw [List.drop_append_of_le_length (by omega)] at hready'
            exact Or.inl (framed_receiveSavestate pf hready'
              (by rw [List.length_drop]; omega) height)

end Load

end RetroArch.Netplay.Framing
