/- A command stream that arrives in fragments, between which input is resolved and slaves are
handled. -/

import RetroArch.Netplay.WholeInput

set_option maxRecDepth 10000

namespace RetroArch.Netplay.Fragments

open Library.Run Delta State Io Messaging Reading Command Resolve Poll Session Frames ShortRead
open WholeInput

variable {σ : Type} {np np' : NetplayT σ} {f oframe : DeltaFrame σ} {client : ℕ}
variable {clients : ℕ → Prop}

/-- The input of a slave is copied from the frame before if it has none yet. -/
theorem copySlaveInput_some (devices : List ℕ) (hnodup : devices.Nodup)
    (hlt : ∀ device ∈ devices, device < 16)
    (holder : Complete np.configDevices clients oframe)
    (h : Complete np.configDevices (Without clients client) f)
    (hnone : ∀ device ∈ devices, ∀ istate ∈ f.realInput device, istate.used = true →
      istate.clientNum ≠ client) :
    ∃ f', copySlaveInput np oframe client devices f = some f' ∧
      Complete np.configDevices (Without clients client) f' := by
  induction devices generalizing f with
  | nil => exact ⟨f, rfl, h⟩
  | cons device rest ih =>
    obtain ⟨hhead, hnodup⟩ := List.nodup_cons.mp hnodup
    have hdevice := hlt device List.mem_cons_self
    have hsize : np.expectedInputSize (1 <<< device) = deviceSize (np.configDevices device) :=
      netplayExpectedInputSize_single _ hdevice
    have hrest : ∀ {g : DeltaFrame σ}, Complete np.configDevices (Without clients client) g →
        (∀ d, d ≠ device → g.realInput d = f.realInput d) →
        ∃ f', copySlaveInput np oframe client rest g = some f' ∧
          Complete np.configDevices (Without clients client) f' := by
      intro g hg hsame
      refine ih hnodup (fun d hd => hlt d (List.mem_cons_of_mem _ hd)) hg
        fun d hd istate hmem => ?_
      rw [hsame d (ne_of_mem_of_not_mem hd hhead)] at hmem
      exact hnone d (List.mem_cons_of_mem _ hd) istate hmem
    rw [copySlaveInput]
    cases hfind : (oframe.realInput device).find? fun s => decide (s.clientNum = client) with
    | none =>
      refine hrest (h.update fun istate hmem => ?_) fun d hd => ?_
      · rw [hsize] at hmem
        exact (mem_netplayInputStateFor hmem).imp_right fun hnew => ⟨hnew.1, fun _ => hnew.2⟩
      · exact Function.update_of_ne hd _ _
    | some istateIn =>
      have hin : istateIn.size = deviceSize (np.configDevices device) :=
        holder.sized device hdevice istateIn (List.mem_of_find?_eq_some hfind)
      rcases hentry : netplayInputStateFor (f.realInput device) client istateIn.size true false
        with ⟨_ | k, list⟩
      · obtain ⟨istate, hmem, hused, hmine, -⟩ :=
          netplayInputStateFor_none (congrArg Prod.fst hentry)
        exact absurd hmine (hnone device List.mem_cons_self istate hmem hused)
      · have hmade : Complete np.configDevices (Without clients client)
            { f with realInput := Function.update f.realInput device list } := by
          refine h.update fun istate hmem => ?_
          have hlist : (netplayInputStateFor (f.realInput device) client istateIn.size true
              false).2 = list := congrArg Prod.snd hentry
          rw [← hlist, hin] at hmem
          exact (mem_netplayInputStateFor hmem).imp_right fun hnew => ⟨hnew.1, fun _ => hnew.2⟩
        simp only [hentry]
        refine hrest (hmade.setData fun _ _ _ => hin) fun d hd => ?_
        rw [setData]
        simp only [Function.update_of_ne hd]

theorem slaveFrame_some (h : Intact np) (hremote : Remote np client) :
    ∃ f, slaveFrame np client = some f ∧ Complete np.configDevices (Remote np) f := by
  simp only [slaveFrame]
  split_ifs with hreal
  · exact ⟨_, rfl, h.complete _⟩
  · have hframe := h.complete np.cursors.self.ptr
    obtain ⟨f, hcopy, hf⟩ := copySlaveInput_some
      (devicesOf (np.roster.clientDevices client)) (nodup_devicesOf _)
      (fun device hdevice => (mem_devicesOf.mp hdevice).1)
      (h.complete (prevPtr np.bufferSize np.cursors.self.ptr)) (hframe.without client)
      fun device hdevice istate hmem hused hmine => by
        have hwhole := hframe.whole device (mem_devicesOf.mp hdevice).1 istate hmem hused
          (hmine.symm ▸ hremote)
        rw [hmine] at hwhole
        exact hreal hwhole
    rw [hcopy]
    exact ⟨_, rfl, hf.mark⟩

theorem handleSlave_some (h : Intact np) (hserver : np.isServer = true) (i : ℕ) :
    ∃ np', handleSlave np i = some np' ∧ Intact np' ∧ np'.isServer = true := by
  have hremote : Remote np (i + 1) := by
    refine ⟨?_, .inl hserver⟩
    rw [h.server hserver]
    exact Nat.succ_ne_zero i
  simp only [handleSlave]
  split_ifs
  · exact ⟨np, rfl, h, hserver⟩
  · exact ⟨np, rfl, h, hserver⟩
  · obtain ⟨f, hslave, hf⟩ := slaveFrame_some h hremote
    rw [hslave]
    have hgame := game_sendInputFrame (np.setFrame np.cursors.self.ptr f) f none (i + 1) false
    have hslot : Intact (np.setFrame np.cursors.self.ptr f) := h.setFrame hf
    have hframe := hslot.of_game hgame
    have hstill := congrArg NetplayT.isServer hgame
    exact ⟨_, rfl, hframe.of_inputs rfl, hstill.trans hserver⟩

theorem handleSlaves_some (h : Intact np) (hserver : np.isServer = true) :
    ∃ np', netplayHandleSlaves np = some np' ∧ Intact np' := by
  rw [netplayHandleSlaves, foldlM_eq_run]
  obtain ⟨np', hrun, hintact, -⟩ := run_total
    (I := fun np : NetplayT σ => Intact np ∧ np.isServer = true)
    (fun np i h => handleSlave_some h.1 h.2 i) ⟨h, hserver⟩ (List.range np.connections.length)
  exact ⟨np', hrun, hintact⟩

theorem resolveClient_real (np : NetplayT σ) (resim : Bool) (f : DeltaFrame σ)
    (device client : ℕ) :
    (resolveClient np resim f device client).2.realInput = f.realInput ∧
      (resolveClient np resim f device client).2.haveReal = f.haveReal := by
  simp only [resolveClient]
  split
  · exact ⟨rfl, rfl⟩
  · split_ifs
    · exact ⟨rfl, rfl⟩
    · split
      · exact ⟨rfl, rfl⟩
      · split
        · exact ⟨rfl, rfl⟩
        · exact ⟨rfl, rfl⟩

theorem resolveDevice_real (np : NetplayT σ) (resim : Bool) (f : DeltaFrame σ) (device : ℕ) :
    (resolveDevice np resim f device).2.realInput = f.realInput ∧
      (resolveDevice np resim f device).2.haveReal = f.haveReal := by
  simp only [resolveDevice, resolveClients]
  refine List.foldlRecOn
    (motive := fun s : List UInt32 × ℕ × DeltaFrame σ =>
      s.2.2.realInput = f.realInput ∧ s.2.2.haveReal = f.haveReal) _ _ ⟨rfl, rfl⟩ ?_
  rintro ⟨clientState, clientCount, g⟩ hg client -
  have hclient := resolveClient_real np resim g device client
  simp only
  split_ifs
  · rcases hres : resolveClient np resim g device client with ⟨_ | data, g'⟩
    · rw [hres] at hclient
      exact ⟨hclient.1.trans hg.1, hclient.2.trans hg.2⟩
    · rw [hres] at hclient
      exact ⟨hclient.1.trans hg.1, hclient.2.trans hg.2⟩
  · exact hg

theorem resolveFrame_real (np : NetplayT σ) (resim : Bool) (f : DeltaFrame σ) :
    (resolveFrame np resim f).2.realInput = f.realInput ∧
      (resolveFrame np resim f).2.haveReal = f.haveReal := by
  rw [resolveFrame]
  refine List.foldlRecOn (motive := fun s : Bool × DeltaFrame σ =>
    s.2.realInput = f.realInput ∧ s.2.haveReal = f.haveReal) _ _ ⟨rfl, rfl⟩ fun s hs device _ => ?_
  obtain ⟨hin, hhave⟩ := resolveDevice_real np resim s.2 device
  exact ⟨hin.trans hs.1, hhave.trans hs.2⟩

theorem intact_resolveInput (ptr : ℕ) (resim : Bool) (h : Intact np) :
    Intact (netplayResolveInput np ptr resim).2 := by
  obtain ⟨hin, hhave⟩ := resolveFrame_real np resim (np.buffer ptr)
  rw [netplayResolveInput]
  exact h.congrFrame hin hhave

/-- Bytes arrive and are read, frames are resolved and a server handles its slaves. No command is
read while an INPUT or a savestate would be taken in part. -/
def Uncut (pf : Platform σ) (np : NetplayT σ) : Event σ → Prop
  | .arrive _ _ => True
  | .getCmd i _ => ¬CutsInput np i ∧ ¬CutsSavestate pf np i
  | .resolveInput _ => True
  | .handleSlaves => np.isServer = true
  | _ => False

theorem intact_step {pf : Platform σ} {settings : Settings} {event : Event σ} (h : Intact np)
    (huncut : Uncut pf np event) (hstep : step pf settings np event = some np') : Intact np' := by
  cases event with
  | arrive i t =>
    obtain rfl := Option.some.inj hstep
    exact h.of_inputs rfl
  | getCmd i handshake =>
    simp only [step] at hstep
    split_ifs at hstep
    obtain ⟨⟨ret, np''⟩, hcmd, hret⟩ := Option.map_eq_some_iff.mp hstep
    have h'' := intact_getCmd handshake h huncut.1 ret np'' hcmd
    cases ret with
    | refused => exact hret ▸ h''.of_game (game_hangup np'' i)
    | dropped => exact hret ▸ h''.of_game (game_hangup np'' i)
    | idle => exact hret ▸ h''
    | handled => exact hret ▸ h''
  | resolveInput resim => exact Option.some.inj hstep ▸ intact_resolveInput _ resim h
  | handleSlaves =>
    obtain ⟨np'', hslaves, h''⟩ := handleSlaves_some h huncut
    rw [step, hslaves] at hstep
    exact Option.some.inj hstep ▸ h''
  | _ => exact absurd huncut id

/-- A server with joypads, not yet connected to. -/
def joypadServer : NetplayT ℕ :=
  netplayNew idleCore true false 0 false false false [] (fun _ => RETRO_DEVICE_JOYPAD) 0

theorem intact_joypadServer : Intact joypadServer where
  complete _ :=
    { sized := fun _ _ _ hmem => absurd hmem List.not_mem_nil
      whole := fun _ _ _ hmem => absurd hmem List.not_mem_nil }
  server _ := rfl

/-- Someone connects and becomes a slave with the first joypad. -/
def slaveJoins : List (Event ℕ) :=
  let proceed : Event ℕ := .getCmd 0 (.proceed [] true 0 [])
  let play := (Message.play (NETPLAY_CMD_PLAY_BIT_SLAVE + 1)).encode
  [.accept, proceed, proceed, proceed, .arrive 0 ⟨play, [], []⟩, .getCmd 0 .wait]

/-- One frame of the server, up to its end. -/
def serverFrame : List (Event ℕ) :=
  let input : LocalInput := ⟨false, fun _ _ => []⟩
  [.selfInput input, .handleSlaves, .postFrame ⟨false, ⟨input, [], 0⟩, 0⟩]

/-- The bytes of a slave's INPUT for frame 2. -/
def slaveInput : List UInt8 := (Message.input 2 1 [0x01020304]).encode

/-- Short reads are atomic as long as no INPUT and no savestate is taken in part. In any state a
command of which some is missing is refused, or waits as if it had not been looked at. Over any
run of fragments, real input of a client is only seen where the client's whole input is there,
and a server finds a slot for each of its slaves. -/
theorem short_reads_atomic (pf : Platform σ) (settings : Settings) :
    (∀ (np : NetplayT σ) (i cmd : ℕ) (payload bytes : List UInt8) (hs : Handshake),
      cmd < 2 ^ 32 → payload.length < 2 ^ 32 → HasItsSize cmd payload.length →
      (np.connection i).mode.ready = true → bytes <+: command cmd payload →
      bytes ≠ command cmd payload → Arrived np i bytes →
      Uncut pf np (.getCmd i hs) → Atomic np i (netplayGetCmd pf settings hs np i)) ∧
    ∀ (start np : NetplayT σ) (events : List (Event σ)), Intact start →
      RunsWithin (step pf settings) (Uncut pf) start events np →
      (∀ ptr device client istate, device < MAX_INPUT_DEVICES → Remote np client →
        usedOf ((np.buffer ptr).realInput device) client = some istate →
          (np.buffer ptr).haveReal client = true) ∧
      (np.isServer = true → netplayHandleSlaves np ≠ none) := by
  refine ⟨fun np i cmd payload bytes hs hcmd hlen hsize hready hfront hproper harrived huncut =>
    short_read_atomic hcmd hlen hsize hready hfront hproper harrived huncut.1 huncut.2, ?_⟩
  intro start np events hstart hrun
  have h : Intact np := hrun.invariant (fun _ _ _ h huncut hstep => intact_step h huncut hstep) hstart
  refine ⟨?_, ?_⟩
  · intro ptr device client istate hdevice hremote hused
    have hmatch := List.find?_some hused
    rw [Bool.and_eq_true, decide_eq_true_eq] at hmatch
    obtain ⟨hon, rfl⟩ := hmatch
    exact (h.complete ptr).whole device hdevice istate (List.mem_of_find?_eq_some hused) hon hremote
  · intro hserver
    obtain ⟨np', hslaves, -⟩ := handleSlaves_some h hserver
    rw [hslaves]
    exact Option.some_ne_none np'

/-- The server with a slave whose INPUT is there up to its frame number. -/
def waitingServer : NetplayT ℕ :=
  { joypadServer with
    connections := [{ Connection.zero with
      active := true, mode := .slave
      recvPacketBuffer := Connection.zero.recvPacketBuffer.arrive (slaveInput.take 12) }]
    roster := { join joypadServer.roster 1 1 with connectedSlaves := 2 } }

/-- Between two fragments nothing of the input is seen. -/
theorem short_reads_atomic_waiting :
    Atomic waitingServer 0 (netplayGetCmd idleCore openSettings .wait waitingServer 0) ∧
      (∀ ptr device client istate, device < MAX_INPUT_DEVICES → Remote waitingServer client →
        usedOf ((waitingServer.buffer ptr).realInput device) client = some istate →
          (waitingServer.buffer ptr).haveReal client = true) ∧
      (waitingServer.isServer = true → netplayHandleSlaves waitingServer ≠ none) :=
  ⟨(short_reads_atomic idleCore openSettings).1 waitingServer 0 0x0003 (slaveInput.drop 8)
      (slaveInput.take 12) .wait (by decide) (by decide) ⟨by decide, by decide⟩ rfl (by decide)
      (by decide) ⟨by decide, by decide, rfl⟩ ⟨by decide, by decide⟩,
    (short_reads_atomic idleCore openSettings).2 waitingServer waitingServer []
      ⟨intact_joypadServer.complete, intact_joypadServer.server⟩ (.nil _)⟩

/-- Two bytes of the slave's input are still to come, and two are seen. -/
theorem input_read_in_part : ∃ np : NetplayT ℕ, Reaches idleCore openSettings joypadServer np ∧
    (np.connection 0).mode.ready = true ∧ Arrived np 0 (slaveInput.take 18) ∧
    slaveInput = command 0x0003 (slaveInput.drop 8) ∧
    ¬Atomic np 0 (netplayGetCmd idleCore openSettings .wait np 0) ∧
    ∃ np', netplayGetCmd idleCore openSettings .wait np 0 = some (.idle, np') ∧
      usedOf ((np'.buffer 2).realInput 0) 1 = some ⟨true, 1, [0x0201]⟩ ∧
      (np'.buffer 2).haveReal 1 = false ∧ netplayHandleSlaves np' = none := by
  have hrun : (run (step idleCore openSettings) joypadServer
      (slaveJoins ++ serverFrame ++ serverFrame ++
        [.selfInput ⟨false, fun _ _ => []⟩, .arrive 0 ⟨slaveInput.take 18, [], []⟩])).map (fun np =>
      decide ((np.connection 0).mode.ready = true ∧ 0 < np.connections.length ∧
        (np.connection 0).recvPacketBuffer.rest = slaveInput.take 18 ∧
        (np.connection 0).recvFaults = [] ∧ ((np.buffer 2).realInput 0).length = 0 ∧
        (netplayGetCmd idleCore openSettings .wait np 0).map (fun r =>
          (r.1, usedOf ((r.2.buffer 2).realInput 0) 1, (r.2.buffer 2).haveReal 1,
            (netplayHandleSlaves r.2).isNone)) =
          some (.idle, some ⟨true, 1, [0x0201]⟩, false, true))) = some true := by
    decide
  obtain ⟨np, hreach, hfacts⟩ := Option.map_eq_some_iff.mp hrun
  obtain ⟨hready, hlt, hrest, hfaults, hbefore, hcmd⟩ := of_decide_eq_true hfacts
  obtain ⟨⟨ret, np'⟩, hget, hafter⟩ := Option.map_eq_some_iff.mp hcmd
  simp only [Prod.mk.injEq] at hafter
  obtain ⟨rfl, hused, hreal, hslaves⟩ := hafter
  refine ⟨np, ⟨_, hreach⟩, hready, ⟨hlt, ?_, hrest⟩, by decide, ?_, np', hget, hused,
    hreal, Option.isNone_iff_eq_none.mp hslaves⟩
  · rw [hfaults]
    exact fun fault hmem => by cases hmem
  · rintro ⟨ret', np'', heq, hheld, -⟩
    rw [hget] at heq
    obtain ⟨-, rfl⟩ := Prod.mk.inj (Option.some.inj heq)
    have hslot := congrFun (Prod.mk.inj hheld).1 2
    have hreal := congrFun (Prod.mk.inj hslot).1 0
    rw [hreal, List.eq_nil_of_length_eq_zero hbefore] at hused
    cases hused

end RetroArch.Netplay.Fragments
