/- Real input that is complete: what the commands, the slaves and the resolving make of it. -/

import RetroArch.Netplay.Frames
import RetroArch.Netplay.ShortRead

namespace RetroArch.Netplay.WholeInput

open Library.Bytes Library.Run Library.Rewinding Delta State Io Messaging Reading Command Resolve
open Poll Frames ShortRead

variable {σ : Type}

/-- The states of a device have its size, and the input that some clients have in a frame is
complete. -/
structure Complete (configDevices : ℕ → ℕ) (clients : ℕ → Prop) (f : DeltaFrame σ) : Prop where
  sized : ∀ device < MAX_INPUT_DEVICES, ∀ istate ∈ f.realInput device,
    istate.size = deviceSize (configDevices device)
  whole : ∀ device < MAX_INPUT_DEVICES, ∀ istate ∈ f.realInput device, istate.used = true →
    clients istate.clientNum → f.haveReal istate.clientNum = true

/-- Our own input is kept under our number, and under the number 32 while we are a slave. -/
def Remote (np : NetplayT σ) (client : ℕ) : Prop :=
  client ≠ np.selfClientNum ∧ (np.isServer = true ∨ client ≠ MAX_CLIENTS)

/-- No client's input is there in part. A server is client 0. -/
structure Intact (np : NetplayT σ) : Prop where
  complete : ∀ ptr, Complete np.configDevices (Remote np) (np.buffer ptr)
  server : np.isServer = true → np.selfClientNum = 0

variable {configDevices : ℕ → ℕ} {clients : ℕ → Prop} {f g : DeltaFrame σ} {np np' : NetplayT σ}

theorem Complete.mono {clients' : ℕ → Prop} (h : Complete configDevices clients f)
    (hsub : ∀ client, clients' client → clients client) : Complete configDevices clients' f where
  sized := h.sized
  whole device hdevice istate hmem hused hclient :=
    h.whole device hdevice istate hmem hused (hsub _ hclient)

theorem Complete.congr (h : Complete configDevices clients f) (hreal : g.realInput = f.realInput)
    (hhave : g.haveReal = f.haveReal) : Complete configDevices clients g where
  sized := by
    rw [hreal]
    exact h.sized
  whole := by
    rw [hreal, hhave]
    exact h.whole

theorem Complete.ready {other frame : ℕ} (h : Complete configDevices clients f)
    (hready : netplayDeltaFrameReady other f frame = some g) : Complete configDevices clients g := by
  rw [netplayDeltaFrameReady] at hready
  split_ifs at hready
  · exact Option.some.inj hready ▸ h
  · obtain rfl := Option.some.inj hready
    constructor
    · intro device hdevice istate hmem
      obtain ⟨old, hold, rfl⟩ := List.mem_map.mp hmem
      exact h.sized device hdevice old hold
    · intro device _ istate hmem hused
      obtain ⟨old, -, rfl⟩ := List.mem_map.mp hmem
      cases hused

theorem mem_netplayInputStateFor {list : List InputState} {clientNum size : ℕ}
    {mustCreate mustNotCreate : Bool} {istate : InputState}
    (h : istate ∈ (netplayInputStateFor list clientNum size mustCreate mustNotCreate).2) :
    istate ∈ list ∨ istate.clientNum = clientNum ∧ istate.size = size := by
  induction list with
  | nil =>
    rw [netplayInputStateFor] at h
    split_ifs at h
    · cases h
    · obtain rfl := List.mem_singleton.mp h
      exact .inr ⟨rfl, List.length_replicate⟩
  | cons ret rest ih =>
    rw [netplayInputStateFor] at h
    split_ifs at h
    · rcases List.mem_cons.mp h with rfl | hrest
      · exact .inr ⟨rfl, List.length_replicate⟩
      · exact .inl (List.mem_cons_of_mem _ hrest)
    · exact .inl h
    · exact .inl h
    · rcases List.mem_cons.mp h with rfl | hrest
      · exact .inl List.mem_cons_self
      · exact (ih hrest).imp_left (List.mem_cons_of_mem _)

theorem netplayInputStateFor_none {list : List InputState} {clientNum size : ℕ}
    {mustCreate : Bool}
    (h : (netplayInputStateFor list clientNum size mustCreate false).1 = none) :
    ∃ istate ∈ list, istate.used = true ∧ istate.clientNum = clientNum ∧
      (mustCreate = true ∨ istate.size ≠ size) := by
  induction list with
  | nil => cases h
  | cons ret rest ih =>
    rw [netplayInputStateFor] at h
    split_ifs at h with hfree hret hdo
    · refine ⟨ret, List.mem_cons_self, hret.1, hret.2, ?_⟩
      by_contra hneither
      obtain ⟨hcreate, hsize⟩ := not_or.mp hneither
      exact hdo ⟨Bool.eq_false_iff.mpr hcreate, not_not.mp hsize⟩
    · obtain ⟨istate, hmem, hspec⟩ := ih (Option.map_eq_none_iff.mp h)
      exact ⟨istate, List.mem_cons_of_mem _ hmem, hspec⟩

theorem mem_modify_data {list : List InputState} {k : ℕ} {data : List UInt32 → List UInt32}
    {istate : InputState} (h : istate ∈ list.modify k fun s => { s with data := data s.data }) :
    istate ∈ list ∨ ∃ old ∈ list, istate = { old with data := data old.data } := by
  induction list generalizing k with
  | nil =>
    rw [List.modify_nil] at h
    cases h
  | cons ret rest ih =>
    cases k with
    | zero =>
      rw [List.modify_zero_cons] at h
      rcases List.mem_cons.mp h with rfl | hrest
      · exact .inr ⟨ret, List.mem_cons_self, rfl⟩
      · exact .inl (List.mem_cons_of_mem _ hrest)
    | succ k =>
      rw [List.modify_succ_cons] at h
      rcases List.mem_cons.mp h with rfl | hrest
      · exact .inl List.mem_cons_self
      · rcases ih hrest with hold | ⟨old, hold, rfl⟩
        · exact .inl (List.mem_cons_of_mem _ hold)
        · exact .inr ⟨old, List.mem_cons_of_mem _ hold, rfl⟩

/-- The clients but one. -/
def Without (clients : ℕ → Prop) (client : ℕ) (other : ℕ) : Prop := clients other ∧ other ≠ client

theorem mem_update {lists : ℕ → List InputState} {device d : ℕ} {list : List InputState}
    {istate : InputState} (h : istate ∈ Function.update lists device list d) :
    istate ∈ lists d ∨ d = device ∧ istate ∈ list := by
  by_cases hsame : d = device
  · subst hsame
    rw [Function.update_self] at h
    exact .inr ⟨rfl, h⟩
  · rw [Function.update_of_ne hsame] at h
    exact .inl h

theorem Complete.update {device client : ℕ} {list : List InputState}
    (h : Complete configDevices (Without clients client) f)
    (hlist : ∀ istate ∈ list, istate ∈ f.realInput device ∨
      istate.clientNum = client ∧ (device < 16 → istate.size = deviceSize (configDevices device))) :
    Complete configDevices (Without clients client)
      { f with realInput := Function.update f.realInput device list } where
  sized d hd istate hmem := by
    rcases mem_update hmem with hold | ⟨rfl, hnew⟩
    · exact h.sized d hd istate hold
    · exact (hlist istate hnew).elim (h.sized d hd istate) fun hnew => hnew.2 hd
  whole d hd istate hmem hused hclient := by
    rcases mem_update hmem with hold | ⟨rfl, hnew⟩
    · exact h.whole d hd istate hold hused hclient
    · exact (hlist istate hnew).elim (fun hold => h.whole d hd istate hold hused hclient)
        fun hnew => absurd hnew.1 hclient.2

theorem Complete.mark {client : ℕ} (h : Complete configDevices (Without clients client) f) :
    Complete configDevices clients
      { f with haveReal := Function.update f.haveReal client true } where
  sized := h.sized
  whole device hdevice istate hmem hused hclient := by
    by_cases hsame : istate.clientNum = client
    · simp only [hsame, Function.update_self]
    · simp only [Function.update_of_ne hsame]
      exact h.whole device hdevice istate hmem hused ⟨hclient, hsame⟩

theorem Complete.without (h : Complete configDevices clients f) (client : ℕ) :
    Complete configDevices (Without clients client) f :=
  h.mono fun _ hother => hother.1

theorem Complete.setData {device k : ℕ} {data : List UInt32 → List UInt32}
    (h : Complete configDevices clients f)
    (hdata : device < 16 → ∀ old, old.length = deviceSize (configDevices device) →
      (data old).length = deviceSize (configDevices device)) :
    Complete configDevices clients (setData f device k data) where
  sized d hd istate hmem := by
    rcases mem_update hmem with hold | ⟨rfl, hnew⟩
    · exact h.sized d hd istate hold
    · rcases mem_modify_data hnew with hold | ⟨old, hold, rfl⟩
      · exact h.sized d hd istate hold
      · exact hdata hd old.data (h.sized d hd old hold)
  whole d hd istate hmem hused hclient := by
    rcases mem_update hmem with hold | ⟨rfl, hnew⟩
    · exact h.whole d hd istate hold hused hclient
    · rcases mem_modify_data hnew with hold | ⟨old, hold, rfl⟩
      · exact h.whole d hd istate hold hused hclient
      · exact h.whole d hd old hold hused hclient

/-- What completeness looks at. -/
def inputs (np : NetplayT σ) : (ℕ → DeltaFrame σ) × (ℕ → ℕ) × Bool × ℕ :=
  (np.buffer, np.configDevices, np.isServer, np.selfClientNum)

theorem Intact.of_inputs (h : Intact np) (hinputs : inputs np' = inputs np) : Intact np' := by
  obtain ⟨hbuffer, hrest⟩ := Prod.mk.inj hinputs
  obtain ⟨hconfig, hrest⟩ := Prod.mk.inj hrest
  obtain ⟨hserver, hself⟩ := Prod.mk.inj hrest
  have hremote : Remote np' = Remote np := by
    funext client
    rw [Remote, Remote, hserver, hself]
  constructor
  · rw [hbuffer, hconfig, hremote]
    exact h.complete
  · rw [hserver, hself]
    exact h.server

theorem inputs_of_frames (hframes : frames np' = frames np) : inputs np' = inputs np :=
  congrArg (fun s => s.2.2.2) hframes

theorem Intact.of_frames (h : Intact np) (hframes : frames np' = frames np) : Intact np' :=
  h.of_inputs (inputs_of_frames hframes)

theorem Intact.setFrame {ptr : ℕ} (h : Intact np)
    (hf : Complete np.configDevices (Remote np) f) : Intact (np.setFrame ptr f) := by
  refine ⟨fun k => ?_, h.server⟩
  by_cases hk : k = ptr
  · subst hk
    rw [NetplayT.setFrame_buffer]
    exact hf
  · have hother : (np.setFrame ptr f).buffer k = np.buffer k := by
      rw [NetplayT.setFrame]
      simp only [Function.update_of_ne hk]
    rw [hother]
    exact h.complete k

theorem Intact.frameReady {ptr frame : ℕ} (h : Intact np)
    (hready : np.frameReady ptr frame = some np') : Intact np' := by
  obtain ⟨f, hf, rfl⟩ := Option.map_eq_some_iff.mp hready
  exact h.setFrame ((h.complete ptr).ready hf)

/-- The input of one client is being put into one frame. -/
structure Filling (np : NetplayT σ) (ptr client : ℕ) : Prop where
  others : ∀ k, k ≠ ptr → Complete np.configDevices (Remote np) (np.buffer k)
  frame : Complete np.configDevices (Without (Remote np) client) (np.buffer ptr)
  server : np.isServer = true → np.selfClientNum = 0

variable {ptr client i : ℕ} {bytes : List UInt8}

theorem Intact.filling (h : Intact np) (ptr client : ℕ) : Filling np ptr client :=
  ⟨fun k _ => h.complete k, (h.complete ptr).without client, h.server⟩

theorem Filling.setFrame (h : Filling np ptr client)
    (hf : Complete np.configDevices (Without (Remote np) client) f) :
    Filling (np.setFrame ptr f) ptr client := by
  refine ⟨fun k hk => ?_, ?_, h.server⟩
  · have hother : (np.setFrame ptr f).buffer k = np.buffer k := by
      rw [NetplayT.setFrame]
      simp only [Function.update_of_ne hk]
    rw [hother]
    exact h.others k hk
  · rw [NetplayT.setFrame_buffer]
    exact hf

theorem Filling.intact_mark (h : Filling np ptr client) : Intact (markReal np ptr client) := by
  refine ⟨fun k => ?_, h.server⟩
  by_cases hk : k = ptr
  · subst hk
    rw [markReal, NetplayT.setFrame_buffer]
    exact h.frame.mark
  · have hother : (markReal np ptr client).buffer k = np.buffer k := by
      rw [markReal, NetplayT.setFrame]
      simp only [Function.update_of_ne hk]
    rw [hother]
    exact h.others k hk

theorem Filling.realStateFor {device : ℕ} (h : Filling np ptr client) (hdevice : device < 16) :
    ∃ k, (realStateFor np ptr device client).1 = some k ∧
      Filling (realStateFor np ptr device client).2 ptr client := by
  have hsize : np.expectedInputSize (1 <<< device) = deviceSize (np.configDevices device) :=
    netplayExpectedInputSize_single _ hdevice
  have hmade : Filling (Command.realStateFor np ptr device client).2 ptr client := by
    refine h.setFrame (h.frame.update fun istate hmem => ?_)
    rw [hsize] at hmem
    exact (mem_netplayInputStateFor hmem).imp_right fun hnew => ⟨hnew.1, fun _ => hnew.2⟩
  cases hentry : (Command.realStateFor np ptr device client).1 with
  | some k => exact ⟨k, rfl, hmade⟩
  | none =>
    obtain ⟨istate, hmem, -, -, hbad⟩ := netplayInputStateFor_none hentry
    rw [hsize] at hbad
    exact absurd (h.frame.sized device hdevice istate hmem) (hbad.resolve_left Bool.false_ne_true)

/-- The bytes of the input of some devices. -/
def bytesOf (configDevices : ℕ → ℕ) (devices : List ℕ) : ℕ :=
  (devices.map fun device => deviceSize (configDevices device)).sum * 4

theorem filling_copyInput {next : NetplayT σ → Outcome σ}
    (hnext : ∀ np, Filling np ptr client → Gives Intact (next np)) (devices : List ℕ)
    (hlt : ∀ device ∈ devices, device < 16) (h : Filling np ptr client)
    (harrived : Arrived np i bytes)
    (hbytes : bytesOf np.configDevices devices ≤ bytes.length) :
    Gives Intact (copyInput i ptr client next devices np) := by
  induction devices generalizing np bytes with
  | nil => exact hnext np h
  | cons device rest ih =>
    have hdevice := hlt device List.mem_cons_self
    have hsize : np.expectedInputSize (1 <<< device) = deviceSize (np.configDevices device) :=
      netplayExpectedInputSize_single _ hdevice
    obtain ⟨k, hk, hmade⟩ := h.realStateFor hdevice
    have hentry : Command.realStateFor np ptr device client =
        (some k, (Command.realStateFor np ptr device client).2) := Prod.ext hk rfl
    rw [copyInput, hentry]
    simp only
    generalize hnp : (Command.realStateFor np ptr device client).2 = made at hmade
    have hconfig : made.configDevices = np.configDevices := by
      rw [← hnp]
      rfl
    have harrived' : Arrived made i bytes := by
      rw [← hnp]
      exact ⟨harrived.lt, harrived.sound, harrived.rest⟩
    have hmine : made.expectedInputSize (1 <<< device) = deviceSize (np.configDevices device) := by
      rw [NetplayT.expectedInputSize, hconfig]
      exact hsize
    have hsum : bytesOf np.configDevices (device :: rest) =
        deviceSize (np.configDevices device) * 4 + bytesOf np.configDevices rest := by
      rw [bytesOf, bytesOf, List.map_cons, List.sum_cons, Nat.add_mul]
    rw [hsum] at hbytes
    rw [hmine]
    generalize hn : deviceSize (np.configDevices device) * 4 = n at hbytes
    have hlen : (bytes.take n).length = n := List.length_take_of_le (by omega)
    have hsplit : Arrived made i (bytes.take n ++ bytes.drop n) := by
      rw [List.take_append_drop]
      exact harrived'
    have hrecv := netplayRecv_full hsplit
    have hafter := hsplit.afterField
    rw [hlen] at hrecv hafter
    rw [hrecv]
    simp only
    refine ih (fun d hd => hlt d (List.mem_cons_of_mem _ hd)) ?_
      ⟨hafter.lt, hafter.sound, hafter.rest⟩ ?_
    · have hfilling : Filling (afterField made i n) ptr client :=
        ⟨hmade.others, hmade.frame, hmade.server⟩
      have hsame : (afterField made i n).configDevices = np.configDevices := hconfig
      refine hfilling.setFrame (hfilling.frame.setData fun _ _ _ => ?_)
      rw [hsame, List.length_map, ntohls, List.length_map, length_quads, hlen]
      omega
    · have hsame : (setEntry (afterField made i n) ptr device k
          fun _ => (ntohls (bytes.take n)).map UInt32.ofNat).configDevices =
          np.configDevices := hconfig
      rw [hsame, List.length_drop]
      omega

theorem receptive_intact : Receptive (Intact : NetplayT σ → Prop) where
  retape _ _ _ _ h := h.of_inputs rfl
  nak np i h := h.of_frames (frames_send np i _)

theorem inputs_advanceRead (np : NetplayT σ) (i ptr client : ℕ) :
    inputs (advanceRead np i ptr client) = inputs np := by
  simp only [advanceRead]
  split_ifs
  · exact (inputs_of_frames (frames_of_game (game_sendInputFrame _ _ _ _ _))).trans rfl
  · rfl
  · rfl

theorem intact_inputReceived (h : Filling np ptr client) :
    Gives Intact (inputReceived i ptr client np) := by
  have hread := h.intact_mark.of_inputs (inputs_advanceRead _ i ptr client)
  refine receptive_intact.done ?_ i
  rw [followServer]
  split_ifs
  · exact hread.of_inputs rfl
  · exact hread

theorem intact_dropWords (words : ℕ) (h : Intact np) : Gives Intact (dropWords i words np) := by
  induction words generalizing np with
  | zero => exact receptive_intact.done h i
  | succ words ih =>
    exact receptive_intact.recv h (fun np h => receptive_intact.refuse h i) fun _ np h => ih h

theorem intact_inputFrom {cmdSize frameNum clientNum : ℕ} (h : Intact np)
    (hall : takesInput np i cmdSize frameNum clientNum →
      Arrived np i bytes ∧ cmdSize ≤ 8 + bytes.length) :
    Gives Intact (inputFrom np i cmdSize frameNum clientNum) := by
  have hnak := receptive_intact.refuse h i
  simp only [inputFrom]
  split_ifs with hmode hmax hsize hclient hpast hfuture
  all_goals first
    | exact hnak
    | exact intact_dropWords _ h
    | skip
  cases hready : np.frameReady _ _ with
  | none => exact receptive_intact.shrt h i
  | some np' =>
    obtain ⟨f, hframe, hnp⟩ := Option.map_eq_some_iff.mp hready
    obtain ⟨harrived, hlen⟩ := hall (takesInput_of_checks hmode hsize hclient hpast hfuture
      (Option.isSome_iff_exists.mpr ⟨f, hframe⟩))
    have harrived' : Arrived np' i bytes := by
      rw [← hnp]
      exact ⟨harrived.lt, harrived.sound, harrived.rest⟩
    refine filling_copyInput (fun np h => intact_inputReceived h) _
      (fun device hdevice => (mem_devicesOf.mp hdevice).1) ((h.frameReady hready).filling _ _)
      harrived' ?_
    have hexact := not_not.mp hsize
    rw [NetplayT.expectedInputSize, netplayExpectedInputSize, Nat.add_mul] at hexact
    rw [← hnp]
    have hneed : bytesOf np.configDevices
        (devicesOf (np.roster.clientDevices (inputClient np i clientNum))) ≤ bytes.length := by
      rw [bytesOf]
      omega
    exact hneed

theorem Intact.of_game (h : Intact np) (hgame : game np' = game np) : Intact np' :=
  h.of_frames (frames_of_game hgame)

theorem Intact.congrFrame {ptr : ℕ} (h : Intact np) (hreal : f.realInput = (np.buffer ptr).realInput)
    (hhave : f.haveReal = (np.buffer ptr).haveReal) : Intact (np.setFrame ptr f) :=
  h.setFrame ((h.complete ptr).congr hreal hhave)

theorem filling_zeroInput {devices : ℕ} (h : Filling np ptr client) :
    Filling (zeroInput np ptr client devices) ptr client := by
  rw [zeroInput]
  refine List.foldlRecOn (motive := fun np : NetplayT σ => Filling np ptr client) _ _ h
    fun np h device hmem => ?_
  obtain ⟨k, hk, hmade⟩ := h.realStateFor (mem_devicesOf.mp hmem).1
  rcases hentry : Command.realStateFor np ptr device client with ⟨_ | j, np'⟩
  · rw [hentry] at hmade
    exact hmade
  · rw [hentry] at hmade
    refine hmade.setFrame (hmade.frame.setData fun _ old hold => ?_)
    rw [List.length_replicate, hold]

theorem intact_sendPastFrame (i : ℕ) (devices : ℕ) (h : Intact np) :
    Intact (sendPastFrame np i ptr client devices) := by
  have hzero : Filling (zeroInput np ptr client devices) ptr client :=
    filling_zeroInput (h.filling ptr client)
  have hlocal : Filling ((zeroInput np ptr client devices).setFrame ptr
      { (zeroInput np ptr client devices).buffer ptr with haveLocal := true }) ptr client :=
    hzero.setFrame (hzero.frame.congr rfl rfl)
  exact hlocal.intact_mark.of_game (game_sendInputFrameOnly _ _ _ _ _)

theorem intact_modeYouPlay {frame clientNum devices : ℕ} {slave : Bool} (h : Intact np) :
    Gives Intact (modeYouPlay np i frame clientNum devices slave) := by
  have hnak := receptive_intact.refuse h i
  have hplayer : Intact (becomePlayer np clientNum devices slave) := h.of_inputs rfl
  simp only [modeYouPlay]
  split_ifs
  · exact hnak
  · exact hnak
  · exact Gives.bind fun np' hsent =>
      receptive_intact.done
        (sendPastFrames_keeps (fun _ _ => intact_sendPastFrame i devices) _ _ hplayer hsent) i
  · refine Gives.bind fun (ready, np') hskip => ?_
    have hskipped := skipToFrame_keeps (fun _ _ _ _ h => h.frameReady)
      (fun _ _ h => h.congrFrame rfl rfl) _ _ _ hplayer hskip
    cases ready with
    | false => exact receptive_intact.refuse hskipped i
    | true => exact receptive_intact.done hskipped i

theorem intact_modeFrom {payload : List UInt8} (h : Intact np) :
    Gives Intact (modeFrom np i payload) := by
  have hmode : Intact (modeReceived np ((ntohls payload).getD 0 0) payload) := h.of_inputs rfl
  have hstop : ∀ client, Intact
      (stopPlaying (modeReceived np ((ntohls payload).getD 0 0) payload) client) :=
    fun client => hmode.of_inputs rfl
  have hstart : ∀ client devices, Intact
      (startPlaying (modeReceived np ((ntohls payload).getD 0 0) payload) client devices) :=
    fun client devices => hmode.of_inputs rfl
  simp only [modeFrom]
  split_ifs
  · refine receptive_intact.refuse ?_ i
    exact h.of_inputs rfl
  · exact intact_modeYouPlay hmode
  · exact receptive_intact.refuse hmode i
  · exact receptive_intact.done (hstop _) i
  · exact receptive_intact.refuse hmode i
  · exact receptive_intact.done (hstart _ _) i
  · exact receptive_intact.done (hstop _) i

theorem intact_tryInit (pf : Platform σ) (h : Intact np) :
    Intact (netplayTryInitSerialization pf np).2 := by
  simp only [netplayTryInitSerialization]
  split_ifs
  · exact h
  · exact h
  · cases pf.serialize np.core with
    | none => exact h.of_inputs rfl
    | some s =>
      have hstate : Intact (np.setFrame np.cursors.run.ptr
          { np.buffer np.cursors.run.ptr with state := some s }) := h.congrFrame rfl rfl
      exact hstate.of_inputs rfl

theorem intact_waitAndInit (pf : Platform σ) (frames : ℕ) (h : Intact np) :
    Intact (netplayWaitAndInitSerialization pf frames np) :=
  waitAndInit_kept (fun _ h => intact_tryInit pf h)
    (fun np' h => h.of_frames (frames_coreRun pf np')) frames h

theorem intact_initForLoad (pf : Platform σ) (h : Intact np) : Intact (initForLoad pf np) := by
  have hreplay : Intact ({ np with
      isReplay := true, cursors := { np.cursors with replay := np.cursors.run } } : NetplayT σ) :=
    h.of_inputs rfl
  simp only [initForLoad]
  split_ifs
  · exact intact_waitAndInit pf 60 h
  · exact (intact_waitAndInit pf 60 hreplay).of_inputs rfl
  · exact h

theorem intact_loadAt {load : Cursor} {reset : Bool} (h : Intact np) :
    Gives Intact (loadAt np i load reset) := by
  rw [loadAt]
  split_ifs
  · exact Gives.none
  · refine receptive_intact.done ?_ i
    exact h.of_inputs rfl

theorem intact_receiveSavestate {pf : Platform σ} {cmdSize : ℕ} {load : Cursor} (h : Intact np) :
    Gives Intact (receiveSavestate pf i cmdSize load np) := by
  have hrefuse : ∀ np : NetplayT σ, Intact np → Gives Intact (nak np i) :=
    fun np h => receptive_intact.refuse h i
  refine receptive_intact.recv h hrefuse fun isize np h => ?_
  split_ifs
  · exact hrefuse np h
  · refine receptive_intact.recv h hrefuse fun zdata np h => intact_loadAt ?_
    have hstate : Intact (np.setFrame load.ptr { np.buffer load.ptr with
        state := pf.inflate (np.connection i).compressionSupported zdata
          (np.buffer load.ptr).state }) := h.congrFrame rfl rfl
    exact hstate.of_inputs rfl

theorem intact_getLoad {pf : Platform σ} {cmdSize : ℕ} {reset : Bool} (h : Intact np) :
    Gives Intact (getLoad pf np i cmdSize reset) := by
  have hrefuse : ∀ np : NetplayT σ, Intact np → Gives Intact (nak np i) :=
    fun np h => receptive_intact.refuse h i
  have hinit := intact_initForLoad pf h
  simp only [getLoad]
  split_ifs
  · exact hrefuse _ hinit
  · exact hrefuse _ hinit
  · exact hrefuse _ hinit
  refine receptive_intact.recv hinit hrefuse fun frame np h => ?_
  simp only
  split_ifs
  · exact hrefuse np h
  cases hready : np.frameReady (loadCursor np i).ptr (loadCursor np i).frameCount with
  | none => exact receptive_intact.shrt h i
  | some np' =>
    have h' := h.frameReady hready
    cases reset with
    | true =>
      refine intact_loadAt ?_
      exact h'.of_inputs rfl
    | false => exact intact_receiveSavestate h'

theorem intact_handlePlay {settings : Settings} {clientNum request : ℕ} {connection : Option ℕ}
    (h : Intact np) (hplay : handlePlay settings np clientNum connection request = some np') :
    Intact np' := by
  rw [handlePlay] at hplay
  split_ifs at hplay with hclient
  obtain rfl := Option.some.inj hplay
  have hread : Intact (np.setRead clientNum (playStart np connection)) := h.of_inputs rfl
  refine hread.of_frames ?_
  split_ifs with hdevices
  · exact frames_playDevices _ _ _ _ _ _ _
  · exact frames_playAny _ _ _ _ _ _

theorem intact_handleCmd {pf : Platform σ} {settings : Settings} {cmd cmdSize : ℕ} (h : Intact np)
    (hinput : cmd = 0x0003 → Gives Intact (getInput np i cmdSize)) :
    Gives Intact (handleCmd pf settings np i cmd cmdSize) := by
  have hP : Receptive (Intact : NetplayT σ → Prop) := receptive_intact
  have hrefuse : ∀ np : NetplayT σ, Intact np → Gives Intact (nak np i) :=
    fun np h => hP.refuse h i
  unfold handleCmd
  split
  case h_1 => exact hP.done h i
  case h_2 => exact Receptive.refused h
  case h_3 => exact Gives.some (h.of_game (game_hangup np i))
  case h_4 => exact hinput rfl
  case h_5 =>
    rw [getNoinput]
    split_ifs
    · exact hrefuse np h
    refine hP.recv h hrefuse fun frame np h => ?_
    simp only
    split_ifs
    · exact hP.done h i
    · exact hrefuse np h
    · refine hP.done ?_ i
      exact h.of_inputs rfl
  case h_6 =>
    simp only [getSpectate]
    split_ifs
    · exact hrefuse np h
    · exact hrefuse np h
    · exact hrefuse np h
    · exact hP.done (h.of_frames (frames_handleSpectate np _ _)) i
  case h_7 =>
    rw [getPlay]
    split_ifs
    · exact hrefuse np h
    refine hP.recv h hrefuse fun payload np h => ?_
    have hrefused : ∀ reason, Intact (refuseMode np (some i) reason) :=
      fun reason => h.of_frames (frames_refuseMode np (some i) reason)
    simp only
    split_ifs
    · exact hrefuse np h
    · exact hP.done (hrefused _) i
    · exact hP.done (hrefused _) i
    · exact hrefuse np h
    · exact Gives.bind fun np' hplay => hP.done (intact_handlePlay h hplay) i
  case h_8 =>
    rw [getMode]
    split_ifs
    · exact hrefuse np h
    · exact hrefuse np h
    · exact hP.recv h hrefuse fun _ np h => intact_modeFrom h
  case h_9 =>
    rw [getModeRefused]
    split_ifs
    · exact hrefuse np h
    · exact hrefuse np h
    · exact hP.recv h hrefuse fun _ np h => hP.done h i
  case h_10 =>
    rw [getCrc]
    split_ifs
    · exact hrefuse np h
    refine hP.recv h hrefuse fun payload np h => ?_
    simp only
    cases (crcPointers np).find? _ with
    | none => exact hP.done h i
    | some ptr =>
      simp only
      split_ifs
      · exact hP.done (h.of_frames (frames_requestSavestate np)) i
      · exact hP.done h i
      · refine hP.done ?_ i
        exact h.congrFrame rfl rfl
  case h_11 =>
    refine hP.done ?_ i
    exact h.of_inputs rfl
  case h_12 => exact intact_getLoad h
  case h_13 => exact intact_getLoad h
  case h_14 =>
    rw [getPause]
    split_ifs
    · exact hrefuse np h
    refine hP.recv h hrefuse fun _ np h => ?_
    simp only
    split_ifs
    · exact hP.done h i
    · refine hP.done (h.of_frames ?_) i
      exact (frames_sendFlushAll _ _).trans (frames_sendAll _ _ _)
    · refine hP.done ?_ i
      exact h.of_inputs rfl
  case h_15 => exact hP.done (h.of_game (game_remoteUnpaused np i)) i
  case h_16 =>
    rw [getStall]
    split_ifs
    · exact hrefuse np h
    refine hP.recv h hrefuse fun payload np h => ?_
    simp only
    split_ifs
    · exact hrefuse np h
    · refine hP.done ?_ i
      exact h.of_inputs rfl
    · exact hP.done h i
  case h_17 => exact hrefuse np h

theorem intact_finishHandshake {nick sram : List UInt8} (h : Intact np) :
    Gives Intact (finishHandshake np i nick sram) := by
  have hnick : Intact (np.setConnection i fun c => { c with nick := nick }) := h.of_inputs rfl
  exact gives_finishHandshake (hnick.of_frames (frames_handshakeSync _ i sram))
    fun np' h' => h'.of_game (game_netplaySendCurInput np' i)

theorem intact_handshake (hs : Handshake) (h : Intact np) :
    Gives Intact (netplayHandshake np i hs) := by
  cases hs with
  | fail => exact Receptive.refused h
  | wait => exact Gives.some h
  | proceed nick canPlay compression sram =>
    have hflushed : Intact (netplayRecvFlush np i) := h.of_inputs rfl
    simp only [netplayHandshake]
    split
    · refine Gives.some ?_
      split_ifs <;> exact hflushed.of_inputs rfl
    · exact Gives.some (hflushed.of_inputs rfl)
    · exact Gives.some (hflushed.of_inputs rfl)
    · exact intact_finishHandshake hflushed
    · exact Receptive.refused hflushed

theorem intact_recv {n : ℕ} {fail : NetplayT σ → Outcome σ}
    {next : List UInt8 → NetplayT σ → Outcome σ} (h : Intact np)
    (hfail : ∀ np, Intact np → Gives Intact (fail np))
    (hnext : n ≤ (unread np i).length → Gives Intact
      (next ((unread np i).take n) (afterField np i n))) :
    Gives Intact (RECV np i n fail next) := by
  by_cases hfault : (np.connection i).recvFaults.headD false = true
  · rw [RECV, netplayRecv, if_pos hfault]
    exact hfail _ (h.of_inputs rfl)
  · rw [RECV, netplayRecv, if_neg hfault]
    by_cases hshort : ((np.connection i).recvPacketBuffer.read n).1.length < n
    · simp only [if_pos hshort]
      refine receptive_intact.shrt ?_ i
      exact h.of_inputs rfl
    · simp only [if_neg hshort]
      rw [Tape.length_read, ← unread] at hshort
      exact hnext (by omega)

theorem lt_of_unread {n : ℕ} (hn : 0 < n) (h : n ≤ (unread np i).length) :
    i < np.connections.length := by
  by_contra hout
  have hnone : np.connection i = Connection.zero := by
    rw [NetplayT.connection, List.getD_eq_default _ _ (Nat.le_of_not_lt hout)]
  rw [unread, hnone] at h
  have hempty : (Connection.zero.recvPacketBuffer.rest).length = 0 := rfl
  omega

theorem unread_afterField {n : ℕ} (h : i < np.connections.length) :
    unread (afterField np i n) i = (unread np i).drop n := by
  rw [unread, afterField, connection_retape h]
  exact Tape.read_rest _ _

theorem faults_afterField {n : ℕ} (h : i < np.connections.length) :
    ((afterField np i n).connection i).recvFaults = (np.connection i).recvFaults.tail := by
  rw [afterField, connection_retape h]

theorem intact_getInput {cmdSize : ℕ} (h : Intact np)
    (hall : 8 ≤ (unread np i).length →
      takesInput np i cmdSize (wordAt 0 (unread np i)) (wordAt 1 (unread np i)) →
        cmdSize ≤ (unread np i).length ∧ true ∉ (np.connection i).recvFaults) :
    Gives Intact (getInput np i cmdSize) := by
  rw [getInput]
  split_ifs
  · exact receptive_intact.refuse h i
  refine intact_recv h (fun np h => Receptive.refused h) fun hframe => ?_
  have hlt := lt_of_unread (by decide) hframe
  have hlt' : i < (afterField np i 4).connections.length := by
    rw [afterField, NetplayT.retape, NetplayT.setConnection_length]
    exact hlt
  have hafter : Intact (afterField np i 4) := h.of_inputs rfl
  refine intact_recv hafter (fun np h => Receptive.refused h) fun hclient => ?_
  have hboth : Intact (afterField (afterField np i 4) i 4) := h.of_inputs rfl
  rw [unread_afterField hlt] at hclient ⊢
  rw [List.length_drop] at hclient
  have hinput : takesInput (afterField (afterField np i 4) i 4) i cmdSize
        (wordAt 0 (unread np i)) (wordAt 1 (unread np i)) →
      Arrived (afterField (afterField np i 4) i 4) i ((unread np i).drop 8) ∧
        cmdSize ≤ 8 + ((unread np i).drop 8).length := by
    intro htakes
    rw [takesInput_afterField, takesInput_afterField] at htakes
    obtain ⟨hlen, hsound⟩ := hall (by omega) htakes
    refine ⟨⟨?_, ?_, ?_⟩, ?_⟩
    · rw [afterField, NetplayT.retape, NetplayT.setConnection_length]
      exact hlt'
    · rw [faults_afterField hlt', faults_afterField hlt]
      intro fault hfault
      have hmem := List.mem_of_mem_tail (List.mem_of_mem_tail hfault)
      exact Bool.eq_false_iff.mpr fun htrue => hsound (htrue ▸ hmem)
    · rw [← unread, unread_afterField hlt', unread_afterField hlt, List.drop_drop]
    · rw [List.length_drop]
      omega
  exact intact_inputFrom hboth hinput

theorem intact_getCmd {pf : Platform σ} {settings : Settings} (hs : Handshake) (h : Intact np)
    (hcut : ¬CutsInput np i) : Gives Intact (netplayGetCmd pf settings hs np i) := by
  rw [netplayGetCmd]
  split_ifs
  · exact intact_handshake hs h
  refine intact_recv h (fun np h => Receptive.refused h) fun hcmd => ?_
  have hlt := lt_of_unread (by decide) hcmd
  have hlt' : i < (afterField np i 4).connections.length := by
    rw [afterField, NetplayT.retape, NetplayT.setConnection_length]
    exact hlt
  have hafter : Intact (afterField np i 4) := h.of_inputs rfl
  refine intact_recv hafter (fun np h => Receptive.refused h) fun hsize => ?_
  have hboth : Intact (afterField (afterField np i 4) i 4) := h.of_inputs rfl
  rw [unread_afterField hlt] at hsize ⊢
  rw [List.length_drop] at hsize
  refine intact_handleCmd hboth fun hinput => intact_getInput hboth fun hlong htakes => ?_
  rw [takesInput_afterField, takesInput_afterField, unread_afterField hlt', unread_afterField hlt,
    List.drop_drop] at htakes
  rw [unread_afterField hlt', unread_afterField hlt, List.drop_drop, List.length_drop] at hlong ⊢
  rw [faults_afterField hlt', faults_afterField hlt]
  have hframe : ∀ k, wordAt k ((unread np i).drop (4 + 4)) = wordAt (k + 2) (unread np i) := by
    intro k
    rw [wordAt, wordAt, List.drop_drop]
    congr 3
    omega
  rw [hframe 0, hframe 1] at htakes
  by_contra hnot
  refine hcut ⟨by omega, hinput, htakes, ?_⟩
  by_contra hneither
  obtain ⟨hlen, hsound⟩ := not_or.mp hneither
  refine hnot ⟨?_, fun hmem => hsound (List.mem_of_mem_tail (List.mem_of_mem_tail hmem))⟩
  have hword : ntohl (List.take 4 (List.drop 4 (unread np i))) = wordAt 1 (unread np i) := rfl
  rw [hword]
  omega

end RetroArch.Netplay.WholeInput
