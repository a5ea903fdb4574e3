/- INPUT on the wire: what `send_input_frame` writes and what `netplay_get_cmd` reads of it. -/

import RetroArch.Netplay.Command

namespace RetroArch.Netplay.InputWire

open Library.Bits Library.Bytes Delta State Io Messaging Reading Command

variable {σ : Type} {dframe : DeltaFrame σ} {key : ℕ}

/-- The words a client has for a device. -/
def wordsOf (dframe : DeltaFrame σ) (key device : ℕ) : List UInt32 :=
  ((usedOf (dframe.realInput device) key).map InputState.data).getD []

/-- The client has input of the expected size for a device. -/
def HasInput (configDevices : ℕ → ℕ) (dframe : DeltaFrame σ) (key device : ℕ) : Prop :=
  ∃ istate, usedOf (dframe.realInput device) key = some istate ∧
    istate.size = deviceSize (configDevices device)

/-- The words of a list of devices. -/
def sizeOf (configDevices : ℕ → ℕ) (devices : List ℕ) : ℕ :=
  (devices.map fun device => deviceSize (configDevices device)).sum

theorem length_addDevice_le (devices : List ℕ) {words : List UInt32} (h : words.length ≤ 11) :
    (devices.foldl (addDevice dframe key) words).length ≤ 11 := by
  refine List.foldlRecOn (motive := fun words : List UInt32 => words.length ≤ 11) _ _ h
    fun words hwords device _ => ?_
  rw [addDevice]
  cases usedOf (dframe.realInput device) key with
  | none => exact hwords
  | some istate =>
    by_cases hfull : 16 ≤ 4 + words.length + istate.size
    · simpa only [if_pos hfull] using hwords
    · simp only [if_neg hfull, List.length_append]
      rw [InputState.size] at hfull
      omega

theorem addDevice_fits {configDevices : ℕ → ℕ} (devices : List ℕ) {words : List UInt32}
    (hinput : ∀ device ∈ devices, HasInput configDevices dframe key device)
    (h : words.length + sizeOf configDevices devices ≤ 11) :
    devices.foldl (addDevice dframe key) words =
      words ++ devices.flatMap (wordsOf dframe key) := by
  induction devices generalizing words with
  | nil => simp
  | cons device rest ih =>
    obtain ⟨istate, husedOf, hsize⟩ := hinput device List.mem_cons_self
    have hdata : istate.data.length = deviceSize (configDevices device) := hsize
    have hwords : wordsOf dframe key device = istate.data := by
      rw [wordsOf, husedOf]
      rfl
    have hsum : sizeOf configDevices (device :: rest) =
        istate.data.length + sizeOf configDevices rest := by
      rw [sizeOf, List.map_cons, List.sum_cons, hdata, sizeOf]
    have hroom : ¬16 ≤ 4 + words.length + istate.size := by
      rw [InputState.size]
      omega
    have hadd : addDevice dframe key words device = words ++ istate.data := by
      simp only [addDevice, husedOf, if_neg hroom]
    rw [List.foldl_cons, hadd, ih (fun d hd => hinput d (List.mem_cons_of_mem _ hd)),
      List.flatMap_cons, hwords, List.append_assoc]
    rw [List.length_append]
    omega

theorem length_flatMap_wordsOf {configDevices : ℕ → ℕ} (devices : List ℕ)
    (hinput : ∀ device ∈ devices, HasInput configDevices dframe key device) :
    (devices.flatMap (wordsOf dframe key)).length = sizeOf configDevices devices := by
  rw [List.length_flatMap, sizeOf]
  congr 1
  refine List.map_congr_left fun device hdevice => ?_
  obtain ⟨istate, husedOf, hsize⟩ := hinput device hdevice
  rw [wordsOf, husedOf]
  exact hsize

theorem ntohls_htonl (words : List UInt32) :
    (ntohls (words.flatMap fun w => htonl w.toNat)).map UInt32.ofNat = words := by
  rw [ntohls, quads_flatMap _ _ fun w => length_htonl _, List.map_map, List.map_map]
  refine List.map_id'' (fun w => ?_) words
  rw [Function.comp_apply, Function.comp_apply, ntohl_htonl w.toNat_lt, UInt32.ofNat_toNat]

/-- The bytes of a device's words. -/
def wire (words : List UInt32) : List UInt8 := words.flatMap fun w => htonl w.toNat

theorem length_wire (words : List UInt32) : (wire words).length = words.length * 4 := by
  induction words with
  | nil => rfl
  | cons w words ih =>
    rw [wire, List.flatMap_cons, List.length_append, length_htonl, List.length_cons]
    rw [wire] at ih
    omega

variable {np : NetplayT σ} {i ptr clientNum : ℕ} {more : List UInt8}

/-- The client's entries at `ptr` have the size that is expected of their devices. -/
def WellSized (np : NetplayT σ) (ptr clientNum : ℕ) (devices : List ℕ) : Prop :=
  ∀ device ∈ devices, ∀ istate, usedOf ((np.buffer ptr).realInput device) clientNum = some istate →
    istate.size = deviceSize (np.configDevices device)

/-- Once a device's words have arrived they are copied into the client's entry for it. -/
theorem copyInput_device (next : NetplayT σ → Outcome σ) {device : ℕ} (rest : List ℕ)
    {words : List UInt32} (hlt : device < 16)
    (hwords : words.length = deviceSize (np.configDevices device))
    (hsize : ∀ istate, usedOf ((np.buffer ptr).realInput device) clientNum = some istate →
      istate.size = deviceSize (np.configDevices device))
    (harrived : Arrived np i (wire words ++ more)) :
    ∃ f tape faults, copyInput i ptr clientNum next (device :: rest) np =
        copyInput i ptr clientNum next rest ((np.setFrame ptr f).retape i tape faults) ∧
      Arrived ((np.setFrame ptr f).retape i tape faults) i more ∧
      f.frame = (np.buffer ptr).frame ∧
      usedOf (f.realInput device) clientNum = some ⟨true, clientNum, words⟩ ∧
      ∀ d, d ≠ device → f.realInput d = (np.buffer ptr).realInput d := by
  have hdsize : np.expectedInputSize (1 <<< device) = deviceSize (np.configDevices device) :=
    netplayExpectedInputSize_single _ hlt
  rw [← hdsize] at hsize
  obtain ⟨k, state, hk, -, -, hnum, hused, hdata⟩ := netplayInputStateFor_spec _ hsize
  have hlen : (wire words).length = np.expectedInputSize (1 <<< device) * 4 := by
    rw [length_wire, hwords, hdsize]
  generalize hlist : (netplayInputStateFor ((np.buffer ptr).realInput device) clientNum
    (np.expectedInputSize (1 <<< device)) false false).2 = list at hdata
  let made : DeltaFrame σ := { np.buffer ptr with
    realInput := Function.update (np.buffer ptr).realInput device list }
  have hmade : Arrived (np.setFrame ptr made) i (wire words ++ more) :=
    ⟨harrived.lt, harrived.sound, harrived.rest⟩
  have hrecv := netplayRecv_full hmade
  have hafter := hmade.afterField
  rw [hlen] at hrecv hafter
  have hstate : netplayInputStateFor ((np.buffer ptr).realInput device) clientNum
      (np.expectedInputSize (1 <<< device)) false false = (some k, list) :=
    Prod.ext hk hlist
  have hentry : realStateFor np ptr device clientNum = (some k, np.setFrame ptr made) := by
    simp only [realStateFor, hstate]
    rfl
  refine ⟨setData made device k fun _ => words, _, _, ?_, ⟨hafter.lt, hafter.sound, hafter.rest⟩,
    rfl, ?_, ?_⟩
  · rw [copyInput, hentry]
    simp only
    rw [show (np.setFrame ptr made).expectedInputSize = np.expectedInputSize from rfl, hrecv]
    simp only [wire, ntohls_htonl, afterField, setEntry, retape_setFrame, NetplayT.retape_buffer,
      NetplayT.setFrame_buffer, NetplayT.setFrame_setFrame]
  · have hfound := hdata words
    rw [hused, hnum] at hfound
    rw [setData]
    simp only [made, Function.update_self]
    exact hfound
  · intro d hd
    rw [setData]
    simp only [made, Function.update_of_ne hd]

/-- Once all of a client's words have arrived they are copied in, device after device. -/
theorem copyInput_arrived (next : NetplayT σ → Outcome σ) (words : ℕ → List UInt32)
    (devices : List ℕ) (hnodup : devices.Nodup) (hlt : ∀ device ∈ devices, device < 16)
    (hwords : ∀ device ∈ devices, (words device).length = deviceSize (np.configDevices device))
    (hsize : WellSized np ptr clientNum devices)
    (harrived : Arrived np i (devices.flatMap (fun device => wire (words device)) ++ more)) :
    ∃ f tape faults, copyInput i ptr clientNum next devices np =
        next ((np.setFrame ptr f).retape i tape faults) ∧
      f.frame = (np.buffer ptr).frame ∧
      (∀ device ∈ devices,
        usedOf (f.realInput device) clientNum = some ⟨true, clientNum, words device⟩) ∧
      ∀ device, device ∉ devices → f.realInput device = (np.buffer ptr).realInput device := by
  induction devices generalizing np with
  | nil =>
    refine ⟨np.buffer ptr, (np.connection i).recvPacketBuffer, (np.connection i).recvFaults,
      ?_, rfl, by simp, fun _ _ => rfl⟩
    rw [NetplayT.setFrame_self, retape_self]
    rfl
  | cons device rest ih =>
    obtain ⟨hhead, hnodup⟩ := List.nodup_cons.mp hnodup
    rw [List.flatMap_cons, List.append_assoc] at harrived
    obtain ⟨g, tape, faults, hstep, harrived, hgframe, hgin, hgout⟩ := copyInput_device next rest
      (hlt device List.mem_cons_self) (hwords device List.mem_cons_self)
      (hsize device List.mem_cons_self) harrived
    have hsize' : WellSized ((np.setFrame ptr g).retape i tape faults) ptr clientNum rest := by
      intro d hd istate hi
      rw [NetplayT.retape_buffer, NetplayT.setFrame_buffer,
        hgout d (ne_of_mem_of_not_mem hd hhead)] at hi
      exact hsize d (List.mem_cons_of_mem _ hd) istate hi
    obtain ⟨f, tape', faults', hcopy, hframe, hin, hout⟩ :=
      @ih ((np.setFrame ptr g).retape i tape faults) hnodup
      (fun d hd => hlt d (List.mem_cons_of_mem _ hd))
      (fun d hd => hwords d (List.mem_cons_of_mem _ hd)) hsize' harrived
    rw [NetplayT.retape_buffer, NetplayT.setFrame_buffer] at hframe hout
    refine ⟨f, tape', faults', ?_, hframe.trans hgframe, ?_, ?_⟩
    · rw [hstep, hcopy, retape_setFrame, NetplayT.setFrame_setFrame, retape_retape]
    · intro d hd
      rcases List.mem_cons.mp hd with rfl | hd
      · rw [hout d hhead]
        exact hgin
      · exact hin d hd
    · intro d hd
      rw [List.mem_cons, not_or] at hd
      rw [hout d hd.2, hgout d hd.1]

/-- A peer that shares the sender's devices and has the client's frame `frame` to read next on
its connection `i`. -/
structure Reader (np peer : NetplayT σ) (i clientNum frame : ℕ) : Prop where
  lt : clientNum < MAX_CLIENTS
  configDevices : peer.configDevices = np.configDevices
  clientDevices : peer.roster.clientDevices clientNum = np.roster.clientDevices clientNum
  connected : peer.roster.connectedPlayers.testBit clientNum = true
  mode : (peer.connection i).mode = .playing ∨ (peer.connection i).mode = .slave
  own : peer.isServer = true → i + 1 = clientNum
  next : (peer.cursors.read clientNum).frameCount = frame
  sized : WellSized peer (peer.cursors.read clientNum).ptr clientNum
    (devicesOf (np.roster.clientDevices clientNum))

variable {peer : NetplayT σ} {frame : ℕ}

theorem Reader.afterField (h : Reader np peer i clientNum frame) (n : ℕ) :
    Reader np (afterField peer i n) i clientNum frame where
  lt := h.lt
  configDevices := h.configDevices
  clientDevices := h.clientDevices
  connected := h.connected
  mode := by
    rw [Reading.afterField, mode_retape]
    exact h.mode
  own := h.own
  next := h.next
  sized := h.sized

theorem Reader.inputFrom (h : Reader np peer i clientNum frame) (cmdSize : ℕ) :
    inputFrom peer i cmdSize frame clientNum =
      let devices := np.roster.clientDevices clientNum
      let ptr := (peer.cursors.read clientNum).ptr
      if cmdSize ≠ (2 + np.expectedInputSize devices) * 4 then nak peer i
      else
        match peer.frameReady ptr frame with
        | none => shrt peer i
        | some peer => copyInput i ptr clientNum (inputReceived i ptr clientNum)
            (devicesOf devices) peer := by
  have hlt : clientNum < 32 := h.lt
  have hclient : inputClient peer i clientNum = clientNum := by
    rw [inputClient]
    split_ifs with hserver
    · exact h.own hserver
    · omega
  have hfits : ¬32 < clientNum := by omega
  have hvalid : ¬(32 ≤ clientNum ∨ False) := by
    rw [or_false]
    omega
  have hplays : ¬(peer.isServer = true ∧ (peer.connection i).mode ≠ .playing ∧
      (peer.connection i).mode ≠ .slave) := by
    rintro ⟨-, hplaying, hslave⟩
    exact h.mode.elim hplaying hslave
  have hexpected : peer.expectedInputSize (peer.roster.clientDevices clientNum) =
      np.expectedInputSize (np.roster.clientDevices clientNum) := by
    rw [NetplayT.expectedInputSize, NetplayT.expectedInputSize, h.configDevices, h.clientDevices]
  rw [h.clientDevices] at hexpected
  simp only [Command.inputFrom, if_neg hplays, hclient, if_neg hfits, h.clientDevices, hexpected,
    h.connected, Bool.true_eq_false, if_neg hvalid, h.next, lt_irrefl, and_false, if_false] <;> rfl

theorem advanceRead_buffer (np : NetplayT σ) (i ptr clientNum : ℕ) :
    (advanceRead np i ptr clientNum).buffer = np.buffer := by
  simp only [advanceRead]
  split_ifs
  · rw [buffer_of_game (game_sendInputFrame _ _ _ _ _)]
    rfl
  · rfl
  · rfl

theorem followServer_buffer (np : NetplayT σ) (clientNum : ℕ) :
    (followServer np clientNum).buffer = np.buffer := by
  rw [followServer]
  split_ifs <;> rfl

theorem inputReceived_handled (np : NetplayT σ) (i ptr clientNum : ℕ) :
    ∃ np', inputReceived i ptr clientNum np = some (.handled, np') ∧
      (np'.buffer ptr).realInput = (np.buffer ptr).realInput := by
  refine ⟨_, rfl, ?_⟩
  rw [netplayRecvFlush, NetplayT.retape_buffer, followServer_buffer, advanceRead_buffer, markReal,
    NetplayT.setFrame_buffer]

/-- The key under which the input of a client is kept. -/
def inputKey (clientNum : ℕ) (slave : Bool) : ℕ := if slave then MAX_CLIENTS else clientNum

/-- The words the encoder sends. -/
def sent (np : NetplayT σ) (dframe : DeltaFrame σ) (clientNum : ℕ) (slave : Bool) : List UInt32 :=
  (devicesOf (np.roster.clientDevices clientNum)).foldl
    (addDevice dframe (inputKey clientNum slave)) []

theorem encode_input (frame clientNum : ℕ) (words : List UInt32) :
    (Message.input frame clientNum words).encode = htonl 0x0003 ++
      (htonl ((2 + words.length) * 4) ++ (htonl frame ++ (htonl clientNum ++ wire words))) := by
  have hlen : (Message.input frame clientNum words).payload.length = (2 + words.length) * 4 := by
    have hwire := length_wire words
    rw [wire] at hwire
    simp only [Message.payload, List.length_append, length_htonl, hwire]
    omega
  rw [Message.encode, hlen]
  simp only [Message.cmd, Message.payload, wire, List.append_assoc]

/-- INPUT reaches its handler word for word. -/
theorem netplayGetCmd_input (pf : Platform σ) (settings : Settings) (hs : Handshake)
    {words : List UInt32} (hpeer : Reader np peer i clientNum frame) (hframe : frame < 2 ^ 32)
    (hwords : words.length ≤ 11)
    (harrived : Arrived peer i ((Message.input frame clientNum words).encode ++ more)) :
    ∃ peer', Reader np peer' i clientNum frame ∧ Arrived peer' i (wire words ++ more) ∧
      peer'.buffer = peer.buffer ∧ peer'.cursors = peer.cursors ∧
      netplayGetCmd pf settings hs peer i =
        inputFrom peer' i ((2 + words.length) * 4) frame clientNum := by
  have hlt : clientNum < 32 := hpeer.lt
  have hready : (peer.connection i).mode.ready = true := by
    rcases hpeer.mode with hmode | hmode <;> rw [hmode] <;> rfl
  rw [encode_input] at harrived
  simp only [List.append_assoc] at harrived
  have hcmd := harrived.afterField
  have hsize := hcmd.afterField
  have hnum := hsize.afterField
  have hclient := hnum.afterField
  simp only [length_htonl] at hcmd hsize hnum hclient
  refine ⟨_, (((hpeer.afterField 4).afterField 4).afterField 4).afterField 4, hclient, rfl, rfl, ?_⟩
  rw [netplayGetCmd, if_neg (by rw [hready]; exact Bool.noConfusion),
    RECV_full harrived (length_htonl _), RECV_full hcmd (length_htonl _),
    ntohl_htonl (by omega), ntohl_htonl (by omega)]
  simp only [handleCmd]
  rw [getInput, if_neg (by omega), RECV_full hsize (length_htonl _),
    RECV_full hnum (length_htonl _), ntohl_htonl hframe, ntohl_htonl (by omega)]

/-- The peer takes an INPUT command: it holds the sender's words for every device, or the slot of
the frame is still in use and the command waits for it. -/
def Accepts (np peer : NetplayT σ) (dframe : DeltaFrame σ) (clientNum : ℕ) (slave : Bool)
    (outcome : Outcome σ) : Prop :=
  let ptr := (peer.cursors.read clientNum).ptr
  ∃ ret peer', outcome = some (ret, peer') ∧
    if (peer.frameReady ptr dframe.frame).isSome then
      ret = .handled ∧ ∀ device ∈ devicesOf (np.roster.clientDevices clientNum),
        inputFor ((peer'.buffer ptr).realInput device) clientNum
          (deviceSize (np.configDevices device)) =
        some ⟨true, clientNum, wordsOf dframe (inputKey clientNum slave) device⟩
    else ret = .idle

/-- Input of the expected size for every device is sent whole if it is no more than eleven words,
and with a device missing otherwise. -/
theorem length_sent_iff {slave : Bool}
    (hinput : ∀ device ∈ devicesOf (np.roster.clientDevices clientNum),
      HasInput np.configDevices dframe (inputKey clientNum slave) device) :
    (sent np dframe clientNum slave).length =
        np.expectedInputSize (np.roster.clientDevices clientNum) ↔
      np.expectedInputSize (np.roster.clientDevices clientNum) ≤ 11 := by
  constructor
  · intro h
    rw [← h]
    exact length_addDevice_le _ (Nat.zero_le _)
  · intro h
    have hfits : sizeOf np.configDevices (devicesOf (np.roster.clientDevices clientNum)) ≤ 11 := h
    rw [sent, addDevice_fits _ hinput (by rw [List.length_nil, Nat.zero_add]; exact hfits),
      List.nil_append, length_flatMap_wordsOf _ hinput]
    rfl

/-- The handler copies in all that was sent when nothing was left out. -/
theorem inputFrom_accepts {slave : Bool} (hpeer : Reader np peer i clientNum dframe.frame)
    (hinput : ∀ device ∈ devicesOf (np.roster.clientDevices clientNum),
      HasInput np.configDevices dframe (inputKey clientNum slave) device)
    (hfits : np.expectedInputSize (np.roster.clientDevices clientNum) ≤ 11)
    (harrived : Arrived peer i (wire (sent np dframe clientNum slave) ++ more)) :
    Accepts np peer dframe clientNum slave (inputFrom peer i
      ((2 + (sent np dframe clientNum slave).length) * 4) dframe.frame clientNum) := by
  rw [hpeer.inputFrom, (length_sent_iff hinput).mpr hfits]
  simp only [ne_eq, not_true_eq_false, if_false]
  cases hready : netplayDeltaFrameReady peer.cursors.other.frameCount
      (peer.buffer (peer.cursors.read clientNum).ptr) dframe.frame with
  | none =>
    have hframe : peer.frameReady (peer.cursors.read clientNum).ptr dframe.frame = none := by
      rw [NetplayT.frameReady, hready]
      rfl
    rw [hframe]
    refine ⟨_, _, rfl, ?_⟩
    rw [hframe]
    rfl
  | some f =>
    have hframe : peer.frameReady (peer.cursors.read clientNum).ptr dframe.frame =
        some (peer.setFrame (peer.cursors.read clientNum).ptr f) := by
      rw [NetplayT.frameReady, hready]
      rfl
    have hlen : ∀ device ∈ devicesOf (np.roster.clientDevices clientNum),
        (wordsOf dframe (inputKey clientNum slave) device).length =
          deviceSize (np.configDevices device) := by
      intro device hdevice
      obtain ⟨istate, husedOf, hsize⟩ := hinput device hdevice
      rw [wordsOf, husedOf]
      exact hsize
    have hsent : sent np dframe clientNum slave = (devicesOf
        (np.roster.clientDevices clientNum)).flatMap
          (wordsOf dframe (inputKey clientNum slave)) := by
      rw [sent, addDevice_fits _ hinput (by rw [List.length_nil, Nat.zero_add]; exact hfits),
        List.nil_append]
    rw [hsent, wire, List.flatMap_assoc] at harrived
    have hsized : WellSized (peer.setFrame (peer.cursors.read clientNum).ptr f)
        (peer.cursors.read clientNum).ptr clientNum
        (devicesOf (np.roster.clientDevices clientNum)) := by
      intro device hdevice istate hi
      rw [NetplayT.setFrame_buffer] at hi
      rcases (netplayDeltaFrameReady_real hready).2 device clientNum with hsame | hnone
      · exact hpeer.sized device hdevice istate (hsame ▸ hi)
      · rw [hnone] at hi
        cases hi
    obtain ⟨g, tape, faults, hcopy, -, hin, -⟩ := copyInput_arrived
      (inputReceived i (peer.cursors.read clientNum).ptr clientNum)
      (wordsOf dframe (inputKey clientNum slave)) _ (nodup_devicesOf _)
      (fun device hdevice => (mem_devicesOf.mp hdevice).1)
      (fun device hdevice => by rw [hlen device hdevice, ← hpeer.configDevices]; rfl)
      hsized ⟨harrived.lt, harrived.sound, harrived.rest⟩
    obtain ⟨peer', houtcome, hreal⟩ := inputReceived_handled
      (((peer.setFrame (peer.cursors.read clientNum).ptr f).setFrame
        (peer.cursors.read clientNum).ptr g).retape i tape faults) i
      (peer.cursors.read clientNum).ptr clientNum
    rw [hframe]
    refine ⟨.handled, peer', hcopy.trans houtcome, ?_⟩
    rw [hframe]
    refine ⟨rfl, fun device hdevice => ?_⟩
    rw [hreal, NetplayT.retape_buffer, NetplayT.setFrame_buffer, inputFor_eq, hin device hdevice]
    exact if_pos (hlen device hdevice)

/-- A client's input is taken by its peers, word for word, if and only if the client's devices take
no more than eleven words together. -/
theorem input_accepted_iff (pf : Platform σ) (settings : Settings) (hs : Handshake) {slave : Bool}
    (hpeer : Reader np peer i clientNum dframe.frame) (hframe : dframe.frame < 2 ^ 32)
    (hinput : ∀ device ∈ devicesOf (np.roster.clientDevices clientNum),
      HasInput np.configDevices dframe (inputKey clientNum slave) device)
    (harrived : Arrived peer i ((inputFrame np dframe clientNum slave).encode ++ more)) :
    Accepts np peer dframe clientNum slave (netplayGetCmd pf settings hs peer i) ↔
      netplayExpectedInputSize np.configDevices (np.roster.clientDevices clientNum) ≤ 11 := by
  have hsent : (sent np dframe clientNum slave).length ≤ 11 :=
    length_addDevice_le _ (Nat.zero_le _)
  obtain ⟨peer', hpeer', harrived', hbuffer, hcursors, hcmd⟩ :=
    netplayGetCmd_input pf settings hs hpeer hframe hsent harrived
  have hready : ∀ ptr frame, (peer'.frameReady ptr frame).isSome =
      (peer.frameReady ptr frame).isSome := by
    intro ptr frame
    rw [NetplayT.frameReady, NetplayT.frameReady, Option.isSome_map, Option.isSome_map, hbuffer,
      hcursors]
  have haccepts : Accepts np peer dframe clientNum slave (netplayGetCmd pf settings hs peer i) ↔
      Accepts np peer' dframe clientNum slave (inputFrom peer' i
        ((2 + (sent np dframe clientNum slave).length) * 4) dframe.frame clientNum) := by
    rw [Accepts, Accepts, hcmd, hcursors]
    simp only [hready]
  rw [haccepts]
  constructor
  · intro h
    by_contra hbig
    have hne := mt (length_sent_iff hinput).mp hbig
    obtain ⟨ret, np', houtcome, hret⟩ := h
    rw [hpeer'.inputFrom] at houtcome
    simp only at houtcome
    rw [if_pos (by omega)] at houtcome
    obtain ⟨rfl, -⟩ := Prod.mk.inj (Option.some.inj houtcome)
    split_ifs at hret
    cases hret.1
  · intro hfits
    exact inputFrom_accepts hpeer' hinput hfits harrived'

/-- A server whose first client plays with `n` joypads, with `bytes` from that client. -/
def joypads (n : ℕ) (bytes : List UInt8) : NetplayT ℕ :=
  let np := netplayNew idleCore true false 0 false false false [] (fun _ => RETRO_DEVICE_JOYPAD) 0
  { np with
    connections := [{ Connection.zero with
      active := true, mode := .playing, recvPacketBuffer := ⟨bytes, 0, Nat.zero_le _⟩ }]
    roster := join np.roster 1 (2 ^ n - 1) }

/-- The first frame of that client, with one button held on every joypad. -/
def held : DeltaFrame ℕ :=
  { DeltaFrame.zero with used := true, realInput := fun _ => [⟨true, 1, [256]⟩] }

theorem joypads_reader (n : ℕ) (bytes : List UInt8) :
    Reader (joypads n []) (joypads n bytes) 0 1 held.frame where
  lt := by decide
  configDevices := rfl
  clientDevices := rfl
  connected := testBit_setBit 0 1 1
  mode := .inl rfl
  own _ := rfl
  next := rfl
  sized := by
    intro device _ istate hi
    cases hi

theorem joypads_input (n : ℕ) : ∀ device ∈ devicesOf ((joypads n []).roster.clientDevices 1),
    HasInput (joypads n []).configDevices held (inputKey 1 false) device := by
  intro device hdevice
  have hlt : device < 16 := (mem_devicesOf.mp hdevice).1
  have hconfig : (joypads n []).configDevices device = RETRO_DEVICE_JOYPAD :=
    if_pos ⟨rfl, hlt⟩
  refine ⟨⟨true, 1, [256]⟩, rfl, ?_⟩
  rw [hconfig]
  rfl

theorem input_accepted_joypad :
    Accepts (joypads 1 []) (joypads 1 ((inputFrame (joypads 1 []) held 1 false).encode)) held 1 false
      (netplayGetCmd idleCore openSettings .fail
        (joypads 1 ((inputFrame (joypads 1 []) held 1 false).encode)) 0) :=
  (input_accepted_iff idleCore openSettings .fail (joypads_reader 1 _) (by decide)
    (joypads_input 1) ⟨by decide, by decide, by rfl⟩).mpr (by decide)

theorem input_refused_joypads :
    (∀ device ∈ devicesOf ((joypads 12 []).roster.clientDevices 1),
      HasInput (joypads 12 []).configDevices held (inputKey 1 false) device) ∧
    ¬Accepts (joypads 12 []) (joypads 12 ((inputFrame (joypads 12 []) held 1 false).encode)) held 1
      false (netplayGetCmd idleCore openSettings .fail
        (joypads 12 ((inputFrame (joypads 12 []) held 1 false).encode)) 0) := by
  refine ⟨joypads_input 12, ?_⟩
  rintro ⟨ret, peer', houtcome, hret⟩
  have hrefused : (netplayGetCmd idleCore openSettings .fail
      (joypads 12 ((inputFrame (joypads 12 []) held 1 false).encode)) 0).map Prod.fst =
      some .refused := by
    rfl
  rw [houtcome] at hrefused
  obtain rfl : ret = .refused := Option.some.inj hrefused
  split_ifs at hret
  cases hret.1

end RetroArch.Netplay.InputWire
