/- Commands of which only a part has arrived. -/

import RetroArch.Netplay.Command

namespace RetroArch.Netplay.ShortRead

open Library.Rewinding Delta State Io Messaging Reading Command

variable {σ : Type}

/-- What a short read is to leave as it is: the real input of the delta frames and which of it they
have, the cursors of the peers, and who plays with which devices. -/
def held (np : NetplayT σ) :
    (ℕ → (ℕ → List InputState) × (ℕ → Bool)) × (ℕ → Cursor) × Cursor × Roster :=
  (fun ptr => ((np.buffer ptr).realInput, (np.buffer ptr).haveReal),
    np.cursors.read, np.cursors.server, np.roster)

/-- The unread bytes of connection `i`. -/
def unread (np : NetplayT σ) (i : ℕ) : List UInt8 := (np.connection i).recvPacketBuffer.rest

/-- The word at position `k` of a command. -/
def wordAt (k : ℕ) (bytes : List UInt8) : ℕ := ntohl ((bytes.drop (4 * k)).take 4)

/-- INPUT passes all checks, and the slot of its frame is there. -/
def takesInput (np : NetplayT σ) (i cmdSize frameNum clientNum : ℕ) : Prop :=
  let mode := (np.connection i).mode
  let client := inputClient np i clientNum
  let read := np.cursors.read client
  (np.isServer = true → mode = .playing ∨ mode = .slave) ∧ client < MAX_CLIENTS ∧
    cmdSize = (2 + np.expectedInputSize (np.roster.clientDevices client)) * 4 ∧
    np.roster.connectedPlayers.testBit client = true ∧
    (mode = .playing → frameNum = read.frameCount) ∧
    (netplayDeltaFrameReady np.cursors.other.frameCount (np.buffer read.ptr)
      read.frameCount).isSome

instance (np : NetplayT σ) (i cmdSize frameNum clientNum : ℕ) :
    Decidable (takesInput np i cmdSize frameNum clientNum) :=
  inferInstanceAs (Decidable (_ ∧ _ ∧ _ ∧ _ ∧ _ ∧ _))

/-- Some of the data of an INPUT that is taken is still to come, or the socket is to fail. -/
def CutsInput (np : NetplayT σ) (i : ℕ) : Prop :=
  let bytes := unread np i
  16 ≤ bytes.length ∧ wordAt 0 bytes = 0x0003 ∧
    takesInput np i (wordAt 1 bytes) (wordAt 2 bytes) (wordAt 3 bytes) ∧
    (bytes.length < 8 + wordAt 1 bytes ∨ true ∈ (np.connection i).recvFaults)

instance (np : NetplayT σ) (i : ℕ) : Decidable (CutsInput np i) :=
  inferInstanceAs (Decidable (_ ∧ _ ∧ _ ∧ _))

/-- LOAD_SAVESTATE passes all checks, and the slot of its frame is there but not made ready yet. -/
def readiesSavestate (np : NetplayT σ) (i cmdSize frame : ℕ) : Prop :=
  let mode := (np.connection i).mode
  let load := loadCursor np i
  (mode = .playing ∨ mode = .slave) ∧ (np.isServer = true → np.connections.length ≤ 1) ∧
    2 * 4 ≤ cmdSize ∧ cmdSize ≤ np.zbufferSize + 2 * 4 ∧ frame = load.frameCount ∧
    ¬((np.buffer load.ptr).used = true ∧ (np.buffer load.ptr).frame = load.frameCount) ∧
    (netplayDeltaFrameReady np.cursors.other.frameCount (np.buffer load.ptr)
      load.frameCount).isSome

instance (np : NetplayT σ) (i cmdSize frame : ℕ) :
    Decidable (readiesSavestate np i cmdSize frame) :=
  inferInstanceAs (Decidable (_ ∧ _ ∧ _ ∧ _ ∧ _ ∧ _ ∧ _))

/-- Some of a savestate that readies a slot is still to come. -/
def CutsSavestate (pf : Platform σ) (np : NetplayT σ) (i : ℕ) : Prop :=
  let bytes := unread np i
  12 ≤ bytes.length ∧ wordAt 0 bytes = 0x0042 ∧
    readiesSavestate (initForLoad pf np) i (wordAt 1 bytes) (wordAt 2 bytes) ∧
    bytes.length < 8 + wordAt 1 bytes

instance (pf : Platform σ) (np : NetplayT σ) (i : ℕ) : Decidable (CutsSavestate pf np i) :=
  inferInstanceAs (Decidable (_ ∧ _ ∧ _ ∧ _))

/-- The size of the payload, of the commands that do not check it. -/
def HasItsSize (cmd size : ℕ) : Prop :=
  (cmd ∈ [0x0000, 0x0001, 0x0002, 0x0041, 0x0044] → size = 0) ∧ (cmd = 0x0004 → size = 4)

/-- The command is refused, or the receive position is back at its start; nothing held has
changed. -/
def Atomic (np : NetplayT σ) (i : ℕ) (outcome : Outcome σ) : Prop :=
  ∃ ret np', outcome = some (ret, np') ∧ held np' = held np ∧
    (ret = .refused ∨ ret = .idle ∧
      (np'.connection i).recvPacketBuffer = (np.connection i).recvPacketBuffer.rewind)

/-- A part of a command has been read, and `bytes` are left. -/
structure Waiting (start np : NetplayT σ) (i : ℕ) (bytes : List UInt8) : Prop where
  held : held np = held start
  cells : (np.connection i).recvPacketBuffer.cells = (start.connection i).recvPacketBuffer.cells
  arrived : Arrived np i bytes

variable {start np : NetplayT σ} {i : ℕ} {bytes : List UInt8}

theorem wordAt_zero {field more : List UInt8} (h : field.length = 4) :
    wordAt 0 (field ++ more) = ntohl field := by
  rw [wordAt, Nat.mul_zero, List.drop_zero, List.take_left' h]

theorem wordAt_succ {field more : List UInt8} (h : field.length = 4) (k : ℕ) :
    wordAt (k + 1) (field ++ more) = wordAt k more := by
  have hskip : 4 * (k + 1) = field.length + 4 * k := by omega
  rw [wordAt, wordAt, hskip, List.drop_length_add_append]

theorem held_send (np : NetplayT σ) (i : ℕ) (m : Message) :
    held (netplaySendRawCmd np i m).2 = held np := by
  rw [netplaySendRawCmd]
  split_ifs <;> rfl

theorem Waiting.shrt (h : Waiting start np i bytes) : Atomic start i (shrt np i) := by
  refine ⟨.idle, _, rfl, h.held, .inr ⟨rfl, ?_⟩⟩
  rw [netplayRecvReset, connection_retape h.arrived.lt]
  exact Tape.ext h.cells rfl

theorem Waiting.nak (h : Waiting start np i bytes) : Atomic start i (nak np i) :=
  ⟨.refused, _, rfl, (held_send np i .nak).trans h.held, .inl rfl⟩

theorem Waiting.retape (h : Waiting start np i bytes) {tape : Tape UInt8}
    (hcells : tape.cells = (np.connection i).recvPacketBuffer.cells) :
    Waiting start (np.retape i tape (np.connection i).recvFaults.tail) i tape.rest where
  held := h.held
  cells := by
    rw [connection_retape h.arrived.lt]
    exact hcells.trans h.cells
  arrived := h.arrived.retape tape

theorem Waiting.afterField {field more : List UInt8} (h : Waiting start np i (field ++ more)) :
    Waiting start (afterField np i field.length) i more where
  held := h.held
  cells := (h.retape (Tape.read_cells _ _)).cells
  arrived := h.arrived.afterField

theorem Waiting.recv {n : ℕ} {fail : NetplayT σ → Outcome σ}
    {next : List UInt8 → NetplayT σ → Outcome σ} (h : Waiting start np i bytes)
    (hnext : ∀ field more, bytes = field ++ more → field.length = n →
      Waiting start (Reading.afterField np i n) i more →
        Atomic start i (next field (Reading.afterField np i n))) :
    Atomic start i (RECV np i n fail next) := by
  rcases Nat.lt_or_ge bytes.length n with hshort | hfull
  · have hrecv : netplayRecv np i n = (.short bytes, Reading.afterField np i n) := by
      have hsound : ¬(np.connection i).recvFaults.headD false = true := by
        rw [h.arrived.headD]
        exact Bool.false_ne_true
      have hread : ((np.connection i).recvPacketBuffer.read n).1 = bytes := by
        rw [h.arrived.read, List.take_of_length_le hshort.le]
      rw [netplayRecv, if_neg hsound]
      simp only [hread, if_pos hshort]
      rfl
    rw [RECV, hrecv]
    exact (h.retape (Tape.read_cells _ _)).shrt
  · have hsplit : bytes = bytes.take n ++ bytes.drop n := (List.take_append_drop n bytes).symm
    have hlen : (bytes.take n).length = n := List.length_take_of_le hfull
    have hfield := h
    rw [hsplit] at hfield
    have hafter := hfield.afterField
    rw [hlen] at hafter
    rw [RECV_full hfield.arrived hlen]
    exact hnext _ _ hsplit hlen hafter

theorem Waiting.recv_short {n : ℕ} {fail : NetplayT σ → Outcome σ}
    {next : List UInt8 → NetplayT σ → Outcome σ} (h : Waiting start np i bytes)
    (hshort : bytes.length < n) : Atomic start i (RECV np i n fail next) := by
  refine h.recv fun field more hsplit hfield _ => ?_
  rw [hsplit, List.length_append, hfield] at hshort
  omega

theorem Waiting.dropWords (words : ℕ) (h : Waiting start np i bytes)
    (hshort : bytes.length < words * 4) : Atomic start i (dropWords i words np) := by
  induction words generalizing np bytes with
  | zero => omega
  | succ words ih =>
    rw [Command.dropWords]
    refine h.recv fun field more hsplit hfield hafter => ih hafter ?_
    rw [hsplit, List.length_append] at hshort
    omega

theorem takesInput_afterField (np : NetplayT σ) (i n cmdSize frameNum clientNum : ℕ) :
    takesInput (afterField np i n) i cmdSize frameNum clientNum ↔
      takesInput np i cmdSize frameNum clientNum := by
  simp only [takesInput, afterField, mode_retape]
  exact Iff.rfl

/-- The checks of INPUT, as the handler makes them. -/
theorem takesInput_of_checks {cmdSize frameNum clientNum : ℕ}
    (hmode : ¬(np.isServer = true ∧ (np.connection i).mode ≠ .playing ∧
      (np.connection i).mode ≠ .slave))
    (hsize : ¬cmdSize ≠ (2 + np.expectedInputSize
      (np.roster.clientDevices (inputClient np i clientNum))) * 4)
    (hclient : ¬(MAX_CLIENTS ≤ inputClient np i clientNum ∨
      np.roster.connectedPlayers.testBit (inputClient np i clientNum) = false))
    (hpast : ¬((np.connection i).mode = .playing ∧
      frameNum < (np.cursors.read (inputClient np i clientNum)).frameCount))
    (hfuture : ¬((np.connection i).mode = .playing ∧
      (np.cursors.read (inputClient np i clientNum)).frameCount < frameNum))
    (hready : (netplayDeltaFrameReady np.cursors.other.frameCount
      (np.buffer (np.cursors.read (inputClient np i clientNum)).ptr)
      (np.cursors.read (inputClient np i clientNum)).frameCount).isSome) :
    takesInput np i cmdSize frameNum clientNum := by
  refine ⟨?_, ?_, ?_, ?_, ?_, hready⟩
  · intro hserver
    by_contra hneither
    exact hmode ⟨hserver, not_or.mp hneither⟩
  · exact Nat.lt_of_not_le (not_or.mp hclient).1
  · exact not_not.mp hsize
  · exact Bool.eq_true_of_not_eq_false (not_or.mp hclient).2
  · intro hplaying
    have hle := Nat.le_of_not_lt fun hlt => hpast ⟨hplaying, hlt⟩
    have hge := Nat.le_of_not_lt fun hlt => hfuture ⟨hplaying, hlt⟩
    exact Nat.le_antisymm hge hle

theorem Waiting.inputFrom {cmdSize frameNum clientNum : ℕ} (h : Waiting start np i bytes)
    (hshort : 8 + bytes.length < cmdSize) (hnot : ¬takesInput np i cmdSize frameNum clientNum) :
    Atomic start i (inputFrom np i cmdSize frameNum clientNum) := by
  simp only [Command.inputFrom]
  split_ifs with hmode hmax hsize hclient hpast hfuture
  · exact h.nak
  · exact h.nak
  · exact h.nak
  · exact h.nak
  · refine h.dropWords _ ?_
    omega
  · exact h.nak
  · cases hready : np.frameReady _ _ with
    | none => exact h.shrt
    | some np' =>
      obtain ⟨f, hframe, -⟩ := Option.map_eq_some_iff.mp hready
      exact absurd (takesInput_of_checks hmode hsize hclient hpast hfuture
        (Option.isSome_iff_exists.mpr ⟨f, hframe⟩)) hnot

theorem Waiting.getInput {cmdSize : ℕ} (h : Waiting start np i bytes)
    (hshort : bytes.length < cmdSize)
    (hnot : 8 ≤ bytes.length → ¬takesInput np i cmdSize (wordAt 0 bytes) (wordAt 1 bytes)) :
    Atomic start i (getInput np i cmdSize) := by
  rw [Command.getInput]
  split_ifs
  · exact h.nak
  refine h.recv fun frame more hsplit hframe hafter => ?_
  refine hafter.recv fun client rest hsplit' hclient hafter' => ?_
  subst hsplit
  subst hsplit'
  rw [wordAt_zero hframe, wordAt_succ hframe, wordAt_zero hclient] at hnot
  simp only [List.length_append, hframe, hclient] at hshort hnot
  refine hafter'.inputFrom (by omega) ?_
  rw [takesInput_afterField, takesInput_afterField]
  exact hnot (by omega)

theorem held_setFrame {ptr : ℕ} {f : DeltaFrame σ}
    (hreal : f.realInput = (np.buffer ptr).realInput)
    (hhave : f.haveReal = (np.buffer ptr).haveReal) : held (np.setFrame ptr f) = held np := by
  have hinputs : (fun k => (((np.setFrame ptr f).buffer k).realInput,
      ((np.setFrame ptr f).buffer k).haveReal)) =
      fun k => ((np.buffer k).realInput, (np.buffer k).haveReal) := by
    funext k
    by_cases hk : k = ptr
    · subst hk
      rw [NetplayT.setFrame_buffer, hreal, hhave]
    · rw [NetplayT.setFrame]
      simp only [Function.update_of_ne hk]
  exact Prod.ext hinputs rfl

theorem held_tryInit (pf : Platform σ) (np : NetplayT σ) :
    held (netplayTryInitSerialization pf np).2 = held np ∧
      (netplayTryInitSerialization pf np).2.connections = np.connections := by
  simp only [netplayTryInitSerialization]
  split_ifs
  · exact ⟨rfl, rfl⟩
  · exact ⟨rfl, rfl⟩
  · cases pf.serialize np.core with
    | none => exact ⟨rfl, rfl⟩
    | some s => exact ⟨held_setFrame rfl rfl, rfl⟩

theorem held_waitAndInit (pf : Platform σ) (frames : ℕ) (np : NetplayT σ) :
    held (netplayWaitAndInitSerialization pf frames np) = held np ∧
      (netplayWaitAndInitSerialization pf frames np).connections = np.connections := by
  refine waitAndInit_kept (P := fun np' => held np' = held np ∧
    np'.connections = np.connections) (fun np' h => ?_) (fun np' h => h) frames ⟨rfl, rfl⟩
  have htry := held_tryInit pf np'
  exact ⟨htry.1.trans h.1, htry.2.trans h.2⟩

theorem held_initForLoad (pf : Platform σ) (np : NetplayT σ) :
    held (initForLoad pf np) = held np ∧ (initForLoad pf np).connections = np.connections := by
  simp only [initForLoad]
  split_ifs
  · exact held_waitAndInit pf 60 np
  · exact held_waitAndInit pf 60 _
  · exact ⟨rfl, rfl⟩

theorem Waiting.initForLoad (pf : Platform σ) (h : Waiting start np i bytes) :
    Waiting start (initForLoad pf np) i bytes := by
  obtain ⟨hheld, hconnections⟩ := held_initForLoad pf np
  have hconnection : (Command.initForLoad pf np).connection i = np.connection i := by
    rw [NetplayT.connection, NetplayT.connection, hconnections]
  refine ⟨hheld.trans h.held, ?_, ?_, ?_, ?_⟩
  · rw [hconnection]
    exact h.cells
  · rw [hconnections]
    exact h.arrived.lt
  · rw [hconnection]
    exact h.arrived.sound
  · rw [hconnection]
    exact h.arrived.rest

theorem Waiting.receiveSavestate {pf : Platform σ} {cmdSize : ℕ} {load : Cursor}
    (h : Waiting start np i bytes) (hshort : 4 + bytes.length < cmdSize) :
    Atomic start i (receiveSavestate pf i cmdSize load np) := by
  refine h.recv fun isize more hsplit hisize hafter => ?_
  subst hsplit
  rw [List.length_append, hisize] at hshort
  split_ifs
  · exact hafter.nak
  · refine hafter.recv fun zdata rest hsplit hzdata _ => ?_
    rw [hsplit, List.length_append, hzdata] at hshort
    omega

/-- A slot that is not made ready is that of its frame already. -/
theorem ready_of_not_readies {np' : NetplayT σ} {cmdSize frame : ℕ}
    (hnot : ¬readiesSavestate np i cmdSize frame)
    (hmode : ¬((np.connection i).mode ≠ .playing ∧ (np.connection i).mode ≠ .slave))
    (hpeers : ¬(np.isServer = true ∧ 1 < np.connections.length))
    (hsize : ¬(cmdSize < 2 * 4 ∨ np.zbufferSize + 2 * 4 < cmdSize))
    (hframe : frame = (loadCursor np i).frameCount)
    (hready : (afterField np i 4).frameReady (loadCursor np i).ptr (loadCursor np i).frameCount =
      some np') : np' = afterField np i 4 := by
  obtain ⟨f, hf, rfl⟩ := Option.map_eq_some_iff.mp hready
  have hslot : (np.buffer (loadCursor np i).ptr).used = true ∧
      (np.buffer (loadCursor np i).ptr).frame = (loadCursor np i).frameCount := by
    by_contra hother
    refine hnot ⟨?_, ?_, ?_, ?_, hframe, hother, ?_⟩
    · by_contra hneither
      exact hmode (not_or.mp hneither)
    · intro hserver
      exact Nat.le_of_not_lt fun hlt => hpeers ⟨hserver, hlt⟩
    · omega
    · omega
    · exact Option.isSome_iff_exists.mpr ⟨f, hf⟩
  have hf' : some ((np.buffer (loadCursor np i).ptr)) = some f := by
    rw [← hf, netplayDeltaFrameReady, if_pos]
    · rfl
    · exact hslot
  obtain rfl := Option.some.inj hf'
  exact NetplayT.setFrame_self _ _

theorem Waiting.getLoad {pf : Platform σ} {cmdSize : ℕ} {reset : Bool}
    (h : Waiting start np i bytes) (hshort : bytes.length < cmdSize)
    (hnot : reset = false → 4 ≤ bytes.length →
      ¬readiesSavestate (Command.initForLoad pf np) i cmdSize (wordAt 0 bytes)) :
    Atomic start i (getLoad pf np i cmdSize reset) := by
  have hinit := h.initForLoad pf
  simp only [Command.getLoad]
  generalize Command.initForLoad pf np = np at hinit hnot
  split_ifs with hmode hpeers hsize
  · exact hinit.nak
  · exact hinit.nak
  · exact hinit.nak
  refine hinit.recv fun frame more hsplit hframe hafter => ?_
  subst hsplit
  rw [wordAt_zero hframe] at hnot
  rw [List.length_append, hframe] at hshort hnot
  simp only
  split_ifs with hload
  · exact hafter.nak
  cases hready : (Reading.afterField np i 4).frameReady _ _ with
  | none => exact hafter.shrt
  | some np' =>
    cases reset with
    | true =>
      have hcmd : cmdSize = 4 := by
        by_contra hne
        exact hsize (.inr ⟨rfl, hne⟩)
      omega
    | false =>
      have hsame := ready_of_not_readies (hnot rfl (by omega)) hmode hpeers
        (fun h => hsize (.inl ⟨rfl, h⟩)) (not_not.mp hload) hready
      rw [hsame]
      exact hafter.receiveSavestate (by omega)

/-- No handler acts on a command of which some is missing. -/
theorem Waiting.handleCmd {pf : Platform σ} {settings : Settings} {cmd cmdSize : ℕ}
    (h : Waiting start np i bytes) (hshort : bytes.length < cmdSize)
    (hsize : HasItsSize cmd cmdSize)
    (hinput : cmd = 0x0003 → 8 ≤ bytes.length →
      ¬takesInput np i cmdSize (wordAt 0 bytes) (wordAt 1 bytes))
    (hstate : cmd = 0x0042 → 4 ≤ bytes.length →
      ¬readiesSavestate (Command.initForLoad pf np) i cmdSize (wordAt 0 bytes)) :
    Atomic start i (handleCmd pf settings np i cmd cmdSize) := by
  have hempty : cmd ∈ [0x0000, 0x0001, 0x0002, 0x0041, 0x0044] → False := by
    intro hcmd
    have hzero := hsize.1 hcmd
    omega
  unfold Command.handleCmd
  split
  case h_1 => exact absurd (by simp) hempty
  case h_2 => exact absurd (by simp) hempty
  case h_3 => exact absurd (by simp) hempty
  case h_4 => exact h.getInput hshort (hinput rfl)
  case h_5 =>
    rw [getNoinput]
    split_ifs
    · exact h.nak
    · exact h.recv_short (hsize.2 rfl ▸ hshort)
  case h_6 =>
    simp only [getSpectate]
    split_ifs with hserver hzero
    · exact h.nak
    · exact h.nak
    · exact h.nak
    · omega
  case h_7 =>
    rw [getPlay]
    split_ifs with hfour
    · exact h.nak
    · exact h.recv_short (by omega)
  case h_8 =>
    rw [getMode]
    split_ifs with hserver hmode
    · exact h.nak
    · exact h.nak
    · exact h.recv_short (by omega)
  case h_9 =>
    rw [getModeRefused]
    split_ifs with hserver hfour
    · exact h.nak
    · exact h.nak
    · exact h.recv_short (by omega)
  case h_10 =>
    rw [getCrc]
    split_ifs with height
    · exact h.nak
    · exact h.recv_short (by omega)
  case h_11 => exact absurd (by simp) hempty
  case h_12 => exact h.getLoad hshort fun _ => hstate rfl
  case h_13 => exact h.getLoad hshort fun hreset => by cases hreset
  case h_14 =>
    rw [getPause]
    split_ifs with hnick
    · exact h.nak
    · exact h.recv_short (by omega)
  case h_15 => exact absurd (by simp) hempty
  case h_16 =>
    rw [getStall]
    split_ifs with hfour
    · exact h.nak
    · exact h.recv_short (by omega)
  case h_17 => exact h.nak

theorem tryInit_retape (pf : Platform σ) (np : NetplayT σ) (i : ℕ) (tape : Tape UInt8)
    (faults : List Bool) : netplayTryInitSerialization pf (np.retape i tape faults) =
      ((netplayTryInitSerialization pf np).1,
        (netplayTryInitSerialization pf np).2.retape i tape faults) := by
  have hcore : (np.retape i tape faults).core = np.core := rfl
  have hsize : (np.retape i tape faults).stateSize = np.stateSize := rfl
  simp only [netplayTryInitSerialization, hcore, hsize]
  split_ifs
  · rfl
  · rfl
  · cases pf.serialize np.core <;> rfl

theorem waitAndInit_retape (pf : Platform σ) (frames : ℕ) (np : NetplayT σ) (i : ℕ)
    (tape : Tape UInt8) (faults : List Bool) :
    netplayWaitAndInitSerialization pf frames (np.retape i tape faults) =
      (netplayWaitAndInitSerialization pf frames np).retape i tape faults := by
  induction frames generalizing np with
  | zero => rfl
  | succ frames ih =>
    rw [netplayWaitAndInitSerialization, netplayWaitAndInitSerialization, tryInit_retape]
    rcases netplayTryInitSerialization pf np with ⟨_ | _, np'⟩
    · exact ih (coreRun pf np')
    · rfl

theorem initForLoad_retape (pf : Platform σ) (np : NetplayT σ) (i : ℕ) (tape : Tape UInt8)
    (faults : List Bool) :
    initForLoad pf (np.retape i tape faults) = (initForLoad pf np).retape i tape faults := by
  have hinit : (np.retape i tape faults).quirkInitialization = np.quirkInitialization := rfl
  have hreplay : (np.retape i tape faults).isReplay = np.isReplay := rfl
  simp only [initForLoad, hinit, hreplay]
  split_ifs
  · exact waitAndInit_retape pf 60 np i tape faults
  · have hwait := waitAndInit_retape pf 60 { np with
      isReplay := true, cursors := { np.cursors with replay := np.cursors.run } } i tape faults
    exact congrArg (fun np : NetplayT σ => { np with isReplay := false }) hwait
  · rfl

theorem readiesSavestate_afterField (pf : Platform σ) (np : NetplayT σ) (i n cmdSize frame : ℕ) :
    readiesSavestate (initForLoad pf (afterField np i n)) i cmdSize frame ↔
      readiesSavestate (initForLoad pf np) i cmdSize frame := by
  rw [afterField, initForLoad_retape]
  generalize initForLoad pf np = np'
  have hlen : ∀ tape faults, (np'.retape i tape faults).connections.length =
      np'.connections.length := fun tape faults => NetplayT.setConnection_length _ _ _
  simp only [readiesSavestate, mode_retape, hlen]
  exact Iff.rfl

/-- The bytes of a command as its sender puts them on the wire. -/
def command (cmd : ℕ) (payload : List UInt8) : List UInt8 :=
  htonl cmd ++ (htonl payload.length ++ payload)

theorem prefix_field {field more field' more' : List UInt8}
    (h : field ++ more <+: field' ++ more') (hlen : field.length = field'.length) :
    field = field' ∧ more <+: more' := by
  obtain ⟨rest, hrest⟩ := h
  rw [List.append_assoc] at hrest
  obtain ⟨hfield, hmore⟩ := List.append_inj hrest hlen
  exact ⟨hfield, rest, hmore⟩

/-- A command of which some is missing is refused, or is as if it had not been looked at, unless
it is one of the two that are acted on too early. -/
theorem short_read_atomic {pf : Platform σ} {settings : Settings} {hs : Handshake} {cmd : ℕ}
    {payload : List UInt8} (hcmd : cmd < 2 ^ 32) (hlen : payload.length < 2 ^ 32)
    (hsize : HasItsSize cmd payload.length) (hready : (np.connection i).mode.ready = true)
    (hfront : bytes <+: command cmd payload) (hproper : bytes ≠ command cmd payload)
    (harrived : Arrived np i bytes) (hinput : ¬CutsInput np i) (hstate : ¬CutsSavestate pf np i) :
    Atomic np i (netplayGetCmd pf settings hs np i) := by
  have hstart : Waiting np np i bytes := ⟨rfl, rfl, harrived⟩
  have hunread : unread np i = bytes := harrived.rest
  rw [netplayGetCmd, if_neg (by rw [hready]; exact Bool.noConfusion)]
  refine hstart.recv fun first more hsplit hfirst hafter => ?_
  refine hafter.recv fun second rest hsplit' hsecond hafter' => ?_
  subst hsplit'
  subst hsplit
  obtain ⟨rfl, hmore⟩ := prefix_field hfront (by rw [hfirst, length_htonl])
  obtain ⟨rfl, hrest⟩ := prefix_field hmore (by rw [hsecond, length_htonl])
  have hshort : rest.length < payload.length := by
    refine Nat.lt_of_le_of_ne hrest.length_le fun heq => hproper ?_
    rw [command, hrest.eq_of_length heq]
  have hwords : ∀ k, wordAt (k + 2) (htonl cmd ++ (htonl payload.length ++ rest)) =
      wordAt k rest := by
    intro k
    rw [wordAt_succ (length_htonl _), wordAt_succ (length_htonl _)]
  have hfirst : wordAt 0 (htonl cmd ++ (htonl payload.length ++ rest)) = cmd := by
    rw [wordAt_zero (length_htonl _), ntohl_htonl hcmd]
  have hsecond : wordAt 1 (htonl cmd ++ (htonl payload.length ++ rest)) = payload.length := by
    rw [wordAt_succ (length_htonl _), wordAt_zero (length_htonl _), ntohl_htonl hlen]
  have htotal : (htonl cmd ++ (htonl payload.length ++ rest)).length = 8 + rest.length := by
    rw [List.length_append, List.length_append, length_htonl, length_htonl, ← Nat.add_assoc]
  rw [ntohl_htonl hcmd, ntohl_htonl hlen]
  refine hafter'.handleCmd hshort hsize ?_ ?_
  · intro hcmd hlong htakes
    rw [takesInput_afterField, takesInput_afterField] at htakes
    refine hinput ?_
    simp only [CutsInput, hunread, htotal, hfirst, hsecond, hwords 0, hwords 1]
    exact ⟨by omega, hcmd, htakes, .inl (by omega)⟩
  · intro hcmd hlong hreadies
    rw [readiesSavestate_afterField, readiesSavestate_afterField] at hreadies
    refine hstate ?_
    simp only [CutsSavestate, hunread, htotal, hfirst, hsecond, hwords 0]
    exact ⟨by omega, hcmd, hreadies, by omega⟩

end RetroArch.Netplay.ShortRead
