/- The frame pointers of a session and its frame counters stay in step. -/

import RetroArch.Library.Lockstep
import RetroArch.Netplay.Frames

namespace RetroArch.Netplay.Clock

open Library.Lockstep Library.Run Library.Rewinding Delta State Io Messaging Reading Command Resolve
open Savestate Frames Poll Sync Session

variable {σ : Type}

/-- A cursor of a ring whose slot 0 belongs to the frames that are `base` modulo its size. -/
def At (bufferSize base : ℕ) (c : Cursor) : Prop := InStep bufferSize base c.ptr c.frameCount

/-- All cursors of a session share one base. The cursor of the replay counts while there is one. -/
structure Aligned (n base : ℕ) (np : NetplayT σ) : Prop where
  size : np.bufferSize = n
  self : At n base np.cursors.self
  run : At n base np.cursors.run
  other : At n base np.cursors.other
  unread : At n base np.cursors.unread
  server : At n base np.cursors.server
  read : ∀ client, At n base (np.cursors.read client)
  replay : np.isReplay = true → At n base np.cursors.replay

variable {n base : ℕ} {np np' : NetplayT σ}

theorem Aligned.next (h : Aligned n base np) {c : Cursor} (hc : At n base c) :
    At n base (c.next np.bufferSize) := by
  rw [h.size]
  exact InStep.next hc

/-- What alignment looks at. -/
def clock (np : NetplayT σ) : Cursors × ℕ × Bool := (np.cursors, np.bufferSize, np.isReplay)

theorem clock_setFrame (np : NetplayT σ) (ptr : ℕ) (f : DeltaFrame σ) :
    clock (np.setFrame ptr f) = clock np := rfl

theorem Aligned.of_clock (h : Aligned n base np) (hclock : clock np' = clock np) :
    Aligned n base np' := by
  obtain ⟨hcursors, hrest⟩ := Prod.mk.inj hclock
  obtain ⟨hsize, hreplay⟩ := Prod.mk.inj hrest
  constructor
  · rw [hsize]
    exact h.size
  all_goals rw [hcursors]
  · exact h.self
  · exact h.run
  · exact h.other
  · exact h.unread
  · exact h.server
  · exact h.read
  · rw [hreplay]
    exact h.replay

theorem clock_of_game (hgame : game np' = game np) : clock np' = clock np := by
  have hclock := congrArg clock hgame
  exact hclock

theorem clock_of_frames (hframes : frames np' = frames np) : clock np' = clock np := by
  obtain ⟨hcursors, hrest⟩ := Prod.mk.inj hframes
  obtain ⟨hsize, hrest⟩ := Prod.mk.inj hrest
  exact Prod.ext hcursors (Prod.ext hsize (Prod.mk.inj hrest).1)

theorem Aligned.of_frames (h : Aligned n base np) (hframes : frames np' = frames np) :
    Aligned n base np' :=
  h.of_clock (clock_of_frames hframes)

theorem Aligned.of_game (h : Aligned n base np) (hgame : game np' = game np) :
    Aligned n base np' :=
  h.of_clock (clock_of_game hgame)

theorem Aligned.setConnection (h : Aligned n base np) (i : ℕ) (f : Connection → Connection) :
    Aligned n base (np.setConnection i f) :=
  h.of_clock rfl

theorem Aligned.setFrame (h : Aligned n base np) (ptr : ℕ) (f : DeltaFrame σ) :
    Aligned n base (np.setFrame ptr f) :=
  h.of_clock rfl

theorem Aligned.setRead (h : Aligned n base np) (client : ℕ) {c : Cursor}
    (hc : At n base c) : Aligned n base (np.setRead client c) where
  size := h.size
  self := h.self
  run := h.run
  other := h.other
  unread := h.unread
  server := h.server
  read := by
    intro k
    by_cases hk : k = client
    · subst hk
      simpa [NetplayT.setRead] using hc
    · simpa [NetplayT.setRead, hk] using h.read k
  replay := h.replay

theorem Aligned.frameReady (h : Aligned n base np) {ptr frame : ℕ}
    (hready : np.frameReady ptr frame = some np') : Aligned n base np' := by
  obtain ⟨f, -, rfl⟩ := Option.map_eq_some_iff.mp hready
  exact h.setFrame ptr f

theorem Aligned.moveOther (h : Aligned n base np) {c : Cursor} (hc : At n base c) :
    Aligned n base (setOther np c) :=
  { h with other := hc }

theorem Aligned.moveReplay (h : Aligned n base np) {c : Cursor} (hc : At n base c) :
    Aligned n base (setReplay np c) :=
  { h with replay := fun _ => hc }

/-- Aligned with the cursor of the replay, whether a replay is on or not. -/
structure ReplayAligned (n base : ℕ) (np : NetplayT σ) : Prop extends Aligned n base np where
  at_replay : At n base np.cursors.replay

theorem ReplayAligned.of_clock (h : ReplayAligned n base np) (hclock : clock np' = clock np) :
    ReplayAligned n base np' where
  toAligned := h.toAligned.of_clock hclock
  at_replay := by
    rw [(Prod.mk.inj hclock).1]
    exact h.at_replay

theorem ReplayAligned.of_frames (h : ReplayAligned n base np) (hframes : frames np' = frames np) :
    ReplayAligned n base np' :=
  h.of_clock (clock_of_frames hframes)

theorem Aligned.atReplay (h : Aligned n base np) {c : Cursor} (hc : At n base c) :
    ReplayAligned n base (setReplay np c) :=
  ⟨h.moveReplay hc, hc⟩

theorem receptive_aligned (n base : ℕ) : Receptive (Aligned n base : NetplayT σ → Prop) where
  retape _ _ _ _ h := h.of_clock rfl
  nak np i h := h.of_game (game_send np i _)

theorem aligned_inputReceived {i ptr clientNum : ℕ} (h : Aligned n base np) :
    Gives (Aligned n base) (inputReceived i ptr clientNum np) := by
  have hreal : Aligned n base (markReal np ptr clientNum) := h.setFrame _ _
  have hread : Aligned n base (advanceRead (markReal np ptr clientNum) i ptr clientNum) := by
    simp only [advanceRead]
    split_ifs
    · exact (hreal.setRead clientNum (hreal.next (hreal.read clientNum))).of_game
        (game_sendInputFrame _ _ _ _ _)
    · exact hreal.setRead clientNum (hreal.next (hreal.read clientNum))
    · exact hreal
  refine (receptive_aligned n base).done ?_ i
  rw [followServer]
  split_ifs
  · exact { hread with server := hread.read 0 }
  · exact hread

theorem aligned_copyInput {i ptr clientNum : ℕ} {next : NetplayT σ → Outcome σ}
    (hnext : ∀ np, Aligned n base np → Gives (Aligned n base) (next np)) (devices : List ℕ)
    (h : Aligned n base np) : Gives (Aligned n base) (copyInput i ptr clientNum next devices np) := by
  induction devices generalizing np with
  | nil => exact hnext np h
  | cons device rest ih =>
    rw [copyInput]
    have hmade : Aligned n base (realStateFor np ptr device clientNum).2 := h.setFrame _ _
    rcases hentry : realStateFor np ptr device clientNum with ⟨_ | k, np'⟩
    · rw [hentry] at hmade
      exact (receptive_aligned n base).refuse hmade i
    · rw [hentry] at hmade
      have hrecv := (receptive_aligned n base).netplayRecv hmade i
        (np'.expectedInputSize (1 <<< device) * 4)
      simp only
      rcases hres : netplayRecv np' i (np'.expectedInputSize (1 <<< device) * 4) with
        ⟨bytes | bytes | _, np''⟩
      · rw [hres] at hrecv
        exact ih (hrecv.setFrame _ _)
      · rw [hres] at hrecv
        exact (receptive_aligned n base).shrt (hrecv.setFrame _ _) i
      · rw [hres] at hrecv
        exact Receptive.refused hrecv

theorem aligned_dropWords {i : ℕ} (words : ℕ) (h : Aligned n base np) :
    Gives (Aligned n base) (dropWords i words np) := by
  induction words generalizing np with
  | zero => exact (receptive_aligned n base).done h i
  | succ words ih =>
    exact (receptive_aligned n base).recv h
      (fun np h => (receptive_aligned n base).refuse h i) fun _ np h => ih h

theorem aligned_inputFrom {i cmdSize frameNum clientNum : ℕ} (h : Aligned n base np) :
    Gives (Aligned n base) (inputFrom np i cmdSize frameNum clientNum) := by
  have hnak := (receptive_aligned n base).refuse h i
  simp only [inputFrom]
  split_ifs
  all_goals first
    | exact hnak
    | exact aligned_dropWords _ h
    | skip
  cases hready : np.frameReady _ _ with
  | none => exact (receptive_aligned n base).shrt h i
  | some np' =>
    exact aligned_copyInput (fun np h => aligned_inputReceived h) _ (h.frameReady hready)

theorem aligned_handlePlay {settings : Settings} {clientNum request : ℕ} {connection : Option ℕ}
    (h : Aligned n base np) (hplay : handlePlay settings np clientNum connection request = some np') :
    Aligned n base np' := by
  have hstart : At n base (playStart np connection) := by
    rw [playStart]
    split_ifs
    · exact h.next h.self
    · exact h.self
  rw [handlePlay] at hplay
  split_ifs at hplay with hclient
  obtain rfl := Option.some.inj hplay
  refine (h.setRead clientNum hstart).of_frames ?_
  split_ifs with hdevices
  · exact frames_playDevices _ _ _ _ _ _ _
  · exact frames_playAny _ _ _ _ _ _

theorem clock_zeroInput (np : NetplayT σ) (ptr clientNum devices : ℕ) :
    clock (zeroInput np ptr clientNum devices) = clock np := by
  rw [zeroInput]
  refine List.foldlRecOn (motive := fun np' => clock np' = clock np) _ _ rfl
    fun np' hnp' device _ => ?_
  have hmade : clock (realStateFor np' ptr device clientNum).2 = clock np' := rfl
  rcases hentry : realStateFor np' ptr device clientNum with ⟨_ | k, np''⟩
  · rw [hentry] at hmade
    exact hmade.trans hnp'
  · rw [hentry] at hmade
    exact hmade.trans hnp'

theorem clock_sendPastFrame (np : NetplayT σ) (i ptr clientNum devices : ℕ) :
    clock (sendPastFrame np i ptr clientNum devices) = clock np :=
  (clock_of_game (game_sendInputFrameOnly _ _ _ _ _)).trans (clock_zeroInput _ _ _ _)

theorem aligned_modeYouPlay {i frame clientNum devices : ℕ} {slave : Bool}
    (h : Aligned n base np) :
    Gives (Aligned n base) (modeYouPlay np i frame clientNum devices slave) := by
  have hnak := (receptive_aligned n base).refuse h i
  have hjoined : Aligned n base ({ np with
      selfMode := if slave then .slave else .playing
      roster := join np.roster clientNum devices
      selfDevices := devices } : NetplayT σ) := h.of_clock rfl
  have hplayer : Aligned n base (becomePlayer np clientNum devices slave) :=
    hjoined.setRead clientNum h.server
  simp only [modeYouPlay]
  split_ifs
  · exact hnak
  · exact hnak
  · exact Gives.bind fun np' hsent =>
      (receptive_aligned n base).done (sendPastFrames_keeps
        (fun _ _ h => h.of_clock (clock_sendPastFrame _ _ _ _ _)) _ _ hplayer hsent) i
  · refine Gives.bind fun (ready, np') hskip => ?_
    have hskipped := skipToFrame_keeps (fun _ _ _ _ h => h.frameReady)
      (fun _ _ h => h.setFrame _ _) _ _ _ hplayer hskip
    cases ready with
    | false => exact (receptive_aligned n base).refuse hskipped i
    | true => exact (receptive_aligned n base).done hskipped i

theorem aligned_startPlaying (h : Aligned n base np) (clientNum devices : ℕ) :
    Aligned n base (startPlaying np clientNum devices) := by
  have hjoined : Aligned n base
      ({ np with roster := join np.roster clientNum devices } : NetplayT σ) := h.of_clock rfl
  exact hjoined.setRead clientNum h.server

theorem aligned_modeFrom {i : ℕ} {payload : List UInt8} (h : Aligned n base np) :
    Gives (Aligned n base) (modeFrom np i payload) := by
  have hmode : Aligned n base (modeReceived np ((ntohls payload).getD 0 0) payload) := h.of_clock rfl
  have hstop : ∀ client, Aligned n base
      (stopPlaying (modeReceived np ((ntohls payload).getD 0 0) payload) client) :=
    fun client => hmode.of_clock rfl
  have hstart : ∀ client devices, Aligned n base
      (startPlaying (modeReceived np ((ntohls payload).getD 0 0) payload) client devices) :=
    fun client devices => aligned_startPlaying hmode client devices
  simp only [modeFrom]
  split_ifs
  · refine (receptive_aligned n base).refuse ?_ i
    exact h.of_clock rfl
  · exact aligned_modeYouPlay hmode
  · exact (receptive_aligned n base).refuse hmode i
  · exact (receptive_aligned n base).done (hstop _) i
  · exact (receptive_aligned n base).refuse hmode i
  · exact (receptive_aligned n base).done (hstart _ _) i
  · exact (receptive_aligned n base).done (hstop _) i

theorem clock_tryInit (pf : Platform σ) (np : NetplayT σ) :
    clock (netplayTryInitSerialization pf np).2 = clock np := by
  simp only [netplayTryInitSerialization]
  split_ifs
  · rfl
  · rfl
  · cases pf.serialize np.core <;> rfl

theorem clock_waitAndInit (pf : Platform σ) (frames : ℕ) (np : NetplayT σ) :
    clock (netplayWaitAndInitSerialization pf frames np) = clock np :=
  waitAndInit_kept (P := fun np' => clock np' = clock np)
    (fun np' h => (clock_tryInit pf np').trans h) (fun _ h => h) frames rfl

theorem aligned_initForLoad (pf : Platform σ) (h : Aligned n base np) :
    Aligned n base (initForLoad pf np) := by
  simp only [initForLoad]
  split_ifs
  · exact h.of_clock (clock_waitAndInit pf 60 np)
  · have hstart : Aligned n base ({ np with
        isReplay := true, cursors := { np.cursors with replay := np.cursors.run } } :
          NetplayT σ) :=
      { h with replay := fun _ => h.run }
    have hinit := hstart.of_clock (clock_waitAndInit pf 60 _)
    exact { hinit with replay := fun hreplay => Bool.noConfusion hreplay }
  · exact h

theorem aligned_loadAt {i : ℕ} {load : Cursor} {reset : Bool} (h : Aligned n base np)
    (hload : At n base load) : Gives (Aligned n base) (loadAt np i load reset) := by
  rw [loadAt]
  split_ifs with hwrap
  · exact Gives.none
  have hbefore : loadJumps np load reset = true →
      At n base ⟨prevPtr np.bufferSize load.ptr, load.frameCount - 1⟩ := by
    intro hjumps
    rw [h.size]
    exact InStep.prev hload fun hzero => hwrap ⟨hjumps, hzero⟩
  have hloaded : Aligned n base ({ np with
      savestateRequestOutstanding := false, cursors := loadCursors np load reset } :
        NetplayT σ) := by
    refine ⟨h.size, ?_, ?_, hload, h.unread, h.server, ?_, h.replay⟩
    · simp only [loadCursors]
      split_ifs with hself
      · exact hbefore hself.1
      · exact h.self
    · simp only [loadCursors]
      split_ifs with hrun
      · exact hbefore hrun
      · exact h.run
    · intro client
      simp only [loadCursors]
      split_ifs
      · exact hload
      · exact h.read client
  exact (receptive_aligned n base).done hloaded i

theorem aligned_receiveSavestate {pf : Platform σ} {i cmdSize : ℕ} {load : Cursor}
    (h : Aligned n base np) (hload : At n base load) :
    Gives (Aligned n base) (receiveSavestate pf i cmdSize load np) := by
  have hrefuse : ∀ np : NetplayT σ, Aligned n base np → Gives (Aligned n base) (nak np i) :=
    fun np h => (receptive_aligned n base).refuse h i
  refine (receptive_aligned n base).recv h hrefuse fun isize np h => ?_
  split_ifs
  · exact hrefuse np h
  · refine (receptive_aligned n base).recv h hrefuse fun zdata np h => ?_
    refine aligned_loadAt ?_ hload
    exact h.of_clock rfl

theorem aligned_loadFrame {pf : Platform σ} {i cmdSize : ℕ} {reset : Bool}
    (h : Aligned n base np) : Gives (Aligned n base) (loadFrame pf i cmdSize reset np) := by
  have hrefuse : ∀ np : NetplayT σ, Aligned n base np → Gives (Aligned n base) (nak np i) :=
    fun np h => (receptive_aligned n base).refuse h i
  refine (receptive_aligned n base).recv h hrefuse fun frame np h => ?_
  have hload : At n base (loadCursor np i) := by
    rw [loadCursor]
    split_ifs
    · exact h.read (i + 1)
    · exact h.server
  simp only
  split_ifs
  · exact hrefuse np h
  cases hready : np.frameReady (loadCursor np i).ptr (loadCursor np i).frameCount with
  | none => exact (receptive_aligned n base).shrt h i
  | some np' =>
    have h' := h.frameReady hready
    cases reset with
    | true =>
      refine aligned_loadAt ?_ hload
      exact h'.of_clock rfl
    | false => exact aligned_receiveSavestate h' hload

theorem aligned_getLoad {pf : Platform σ} {i cmdSize : ℕ} {reset : Bool}
    (h : Aligned n base np) : Gives (Aligned n base) (getLoad pf np i cmdSize reset) := by
  have hrefuse := (receptive_aligned n base).refuse (aligned_initForLoad pf h) i
  simp only [getLoad]
  split_ifs
  · exact hrefuse
  · exact hrefuse
  · exact hrefuse
  · exact aligned_loadFrame (aligned_initForLoad pf h)

theorem aligned_getPause {i cmdSize : ℕ} (h : Aligned n base np) :
    Gives (Aligned n base) (getPause np i cmdSize) := by
  have hrefuse : ∀ np : NetplayT σ, Aligned n base np → Gives (Aligned n base) (nak np i) :=
    fun np h => (receptive_aligned n base).refuse h i
  rw [getPause]
  split_ifs
  · exact hrefuse np h
  refine (receptive_aligned n base).recv h hrefuse fun _ np h => ?_
  simp only
  split_ifs
  · exact (receptive_aligned n base).done h i
  · refine (receptive_aligned n base).done (h.of_frames ?_) i
    exact (frames_sendFlushAll _ _).trans (frames_sendAll _ _ _)
  · refine (receptive_aligned n base).done ?_ i
    exact h.of_clock rfl

theorem aligned_getStall {i cmdSize : ℕ} (h : Aligned n base np) :
    Gives (Aligned n base) (getStall np i cmdSize) := by
  have hrefuse : ∀ np : NetplayT σ, Aligned n base np → Gives (Aligned n base) (nak np i) :=
    fun np h => (receptive_aligned n base).refuse h i
  rw [getStall]
  split_ifs
  · exact hrefuse np h
  refine (receptive_aligned n base).recv h hrefuse fun frames np h => ?_
  simp only
  split_ifs
  · exact hrefuse np h
  · refine (receptive_aligned n base).done ?_ i
    exact h.of_clock rfl
  · exact (receptive_aligned n base).done h i

theorem aligned_getCrc {pf : Platform σ} {i cmdSize : ℕ} (h : Aligned n base np) :
    Gives (Aligned n base) (getCrc pf np i cmdSize) := by
  have hrefuse : ∀ np : NetplayT σ, Aligned n base np → Gives (Aligned n base) (nak np i) :=
    fun np h => (receptive_aligned n base).refuse h i
  rw [getCrc]
  split_ifs
  · exact hrefuse np h
  refine (receptive_aligned n base).recv h hrefuse fun payload np h => ?_
  simp only
  cases (crcPointers np).find? _ with
  | none => exact (receptive_aligned n base).done h i
  | some ptr =>
    simp only
    split_ifs
    · exact (receptive_aligned n base).done (h.of_frames (frames_requestSavestate np)) i
    · exact (receptive_aligned n base).done h i
    · exact (receptive_aligned n base).done (h.setFrame _ _) i

theorem aligned_getNoinput {i : ℕ} (h : Aligned n base np) :
    Gives (Aligned n base) (getNoinput np i) := by
  have hrefuse : ∀ np : NetplayT σ, Aligned n base np → Gives (Aligned n base) (nak np i) :=
    fun np h => (receptive_aligned n base).refuse h i
  rw [getNoinput]
  split_ifs
  · exact hrefuse np h
  refine (receptive_aligned n base).recv h hrefuse fun frame np h => ?_
  simp only
  split_ifs
  · exact (receptive_aligned n base).done h i
  · exact hrefuse np h
  · refine (receptive_aligned n base).done ?_ i
    exact { h with server := h.next h.server }

theorem aligned_getInput {i cmdSize : ℕ} (h : Aligned n base np) :
    Gives (Aligned n base) (getInput np i cmdSize) := by
  rw [getInput]
  split_ifs
  · exact (receptive_aligned n base).refuse h i
  refine (receptive_aligned n base).recv h (fun np h => Receptive.refused h) fun _ np h => ?_
  exact (receptive_aligned n base).recv h (fun np h => Receptive.refused h)
    fun _ np h => aligned_inputFrom h

theorem aligned_getPlay {settings : Settings} {i cmdSize : ℕ} (h : Aligned n base np) :
    Gives (Aligned n base) (getPlay settings np i cmdSize) := by
  have hrefuse : ∀ np : NetplayT σ, Aligned n base np → Gives (Aligned n base) (nak np i) :=
    fun np h => (receptive_aligned n base).refuse h i
  rw [getPlay]
  split_ifs
  · exact hrefuse np h
  refine (receptive_aligned n base).recv h hrefuse fun payload np h => ?_
  have hrefused : ∀ reason, Aligned n base (refuseMode np (some i) reason) :=
    fun reason => h.of_frames (frames_refuseMode np (some i) reason)
  simp only
  split_ifs
  · exact hrefuse np h
  · exact (receptive_aligned n base).done (hrefused _) i
  · exact (receptive_aligned n base).done (hrefused _) i
  · exact hrefuse np h
  · exact Gives.bind fun np' hplay =>
      (receptive_aligned n base).done (aligned_handlePlay h hplay) i

theorem aligned_finishHandshake {i : ℕ} {nick sram : List UInt8} (h : Aligned n base np) :
    Gives (Aligned n base) (finishHandshake np i nick sram) :=
  gives_finishHandshake ((h.setConnection i _).of_frames (frames_handshakeSync _ i sram))
    fun np' h' => h'.of_game (game_netplaySendCurInput np' i)

theorem aligned_handshake {i : ℕ} (hs : Handshake) (h : Aligned n base np) :
    Gives (Aligned n base) (netplayHandshake np i hs) := by
  cases hs with
  | fail => exact Receptive.refused h
  | wait => exact Gives.some h
  | proceed nick canPlay compression sram =>
    have hflushed : Aligned n base (netplayRecvFlush np i) := h.of_clock rfl
    simp only [netplayHandshake]
    split
    · refine Gives.some (Aligned.setConnection ?_ i _)
      split_ifs <;> exact hflushed.of_clock rfl
    · exact Gives.some (hflushed.setConnection i _)
    · exact Gives.some (hflushed.setConnection i _)
    · exact aligned_finishHandshake hflushed
    · exact Receptive.refused hflushed

theorem aligned_handleCmd {pf : Platform σ} {settings : Settings} {i cmd cmdSize : ℕ}
    (h : Aligned n base np) : Gives (Aligned n base) (handleCmd pf settings np i cmd cmdSize) := by
  have hP : Receptive (Aligned n base : NetplayT σ → Prop) := receptive_aligned n base
  unfold handleCmd
  split
  case h_1 => exact hP.done h i
  case h_2 => exact Receptive.refused h
  case h_3 => exact Gives.some (h.of_game (game_hangup np i))
  case h_4 => exact aligned_getInput h
  case h_5 => exact aligned_getNoinput h
  case h_6 =>
    simp only [getSpectate]
    split_ifs
    · exact hP.refuse h i
    · exact hP.refuse h i
    · exact hP.refuse h i
    · exact hP.done (h.of_frames (frames_handleSpectate np _ _)) i
  case h_7 => exact aligned_getPlay h
  case h_8 =>
    rw [getMode]
    split_ifs
    · exact hP.refuse h i
    · exact hP.refuse h i
    · exact hP.recv h (fun np h => hP.refuse h i) fun _ np h => aligned_modeFrom h
  case h_9 =>
    rw [getModeRefused]
    split_ifs
    · exact hP.refuse h i
    · exact hP.refuse h i
    · exact hP.recv h (fun np h => hP.refuse h i) fun _ np h => hP.done h i
  case h_10 => exact aligned_getCrc h
  case h_11 =>
    refine hP.done ?_ i
    exact h.of_clock rfl
  case h_12 => exact aligned_getLoad h
  case h_13 => exact aligned_getLoad h
  case h_14 => exact aligned_getPause h
  case h_15 => exact hP.done (h.of_game (game_remoteUnpaused np i)) i
  case h_16 => exact aligned_getStall h
  case h_17 => exact hP.refuse h i

theorem aligned_getCmd {pf : Platform σ} {settings : Settings} {i : ℕ} (hs : Handshake)
    (h : Aligned n base np) : Gives (Aligned n base) (netplayGetCmd pf settings hs np i) := by
  rw [netplayGetCmd]
  split_ifs
  · exact aligned_handshake hs h
  refine (receptive_aligned n base).recv h (fun np h => Receptive.refused h) fun cmd np h => ?_
  exact (receptive_aligned n base).recv h (fun np h => Receptive.refused h)
    fun size np h => aligned_handleCmd h

end RetroArch.Netplay.Clock
