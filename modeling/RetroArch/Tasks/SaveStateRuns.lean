/- Whole runs of the tasks that save and load a state, from the push to the callback. -/

import RetroArch.Library.Run
import RetroArch.Tasks.SaveStateEnds

namespace RetroArch.Tasks.SaveState

open Library.Accounting Library.Run

section Pushes

variable {host : Host} {settings : Settings}

theorem world_running (host : Host) (title : Msg) {state : SaveTaskState}
    (hundo : state.undoData = none)
    (hdata : state.data = none ∨ state.undoSave = true ∧ state.data = host.undoSaveBuf.data) :
    Running (host.world title state) 0 := by
  have hfresh : Resource.state ∉ host.ledger.acquired := by
    intro hmem
    obtain ⟨n, -, heq⟩ := host.below _ hmem
    cases heq
  have hheld : heldData (host.world title state) = 0 := by
    unfold heldData
    rcases hdata with hnone | ⟨hsave, hsame⟩
    · rw [show (host.world title state).state.data = none from hnone]
    · rcases hbuf : host.undoSaveBuf.data with _ | b
      · rw [show (host.world title state).state.data = none from hsame.trans hbuf]
      · rw [show (host.world title state).state.data = some b from hsame.trans hbuf]
        have halias : isUndoSaveBuf (host.world title state) b = true := by
          unfold isUndoSaveBuf Host.world
          dsimp only
          rw [hbuf]
          exact decide_eq_true rfl
        have hflag : (host.world title state).state.undoSave = true := hsave
        dsimp only
        rw [hflag, halias]
        rfl
  constructor
  · rfl
  · rfl
  · constructor
    · have hacc := host.accounts.acquire hfresh
      have heq : 0 + heldBy (host.world title state) = .state ::ₘ blocks host.undoSaveBuf.data := by
        rw [heldBy, hheld, zero_add, zero_add]
        change {.state} + (blocks host.undoSaveBuf.data + blocks state.undoData) = _
        rw [hundo, blocks, add_zero, Multiset.singleton_add]
      rw [heq]
      exact hacc
    · intro n hn
      rcases Multiset.mem_cons.mp hn with heq | hmem
      · cases heq
      · obtain ⟨m, hm, heq⟩ := host.below _ hmem
        cases heq
        exact hm
  · intro hmem
    rcases Multiset.mem_cons.mp hmem with heq | hmem
    · cases heq
    · obtain ⟨n, -, heq⟩ := host.below _ hmem
      cases heq

theorem world_noFile (host : Host) (title : Msg) (state : SaveTaskState) :
    .file ∉ (host.world title state).ledger.acquired := by
  intro hmem
  rcases Multiset.mem_cons.mp hmem with heq | hmem
  · exact nomatch heq
  · obtain ⟨n, -, heq⟩ := host.below _ hmem
    exact nomatch heq

/-- The number of bytes of the state that a job saves. -/
def Job.size (host : Host) : Job → ℕ
  | .save _ size _ _ => size
  | .undoSave => host.undoSaveBuf.size
  | .load .. | .loadAndSave .. => 0

def Job.Saves : Job → Prop
  | .save .. | .undoSave => True
  | .load .. | .loadAndSave .. => False

theorem push_pushed (host : Host) (settings : Settings) (job : Job) :
    Pushed (job.push host settings) (job.size host) := by
  cases job with
  | save path size data autosave =>
    rcases data with _ | ⟨bytes, hbytes⟩
    · refine ⟨world_running host _ rfl (Or.inl rfl), world_noFile host _ _, rfl, rfl, rfl, rfl,
        ?_⟩
      intro b hb
      exact nomatch hb
    · refine ⟨(world_running host _ rfl (Or.inl rfl)).withData rfl bytes, ?_, rfl, rfl, rfl, rfl,
        ?_⟩
      · intro hmem
        rcases Multiset.mem_cons.mp hmem with heq | hmem
        · exact nomatch heq
        · exact world_noFile host _ _ hmem
      · intro b hb
        obtain rfl := Option.some.inj hb
        exact hbytes
  | undoSave =>
    exact ⟨world_running host _ rfl (Or.inr ⟨rfl, rfl⟩), world_noFile host _ _, rfl, rfl, rfl,
      rfl, fun b hb => host.fits b hb⟩
  | load path toBackup autoload =>
    refine ⟨world_running host _ rfl (Or.inl rfl), world_noFile host _ _, rfl, rfl, rfl, rfl,
        ?_⟩
    intro b hb
    exact nomatch hb
  | loadAndSave path size data toBackup autosave =>
    rcases data with _ | ⟨bytes, hbytes⟩
    · refine ⟨world_running host _ rfl (Or.inl rfl), world_noFile host _ _, rfl, rfl, rfl, rfl,
        ?_⟩
      intro b hb
      exact nomatch hb
    · refine ⟨(world_running host _ rfl (Or.inl rfl)).withUndoData rfl bytes, ?_, rfl, rfl, rfl,
        rfl, ?_⟩
      · intro hmem
        rcases Multiset.mem_cons.mp hmem with heq | hmem
        · exact nomatch heq
        · exact world_noFile host _ _ hmem
      · intro b hb
        exact nomatch hb

theorem push_noUndoData {job : Job} (h : job.Saves) :
    (job.push host settings).state.undoData = none := by
  cases job with
  | save path size data autosave =>
    rcases data with _ | bytes
    · rfl
    · rfl
  | undoSave => rfl
  | load path toBackup autoload => exact h.elim
  | loadAndSave path size data toBackup autosave => exact h.elim

theorem push_load (host : Host) (settings : Settings) {job : Job} (h : ¬ job.Saves) :
    (job.push host settings).state.data = none ∧
      (job.push host settings).state.undoSave = false := by
  cases job with
  | save path size data autosave => exact absurd trivial h
  | undoSave => exact absurd trivial h
  | load path toBackup autoload => exact ⟨rfl, rfl⟩
  | loadAndSave path size data toBackup autosave =>
    rcases data with _ | bytes
    · exact ⟨rfl, rfl⟩
    · exact ⟨rfl, rfl⟩

theorem push_disk (host : Host) (settings : Settings) (job : Job) :
    (job.push host settings).disk = host.disk := by
  rcases job with ⟨_, _, _ | _, _⟩ | _ | _ | ⟨_, _, _ | _, _, _⟩ <;> rfl

end Pushes

section Setup

variable {w : World} {a : Answers}

/-- Everything that the first call of a load task asks for. -/
def SetUp (a : Answers) : Prop :=
  a.opens = true ∧ a.seeks = true ∧ a.tells = true ∧ a.allocs = true

/-- A first call that goes to `error` leaves no data and no error. -/
structure NotSetUp (w w' : World) : Prop where
  noError : w'.task.error = none
  books : Books w' (openFile w' + heldBy w')
  noTaskData : .taskData ∉ w'.ledger.acquired
  noData : w'.state.data = none
  notUndo : w'.state.undoSave = false
  disk : w'.disk = w.disk

theorem loadSetup_spec {n : ℕ} (h : Pushed w n) (hdata : w.state.data = none)
    (hload : w.state.undoSave = false) :
    (SetUp a ∧ (loadSetup a w).2 = true ∧ LoadAt w.disk 0 (loadSetup a w).1 ∧
        ∃ pos, (loadSetup a w).1.state.file = some pos ∧ (pos = 0 ∨ pos = w.disk.length)) ∨
      (¬ SetUp a ∧ (loadSetup a w).2 = false ∧ NotSetUp w (loadSetup a w).1) := by
  have hopened : ∀ (pos : ℕ) (size : ℤ), Running
      { w.acquire .file with state := { w.state with file := some pos, size := size } }
      {.file} := by
    intro pos size
    have hbooks : Books (w.acquire .file) ({.file} + (0 + heldBy w)) :=
      h.books.acquire h.noFile fun _ => Resource.noConfusion
    rw [zero_add] at hbooks
    refine ⟨h.unfinished, h.noError, hbooks.congr rfl rfl, ?_⟩
    intro hmem
    rcases Multiset.mem_cons.mp hmem with heq | hmem
    · exact nomatch heq
    · exact h.noTaskData hmem
  have hfailed : ∀ (pos : ℕ) (size : ℤ), NotSetUp w
      { w.acquire .file with state := { w.state with file := some pos, size := size } } := by
    intro pos size
    exact ⟨h.noError, (hopened pos size).books, (hopened pos size).noTaskData, hdata, hload, rfl⟩
  rcases hopens : a.opens with _ | _
  · have heq : loadSetup a w = (w, false) := by rw [loadSetup, hopens]; rfl
    right
    rw [heq]
    refine ⟨fun hset => absurd (hopens.symm.trans hset.1) Bool.false_ne_true, rfl, h.noError, ?_,
      h.noTaskData, hdata, hload, rfl⟩
    have hclosed : openFile w = 0 := by rw [openFile, h.file]
    rw [hclosed]
    exact h.books
  rcases hseeks : a.seeks with _ | _
  · right
    have heq : loadSetup a w = ({ w.acquire .file with
        state := { w.state with file := some 0, size := w.state.size } }, false) := by
      rw [loadSetup, hopens, hseeks]
      rfl
    rw [heq]
    exact ⟨fun hset => absurd (hseeks.symm.trans hset.2.1) Bool.false_ne_true, rfl, hfailed 0 _⟩
  rcases htells : a.tells with _ | _
  · right
    have heq : loadSetup a w = ({ w.acquire .file with
        state := { w.state with file := some w.disk.length, size := -1 } }, false) := by
      rw [loadSetup, hopens, hseeks, htells]
      rfl
    rw [heq]
    exact ⟨fun hset => absurd (htells.symm.trans hset.2.2.1) Bool.false_ne_true, rfl, hfailed _ _⟩
  set pos := if a.rewinds then 0 else w.disk.length with hpos
  set sized : World := { w.acquire .file with
    state := { w.state with file := some pos, size := w.disk.length } } with hsized
  have heq : loadSetup a w =
      if a.allocs then
        let bytes := (List.range (sized.state.size + 1).toNat).map a.junk
        ({ (sized.malloc bytes).2 with
          state := { sized.state with data := some (sized.malloc bytes).1 } }, true)
      else (sized, false) := by
    rw [loadSetup, hopens, hseeks, htells]
    simp only [↓reduceIte]
    rw [hsized, hpos]
    rcases a.rewinds with _ | _
    · rfl
    · rfl
  rw [heq]
  rcases hallocs : a.allocs with _ | _
  · right
    exact ⟨fun hset => absurd (hallocs.symm.trans hset.2.2.2) Bool.false_ne_true, rfl, hfailed _ _⟩
  · left
    refine ⟨⟨hopens, hseeks, htells, hallocs⟩, rfl, ⟨(hopened pos _).withData hdata _,
      ⟨_, rfl, rfl, ?_⟩, rfl, h.bytesRead, Nat.zero_le _, rfl, hload⟩, pos, rfl, ?_⟩
    · change (((List.range (sized.state.size + 1).toNat).map a.junk)).length = _
      rw [List.length_map, List.length_range]
      rfl
    · rw [hpos]
      split_ifs
      · exact Or.inl rfl
      · exact Or.inr rfl

end Setup

section Callbacks

variable {w : World} {a : Answers} {data : SaveTaskState}

/-- What the program holds after the callback: the backup buffer, and the data for the task that
the callback has pushed. -/
def owned (w : World) : Multiset Resource :=
  blocks w.undoSaveBuf.data +
    match w.task.taskData with
    | none => 0
    | some data => blocks data.undoData

theorem owned_of_taskData (h : w.task.taskData = some data) :
    owned w = blocks w.undoSaveBuf.data + blocks data.undoData := by
  rw [owned, h]

theorem saveStateCb_owned (h : Finished w data 0) :
    Accounts (saveStateCb w).ledger (owned (saveStateCb w)) := by
  have htask : (saveStateCb w).task.taskData = some data := h.taskData
  have hbooks := h.books
  rw [zero_add] at hbooks
  rw [owned_of_taskData htask]
  exact hbooks.release.accounts

theorem undoSaveStateCb_owned (h : Finished w data 0) :
    Accounts (undoSaveStateCb w).ledger (owned (undoSaveStateCb w)) := by
  have htask : (undoSaveStateCb w).task.taskData = some data := by
    change (w.free w.undoSaveBuf.data).task.taskData = _
    rw [free_task]
    exact h.taskData
  have hbooks := h.books
  have harranged : {.taskData} + (0 + (blocks w.undoSaveBuf.data + blocks data.undoData)) =
      blocks w.undoSaveBuf.data + ({.taskData} + blocks data.undoData) := by
    abel
  rw [harranged] at hbooks
  have hnone : blocks none + blocks data.undoData = blocks data.undoData := Multiset.zero_add _
  rw [owned_of_taskData htask]
  change Accounts _ (blocks none + blocks data.undoData)
  rw [hnone]
  exact hbooks.free.release.accounts

theorem contentLoadStateCb_owned (h : Finished w data (blocks data.data)) :
    Accounts (contentLoadStateCb a data w).ledger (owned (contentLoadStateCb a data w)) := by
  have hbooks := h.books
  unfold contentLoadStateCb
  rcases hdata : data.data with _ | buf
  · rw [hdata] at hbooks
    have htask : (w.release .taskData).task.taskData = some data := h.taskData
    have hnone : blocks none + (blocks w.undoSaveBuf.data + blocks data.undoData) =
        blocks w.undoSaveBuf.data + blocks data.undoData := Multiset.zero_add _
    rw [hnone] at hbooks
    dsimp only
    rw [owned_of_taskData htask]
    exact hbooks.release.accounts
  · rw [hdata] at hbooks
    have hlast : ∀ w' : World, w'.task = w.task →
        Books w' ({.taskData} + (blocks (some buf) +
          (blocks w'.undoSaveBuf.data + blocks data.undoData))) →
        Accounts ((w'.free (some buf)).release .taskData).ledger
          (owned ((w'.free (some buf)).release .taskData)) := by
      intro w' htask hbooks'
      have htaskData : ((w'.free (some buf)).release .taskData).task.taskData = some data := by
        change w'.task.taskData = _
        rw [htask]
        exact h.taskData
      have harranged : {.taskData} + (blocks (some buf) +
            (blocks w'.undoSaveBuf.data + blocks data.undoData)) =
          blocks (some buf) + ({.taskData} +
            (blocks w'.undoSaveBuf.data + blocks data.undoData)) := by
        abel
      rw [harranged] at hbooks'
      rw [owned_of_taskData htaskData]
      exact hbooks'.free.release.accounts
    have hbackupFirst : {.taskData} + (blocks (some buf) +
          (blocks w.undoSaveBuf.data + blocks data.undoData)) =
        blocks w.undoSaveBuf.data +
          ({.taskData} + (blocks (some buf) + blocks data.undoData)) := by
      abel
    dsimp only
    split_ifs with hnegative hbackup halloc
    · exact hlast w rfl hbooks
    · -- the old backup goes, and a copy of what was read takes its place
      rw [hbackupFirst] at hbooks
      have hmalloc := hbooks.free.malloc (buf.bytes.take data.size.toNat)
      apply hlast
      · exact free_task w _
      · have hnew : ∀ n : ℕ, {.taskData} + (blocks (some buf) +
              (blocks (some ⟨n, buf.bytes.take data.size.toNat⟩) + blocks data.undoData)) =
            {.block n} + ({.taskData} + (blocks (some buf) + blocks data.undoData)) := by
          intro n
          rw [blocks, blocks]
          abel
        have hbooks' := hmalloc
        rw [← hnew] at hbooks'
        exact hbooks'.congr rfl rfl
    · rw [hbackupFirst] at hbooks
      apply hlast
      · exact free_task w _
      · have hzero : blocks none + blocks data.undoData = blocks data.undoData :=
          Multiset.zero_add _
        change Books _ ({.taskData} + (blocks (some buf) + (blocks none + blocks data.undoData)))
        rw [hzero]
        exact hbooks.free.congr rfl rfl
    · exact hlast w rfl hbooks

end Callbacks

section Runs

variable {chunk : ℕ+} {host : Host} {settings : Settings} {job : Job} {answers : ℕ → Answers}

/-- What a task without an error leaves: the state in the file, or the file in its data. -/
def Right (job : Job) (start : World) (answers : ℕ → Answers) (w : World) : Prop :=
  match job with
  | .save .. | .undoSave => ∃ n, StateBytes start (answers n) w.disk
  | .load .. | .loadAndSave .. =>
    w.disk = start.disk ∧ ∃ data, w.task.taskData = some data ∧ Loaded start.disk data

/-- The bytes that a task has written or read. -/
def Job.moved (job : Job) (w : World) : ℤ :=
  match job with
  | .save .. | .undoSave => w.state.written
  | .load .. | .loadAndSave .. => w.state.bytesRead

/-- Every call ends the task or moves bytes, the task ends, without an error it has done what it
is for, and everything it has acquired is released once. -/
structure Settles (chunk : ℕ+) (host : Host) (settings : Settings) (job : Job)
    (answers : ℕ → Answers) : Prop where
  progress : ∀ n, (calls chunk job answers (job.push host settings) n).task.finished = false →
    (calls chunk job answers (job.push host settings) (n + 1)).task.finished = true ∨
      job.moved (calls chunk job answers (job.push host settings) n) <
        job.moved (calls chunk job answers (job.push host settings) (n + 1))
  ends : ∃ n, (calls chunk job answers (job.push host settings) n).task.finished = true
  right : ∀ n, (calls chunk job answers (job.push host settings) n).task.finished = true →
    (calls chunk job answers (job.push host settings) n).task.error = none →
    Right job (job.push host settings) answers
      (calls chunk job answers (job.push host settings) n)
  released : ∀ n a, (calls chunk job answers (job.push host settings) n).task.finished = true →
    Accounts (callback job a (calls chunk job answers (job.push host settings) n)).ledger
      (owned (callback job a (calls chunk job answers (job.push host settings) n)))

/-- A save task opens its file in the first call; a load task is set up there, or cancelled. -/
def Starts (job : Job) (a : Answers) : Prop :=
  match job with
  | .save .. | .undoSave => a.opens = true
  | .load .. | .loadAndSave .. => SetUp a ∨ a.cancelledAtEnd = true

variable {start : World}

theorem calls_finished {n : ℕ} (h : (calls chunk job answers start n).task.finished = true) :
    calls chunk job answers start (n + 1) = calls chunk job answers start n := by
  rw [calls]
  exact if_pos h

theorem calls_unfinished {n : ℕ} (h : (calls chunk job answers start n).task.finished = false) :
    calls chunk job answers start (n + 1) =
      handler chunk job (answers n) (calls chunk job answers start n) := by
  rw [calls]
  exact if_neg (by rw [h]; exact Bool.false_ne_true)

/-- What a task keeps between its calls, from the first one on. -/
theorem calls_invariant {going ended : World → Prop}
    (hgoing : ∀ w, going w → w.task.finished = false)
    (hended : ∀ w, ended w → w.task.finished = true)
    (hstart : start.task.finished = false)
    (first : ended (handler chunk job (answers 0) start) ∨
      going (handler chunk job (answers 0) start))
    (next : ∀ n w, going w →
      ended (handler chunk job (answers n) w) ∨ going (handler chunk job (answers n) w)) (n : ℕ) :
    ended (calls chunk job answers start (n + 1)) ∨
      going (calls chunk job answers start (n + 1)) := by
  induction n with
  | zero =>
    rw [calls_unfinished (n := 0) hstart]
    exact first
  | succ n ih =>
    rcases ih with hend | hgo
    · left
      rw [calls_finished (hended _ hend)]
      exact hend
    · rw [calls_unfinished (hgoing _ hgo)]
      exact next _ _ hgo

end Runs

section Save

variable {chunk : ℕ+} {host : Host} {settings : Settings} {job : Job} {answers : ℕ → Answers}

/-- A save task between its calls. -/
def SaveGoing (P : List UInt8 → Prop) (w : World) : Prop :=
  ∃ bytes k, P bytes ∧ SaveAt bytes k w

theorem handler_of_saves (h : job.Saves) : handler chunk job = taskSaveHandler chunk := by
  cases job with
  | save path size data autosave => rfl
  | undoSave => rfl
  | load path toBackup autoload => exact h.elim
  | loadAndSave path size data toBackup autosave => exact h.elim

theorem moved_of_saves (h : job.Saves) (w : World) : job.moved w = w.state.written := by
  cases job with
  | save path size data autosave => rfl
  | undoSave => rfl
  | load path toBackup autoload => exact h.elim
  | loadAndSave path size data toBackup autosave => exact h.elim

theorem save_first {w : World} {a : Answers} {n : ℕ} (h : Pushed w n)
    (hundo : w.state.undoData = none) (hopens : a.opens = true) :
    SaveEnded (StateBytes w a) (taskSaveHandler chunk a w) ∨
      ∃ bytes k, StateBytes w a bytes ∧ 0 < k ∧ SaveAt bytes k (taskSaveHandler chunk a w) := by
  have heq : taskSaveHandler chunk a w = saveOpened chunk a
      { w.acquire .file with disk := [], state := { w.state with file := some 0 } } 0 := by
    unfold taskSaveHandler
    rw [h.file]
    dsimp only
    rw [if_pos hopens]
    rfl
  rw [heq]
  exact saveOpened_step h.opened rfl rfl h.size h.written h.fits hundo

theorem save_next {P : List UInt8 → Prop} {w : World} {a : Answers} {bytes : List UInt8} {k : ℕ}
    (h : SaveAt bytes k w) (hP : P bytes) :
    SaveEnded P (taskSaveHandler chunk a w) ∨
      ∃ k', k < k' ∧ SaveAt bytes k' (taskSaveHandler chunk a w) := by
  obtain ⟨b, hdata, -⟩ := h.data
  have heq : taskSaveHandler chunk a w = saveChunk chunk a w k := by
    unfold taskSaveHandler
    rw [h.file]
    dsimp only
    rw [saveOpened, hdata]
  rw [heq]
  exact saveChunk_step h hP

theorem save_invariant (hjob : job.Saves) (hopens : (answers 0).opens = true) (n : ℕ) :
    SaveEnded (StateBytes (job.push host settings) (answers 0))
        (calls chunk job answers (job.push host settings) (n + 1)) ∨
      SaveGoing (StateBytes (job.push host settings) (answers 0))
        (calls chunk job answers (job.push host settings) (n + 1)) := by
  have hpushed := push_pushed host settings job
  apply calls_invariant
  · rintro w ⟨bytes, k, -, hat⟩
    exact hat.unfinished
  · intro w hended
    exact hended.finished
  · exact hpushed.unfinished
  · rw [handler_of_saves hjob]
    rcases save_first hpushed (push_noUndoData hjob) hopens with hend | ⟨bytes, k, hP, -, hat⟩
    · exact Or.inl hend
    · exact Or.inr ⟨bytes, k, hP, hat⟩
  · rintro n w ⟨bytes, k, hP, hat⟩
    rw [handler_of_saves hjob]
    rcases save_next hat hP with hend | ⟨k', -, hat'⟩
    · exact Or.inl hend
    · exact Or.inr ⟨bytes, k', hP, hat'⟩

theorem stateBytes_length {w : World} {a : Answers} {n : ℕ} (h : Pushed w n) {bytes : List UInt8}
    (hbytes : StateBytes w a bytes) : bytes.length = n := by
  unfold StateBytes at hbytes
  rcases hdata : w.state.data with _ | b
  · rw [hdata] at hbytes
    dsimp only at hbytes
    split_ifs at hbytes with hzero
    · rw [h.size] at hzero
      rw [hbytes, List.length_nil]
      omega
    · obtain ⟨core, -, rfl⟩ := hbytes
      rw [List.length_map, List.length_range, h.size]
      rfl
  · rw [hdata] at hbytes
    rw [hbytes]
    exact h.fits b hdata

theorem save_progress (hjob : job.Saves) (hopens : (answers 0).opens = true) (n : ℕ)
    (hn : (calls chunk job answers (job.push host settings) n).task.finished = false) :
    (calls chunk job answers (job.push host settings) (n + 1)).task.finished = true ∨
      job.moved (calls chunk job answers (job.push host settings) n) <
        job.moved (calls chunk job answers (job.push host settings) (n + 1)) := by
  have hpushed := push_pushed host settings job
  rw [moved_of_saves hjob, moved_of_saves hjob, calls_unfinished hn, handler_of_saves hjob]
  cases n with
  | zero =>
    rcases save_first hpushed (push_noUndoData hjob) hopens with hend | ⟨bytes, k, -, hk, hat⟩
    · exact Or.inl hend.finished
    · right
      change (job.push host settings).state.written <
        (taskSaveHandler chunk (answers 0) (job.push host settings)).state.written
      rw [hpushed.written, hat.written]
      exact_mod_cast hk
  | succ n =>
    rcases save_invariant hjob hopens n with hend | ⟨bytes, k, hP, hat⟩
    · exact absurd hend.finished (by rw [hn]; exact Bool.false_ne_true)
    · rcases save_next hat hP with hend | ⟨k', hk, hat'⟩
      · exact Or.inl hend.finished
      · right
        rw [hat.written, hat'.written]
        exact_mod_cast hk

theorem save_settles (hjob : job.Saves) (hopens : (answers 0).opens = true) :
    Settles chunk host settings job answers := by
  have hpushed := push_pushed host settings job
  have hended : ∀ n, (calls chunk job answers (job.push host settings) n).task.finished = true →
      SaveEnded (StateBytes (job.push host settings) (answers 0))
        (calls chunk job answers (job.push host settings) n) := by
    intro n hn
    cases n with
    | zero => exact absurd (hn.symm.trans hpushed.unfinished) (Bool.false_ne_true ∘ Eq.symm)
    | succ n =>
      rcases save_invariant hjob hopens n with hend | ⟨bytes, k, -, hat⟩
      · exact hend
      · exact absurd (hn.symm.trans hat.unfinished) (Bool.false_ne_true ∘ Eq.symm)
  constructor
  · exact save_progress hjob hopens
  · have hbound : ∀ n, (calls chunk job answers (job.push host settings) n).task.finished ≠ true →
        job.moved (calls chunk job answers (job.push host settings) n) ≤ (job.size host : ℤ) := by
      intro n hn
      rw [moved_of_saves hjob]
      cases n with
      | zero =>
        change (job.push host settings).state.written ≤ _
        rw [hpushed.written]
        exact Int.natCast_nonneg _
      | succ n =>
        rcases save_invariant hjob hopens n with hend | ⟨bytes, k, hP, hat⟩
        · exact absurd hend.finished hn
        · rw [hat.written, ← stateBytes_length hpushed hP]
          exact_mod_cast hat.within
    apply exists_of_progress _ hbound
    intro n hn
    exact save_progress hjob hopens n (Bool.eq_false_iff.mpr hn)
  · intro n hn herr
    have hdisk := (hended n hn).disk herr
    cases job with
    | save path size data autosave => exact ⟨0, hdisk⟩
    | undoSave => exact ⟨0, hdisk⟩
    | load path toBackup autoload => exact hjob.elim
    | loadAndSave path size data toBackup autosave => exact hjob.elim
  · intro n a hn
    obtain ⟨data, hfinished, -⟩ := (hended n hn).ended
    rw [callback, hfinished.taskData]
    cases job with
    | save path size data autosave => exact saveStateCb_owned hfinished
    | undoSave => exact undoSaveStateCb_owned hfinished
    | load path toBackup autoload => exact hjob.elim
    | loadAndSave path size data toBackup autosave => exact hjob.elim

theorem save_starts (hjob : job.Saves) (h : Settles chunk host settings job answers) :
    (answers 0).opens = true := by
  have hpushed := push_pushed host settings job
  by_contra hopens
  have hcall : calls chunk job answers (job.push host settings) (0 + 1) =
      job.push host settings := by
    have hstart : (calls chunk job answers (job.push host settings) 0).task.finished = false :=
      hpushed.unfinished
    rw [calls_unfinished hstart, handler_of_saves hjob]
    change taskSaveHandler chunk (answers 0) (job.push host settings) = _
    unfold taskSaveHandler
    rw [hpushed.file]
    dsimp only
    rw [if_neg hopens]
  have hprogress := h.progress 0 hpushed.unfinished
  rw [hcall] at hprogress
  rcases hprogress with hfinished | hmoved
  · exact absurd (hfinished.symm.trans hpushed.unfinished) (Bool.false_ne_true ∘ Eq.symm)
  · exact absurd hmoved (lt_irrefl _)

end Save

section Load

variable {chunk : ℕ+} {host : Host} {settings : Settings} {job : Job} {answers : ℕ → Answers}

theorem handler_of_loads (h : ¬ job.Saves) : handler chunk job = taskLoadHandler chunk := by
  cases job with
  | save path size data autosave => exact absurd trivial h
  | undoSave => exact absurd trivial h
  | load path toBackup autoload => rfl
  | loadAndSave path size data toBackup autosave => rfl

theorem moved_of_loads (h : ¬ job.Saves) (w : World) : job.moved w = w.state.bytesRead := by
  cases job with
  | save path size data autosave => exact absurd trivial h
  | undoSave => exact absurd trivial h
  | load path toBackup autoload => rfl
  | loadAndSave path size data toBackup autosave => rfl

/-- A load task between its calls. -/
def LoadGoing (disk : List UInt8) (w : World) : Prop :=
  ∃ k, LoadAt disk k w ∧ w.state.file = some k

theorem load_next {w : World} {a : Answers} {disk : List UInt8} {k : ℕ} (h : LoadAt disk k w)
    (hfile : w.state.file = some k) :
    LoadEnded disk (taskLoadHandler chunk a w) ∨
      ∃ k', k < k' ∧ LoadAt disk k' (taskLoadHandler chunk a w) ∧
        (taskLoadHandler chunk a w).state.file = some k' := by
  have heq : taskLoadHandler chunk a w = loadChunk chunk a w k := by
    unfold taskLoadHandler
    rw [hfile]
  rw [heq]
  exact loadChunk_step h (Or.inl rfl)

/-- Where the setup fails, the first call ends the task, with an error only after a cancellation
and with no data for the callback. -/
theorem load_failed (chunk : ℕ+) {w : World} {a : Answers} {n : ℕ} (h : Pushed w n)
    (hdata : w.state.data = none) (hload : w.state.undoSave = false) (hset : ¬ SetUp a) :
    (∃ data, Finished (taskLoadHandler chunk a w) data (blocks data.data) ∧ data.data = none) ∧
      (taskLoadHandler chunk a w).disk = w.disk ∧
      ((taskLoadHandler chunk a w).task.error = none ↔ a.cancelledAtEnd = false) := by
  rcases loadSetup_spec (a := a) h hdata hload with ⟨hok, -⟩ | ⟨-, hfalse, hnot⟩
  · exact absurd hok hset
  · have heq : taskLoadHandler chunk a w = taskLoadHandlerFinished a (loadSetup a w).1 := by
      unfold taskLoadHandler
      rw [h.file]
      rcases hsetup : loadSetup a w with ⟨w', ok⟩
      rw [hsetup] at hfalse
      dsimp only at hfalse
      rw [hfalse]
    rw [heq]
    refine ⟨⟨_, taskLoadHandlerFinished_finished hnot.books hnot.noTaskData hnot.notUndo,
      hnot.noData⟩, ?_, ?_⟩
    · rw [taskLoadHandlerFinished_disk, hnot.disk]
    · rw [taskLoadHandlerFinished_error]
      exact and_iff_right hnot.noError

theorem load_first (chunk : ℕ+) {w : World} {a : Answers} {n : ℕ} (h : Pushed w n)
    (hdata : w.state.data = none) (hload : w.state.undoSave = false)
    (hstart : SetUp a ∨ a.cancelledAtEnd = true) :
    LoadEnded w.disk (taskLoadHandler chunk a w) ∨
      ∃ k, 0 < k ∧ LoadAt w.disk k (taskLoadHandler chunk a w) ∧
        (taskLoadHandler chunk a w).state.file = some k := by
  rcases loadSetup_spec (a := a) h hdata hload with
    ⟨-, htrue, hat, pos, hpos, hwhere⟩ | ⟨hnot, -⟩
  · have heq : taskLoadHandler chunk a w = loadChunk chunk a (loadSetup a w).1 pos := by
      unfold taskLoadHandler
      rw [h.file]
      rcases hsetup : loadSetup a w with ⟨w', ok⟩
      rw [hsetup] at htrue hpos
      dsimp only at htrue hpos
      rw [htrue]
      dsimp only
      rw [hpos]
      rfl
    rw [heq]
    exact loadChunk_step hat hwhere
  · left
    have hcancelled := hstart.resolve_left hnot
    obtain ⟨⟨data, hfinished, -⟩, hdisk, herr⟩ := load_failed chunk h hdata hload hnot
    refine ⟨⟨data, hfinished, ?_⟩, hdisk⟩
    intro hnone
    rw [herr, hcancelled] at hnone
    exact nomatch hnone

theorem load_invariant (hjob : ¬ job.Saves)
    (hstart : SetUp (answers 0) ∨ (answers 0).cancelledAtEnd = true) (n : ℕ) :
    LoadEnded host.disk (calls chunk job answers (job.push host settings) (n + 1)) ∨
      LoadGoing host.disk (calls chunk job answers (job.push host settings) (n + 1)) := by
  have hpushed := push_pushed host settings job
  obtain ⟨hdata, hload⟩ := push_load host settings hjob
  apply calls_invariant
  · rintro w ⟨k, hat, -⟩
    exact hat.unfinished
  · intro w hended
    exact hended.finished
  · exact hpushed.unfinished
  · rw [handler_of_loads hjob, ← push_disk host settings job]
    rcases load_first chunk hpushed hdata hload hstart with hend | ⟨k, -, hat⟩
    · exact Or.inl hend
    · exact Or.inr ⟨k, hat⟩
  · rintro n w ⟨k, hat, hfile⟩
    rw [handler_of_loads hjob]
    rcases load_next hat hfile with hend | ⟨k', -, hat'⟩
    · exact Or.inl hend
    · exact Or.inr ⟨k', hat'⟩

theorem load_progress (hjob : ¬ job.Saves)
    (hstart : SetUp (answers 0) ∨ (answers 0).cancelledAtEnd = true) (n : ℕ)
    (hn : (calls chunk job answers (job.push host settings) n).task.finished = false) :
    (calls chunk job answers (job.push host settings) (n + 1)).task.finished = true ∨
      job.moved (calls chunk job answers (job.push host settings) n) <
        job.moved (calls chunk job answers (job.push host settings) (n + 1)) := by
  have hpushed := push_pushed host settings job
  obtain ⟨hdata, hload⟩ := push_load host settings hjob
  rw [moved_of_loads hjob, moved_of_loads hjob, calls_unfinished hn, handler_of_loads hjob]
  cases n with
  | zero =>
    rcases load_first chunk hpushed hdata hload hstart with hend | ⟨k, hk, hat, -⟩
    · exact Or.inl hend.finished
    · right
      change (job.push host settings).state.bytesRead <
        (taskLoadHandler chunk (answers 0) (job.push host settings)).state.bytesRead
      rw [hpushed.bytesRead, hat.bytesRead]
      exact_mod_cast hk
  | succ n =>
    rcases load_invariant hjob hstart n with hend | ⟨k, hat, hfile⟩
    · exact absurd hend.finished (by rw [hn]; exact Bool.false_ne_true)
    · rcases load_next hat hfile with hend | ⟨k', hk, hat', -⟩
      · exact Or.inl hend.finished
      · right
        rw [hat.bytesRead, hat'.bytesRead]
        exact_mod_cast hk

theorem load_settles (hjob : ¬ job.Saves)
    (hstart : SetUp (answers 0) ∨ (answers 0).cancelledAtEnd = true) :
    Settles chunk host settings job answers := by
  have hpushed := push_pushed host settings job
  have hended : ∀ n, (calls chunk job answers (job.push host settings) n).task.finished = true →
      LoadEnded host.disk (calls chunk job answers (job.push host settings) n) := by
    intro n hn
    cases n with
    | zero => exact absurd (hn.symm.trans hpushed.unfinished) (Bool.false_ne_true ∘ Eq.symm)
    | succ n =>
      rcases load_invariant hjob hstart n with hend | ⟨k, hat, -⟩
      · exact hend
      · exact absurd (hn.symm.trans hat.unfinished) (Bool.false_ne_true ∘ Eq.symm)
  constructor
  · exact load_progress hjob hstart
  · have hbound : ∀ n, (calls chunk job answers (job.push host settings) n).task.finished ≠ true →
        job.moved (calls chunk job answers (job.push host settings) n) ≤
          (host.disk.length : ℤ) := by
      intro n hn
      rw [moved_of_loads hjob]
      cases n with
      | zero =>
        change (job.push host settings).state.bytesRead ≤ _
        rw [hpushed.bytesRead]
        exact Int.natCast_nonneg _
      | succ n =>
        rcases load_invariant hjob hstart n with hend | ⟨k, hat, -⟩
        · exact absurd hend.finished hn
        · rw [hat.bytesRead]
          exact_mod_cast hat.within
    apply exists_of_progress _ hbound
    intro n hn
    exact load_progress hjob hstart n (Bool.eq_false_iff.mpr hn)
  · intro n hn herr
    obtain ⟨data, hfinished, hloaded⟩ := (hended n hn).ended
    have hright : (calls chunk job answers (job.push host settings) n).disk =
          (job.push host settings).disk ∧
        ∃ data, (calls chunk job answers (job.push host settings) n).task.taskData = some data ∧
          Loaded (job.push host settings).disk data := by
      rw [push_disk]
      exact ⟨(hended n hn).disk, data, hfinished.taskData, hloaded herr⟩
    cases job with
    | save path size data autosave => exact absurd trivial hjob
    | undoSave => exact absurd trivial hjob
    | load path toBackup autoload => exact hright
    | loadAndSave path size data toBackup autosave => exact hright
  · intro n a hn
    obtain ⟨data, hfinished, -⟩ := (hended n hn).ended
    rw [callback, hfinished.taskData]
    cases job with
    | save path size data autosave => exact absurd trivial hjob
    | undoSave => exact absurd trivial hjob
    | load path toBackup autoload => exact contentLoadStateCb_owned hfinished
    | loadAndSave path size data toBackup autosave => exact contentLoadStateCb_owned hfinished

/-- A load task that is neither set up nor cancelled ends at once, with no data and no error. -/
theorem load_starts (hjob : ¬ job.Saves) (h : Settles chunk host settings job answers) :
    SetUp (answers 0) ∨ (answers 0).cancelledAtEnd = true := by
  have hpushed := push_pushed host settings job
  obtain ⟨hdata, hload⟩ := push_load host settings hjob
  by_contra hnot
  rw [not_or] at hnot
  obtain ⟨⟨data, hfinished, hnone⟩, -, herr⟩ :=
    load_failed chunk hpushed hdata hload hnot.1
  have hcall : calls chunk job answers (job.push host settings) (0 + 1) =
      taskLoadHandler chunk (answers 0) (job.push host settings) := by
    have hstart : (calls chunk job answers (job.push host settings) 0).task.finished = false :=
      hpushed.unfinished
    rw [calls_unfinished hstart, handler_of_loads hjob]
    rfl
  rw [← hcall] at hfinished herr
  have hright := h.right (0 + 1) hfinished.finished (herr.mpr (Bool.eq_false_iff.mpr hnot.2))
  have hloaded : ∃ data, (calls chunk job answers (job.push host settings) (0 + 1)).task.taskData =
      some data ∧ Loaded (job.push host settings).disk data := by
    cases job with
    | save path size data autosave => exact absurd trivial hjob
    | undoSave => exact absurd trivial hjob
    | load path toBackup autoload => exact hright.2
    | loadAndSave path size data toBackup autosave => exact hright.2
  obtain ⟨data', hdata', b, hb, -⟩ := hloaded
  obtain rfl := Option.some.inj (hfinished.taskData.symm.trans hdata')
  exact nomatch hnone.symm.trans hb

end Load

/-- A save task settles exactly when its first call can open the file, and a load task exactly when
its first call is set up or finds that it has been cancelled. -/
theorem settles_iff_starts (chunk : ℕ+) (host : Host) (settings : Settings) (job : Job)
    (answers : ℕ → Answers) :
    Settles chunk host settings job answers ↔ Starts job (answers 0) := by
  cases job with
  | save path size data autosave =>
    have hjob : (Job.save path size data autosave).Saves := trivial
    exact ⟨save_starts hjob, save_settles hjob⟩
  | undoSave =>
    have hjob : Job.undoSave.Saves := trivial
    exact ⟨save_starts hjob, save_settles hjob⟩
  | load path toBackup autoload =>
    have hjob : ¬ (Job.load path toBackup autoload).Saves := id
    exact ⟨load_starts hjob, load_settles hjob⟩
  | loadAndSave path size data toBackup autosave =>
    have hjob : ¬ (Job.loadAndSave path size data toBackup autosave).Saves := id
    exact ⟨load_starts hjob, load_settles hjob⟩

/-- A program without a backup buffer and an empty file. -/
def bareHost : Host where
  undoSaveBuf := ⟨none, "", 0⟩
  disk := []
  fresh := 0
  ledger := ⟨0, 0⟩
  fits := by
    intro b hb
    exact nomatch hb
  accounts := ⟨Multiset.nodup_zero, rfl⟩
  below := by
    intro r hr
    exact absurd hr (Multiset.notMem_zero r)

/-- A file layer that opens nothing. -/
def unopened : Answers where
  opens := false
  seeks := true
  tells := true
  rewinds := true
  allocs := true
  junk := fun _ => 0
  serialized := none
  moved := 4096
  fails := false
  cancelled := false
  cancelledAtEnd := false

/-- A state of one byte is never saved where its file cannot be opened, and the task never ends. -/
theorem unopened_never_settles :
    ¬ Settles 4096 bareHost ⟨0, false, false⟩
        (.save "game.state" 1 (some ⟨[7], rfl⟩) false) (fun _ => unopened) := by
  intro hsettles
  have hjob : (Job.save "game.state" 1 (some ⟨[7], rfl⟩) false).Saves := trivial
  have hopens : unopened.opens = true := save_starts hjob hsettles
  exact absurd hopens Bool.false_ne_true

end RetroArch.Tasks.SaveState
