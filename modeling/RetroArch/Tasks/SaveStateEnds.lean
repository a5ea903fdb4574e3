/- How the tasks that save and load a state end, and what they have released then. -/

import RetroArch.Tasks.SaveState
import Mathlib.Algebra.Order.Group.Multiset
import Mathlib.Tactic.Abel
import Mathlib.Tactic.Linarith

namespace RetroArch.Tasks.SaveState

open Library.Accounting

section Memory

/-- What a world holds, and the addresses it has given out. -/
structure Books (w : World) (held : Multiset Resource) : Prop where
  accounts : Accounts w.ledger held
  below : ∀ n, .block n ∈ w.ledger.acquired → n < w.fresh

variable {w w' : World} {held : Multiset Resource}

theorem Books.congr (h : Books w held) (hledger : w'.ledger = w.ledger)
    (hfresh : w'.fresh = w.fresh) : Books w' held := by
  constructor
  · rw [hledger]
    exact h.accounts
  · rw [hledger, hfresh]
    exact h.below

theorem Books.malloc (h : Books w held) (bytes : List UInt8) :
    Books (w.malloc bytes).2 ({.block w.fresh} + held) := by
  constructor
  · apply h.accounts.acquire
    intro hmem
    exact absurd (h.below _ hmem) (lt_irrefl _)
  · intro n hn
    rcases Multiset.mem_cons.mp hn with heq | hmem
    · cases heq
      exact Nat.lt_succ_self _
    · exact Nat.lt_succ_of_lt (h.below n hmem)

theorem Books.free {b : Option Block} (h : Books w (blocks b + held)) : Books (w.free b) held := by
  cases b with
  | none =>
    have hzero : blocks none + held = held := Multiset.zero_add held
    rw [hzero] at h
    exact h
  | some b => exact ⟨h.accounts.release, h.below⟩

theorem Books.acquire {r : Resource} (h : Books w held) (hr : r ∉ w.ledger.acquired)
    (hblock : ∀ n, r ≠ .block n) : Books (w.acquire r) ({r} + held) := by
  constructor
  · exact h.accounts.acquire hr
  · intro n hn
    rcases Multiset.mem_cons.mp hn with heq | hmem
    · exact absurd heq.symm (hblock n)
    · exact h.below n hmem

theorem Books.release {r : Resource} (h : Books w ({r} + held)) : Books (w.release r) held :=
  ⟨h.accounts.release, h.below⟩

@[simp] theorem free_disk (w : World) (b : Option Block) : (w.free b).disk = w.disk := by
  cases b <;> rfl

@[simp] theorem free_task (w : World) (b : Option Block) : (w.free b).task = w.task := by
  cases b <;> rfl

@[simp] theorem free_state (w : World) (b : Option Block) : (w.free b).state = w.state := by
  cases b <;> rfl

@[simp] theorem free_undoSaveBuf (w : World) (b : Option Block) :
    (w.free b).undoSaveBuf = w.undoSaveBuf := by
  cases b <;> rfl

@[simp] theorem free_acquired (w : World) (b : Option Block) :
    (w.free b).ledger.acquired = w.ledger.acquired := by
  cases b <;> rfl

end Memory

section Held

/-- The block of `state->data`, where it is not the backup buffer. -/
def heldData (w : World) : Multiset Resource :=
  match w.state.data with
  | none => 0
  | some b => if w.state.undoSave && isUndoSaveBuf w b then 0 else {.block b.addr}

/-- What a task holds beside an open file. -/
def heldBy (w : World) : Multiset Resource :=
  {.state} + (heldData w + (blocks w.undoSaveBuf.data + blocks w.state.undoData))

/-- A task that goes on. -/
structure Running (w : World) (file : Multiset Resource) : Prop where
  unfinished : w.task.finished = false
  noError : w.task.error = none
  books : Books w (file + heldBy w)
  noTaskData : .taskData ∉ w.ledger.acquired

/-- A finished task before its callback, which is given the data. -/
structure Finished (w : World) (data : SaveTaskState) (held : Multiset Resource) : Prop where
  finished : w.task.finished = true
  taskData : w.task.taskData = some data
  books : Books w ({.taskData} + (held + (blocks w.undoSaveBuf.data + blocks data.undoData)))

variable {w : World} {a : Answers}

theorem finish_acquired (a : Answers) (w : World) :
    (finish a w).ledger = w.ledger.acquire .taskData := by
  unfold finish
  split_ifs <;> rfl

theorem finish_state (a : Answers) (w : World) : (finish a w).state = w.state := by
  unfold finish
  split_ifs <;> rfl

theorem finish_undoSaveBuf (a : Answers) (w : World) :
    (finish a w).undoSaveBuf = w.undoSaveBuf := by
  unfold finish
  split_ifs <;> rfl

theorem finish_disk (a : Answers) (w : World) : (finish a w).disk = w.disk := by
  unfold finish
  split_ifs <;> rfl

theorem finish_fresh (a : Answers) (w : World) : (finish a w).fresh = w.fresh := by
  unfold finish
  split_ifs <;> rfl

theorem finish_finished (a : Answers) (w : World) :
    (finish a w).task.finished = w.task.finished := by
  unfold finish
  split_ifs <;> rfl

theorem finish_taskData (a : Answers) (w : World) :
    (finish a w).task.taskData = some w.state := by
  unfold finish
  split_ifs <;> rfl

theorem finish_error (a : Answers) (w : World) :
    (finish a w).task.error = none ↔ w.task.error = none ∧ a.cancelledAtEnd = false := by
  unfold finish World.setError World.acquire
  cases herr : w.task.error <;> cases hcancel : a.cancelledAtEnd <;> simp [herr]

theorem Books.finish {held : Multiset Resource} (h : Books w held)
    (hnew : .taskData ∉ w.ledger.acquired) : Books (finish a w) ({.taskData} + held) := by
  have hacq : Books (w.acquire .taskData) ({.taskData} + held) :=
    h.acquire hnew fun _ => Resource.noConfusion
  exact hacq.congr (finish_acquired a w) (finish_fresh a w)

end Held

section SaveEnds

variable {w : World} {a : Answers}

theorem isUndoSaveBuf_blocks {b : Block} (h : isUndoSaveBuf w b = true) :
    blocks w.undoSaveBuf.data = {.block b.addr} := by
  unfold isUndoSaveBuf at h
  rcases hdata : w.undoSaveBuf.data with _ | u
  · rw [hdata] at h
    exact absurd h Bool.false_ne_true
  · rw [hdata] at h
    rw [blocks, of_decide_eq_true h]

/-- The end of `task_save_handler_finished`, after the state has been copied. -/
def dropData (w : World) : World :=
  match w.state.data with
  | none => w
  | some b =>
    let w := if w.state.undoSave && isUndoSaveBuf w b then
        { w with undoSaveBuf := { w.undoSaveBuf with data := none } }
      else w
    let w := w.free (some b)
    { w with state := { w.state with data := none } }

theorem taskSaveHandlerFinished_eq (a : Answers) (w : World) :
    taskSaveHandlerFinished a w =
      (dropData (finish a (({ w with task := { w.task with finished := true } } : World).release
        .file))).release .state := rfl

theorem dropData_books {held : Multiset Resource}
    (h : Books w (heldData w + (blocks w.undoSaveBuf.data + held))) :
    Books (dropData w) (blocks (dropData w).undoSaveBuf.data + held) := by
  rcases hdata : w.state.data with _ | b
  · have hzero : heldData w = 0 := by rw [heldData, hdata]
    have hsame : dropData w = w := by rw [dropData, hdata]
    rw [hzero, zero_add] at h
    rw [hsame]
    exact h
  · by_cases halias : (w.state.undoSave && isUndoSaveBuf w b) = true
    · have hzero : heldData w = 0 := by rw [heldData, hdata]; exact if_pos halias
      have hblocks := isUndoSaveBuf_blocks (Bool.and_eq_true_iff.mp halias).2
      rw [hzero, zero_add, hblocks] at h
      have hdrop : dropData w =
          { ({ w with undoSaveBuf := { w.undoSaveBuf with data := none } } : World).free (some b)
            with state := { w.state with data := none } } := by
        rw [dropData, hdata]
        dsimp only
        rw [if_pos halias]
        rfl
      rw [hdrop]
      have hfree : Books (w.free (some b)) held := Books.free (b := some b) h
      have hnone : blocks none + held = held := Multiset.zero_add held
      refine Books.congr (w := w.free (some b)) ?_ rfl rfl
      exact hnone.symm ▸ hfree
    · have hone : heldData w = {.block b.addr} := by rw [heldData, hdata]; exact if_neg halias
      rw [hone] at h
      have hdrop : dropData w =
          { w.free (some b) with state := { w.state with data := none } } := by
        rw [dropData, hdata]
        dsimp only
        rw [if_neg halias]
        rfl
      rw [hdrop]
      exact Books.congr (Books.free (b := some b) h) rfl rfl

theorem dropData_task (w : World) : (dropData w).task = w.task := by
  unfold dropData
  rcases w.state.data with _ | b
  · rfl
  · dsimp only
    split_ifs <;> rfl

theorem dropData_disk (w : World) : (dropData w).disk = w.disk := by
  unfold dropData
  rcases w.state.data with _ | b
  · rfl
  · dsimp only
    split_ifs <;> rfl

theorem taskSaveHandlerFinished_finished (hbooks : Books w ({.file} + heldBy w))
    (hnew : .taskData ∉ w.ledger.acquired) :
    Finished (taskSaveHandlerFinished a w) w.state 0 := by
  rw [taskSaveHandlerFinished_eq]
  set closed : World := ({ w with task := { w.task with finished := true } } : World).release .file
    with hclosed
  have hrelease : Books closed (heldBy w) := by
    have hw : Books ({ w with task := { w.task with finished := true } } : World)
        ({.file} + heldBy w) := hbooks.congr rfl rfl
    exact hw.release
  have hfinish : Books (finish a closed) ({.taskData} + heldBy w) := hrelease.finish hnew
  have hstate : (finish a closed).state = w.state := finish_state a closed
  have hundo : (finish a closed).undoSaveBuf = w.undoSaveBuf := finish_undoSaveBuf a closed
  have hdata : heldData (finish a closed) = heldData w := by
    unfold heldData isUndoSaveBuf
    rw [hstate, hundo]
  have harranged : {.taskData} + heldBy w =
      heldData (finish a closed) + (blocks (finish a closed).undoSaveBuf.data +
        ({.state} + ({.taskData} + blocks w.state.undoData))) := by
    rw [hdata, hundo, heldBy]
    abel
  rw [harranged] at hfinish
  have hdrop := dropData_books hfinish
  constructor
  · change (dropData _).task.finished = true
    rw [dropData_task, finish_finished, hclosed]
    rfl
  · change (dropData _).task.taskData = _
    rw [dropData_task, finish_taskData, hclosed]
    rfl
  · have hlast : Books ((dropData (finish a closed)).release .state)
        (blocks (dropData (finish a closed)).undoSaveBuf.data +
          ({.taskData} + blocks w.state.undoData)) := by
      apply Books.release
      have hcomm : ∀ x y z : Multiset Resource, x + (y + z) = y + (x + z) := by
        intro x y z
        abel
      rw [hcomm] at hdrop
      exact hdrop
    have heq : blocks (dropData (finish a closed)).undoSaveBuf.data +
          ({.taskData} + blocks w.state.undoData) =
        {.taskData} + (0 + (blocks (dropData (finish a closed)).undoSaveBuf.data +
          blocks w.state.undoData)) := by
      abel
    rw [heq] at hlast
    exact hlast

theorem taskSaveHandlerFinished_disk (a : Answers) (w : World) :
    (taskSaveHandlerFinished a w).disk = w.disk := by
  rw [taskSaveHandlerFinished_eq]
  change (dropData _).disk = _
  rw [dropData_disk, finish_disk]
  rfl

theorem taskSaveHandlerFinished_error (h : (taskSaveHandlerFinished a w).task.error = none) :
    w.task.error = none := by
  rw [taskSaveHandlerFinished_eq] at h
  change (dropData _).task.error = none at h
  rw [dropData_task, finish_error] at h
  exact h.1

end SaveEnds

section SaveSteps

variable {w : World} {a : Answers} {bytes : List UInt8} {k : ℕ} {chunk : ℕ+}

/-- The task has written the first `k` bytes of its state. -/
structure SaveAt (bytes : List UInt8) (k : ℕ) (w : World) : Prop extends Running w {.file} where
  data : ∃ b, w.state.data = some b ∧ b.bytes = bytes
  size : w.state.size = bytes.length
  file : w.state.file = some k
  written : w.state.written = k
  within : k ≤ bytes.length
  disk : w.disk = bytes.take k
  noUndoData : w.state.undoData = none

/-- The task has ended, and without an error only where the file holds what it should. -/
structure SaveEnded (P : List UInt8 → Prop) (w : World) : Prop where
  ended : ∃ data, Finished w data 0 ∧ data.undoData = none
  disk : w.task.error = none → P w.disk

variable {P : List UInt8 → Prop}

theorem SaveEnded.finished (h : SaveEnded P w) : w.task.finished = true := by
  obtain ⟨data, hfinished, -⟩ := h.ended
  exact hfinished.finished

theorem saveEnded_of_finished (hbooks : Books w ({.file} + heldBy w))
    (hnew : .taskData ∉ w.ledger.acquired) (hundo : w.state.undoData = none)
    (hdisk : w.task.error = none → P w.disk) :
    SaveEnded P (taskSaveHandlerFinished a w) := by
  constructor
  · exact ⟨w.state, taskSaveHandlerFinished_finished hbooks hnew, hundo⟩
  · intro herr
    rw [taskSaveHandlerFinished_disk]
    exact hdisk (taskSaveHandlerFinished_error herr)

theorem take_append_take (bytes : List UInt8) (k n : ℕ) :
    bytes.take k ++ (bytes.drop k).take n = bytes.take (k + n) := by
  rw [List.take_add]

theorem saveChunk_step (h : SaveAt bytes k w) (hbytes : P bytes) :
    SaveEnded P (saveChunk chunk a w k) ∨
      ∃ k', k < k' ∧ SaveAt bytes k' (saveChunk chunk a w k) := by
  obtain ⟨b, hdata, hb⟩ := h.data
  have hwithin := h.within
  have hchunk : 0 < (chunk : ℕ) := chunk.pos
  set n := min (bytes.length - k) chunk with hn
  have hroom : k + n ≤ bytes.length := by omega
  have hpositive : k < bytes.length → 0 < n := by omega
  have hremaining : min (w.state.size - w.state.written) ((chunk : ℕ) : ℤ) = (n : ℤ) := by
    rw [h.size, h.written]
    omega
  have hwritten : w.state.written.toNat = k := by
    rw [h.written]
    rfl
  set piece := (bytes.drop k).take n with hpiece
  have hlength : piece.length = n := by
    rw [hpiece, List.length_take, List.length_drop]
    omega
  set moved := min a.moved n with hmoved
  set result : ℤ := if a.fails then -1 else moved with hresult
  have hdisk : w.disk.take k ++ piece.take moved ++ w.disk.drop (k + moved) =
      bytes.take (k + moved) := by
    have htake : piece.take moved = (bytes.drop k).take moved := by
      rw [hpiece, List.take_take]
      congr 1
      omega
    have hlen : w.disk.length = k := by
      rw [h.disk, List.length_take]
      omega
    have hfirst : w.disk.take k = bytes.take k := by
      rw [h.disk, List.take_take, Nat.min_self]
    have hnone : w.disk.drop (k + moved) = [] := List.drop_eq_nil_of_le (by omega)
    rw [hfirst, htake, hnone, List.append_nil, take_append_take]
  set wrote : World := { w with
    disk := bytes.take (k + moved)
    state := { w.state with file := some (k + moved), written := w.state.written + result } }
    with hwrote
  have heq : saveChunk chunk a w k =
      if a.cancelled || result ≠ n then
        taskSaveHandlerFinished a (wrote.setError (saveError wrote.state))
      else if wrote.state.written = wrote.state.size then
        taskSaveHandlerFinished a (retitle wrote (saveTitle wrote.state))
      else wrote := by
    unfold saveChunk
    rw [hremaining, hdata]
    dsimp only
    rw [hwritten, hb, Int.toNat_natCast, ← hpiece, intfstreamWrite]
    dsimp only
    rw [hlength, ← hmoved, hdisk]
  have hbooks : Books wrote ({.file} + heldBy wrote) := h.books.congr rfl rfl
  rw [heq]
  split_ifs with hfail hlast
  · left
    have hfailed : Books (wrote.setError (saveError wrote.state))
        ({.file} + heldBy (wrote.setError (saveError wrote.state))) := hbooks.congr rfl rfl
    apply saveEnded_of_finished hfailed h.noTaskData h.noUndoData
    intro herr
    exact nomatch herr
  · left
    have hdone : Books (retitle wrote (saveTitle wrote.state))
        ({.file} + heldBy (retitle wrote (saveTitle wrote.state))) := hbooks.congr rfl rfl
    apply saveEnded_of_finished hdone h.noTaskData h.noUndoData
    intro _
    have hend : (k : ℤ) + result = bytes.length := by
      rw [← h.written, ← h.size]
      exact hlast
    have hmovedAll : bytes.length ≤ k + moved := by
      rw [hresult] at hend
      split_ifs at hend
      · omega
      · omega
    have hwhole : bytes.take (k + moved) = bytes := List.take_of_length_le hmovedAll
    change P (bytes.take (k + moved))
    rw [hwhole]
    exact hbytes
  · right
    simp only [ne_eq, Bool.or_eq_true, decide_eq_true_eq, not_or, not_not] at hfail
    obtain ⟨-, hall⟩ := hfail
    have hmovedn : moved = n := by
      rw [hresult] at hall
      split_ifs at hall
      · omega
    have hgrown : wrote.state.written = ((k + moved : ℕ) : ℤ) := by
      change w.state.written + result = _
      rw [h.written, hall, hmovedn]
      rfl
    have hmore : 0 < moved := by
      by_contra hzero
      apply hlast
      rw [hgrown]
      change _ = w.state.size
      have hend : ¬k < bytes.length := fun hless => hzero (hmovedn ▸ hpositive hless)
      rw [h.size, Nat.eq_zero_of_not_pos hzero, Nat.add_zero,
        Nat.le_antisymm hwithin (Nat.not_lt.mp hend)]
    refine ⟨k + moved, Nat.lt_add_of_pos_right hmore,
      ⟨⟨h.unfinished, h.noError, hbooks, h.noTaskData⟩, ⟨b, hdata, hb⟩,
      h.size, rfl, hgrown, hmovedn ▸ hroom, rfl, h.noUndoData⟩⟩

theorem saveChunk_none {pos size : ℕ} (h : Running w {.file}) (hdata : w.state.data = none)
    (hsize : w.state.size = size) (hwritten : w.state.written = 0) (hdisk : w.disk = [])
    (hundo : w.state.undoData = none) (hempty : size = 0 → P []) :
    SaveEnded P (saveChunk chunk a w pos) := by
  have hchunk : 0 < (chunk : ℕ) := chunk.pos
  set wrote : World := { w with
    state := { w.state with file := some pos, written := w.state.written + 0 } } with hwrote
  have heq : saveChunk chunk a w pos =
      if a.cancelled || (0 : ℤ) ≠ min (w.state.size - w.state.written) ((chunk : ℕ) : ℤ) then
        taskSaveHandlerFinished a (wrote.setError (saveError wrote.state))
      else if wrote.state.written = wrote.state.size then
        taskSaveHandlerFinished a (retitle wrote (saveTitle wrote.state))
      else wrote := by
    unfold saveChunk
    rw [hdata]
  have hbooks : Books wrote ({.file} + heldBy wrote) := h.books.congr rfl rfl
  have hremaining : min (w.state.size - w.state.written) ((chunk : ℕ) : ℤ) =
      ((min size (chunk : ℕ) : ℕ) : ℤ) := by
    rw [hsize, hwritten]
    omega
  have hend : wrote.state.written = wrote.state.size ↔ size = 0 := by
    change w.state.written + 0 = w.state.size ↔ size = 0
    rw [hwritten, hsize]
    omega
  rw [heq, hremaining]
  split_ifs with hfail hlast
  · have hfailed : Books (wrote.setError (saveError wrote.state))
        ({.file} + heldBy (wrote.setError (saveError wrote.state))) := hbooks.congr rfl rfl
    apply saveEnded_of_finished hfailed h.noTaskData hundo
    intro herr
    exact nomatch herr
  · have hdone : Books (retitle wrote (saveTitle wrote.state))
        ({.file} + heldBy (retitle wrote (saveTitle wrote.state))) := hbooks.congr rfl rfl
    apply saveEnded_of_finished hdone h.noTaskData hundo
    intro _
    change P w.disk
    rw [hdisk]
    exact hempty (hend.mp hlast)
  · simp only [ne_eq, Bool.or_eq_true, decide_eq_true_eq, not_or, not_not] at hfail
    obtain ⟨-, hall⟩ := hfail
    exact absurd (hend.mpr (by omega)) hlast

/-- A pushed task before its first call. -/
structure Pushed (w : World) (n : ℕ) : Prop extends Running w 0 where
  noFile : .file ∉ w.ledger.acquired
  file : w.state.file = none
  size : w.state.size = n
  written : w.state.written = 0
  bytesRead : w.state.bytesRead = 0
  fits : ∀ b, w.state.data = some b → b.bytes.length = n

/-- What a save task has to write: the data that was pushed, or else what the core serializes in
the first call. -/
def StateBytes (w : World) (a : Answers) (bytes : List UInt8) : Prop :=
  match w.state.data with
  | some b => bytes = b.bytes
  | none =>
    if w.state.size = 0 then bytes = []
    else ∃ core, a.serialized = some core ∧ bytes = (List.range w.state.size.toNat).map core

theorem Pushed.opened {size : ℕ} (h : Pushed w size) :
    Running { w.acquire .file with disk := [], state := { w.state with file := some 0 } }
      {.file} := by
  constructor
  · exact h.unfinished
  · exact h.noError
  · have hbooks : Books (w.acquire .file) ({.file} + (0 + heldBy w)) :=
      h.books.acquire h.noFile fun _ => Resource.noConfusion
    rw [zero_add] at hbooks
    exact hbooks.congr rfl rfl
  · intro hmem
    rcases Multiset.mem_cons.mp hmem with heq | hmem
    · exact nomatch heq
    · exact h.noTaskData hmem

theorem Running.withData {file : Multiset Resource} (h : Running w file)
    (hdata : w.state.data = none) (bytes : List UInt8) :
    Running { (w.malloc bytes).2 with
      state := { w.state with data := some (w.malloc bytes).1 } } file := by
  set w' : World := { (w.malloc bytes).2 with
    state := { w.state with data := some (w.malloc bytes).1 } } with hw'
  have hbooks : Books (w.malloc bytes).2 ({.block w.fresh} + (file + heldBy w)) :=
    h.books.malloc bytes
  have hother : isUndoSaveBuf w' ⟨w.fresh, bytes⟩ = false := by
    change isUndoSaveBuf w ⟨w.fresh, bytes⟩ = false
    unfold isUndoSaveBuf
    rcases hundo : w.undoSaveBuf.data with _ | u
    · rfl
    · have hmem : Resource.block u.addr ∈ w.ledger.acquired := by
        apply h.books.accounts.mem
        rw [heldBy, hundo, blocks]
        simp
      exact decide_eq_false (Nat.ne_of_gt (h.books.below _ hmem))
  have hheld : heldData w' = {.block w.fresh} := by
    change (if w.state.undoSave && isUndoSaveBuf w' ⟨w.fresh, bytes⟩ then _ else _) = _
    rw [hother, Bool.and_false]
    rfl
  have hzero : heldData w = 0 := by rw [heldData, hdata]
  constructor
  · exact h.unfinished
  · exact h.noError
  · have heq : file + heldBy w' = {.block w.fresh} + (file + heldBy w) := by
      rw [heldBy, heldBy, hheld, hzero]
      change file + ({.state} + ({.block w.fresh} +
        (blocks w.undoSaveBuf.data + blocks w.state.undoData))) = _
      abel
    rw [heq]
    exact hbooks.congr rfl rfl
  · intro hmem
    rcases Multiset.mem_cons.mp hmem with heq | hmem
    · exact nomatch heq
    · exact h.noTaskData hmem

theorem Running.withUndoData {file : Multiset Resource} (h : Running w file)
    (hundo : w.state.undoData = none) (bytes : List UInt8) :
    Running { (w.malloc bytes).2 with
      state := { w.state with undoData := some (w.malloc bytes).1 } } file := by
  set w' : World := { (w.malloc bytes).2 with
    state := { w.state with undoData := some (w.malloc bytes).1 } } with hw'
  have hbooks : Books (w.malloc bytes).2 ({.block w.fresh} + (file + heldBy w)) :=
    h.books.malloc bytes
  constructor
  · exact h.unfinished
  · exact h.noError
  · have heq : file + heldBy w' = {.block w.fresh} + (file + heldBy w) := by
      have hdata : heldData w' = heldData w := rfl
      rw [heldBy, heldBy, hdata, hundo, blocks]
      change file + ({.state} + (heldData w +
        (blocks w.undoSaveBuf.data + {.block w.fresh}))) = _
      abel
    rw [heq]
    exact hbooks.congr rfl rfl
  · intro hmem
    rcases Multiset.mem_cons.mp hmem with heq | hmem
    · exact nomatch heq
    · exact h.noTaskData hmem

theorem withNoData_eq (h : w.state.data = none) :
    ({ w with state := { w.state with data := none } } : World) = w := by
  rw [← h]

theorem Running.mallocFree {file : Multiset Resource} (h : Running w file) (bytes : List UInt8) :
    Running ((w.malloc bytes).2.free (some (w.malloc bytes).1)) file := by
  constructor
  · exact h.unfinished
  · exact h.noError
  · exact Books.congr (Books.free (b := some ⟨w.fresh, bytes⟩) (h.books.malloc bytes)) rfl rfl
  · intro hmem
    rcases Multiset.mem_cons.mp hmem with heq | hmem
    · exact nomatch heq
    · exact h.noTaskData hmem

theorem saveOpened_step {size : ℕ} (h : Running w {.file}) (hfile : w.state.file = some 0)
    (hdisk : w.disk = []) (hsize : w.state.size = size) (hwritten : w.state.written = 0)
    (hfits : ∀ b, w.state.data = some b → b.bytes.length = size)
    (hundo : w.state.undoData = none) :
    SaveEnded (StateBytes w a) (saveOpened chunk a w 0) ∨
      ∃ bytes k, StateBytes w a bytes ∧ 0 < k ∧ SaveAt bytes k (saveOpened chunk a w 0) := by
  have hsome : ∀ {w' : World} {b : Block}, Running w' {.file} → w'.state.data = some b →
      w'.state.file = some 0 → w'.disk = [] → w'.state.size = b.bytes.length →
      w'.state.written = 0 → w'.state.undoData = none → StateBytes w a b.bytes →
      SaveEnded (StateBytes w a) (saveChunk chunk a w' 0) ∨
        ∃ bytes k, StateBytes w a bytes ∧ 0 < k ∧ SaveAt bytes k (saveChunk chunk a w' 0) := by
    intro w' b hrun hdata hfile hdisk hsize hwritten hundo hbytes
    have hat : SaveAt b.bytes 0 w' :=
      ⟨hrun, ⟨b, hdata, rfl⟩, hsize, hfile, hwritten, Nat.zero_le _, hdisk, hundo⟩
    rcases saveChunk_step hat hbytes with hended | ⟨k, hk, hnext⟩
    · exact Or.inl hended
    · exact Or.inr ⟨b.bytes, k, hbytes, hk, hnext⟩
  unfold saveOpened
  rcases hdata : w.state.data with _ | b
  · dsimp only
    have hempty : size = 0 → StateBytes w a [] := by
      intro hzero
      have hsize0 : w.state.size = 0 := by rw [hsize, hzero]; rfl
      rw [StateBytes, hdata]
      dsimp only
      rw [if_pos hsize0]
    unfold getSerializedData
    split_ifs with hzero halloc
    · left
      dsimp only
      rw [withNoData_eq hdata]
      exact saveChunk_none h hdata hsize hwritten hdisk hundo hempty
    · rcases hcore : a.serialized with _ | core
      · left
        exact saveChunk_none ((withNoData_eq hdata).symm ▸ h.mallocFree []) rfl hsize hwritten hdisk
          hundo hempty
      · apply hsome (h.withData hdata _) rfl hfile hdisk _ hwritten hundo
        · rw [StateBytes, hdata]
          dsimp only
          rw [if_neg hzero]
          exact ⟨core, hcore, rfl⟩
        · change w.state.size = _
          rw [hsize]
          simp [World.malloc]
    · left
      dsimp only
      rw [withNoData_eq hdata]
      exact saveChunk_none h hdata hsize hwritten hdisk hundo hempty
  · dsimp only
    apply hsome h hdata hfile hdisk _ hwritten hundo
    · rw [StateBytes, hdata]
    · rw [hsize, hfits b hdata]

end SaveSteps

section LoadSteps

variable {w : World} {a : Answers} {k : ℕ} {chunk : ℕ+} {disk : List UInt8}

def openFile (w : World) : Multiset Resource :=
  match w.state.file with
  | none => 0
  | some _ => {.file}

theorem heldData_of_load (h : w.state.undoSave = false) : heldData w = blocks w.state.data := by
  unfold heldData
  rcases w.state.data with _ | b
  · rfl
  · rw [h]
    rfl

/-- `task_load_handler_finished` closes a file that is open and frees the state; the data goes to
the callback. -/
theorem taskLoadHandlerFinished_finished (hbooks : Books w (openFile w + heldBy w))
    (hnew : .taskData ∉ w.ledger.acquired) (hload : w.state.undoSave = false) :
    Finished (taskLoadHandlerFinished a w) w.state (blocks w.state.data) := by
  set marked : World := { w with task := { w.task with finished := true } } with hmarked
  have hend : ∀ closed : World, Books closed (heldBy w) → closed.state = w.state →
      closed.undoSaveBuf = w.undoSaveBuf → closed.ledger.acquired = w.ledger.acquired →
      closed.task.finished = true →
      Finished ((finish a closed).release .state) w.state (blocks w.state.data) := by
    intro closed hclosed hstate hundo hacquired hfinished
    have hfinish : Books (finish a closed) ({.taskData} + heldBy w) :=
      hclosed.finish (by rw [hacquired]; exact hnew)
    have harranged : {.taskData} + heldBy w = {.state} + ({.taskData} + (blocks w.state.data +
        (blocks w.undoSaveBuf.data + blocks w.state.undoData))) := by
      rw [heldBy, heldData_of_load hload]
      abel
    rw [harranged] at hfinish
    constructor
    · change (finish a closed).task.finished = true
      rw [finish_finished, hfinished]
    · change (finish a closed).task.taskData = _
      rw [finish_taskData, hstate]
    · change Books _ ({.taskData} + (blocks w.state.data +
        (blocks (finish a closed).undoSaveBuf.data + blocks w.state.undoData)))
      rw [finish_undoSaveBuf, hundo]
      exact hfinish.release
  have hbooks' : Books marked (openFile w + heldBy w) := hbooks.congr rfl rfl
  unfold taskLoadHandlerFinished closeOpened
  rcases hfile : w.state.file with _ | pos
  · rw [openFile, hfile, zero_add] at hbooks'
    dsimp only
    rw [hfile]
    exact hend marked hbooks' rfl rfl rfl rfl
  · rw [openFile, hfile] at hbooks'
    dsimp only
    rw [hfile]
    exact hend (marked.release .file) hbooks'.release rfl rfl rfl rfl

theorem closeOpened_disk (w : World) : (closeOpened w).disk = w.disk := by
  unfold closeOpened
  rcases w.state.file with _ | pos
  · rfl
  · rfl

theorem closeOpened_task (w : World) : (closeOpened w).task = w.task := by
  unfold closeOpened
  rcases w.state.file with _ | pos
  · rfl
  · rfl

theorem taskLoadHandlerFinished_disk (a : Answers) (w : World) :
    (taskLoadHandlerFinished a w).disk = w.disk := by
  change (finish a _).disk = _
  rw [finish_disk, closeOpened_disk]

theorem taskLoadHandlerFinished_error (a : Answers) (w : World) :
    (taskLoadHandlerFinished a w).task.error = none ↔
      w.task.error = none ∧ a.cancelledAtEnd = false := by
  change (finish a _).task.error = none ↔ _
  rw [finish_error, closeOpened_task]

/-- The task has read the first `k` bytes of its file. -/
structure LoadAt (disk : List UInt8) (k : ℕ) (w : World) : Prop extends Running w {.file} where
  data : ∃ b, w.state.data = some b ∧ b.bytes.take k = disk.take k ∧
    b.bytes.length = disk.length + 1
  size : w.state.size = disk.length
  bytesRead : w.state.bytesRead = k
  within : k ≤ disk.length
  disk : w.disk = disk
  notUndo : w.state.undoSave = false

/-- What a load task has to hand to its callback. -/
def Loaded (disk : List UInt8) (data : SaveTaskState) : Prop :=
  ∃ b, data.data = some b ∧ data.size = disk.length ∧ b.bytes.take data.size.toNat = disk

/-- The task has ended, with the whole file or an error. -/
structure LoadEnded (disk : List UInt8) (w : World) : Prop where
  ended : ∃ data, Finished w data (blocks data.data) ∧ (w.task.error = none → Loaded disk data)
  disk : w.disk = disk

theorem LoadEnded.finished (h : LoadEnded disk w) : w.task.finished = true := by
  obtain ⟨data, hfinished, -⟩ := h.ended
  exact hfinished.finished

theorem loadEnded_of_finished (hbooks : Books w ({.file} + heldBy w)) {pos : ℕ}
    (hfile : w.state.file = some pos) (hnew : .taskData ∉ w.ledger.acquired)
    (hload : w.state.undoSave = false) (hdisk : w.disk = disk)
    (hloaded : w.task.error = none → Loaded disk w.state) :
    LoadEnded disk (taskLoadHandlerFinished a w) := by
  have hopen : openFile w = {.file} := by rw [openFile, hfile]
  constructor
  · refine ⟨w.state, taskLoadHandlerFinished_finished (hopen ▸ hbooks) hnew hload, ?_⟩
    intro herr
    exact hloaded ((taskLoadHandlerFinished_error a w).mp herr).1
  · rw [taskLoadHandlerFinished_disk]
    exact hdisk

theorem loadChunk_step (h : LoadAt disk k w) {pos : ℕ} (hpos : pos = k ∨ pos = disk.length) :
    LoadEnded disk (loadChunk chunk a w pos) ∨
      ∃ k', k < k' ∧ LoadAt disk k' (loadChunk chunk a w pos) ∧
        (loadChunk chunk a w pos).state.file = some k' := by
  obtain ⟨b, hdata, hread, hroom⟩ := h.data
  have hwithin := h.within
  have hchunk : 0 < (chunk : ℕ) := chunk.pos
  set n := min (disk.length - k) chunk with hn
  have hinside : k + n ≤ disk.length := by omega
  have hpositive : k < disk.length → 0 < n := by omega
  have hplace : n ≤ disk.length - pos → pos = k := by omega
  have hremaining : min (w.state.size - w.state.bytesRead) ((chunk : ℕ) : ℤ) = (n : ℤ) := by
    rw [h.size, h.bytesRead]
    omega
  have hbytesRead : w.state.bytesRead.toNat = k := by
    rw [h.bytesRead]
    rfl
  set got := (w.disk.drop pos).take (min a.moved n) with hgot
  set result : ℤ := if a.fails then -1 else got.length with hresult
  set read : World := { w with
    state := { w.state with
      file := some (pos + got.length)
      data := some (b.store k got)
      bytesRead := w.state.bytesRead + result } } with hreadWorld
  have heq : loadChunk chunk a w pos =
      if a.cancelled || result ≠ n then
        taskLoadHandlerFinished a
          { (read.setError (loadError read.state)).free (some (b.store k got)) with
            state := { read.state with data := none } }
      else if read.state.bytesRead = read.state.size then
        taskLoadHandlerFinished a (retitle read (loadTitle read.state))
      else read := by
    unfold loadChunk
    rw [hremaining, hdata]
    dsimp only
    rw [hbytesRead, Int.toNat_natCast, intfstreamRead]
    dsimp only [Option.map_some]
    rfl
  have hheld : heldBy read = heldBy w := by
    have hblock : heldData read = heldData w := by
      rw [heldData_of_load h.notUndo, heldData_of_load (w := read) h.notUndo, hdata]
      rfl
    rw [heldBy, hblock]
    rfl
  have hbooks : Books read ({.file} + heldBy read) := by
    rw [hheld]
    exact h.books.congr rfl rfl
  have hsucceeded : ¬ (a.cancelled || result ≠ n) = true → result = n := by
    intro hok
    simp only [ne_eq, Bool.or_eq_true, decide_eq_true_eq, not_or, not_not] at hok
    exact hok.2
  have hcomplete : result = n → pos = k ∧ got = (disk.drop k).take n ∧ got.length = n := by
    intro hall
    have hlength : got.length = n := by
      rw [hresult] at hall
      split_ifs at hall
      omega
    have hgotLength : got.length = min (min a.moved n) (disk.length - pos) := by
      rw [hgot, h.disk, List.length_take, List.length_drop]
    have hleft : n ≤ disk.length - pos := by
      calc n = min (min a.moved n) (disk.length - pos) := hlength.symm.trans hgotLength
        _ ≤ disk.length - pos := Nat.min_le_right _ _
    have hk := hplace hleft
    refine ⟨hk, ?_, hlength⟩
    have hmoved : min a.moved n = n := by omega
    rw [hgot, h.disk, hk, hmoved]
  have hstored : result = n → (b.store k got).bytes.take (k + n) = disk.take (k + n) := by
    intro hall
    obtain ⟨-, hgotEq, hlength⟩ := hcomplete hall
    have hfirst : (b.bytes.take k ++ got).length = k + n := by
      rw [List.length_append, List.length_take, hlength]
      omega
    have htake : (b.store k got).bytes.take (k + n) = b.bytes.take k ++ got :=
      List.take_left' hfirst
    rw [htake, hread, hgotEq, take_append_take]
  have hgrown : result = n → read.state.bytesRead = ((k + n : ℕ) : ℤ) := by
    intro hall
    change w.state.bytesRead + result = _
    rw [h.bytesRead, hall]
    rfl
  rw [heq]
  split_ifs with hfail hlast
  · left
    set freed : World := { (read.setError (loadError read.state)).free (some (b.store k got)) with
      state := { read.state with data := none } } with hfreedWorld
    have harranged : {.file} + heldBy read =
        blocks (some (b.store k got)) + ({.file} + heldBy freed) := by
      rw [heldBy, heldBy, heldData_of_load (w := read) h.notUndo,
        heldData_of_load (w := freed) h.notUndo]
      change {.file} + ({.state} + (blocks (some (b.store k got)) +
          (blocks w.undoSaveBuf.data + blocks w.state.undoData))) =
        blocks (some (b.store k got)) + ({.file} + ({.state} +
          (0 + (blocks w.undoSaveBuf.data + blocks w.state.undoData))))
      abel
    rw [harranged] at hbooks
    have herror : Books (read.setError (loadError read.state))
        (blocks (some (b.store k got)) + ({.file} + heldBy freed)) := hbooks.congr rfl rfl
    have hfreed : Books freed ({.file} + heldBy freed) := herror.free.congr rfl rfl
    have hdisk : freed.disk = disk := h.disk
    have hnew : .taskData ∉ freed.ledger.acquired := h.noTaskData
    apply loadEnded_of_finished hfreed rfl hnew h.notUndo hdisk
    intro herr
    exact nomatch (show some _ = none from herr)
  · left
    have hdone : Books (retitle read (loadTitle read.state))
        ({.file} + heldBy (retitle read (loadTitle read.state))) := hbooks.congr rfl rfl
    apply loadEnded_of_finished hdone rfl h.noTaskData h.notUndo h.disk
    intro _
    have hall := (hsucceeded hfail)
    have hwhole : k + n = disk.length := by
      have hsize : read.state.bytesRead = disk.length := hlast.trans h.size
      rw [hgrown hall] at hsize
      exact_mod_cast hsize
    have hsize : (retitle read (loadTitle read.state)).state.size.toNat = k + n := by
      change w.state.size.toNat = k + n
      rw [h.size, hwhole]
      rfl
    refine ⟨b.store k got, rfl, h.size, ?_⟩
    rw [hsize, hstored hall]
    exact List.take_of_length_le hwhole.ge
  · right
    have hall := hsucceeded hfail
    obtain ⟨hk, -, hlength⟩ := hcomplete hall
    have hmore : 0 < n := by
      by_contra hzero
      apply hlast
      rw [hgrown hall]
      change _ = w.state.size
      have hend : ¬k < disk.length := fun hless => hzero (hpositive hless)
      rw [h.size, Nat.eq_zero_of_not_pos hzero, Nat.add_zero,
        Nat.le_antisymm hwithin (Nat.not_lt.mp hend)]
    refine ⟨k + n, Nat.lt_add_of_pos_right hmore,
      ⟨⟨h.unfinished, h.noError, hbooks, h.noTaskData⟩,
      ⟨b.store k got, rfl, hstored hall, ?_⟩, h.size, hgrown hall, hinside, h.disk, h.notUndo⟩, ?_⟩
    · have hstore : (b.store k got).bytes.length =
          min k b.bytes.length + got.length + (b.bytes.length - (k + got.length)) := by
        rw [Block.store, List.length_append, List.length_append, List.length_take,
          List.length_drop]
      omega
    · change some (pos + got.length) = _
      rw [hk, hlength]

end LoadSteps

end RetroArch.Tasks.SaveState
