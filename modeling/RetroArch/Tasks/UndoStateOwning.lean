/- What the backup buffers, the tasks and a call in progress own is allocated, once. -/

import Mathlib.Algebra.BigOperators.Group.List.Basic
import RetroArch.Tasks.UndoState

namespace RetroArch.Tasks.UndoState

open SaveState (Block SaveStateBuf)

variable {σ : Type} {w w' : World σ} {b : Block} {held held' : ℕ → ℕ}

/-- What a task owns: not the data of an undo, which is the buffer's. -/
def Task.owned (t : Task) (addr : ℕ) : ℕ :=
  (if t.kind = .undoSave then 0 else cnt t.data addr) + cnt t.undoData addr

def World.owned (w : World σ) (addr : ℕ) : ℕ :=
  cnt w.undoSaveBuf.data addr + cnt w.undoLoadBuf.data addr +
    (w.running.elim 0 fun t => t.owned addr) + (w.finished.map fun t => t.owned addr).sum

/-- The pointer to an address that an undo which is running shares with the buffer. -/
def World.shared (w : World σ) (addr : ℕ) : ℕ :=
  w.running.elim 0 fun t => if t.kind = .undoSave then cnt t.data addr else 0

@[simp] theorem cnt_none (addr : ℕ) : cnt none addr = 0 := rfl

@[simp] theorem cnt_self (b : Block) : cnt (some b) b.addr = 1 := if_pos rfl

theorem cnt_ne {addr : ℕ} (h : addr ≠ b.addr) : cnt (some b) addr = 0 :=
  if_neg fun heq => h (Option.some.inj heq).symm

/-- An undo of a save that is running has the data of the buffer, one that has run has none. -/
structure Shares (w : World σ) : Prop where
  running : ∀ t, w.running = some t → t.kind = .undoSave → t.data = w.undoSaveBuf.data
  finished : ∀ t ∈ w.finished, t.kind = .undoSave → t.data = none

theorem refs_of_finished {l : List Task} (h : ∀ t ∈ l, t.kind = .undoSave → t.data = none)
    (addr : ℕ) : (l.map fun t => t.refs addr).sum = (l.map fun t => t.owned addr).sum := by
  congr 1
  apply List.map_congr_left
  intro t ht
  unfold Task.refs Task.owned
  split_ifs with hkind
  · rw [h t ht hkind, cnt_none]
  · rfl

theorem refs_eq (h : ∀ t ∈ w.finished, t.kind = .undoSave → t.data = none) (addr : ℕ) :
    w.refs addr = w.owned addr + w.shared addr := by
  unfold World.refs World.owned World.shared
  rw [refs_of_finished h addr]
  cases w.running with
  | none => rfl
  | some t =>
    simp only [Option.elim, Task.refs, Task.owned]
    split_ifs <;> omega

theorem Shares.shared_le (h : Shares w) (addr : ℕ) :
    w.shared addr ≤ cnt w.undoSaveBuf.data addr := by
  unfold World.shared
  cases hrun : w.running with
  | none => exact Nat.zero_le _
  | some t =>
    simp only [Option.elim]
    split_ifs with hkind
    · rw [h.running t hrun hkind]
    · exact Nat.zero_le _

/-- What is owned, or held by a call in progress, is allocated and has one owner. -/
structure Kept (w : World σ) (held : ℕ → ℕ) : Prop where
  once : ∀ addr, w.owned addr + held addr ≤ 1
  live : ∀ addr, 0 < w.owned addr + held addr → w.live addr
  below : ∀ addr, w.live addr → addr < w.fresh

theorem Kept.mono (h : Kept w held) (hle : ∀ addr, w'.owned addr + held' addr ≤
    w.owned addr + held addr) (hlive : w'.live = w.live) (hfresh : w'.fresh = w.fresh) :
    Kept w' held' := by
  constructor
  · intro addr
    exact le_trans (hle addr) (h.once addr)
  · intro addr hpos
    rw [hlive]
    exact h.live addr (lt_of_lt_of_le hpos (hle addr))
  · intro addr
    rw [hlive, hfresh]
    exact h.below addr

theorem Kept.malloc (h : Kept w held) (bytes : List UInt8) :
    Kept (w.malloc bytes).2 fun addr => held addr + cnt (some (w.malloc bytes).1) addr := by
  have hnew : w.owned w.fresh + held w.fresh = 0 := by
    by_contra hpos
    exact absurd (h.below _ (h.live _ (Nat.pos_of_ne_zero hpos))) (Nat.lt_irrefl _)
  have hself : cnt (some (w.malloc bytes).1) w.fresh = 1 := cnt_self _
  have hother : ∀ addr, addr ≠ w.fresh → cnt (some (w.malloc bytes).1) addr = 0 := fun addr hne =>
    cnt_ne hne
  have hlive : (w.malloc bytes).2.live = Function.update w.live w.fresh true := rfl
  have howned : (w.malloc bytes).2.owned = w.owned := rfl
  constructor
  · intro addr
    rw [howned]
    by_cases haddr : addr = w.fresh
    · subst haddr
      omega
    · have honce := h.once addr
      rw [hother addr haddr]
      omega
  · intro addr hpos
    rw [howned] at hpos
    rw [hlive]
    by_cases haddr : addr = w.fresh
    · rw [haddr, Function.update_self]
    · rw [Function.update_of_ne haddr]
      rw [hother addr haddr] at hpos
      exact h.live addr (by omega)
  · intro addr
    change (w.malloc bytes).2.live addr → addr < w.fresh + 1
    rw [hlive]
    by_cases haddr : addr = w.fresh
    · intro _
      omega
    · rw [Function.update_of_ne haddr]
      intro hl
      exact Nat.lt_succ_of_lt (h.below addr hl)

theorem Kept.freed (h : Kept w held)
    (hle : ∀ addr, w'.owned addr + held' addr + cnt (some b) addr ≤ w.owned addr + held addr)
    (hlive : w'.live = Function.update w.live b.addr false) (hfresh : w'.fresh = w.fresh) :
    Kept w' held' := by
  have hown : ∀ addr, w'.owned addr + held' addr ≤ w.owned addr + held addr := fun addr =>
    le_trans (Nat.le_add_right _ _) (hle addr)
  constructor
  · intro addr
    exact le_trans (hown addr) (h.once addr)
  · intro addr hpos
    rw [hlive]
    by_cases haddr : addr = b.addr
    · subst haddr
      have hthis := hle b.addr
      have honce := h.once b.addr
      rw [cnt_self] at hthis
      omega
    · rw [Function.update_of_ne haddr]
      exact h.live addr (lt_of_lt_of_le hpos (hown addr))
  · intro addr
    rw [hlive, hfresh]
    by_cases haddr : addr = b.addr
    · rw [haddr, Function.update_self]
      intro hfalse
      cases hfalse
    · rw [Function.update_of_ne haddr]
      exact h.below addr

theorem Kept.free (h : Kept w held) (hs : Shares w) (hpos : 0 < w.owned b.addr + held b.addr)
    (hshared : w.shared b.addr = 0) :
    w.free b = some { w with live := Function.update w.live b.addr false } := by
  apply if_pos
  constructor
  · exact h.live b.addr hpos
  · rw [refs_eq hs.finished, hshared]
    have honce := h.once b.addr
    omega

theorem Kept.free_held (h : Kept w held) (hs : Shares w) (hpos : 0 < held b.addr) :
    w.free b = some { w with live := Function.update w.live b.addr false } := by
  apply h.free hs (by omega)
  have honce := h.once b.addr
  have hle := hs.shared_le b.addr
  have hbuf : cnt w.undoSaveBuf.data b.addr ≤ w.owned b.addr := by
    unfold World.owned
    omega
  omega

theorem Kept.read (h : Kept w held) (hpos : 0 < w.owned b.addr + held b.addr) :
    w.read b = some b.bytes := if_pos (h.live b.addr hpos)

section Buffers

/-- No undo of a save is running. -/
def NoUndo (w : World σ) : Prop := ∀ t, w.running = some t → t.kind ≠ .undoSave

theorem NoUndo.shared (h : NoUndo w) (addr : ℕ) : w.shared addr = 0 := by
  unfold World.shared
  cases hrun : w.running with
  | none => rfl
  | some t => exact if_neg (h t hrun)

theorem dropUndoLoad_spec (h : Kept w held) (hs : Shares w) :
    ∃ live, w.dropUndoLoad =
        some { w with live := live, undoLoadBuf := { w.undoLoadBuf with data := none } } ∧
      Kept { w with live := live, undoLoadBuf := { w.undoLoadBuf with data := none } } held := by
  unfold World.dropUndoLoad
  cases hdata : w.undoLoadBuf.data with
  | none =>
    refine ⟨w.live, rfl, h.mono ?_ rfl rfl⟩
    intro addr
    simp only [World.owned, hdata]
    exact le_rfl
  | some b =>
    have hown : cnt w.undoSaveBuf.data b.addr + 1 ≤ w.owned b.addr := by
      simp only [World.owned, hdata, cnt_self]
      omega
    have hshared : w.shared b.addr = 0 := by
      have honce := h.once b.addr
      have hle := hs.shared_le b.addr
      omega
    rw [World.freeData, h.free hs (by omega) hshared]
    refine ⟨_, rfl, h.freed (b := b) ?_ rfl rfl⟩
    intro addr
    simp only [World.owned, hdata, cnt_none]
    omega

theorem dropUndoSave_spec (h : Kept w held) (hs : Shares w) (hno : NoUndo w) :
    ∃ live, w.dropUndoSave =
        some { w with live := live, undoSaveBuf := { w.undoSaveBuf with data := none } } ∧
      Kept { w with live := live, undoSaveBuf := { w.undoSaveBuf with data := none } } held := by
  unfold World.dropUndoSave
  cases hdata : w.undoSaveBuf.data with
  | none =>
    refine ⟨w.live, rfl, h.mono ?_ rfl rfl⟩
    intro addr
    simp only [World.owned, hdata]
    exact le_rfl
  | some b =>
    have hown : 0 < w.owned b.addr := by
      simp only [World.owned, hdata, cnt_self]
      omega
    rw [World.freeData, h.free hs (by omega) (hno.shared _)]
    refine ⟨_, rfl, h.freed (b := b) ?_ rfl rfl⟩
    intro addr
    simp only [World.owned, hdata, cnt_none]
    omega

theorem NoUndo.shares (hno : NoUndo w) (hf : ∀ t ∈ w.finished, t.kind = .undoSave → t.data = none) :
    Shares w :=
  ⟨fun t ht hkind => absurd hkind (hno t ht), hf⟩

theorem reset_spec (h : Kept w held) (hs : Shares w) (hno : NoUndo w) :
    ∃ live, contentResetSavestateBackups w =
        some { w with live := live, undoSaveBuf := emptyBuf, undoLoadBuf := emptyBuf } ∧
      Kept { w with live := live, undoSaveBuf := emptyBuf, undoLoadBuf := emptyBuf } held := by
  obtain ⟨live, hsave, hk⟩ := dropUndoSave_spec h hs hno
  have hk' : Kept { w with live := live, undoSaveBuf := emptyBuf } held := hk.mono
    (fun _ => le_rfl) rfl rfl
  obtain ⟨live', hload, hk''⟩ := dropUndoLoad_spec hk'
    (NoUndo.shares (w := { w with live := live, undoSaveBuf := emptyBuf }) hno hs.finished)
  refine ⟨live', ?_, hk''.mono (fun _ => le_rfl) rfl rfl⟩
  rw [contentResetSavestateBackups, hsave, Option.bind_some, hload]
  rfl

variable (core : Core σ) (settings : Settings)

/-- A buffer that has a state, if it has anything. -/
def Backs (s : σ) (buf : SaveStateBuf) : Prop :=
  ∀ b, buf.data = some b → core.size ≠ 0 ∧ buf.size = core.size ∧ b.bytes = core.serialize s

/-- The world after the state was saved to the buffer of the last load. -/
def World.savedToRam (w : World σ) (live : ℕ → Bool) (fresh : ℕ) (buf : SaveStateBuf) : World σ :=
  { w with live := live, fresh := fresh, undoLoadBuf := buf }

theorem saveToRam_spec (h : Kept w held) (hs : Shares w)
    (hempty : core.size = 0 → w.undoLoadBuf.data = none) :
    ∃ live fresh buf, w.saveToRam core = some (w.savedToRam live fresh buf) ∧
      Backs core w.core buf ∧ (core.size ≠ 0 → buf.data.isSome) ∧
      Kept (w.savedToRam live fresh buf) held := by
  by_cases hsize : core.size = 0
  · refine ⟨w.live, w.fresh, w.undoLoadBuf, ?_, ?_, ?_, h⟩
    · rw [World.saveToRam, if_pos hsize]
      rfl
    · intro b hb
      rw [hempty hsize] at hb
      cases hb
    · intro hne
      exact absurd hsize hne
  · have hdata := h.malloc (core.serialize w.core)
    obtain ⟨live, hdrop, hdropped⟩ := dropUndoLoad_spec hdata ⟨hs.running, hs.finished⟩
    have hcopied := hdropped.malloc (core.serialize w.core)
    have hheld := hcopied.free_held (b := (w.malloc (core.serialize w.core)).1)
      ⟨hs.running, hs.finished⟩ (by rw [cnt_self]; omega)
    let copy : Block := ⟨w.fresh + 1, core.serialize w.core⟩
    refine ⟨Function.update (Function.update live (w.fresh + 1) true) w.fresh false,
      w.fresh + 1 + 1, ⟨some copy, "RAM", core.size⟩, ?_, ?_, fun _ => rfl, ?_⟩
    · rw [World.saveToRam, if_neg hsize]
      simp only [hdrop, Option.bind_some]
      exact congrArg (Option.map fun v : World σ =>
        { v with undoLoadBuf := ⟨some copy, "RAM", core.size⟩ }) hheld
    · intro b hb
      cases hb
      exact ⟨hsize, rfl, rfl⟩
    · refine hcopied.freed (b := (w.malloc (core.serialize w.core)).1) ?_ rfl rfl
      intro addr
      have hnone : cnt none addr = 0 := rfl
      simp only [World.owned, World.savedToRam, World.malloc, copy]
      omega

theorem free_unserialize (w : World σ) (bytes : List UInt8) (b : Block) :
    (w.unserialize core settings bytes).free b =
      (w.free b).map fun w => w.unserialize core settings bytes := by
  unfold World.free
  by_cases hfree : w.live b.addr ∧ w.refs b.addr ≤ 1
  · rw [if_pos hfree]
    exact if_pos hfree
  · rw [if_neg hfree]
    exact if_neg hfree

theorem contentUndoLoadState_spec (h : Kept w held) (hs : Shares w) {b : Block} {s : σ}
    (hb : w.undoLoadBuf.data = some b) (hback : Backs core s w.undoLoadBuf) :
    ∃ live fresh buf, contentUndoLoadState core settings w =
        some ((w.savedToRam live fresh buf).unserialize core settings (core.serialize s)) ∧
      Backs core w.core buf ∧ buf.data.isSome ∧ Kept (w.savedToRam live fresh buf) held := by
  obtain ⟨hsize, hbuf, hbytes⟩ := hback b hb
  have hlive : w.read b = some b.bytes := by
    apply h.read
    simp only [World.owned, hb, cnt_self]
    omega
  have htake : b.bytes.take w.undoLoadBuf.size = core.serialize s := by
    rw [hbuf, hbytes, ← core.length_serialize s, List.take_length]
  have htemp := h.malloc (core.serialize s)
  obtain ⟨live, fresh, buf, hram, hbacks, hsome, hk⟩ :=
    saveToRam_spec core htemp ⟨hs.running, hs.finished⟩ fun hzero => absurd hzero hsize
  have hpos : 0 < cnt (some (w.malloc (core.serialize s)).1) (w.malloc (core.serialize s)).1.addr :=
    by rw [cnt_self]; omega
  have hread := hk.read (b := (w.malloc (core.serialize s)).1) (by omega)
  have hfree := hk.free_held (b := (w.malloc (core.serialize s)).1)
    ⟨hs.running, hs.finished⟩ (by omega)
  refine ⟨Function.update live w.fresh false, fresh, buf, ?_, hbacks, hsome hsize, ?_⟩
  · rw [contentUndoLoadState, hb]
    simp only [if_neg (hbuf ▸ hsize), hlive, Option.bind_some, htake]
    rw [hram, Option.bind_some, hread, Option.bind_some, free_unserialize, hfree]
    rfl
  · refine hk.freed (b := (w.malloc (core.serialize s)).1) ?_ rfl rfl
    intro addr
    simp only [World.owned, World.savedToRam, World.malloc]
    omega

/-- The world when the callback of its first finished task is through. -/
def World.popped (w : World σ) (rest : List Task) : World σ := { w with finished := rest }

theorem owned_popped {t : Task} {rest : List Task} (hfin : w.finished = t :: rest) (addr : ℕ) :
    (w.popped rest).owned addr + t.owned addr = w.owned addr := by
  simp only [World.owned, World.popped, hfin, List.map_cons, List.sum_cons]
  omega

/-- A load puts the state it has read into the core. -/
theorem loadCallback_spec {t : Task} {rest : List Task} {b : Block} (h : Kept w held)
    (hs : Shares w) (hempty : core.size = 0 → w.undoLoadBuf.data = none)
    (hfin : w.finished = t :: rest) (hkind : t.kind = .load) (hb : t.data = some b) :
    ∃ live fresh buf, contentLoadStateCb core settings w t =
        some ((w.savedToRam live fresh buf).unserialize core settings (b.bytes.take t.size)) ∧
      Backs core w.core buf ∧ Kept ((w.savedToRam live fresh buf).popped rest) held := by
  have howned : t.owned b.addr ≥ 1 := by
    simp [Task.owned, hkind, hb]
  have hin : 0 < w.owned b.addr := by
    have hpop := owned_popped hfin b.addr
    omega
  obtain ⟨live, fresh, buf, hram, hbacks, _, hk⟩ := saveToRam_spec core h hs hempty
  have hpop := owned_popped (w := w.savedToRam live fresh buf) hfin
  have hshared : (w.savedToRam live fresh buf).shared b.addr = 0 := by
    have honce := hk.once b.addr
    have hle := Shares.shared_le (w := w.savedToRam live fresh buf) ⟨hs.running, hs.finished⟩ b.addr
    have hbuf : cnt w.undoSaveBuf.data b.addr ≤
        ((w.savedToRam live fresh buf).popped rest).owned b.addr := by
      simp only [World.owned, World.savedToRam, World.popped]
      omega
    have hpop' := hpop b.addr
    change _ ≤ cnt w.undoSaveBuf.data b.addr at hle
    omega
  have hfree := hk.free (b := b) ⟨hs.running, hs.finished⟩
    (by have hpop' := hpop b.addr; omega) hshared
  refine ⟨Function.update live b.addr false, fresh, buf, ?_, hbacks, ?_⟩
  · rw [contentLoadStateCb, hb]
    simp only [h.read (Nat.lt_of_lt_of_le hin (Nat.le_add_right _ _)), Option.bind_some, hkind]
    rw [if_neg (fun heq => Kind.noConfusion heq), hram, Option.bind_some, free_unserialize, hfree]
    rfl
  · refine hk.freed (b := b) ?_ rfl rfl
    intro addr
    have hpop' := hpop addr
    have hdata : cnt (some b) addr ≤ t.owned addr := by
      simp [Task.owned, hkind, hb]
    change ((w.savedToRam live fresh buf).popped rest).owned addr + held addr +
      cnt (some b) addr ≤ _
    omega

/-- The world after a file was read to the backup buffer. -/
def World.backedUp (w : World σ) (live : ℕ → Bool) (fresh : ℕ) (buf : SaveStateBuf) : World σ :=
  { w with live := live, fresh := fresh, undoSaveBuf := buf }

/-- A load into the backup buffer takes the place of what is there. -/
theorem backupCallback_spec {t : Task} {rest : List Task} {b : Block} (h : Kept w held)
    (hs : Shares w) (hno : NoUndo w) (hfin : w.finished = t :: rest) (hkind : t.kind = .loadAndSave)
    (hb : t.data = some b) :
    ∃ live fresh copy, contentLoadStateCb core settings w t =
        some (w.backedUp live fresh ⟨some copy, t.path, t.size⟩) ∧
      copy.bytes = b.bytes.take t.size ∧
      Kept ((w.backedUp live fresh ⟨some copy, t.path, t.size⟩).popped rest)
        fun addr => held addr + cnt t.undoData addr := by
  have howned : ∀ addr, t.owned addr = cnt (some b) addr + cnt t.undoData addr := by
    intro addr
    simp [Task.owned, hkind, hb]
  have hin : 0 < w.owned b.addr := by
    have hpop := owned_popped hfin b.addr
    have hself := howned b.addr
    rw [cnt_self] at hself
    omega
  obtain ⟨live, hdrop, hdropped⟩ := dropUndoSave_spec h hs hno
  have hcopied := hdropped.malloc (b.bytes.take t.size)
  let copy : Block := ⟨w.fresh, b.bytes.take t.size⟩
  let live' := Function.update live w.fresh true
  have hk : Kept (w.backedUp live' (w.fresh + 1) ⟨some copy, t.path, t.size⟩) held := by
    refine hcopied.mono ?_ rfl rfl
    intro addr
    simp only [World.owned, World.backedUp, World.malloc, copy, cnt_none]
    omega
  have hpop := owned_popped (w := w.backedUp live' (w.fresh + 1) ⟨some copy, t.path, t.size⟩) hfin
  have hfree := hk.free (b := b) (NoUndo.shares hno hs.finished)
    (by have hpop' := hpop b.addr; have hself := howned b.addr; rw [cnt_self] at hself; omega)
    (NoUndo.shared hno b.addr)
  refine ⟨Function.update live' b.addr false, w.fresh + 1, copy, ?_, rfl, ?_⟩
  · rw [contentLoadStateCb, hb]
    simp only [h.read (Nat.lt_of_lt_of_le hin (Nat.le_add_right _ _)), Option.bind_some, hkind,
      if_true, hdrop]
    exact hfree
  · refine hk.freed (b := b) ?_ rfl rfl
    intro addr
    have hpop' := hpop addr
    rw [howned] at hpop'
    change ((w.backedUp live' (w.fresh + 1) ⟨some copy, t.path, t.size⟩).popped rest).owned addr +
      (held addr + cnt t.undoData addr) + cnt (some b) addr ≤ _
    omega

end Buffers

section Tasks

variable (core : Core σ) (settings : Settings)

theorem freeData_spec {data : Option Block} (h : Kept w fun addr => held addr + cnt data addr)
    (hs : Shares w) :
    ∃ live, w.freeData data = some { w with live := live } ∧ Kept { w with live := live } held := by
  cases data with
  | none => exact ⟨w.live, rfl, h⟩
  | some b =>
    refine ⟨_, h.free_held hs (by rw [cnt_self]; omega), h.freed (b := b) ?_ rfl rfl⟩
    intro addr
    exact le_of_eq (Nat.add_assoc _ _ _)

/-- The world in which a task is running. -/
def World.runs (w : World σ) (t : Task) : World σ := { w with running := some t }

theorem push_kept (data : Option Block) (h : Kept w fun addr => held addr + cnt data addr)
    (hrun : w.running = none) {t : Task} (ht : ∀ addr, t.owned addr = cnt data addr) :
    Kept (w.runs t) held := by
  refine h.mono ?_ rfl rfl
  intro addr
  have howned := ht addr
  simp only [World.owned, World.runs, hrun, Option.elim]
  omega

theorem owned_runs {t : Task} (hrun : w.running = some t) (u : Task) (addr : ℕ) :
    (w.runs u).owned addr + t.owned addr = w.owned addr + u.owned addr := by
  simp only [World.owned, World.runs, hrun, Option.elim]
  omega

/-- The world when the handler of its task is through with it. -/
def World.ended (w : World σ) (live : ℕ → Bool) (buf : SaveStateBuf) (t : Task) : World σ :=
  { w with live := live, undoSaveBuf := buf, running := none, finished := w.finished ++ [t] }

theorem owned_ended {t : Task} (hrun : w.running = some t) (live : ℕ → Bool) (buf : SaveStateBuf)
    (u : Task) (addr : ℕ) :
    (w.ended live buf u).owned addr + t.owned addr + cnt w.undoSaveBuf.data addr =
      w.owned addr + u.owned addr + cnt buf.data addr := by
  simp only [World.owned, World.ended, hrun, Option.elim, List.map_append, List.sum_append,
    List.map_cons, List.map_nil, List.sum_cons, List.sum_nil]
  omega

theorem owned_eq {t : Task} (hkind : t.kind ≠ .undoSave) (addr : ℕ) :
    t.owned addr = cnt t.data addr + cnt t.undoData addr := by
  rw [Task.owned, if_neg hkind]

theorem owned_ended_without {t : Task} (hrun : w.running = some t) (hkind : t.kind ≠ .undoSave)
    (live : ℕ → Bool) (addr : ℕ) :
    (w.ended live w.undoSaveBuf { t with data := none }).owned addr + cnt t.data addr =
      w.owned addr := by
  have hthis := owned_ended hrun live w.undoSaveBuf { t with data := none } addr
  have hnone : Task.owned { t with data := none } addr = cnt t.undoData addr := by
    rw [Task.owned, if_neg hkind, cnt_none, Nat.zero_add]
  rw [owned_eq hkind, hnone] at hthis
  omega

theorem NoUndo.of_running {t : Task} (hrun : w.running = some t) (hkind : t.kind ≠ .undoSave) :
    NoUndo w := by
  intro u hu
  rw [hrun] at hu
  cases hu
  exact hkind

theorem loadFailed_spec {t : Task} (h : Kept w held) (hs : Shares w) (hrun : w.running = some t)
    (hkind : t.kind ≠ .undoSave) :
    ∃ live, loadFailed w t = some (w.ended live w.undoSaveBuf { t with data := none }) ∧
      Kept (w.ended live w.undoSaveBuf { t with data := none }) held := by
  have hended := owned_ended_without hrun hkind
  unfold loadFailed
  cases hdata : t.data with
  | none =>
    refine ⟨w.live, ?_, h.mono ?_ rfl rfl⟩
    · have heta : { t with data := none } = t := by rw [← hdata]
      rw [heta]
      rfl
    · intro addr
      have hthis := hended w.live addr
      omega
  | some b =>
    have hpos : 0 < w.owned b.addr := by
      have hthis := hended w.live b.addr
      rw [hdata, cnt_self] at hthis
      omega
    have hfree := h.free (b := b) hs (by omega) ((NoUndo.of_running hrun hkind).shared _)
    simp only [hfree, Option.map_some]
    refine ⟨Function.update w.live b.addr false, rfl, h.freed (b := b) ?_ rfl rfl⟩
    intro addr
    have hthis := hended (Function.update w.live b.addr false) addr
    rw [hdata] at hthis
    omega

theorem saveFinished_spec {t : Task} (h : Kept w held) (hs : Shares w) (hrun : w.running = some t)
    (hkind : t.kind = .save ∨ t.kind = .undoSave) :
    ∃ live buf, saveFinished w t = some (w.ended live buf { t with data := none }) ∧
      Kept (w.ended live buf { t with data := none }) held ∧
      (t.kind = .save → buf = w.undoSaveBuf) ∧ (t.kind = .undoSave → buf.data = none) := by
  cases hdata : t.data with
  | none =>
    refine ⟨w.live, w.undoSaveBuf, ?_, h.mono ?_ rfl rfl, fun _ => rfl, ?_⟩
    · have heta : { t with data := none } = t := by rw [← hdata]
      rw [heta, saveFinished, hdata]
      rfl
    · intro addr
      have hthis := owned_ended hrun w.live w.undoSaveBuf { t with data := none } addr
      have howned : Task.owned { t with data := none } addr ≤ t.owned addr := by
        simp only [Task.owned, hdata, cnt_none]
        exact le_rfl
      omega
    · intro hundo
      rw [← hs.running t hrun hundo, hdata]
  | some b =>
    rcases hkind with hsave | hundo
    · have hne : t.kind ≠ .undoSave := by
        rw [hsave]
        exact Kind.noConfusion
      have hended := owned_ended_without hrun hne
      have hpos : 0 < w.owned b.addr := by
        have hthis := hended w.live b.addr
        rw [hdata, cnt_self] at hthis
        omega
      have hfree := h.free (b := b) hs (by omega) ((NoUndo.of_running hrun hne).shared _)
      refine ⟨Function.update w.live b.addr false, w.undoSaveBuf, ?_, h.freed (b := b) ?_ rfl rfl,
        fun _ => rfl, fun hundo => absurd hundo hne⟩
      · rw [saveFinished, hdata]
        simp only [hsave, reduceCtorEq, false_and, if_false, hfree, Option.map_some]
        rfl
      · intro addr
        have hthis := hended (Function.update w.live b.addr false) addr
        rw [hdata] at hthis
        omega
    · let buf : SaveStateBuf := { w.undoSaveBuf with data := none }
      have hshare : w.undoSaveBuf.data = some b := by rw [← hs.running t hrun hundo, hdata]
      have hcleared : ∀ addr, World.owned { w with undoSaveBuf := buf } addr + cnt (some b) addr =
          w.owned addr := by
        intro addr
        simp only [World.owned, buf, hshare, cnt_none]
        omega
      have honce := h.once b.addr
      have hsum := hcleared b.addr
      rw [cnt_self] at hsum
      have hfree : World.free { w with undoSaveBuf := buf } b =
          some { w with undoSaveBuf := buf, live := Function.update w.live b.addr false } := by
        apply if_pos
        constructor
        · exact h.live b.addr (by omega)
        · rw [refs_eq (w := { w with undoSaveBuf := buf }) hs.finished]
          have hshared : World.shared { w with undoSaveBuf := buf } b.addr = 1 := by
            simp only [World.shared, hrun, Option.elim, hundo, if_true, hdata, cnt_self]
          omega
      refine ⟨Function.update w.live b.addr false, buf, ?_, h.freed (b := b) ?_ rfl rfl,
        ?_, fun _ => rfl⟩
      · rw [saveFinished, hdata]
        simp only [hundo, hshare, Option.map_some, true_and, if_true]
        rw [hfree]
        rfl
      · intro addr
        have hthis := owned_ended hrun (Function.update w.live b.addr false) buf
          { t with data := none } addr
        have ht : t.owned addr = cnt t.undoData addr := by
          rw [Task.owned, if_pos hundo, Nat.zero_add]
        have hn : Task.owned { t with data := none } addr = cnt t.undoData addr := by
          rw [Task.owned, if_pos hundo, Nat.zero_add]
        have hbuf : cnt buf.data addr = 0 := rfl
        rw [ht, hn, hshare] at hthis
        omega
      · intro hsave
        rw [hundo] at hsave
        cases hsave

/-- The world with other files and memory. -/
def World.wrote (w : World σ) (live : ℕ → Bool) (fresh : ℕ)
    (files : String → Option (List UInt8)) (overwritten : Option Overwritten) : World σ :=
  { w with live := live, fresh := fresh, files := files, overwritten := overwritten }

theorem saveOpen_eq (w : World σ) (t : Task) :
    saveOpen w t = (w.wrote w.live w.fresh (saveOpen w t).1.files (saveOpen w t).1.overwritten,
      { t with opened := true }) := by
  unfold saveOpen
  cases hopened : t.opened with
  | false => rfl
  | true =>
    have heta : { t with opened := true } = t := by rw [← hopened]
    rw [heta]
    rfl

theorem saveData_spec {t : Task} (h : Kept w held) (hs : Shares w) (hrun : w.running = some t)
    (hdata : t.kind = .undoSave → t.data.isSome) :
    ∃ live fresh data, saveData core w { t with opened := true } =
        (w.wrote live fresh w.files w.overwritten, { t with opened := true, data := data }) ∧
      (∀ b, t.data = some b → data = some b) ∧
      Kept ((w.wrote live fresh w.files w.overwritten).runs
        { t with opened := true, data := data }) held ∧
      (t.kind = .undoSave → data = w.undoSaveBuf.data) := by
  have hsame : Kept (w.runs { t with opened := true }) held := by
    refine h.mono ?_ rfl rfl
    intro addr
    have hthis := owned_runs hrun { t with opened := true } addr
    have howned : Task.owned { t with opened := true } addr = t.owned addr := rfl
    omega
  unfold saveData
  cases hb : t.data with
  | some b =>
    refine ⟨w.live, w.fresh, some b, ?_, fun c hc => hc, ?_, ?_⟩
    · simp only [World.wrote]
    · rw [← hb]
      exact hsame
    · intro hundo
      rw [← hs.running t hrun hundo, hb]
  | none =>
    have hsave : t.kind ≠ .undoSave := by
      intro hundo
      have hsome := hdata hundo
      rw [hb] at hsome
      cases hsome
    by_cases hsize : t.size = 0
    · refine ⟨w.live, w.fresh, none, ?_, ?_, ?_, fun hundo => absurd hundo hsave⟩
      · simp only [World.wrote, hsize, if_true]
      · intro c hc
        cases hc
      · rw [← hb]
        exact hsame
    · have hnew := h.malloc (core.serialize w.core)
      refine ⟨_, _, some (w.malloc (core.serialize w.core)).1, ?_, ?_, hnew.mono ?_ rfl rfl,
        fun hundo => absurd hundo hsave⟩
      · simp only [hsize, if_false]
        rfl
      · intro c hc
        cases hc
      · intro addr
        have hthis := owned_runs hrun
          { t with opened := true, data := some (w.malloc (core.serialize w.core)).1 } addr
        have ht := owned_eq hsave addr
        have hu : Task.owned { t with
            opened := true, data := some (w.malloc (core.serialize w.core)).1 } addr =
            cnt (some (w.malloc (core.serialize w.core)).1) addr + cnt t.undoData addr := by
          rw [Task.owned, if_neg hsave]
        rw [ht, hu, hb, cnt_none] at hthis
        change (w.runs _).owned addr + held addr ≤ w.owned addr + (held addr + _)
        omega

/-- The world after a chunk was written by a save. -/
def World.savedTo (w : World σ) (t : Task) (live : ℕ → Bool) (fresh : ℕ) (bytes : List UInt8) :
    World σ :=
  let opened := (saveOpen w t).1
  w.wrote live fresh
    (Function.update opened.files t.path
      (some (((opened.files t.path).getD []).take t.progress ++ bytes))) opened.overwritten

/-- The task after a chunk was written. -/
def Task.wrote (t : Task) (data : Option Block) (bytes : List UInt8) : Task :=
  { t with opened := true, data := data, progress := t.progress + bytes.length }

/-- What a call of `task_save_handler` does: it goes on, or it ends and frees the data. -/
theorem saveHandler_spec {t : Task} (h : Kept w held) (hs : Shares w) (hrun : w.running = some t)
    (hkind : t.kind = .save ∨ t.kind = .undoSave) (hdata : t.kind = .undoSave → t.data.isSome)
    (short : Option ℕ) :
    ∃ live fresh data bytes,
      (∀ b, t.data = some b → data = some b ∧ bytes =
        short.elim id List.take ((b.bytes.drop t.progress).take
          (min (t.size - t.progress) settings.chunk))) ∧
      ((short = none ∧ (t.wrote data bytes).progress ≠ t.size ∧
          saveHandler core settings short w t =
            some ((w.savedTo t live fresh bytes).runs (t.wrote data bytes)) ∧
          Kept ((w.savedTo t live fresh bytes).runs (t.wrote data bytes)) held) ∨
        ∃ live' buf, (short = none → (t.wrote data bytes).progress = t.size) ∧
          saveHandler core settings short w t =
            some ((w.savedTo t live fresh bytes).ended live' buf (t.wrote none bytes)) ∧
          Kept ((w.savedTo t live fresh bytes).ended live' buf (t.wrote none bytes)) held ∧
          (t.kind = .save → buf = w.undoSaveBuf) ∧ (t.kind = .undoSave → buf.data = none)) := by
  let files := (saveOpen w t).1.files
  let last := (saveOpen w t).1.overwritten
  have hopen : saveOpen w t = (w.wrote w.live w.fresh files last, { t with opened := true }) :=
    saveOpen_eq w t
  have ho : Kept (w.wrote w.live w.fresh files last) held := h.mono (fun _ => le_rfl) rfl rfl
  obtain ⟨live, fresh, data, hsaved, hsame, hk, hundo⟩ :=
    saveData_spec core ho ⟨hs.running, hs.finished⟩ hrun hdata
  -- the bytes are read from a block that the task or the buffer owns
  have hread : ∃ bytes, saveBytes settings
      ((w.wrote live fresh files last).runs { t with opened := true, data := data })
      { t with opened := true, data := data } = some bytes ∧
      ∀ b, data = some b → bytes =
        (b.bytes.drop t.progress).take (min (t.size - t.progress) settings.chunk) := by
    cases hb : data with
    | none => exact ⟨[], rfl, fun c hc => nomatch hc⟩
    | some b =>
      have hpos : 0 < ((w.wrote live fresh files last).runs
          { t with opened := true, data := data }).owned b.addr := by
        rcases hkind with hsave | hu
        · simp [World.owned, World.runs, Task.owned, hsave, hb]
        · have hbuf := hundo hu
          have hself := cnt_self b
          change data = w.undoSaveBuf.data at hbuf
          rw [← hb, hbuf] at hself
          simp only [World.owned, World.runs, World.wrote]
          omega
      rw [hb] at hpos hk
      have hblock := hk.read (b := b) (Nat.lt_of_lt_of_le hpos (Nat.le_add_right _ _))
      refine ⟨(b.bytes.drop t.progress).take (min (t.size - t.progress) settings.chunk),
        congrArg (Option.map fun bytes : List UInt8 =>
          (bytes.drop t.progress).take (min (t.size - t.progress) settings.chunk)) hblock,
        fun c hc => ?_⟩
      cases hc
      rfl
  obtain ⟨bytes, hbytes, hfrom⟩ := hread
  let moved := short.elim bytes bytes.take
  have hwritten : Kept ((w.savedTo t live fresh moved).runs (t.wrote data moved)) held :=
    hk.mono (fun _ => le_rfl) rfl rfl
  have hmoved : ∀ b, t.data = some b → data = some b ∧ moved =
      short.elim id List.take ((b.bytes.drop t.progress).take
        (min (t.size - t.progress) settings.chunk)) := by
    intro b hb
    refine ⟨hsame b hb, ?_⟩
    simp only [moved, hfrom b (hsame b hb)]
    cases short <;> rfl
  have hstep : saveHandler core settings short w t =
      if short.isSome ∨ (t.wrote data moved).progress = t.size then
        saveFinished ((w.savedTo t live fresh moved).runs (t.wrote data moved)) (t.wrote data moved)
      else some ((w.savedTo t live fresh moved).runs (t.wrote data moved)) := by
    rw [saveHandler, hopen]
    simp only [hsaved]
    change Option.bind (saveBytes settings ((w.wrote live fresh files last).runs
      { t with opened := true, data := data }) { t with opened := true, data := data }) _ = _
    rw [hbytes]
    rfl
  refine ⟨live, fresh, data, moved, hmoved, ?_⟩
  by_cases hends : short.isSome ∨ (t.wrote data moved).progress = t.size
  · rw [if_pos hends] at hstep
    have hshares : Shares ((w.savedTo t live fresh moved).runs (t.wrote data moved)) := by
      refine ⟨?_, hs.finished⟩
      intro u hu hkindu
      cases hu
      exact hundo hkindu
    obtain ⟨live', buf, hfinished, hkept, hsavebuf, hundobuf⟩ :=
      saveFinished_spec hwritten hshares (t := t.wrote data moved) rfl hkind
    refine .inr ⟨live', buf, ?_, hstep.trans hfinished, hkept, hsavebuf, hundobuf⟩
    intro hshort
    rcases hends with hsome | hsize
    · rw [hshort] at hsome
      cases hsome
    · exact hsize
  · rw [if_neg hends] at hstep
    refine .inl ⟨?_, fun hsize => hends (.inr hsize), hstep, hwritten⟩
    cases short with
    | none => rfl
    | some n => exact absurd (.inl rfl) hends

/-- The world of a load with its memory. -/
def World.alloc (w : World σ) (live : ℕ → Bool) (fresh : ℕ) : World σ :=
  { w with live := live, fresh := fresh }

theorem loadOpen_spec {t : Task} (h : Kept w held) (hrun : w.running = some t)
    (hkind : t.kind ≠ .undoSave) (hdata : t.opened = false → t.data = none)
    (content : List UInt8) :
    ∃ live fresh, (loadOpen content w t).1 = w.alloc live fresh ∧
      Kept ((w.alloc live fresh).runs (loadOpen content w t).2) held := by
  unfold loadOpen
  cases hopened : t.opened with
  | true =>
    refine ⟨w.live, w.fresh, rfl, h.mono ?_ rfl rfl⟩
    intro addr
    have hthis := owned_runs hrun t addr
    change (w.runs t).owned addr + held addr ≤ _
    omega
  | false =>
    have hnew := h.malloc (List.replicate (content.length + 1) 0)
    refine ⟨_, _, rfl, hnew.mono ?_ rfl rfl⟩
    intro addr
    let b := (w.malloc (List.replicate (content.length + 1) 0)).1
    let u : Task := { t with data := some b, size := content.length, opened := true }
    have hthis := owned_runs hrun u addr
    have ht := owned_eq hkind addr
    have hu : u.owned addr = cnt (some b) addr + cnt t.undoData addr :=
      owned_eq (t := u) hkind addr
    rw [ht, hu, hdata hopened, cnt_none] at hthis
    change (w.runs u).owned addr + held addr ≤ w.owned addr + (held addr + cnt (some b) addr)
    omega

theorem loadOpen_same (content : List UInt8) (w : World σ) (t : Task) :
    (loadOpen content w t).2.kind = t.kind ∧ (loadOpen content w t).2.opened = true := by
  unfold loadOpen
  split_ifs with hopened
  · exact ⟨rfl, hopened⟩
  · exact ⟨rfl, rfl⟩

/-- What a call of `task_load_handler` does: it ends without data, or reads on. -/
theorem loadHandler_spec {t : Task} (h : Kept w held) (hs : Shares w) (hrun : w.running = some t)
    (hkind : t.kind ≠ .undoSave) (hdata : t.opened = false → t.data = none) (short : Bool) :
    ∃ live fresh,
      (∃ u live', u.kind = t.kind ∧ u.data = none ∧
        loadHandler settings short w t =
          some ((w.alloc live fresh).ended live' w.undoSaveBuf u) ∧
        Kept ((w.alloc live fresh).ended live' w.undoSaveBuf u) held) ∨
      ∃ content b, let u := loadChunk settings content b (loadOpen content w t).2
        w.files t.path = some content ∧ (loadOpen content w t).2.data = some b ∧
        ((u.progress ≠ u.size ∧
            loadHandler settings short w t = some ((w.alloc live fresh).runs u) ∧
            Kept ((w.alloc live fresh).runs u) held) ∨
          u.progress = u.size ∧
            loadHandler settings short w t =
              some ((w.alloc live fresh).ended live w.undoSaveBuf u) ∧
            Kept ((w.alloc live fresh).ended live w.undoSaveBuf u) held) := by
  cases hfile : w.files t.path with
  | none =>
    obtain ⟨live, hfailed, hk⟩ := loadFailed_spec h hs hrun hkind
    refine ⟨w.live, w.fresh, .inl ⟨{ t with data := none }, live, rfl, rfl, ?_, hk⟩⟩
    rw [loadHandler, hfile]
    exact hfailed
  | some content =>
    obtain ⟨live, fresh, hopen, hk⟩ := loadOpen_spec h hrun hkind hdata content
    have hsame := (loadOpen_same content w t).1
    rcases hpair : loadOpen content w t with ⟨v, u⟩
    rw [hpair] at hopen hk hsame
    simp only at hopen hk hsame
    subst hopen
    have hne : u.kind ≠ .undoSave := hsame ▸ hkind
    have hno : NoUndo ((w.alloc live fresh).runs u) := NoUndo.of_running rfl hne
    obtain ⟨live', hfailed, hended⟩ := loadFailed_spec hk (hno.shares hs.finished) rfl hne
    have hfails : loadFailed ((w.alloc live fresh).runs u) u =
        some ((w.alloc live fresh).ended live' w.undoSaveBuf { u with data := none }) := hfailed
    refine ⟨live, fresh, ?_⟩
    cases hb : u.data with
    | none =>
      refine .inl ⟨{ u with data := none }, live', hsame, rfl, ?_, hended⟩
      rw [loadHandler, hfile]
      simp only [hpair, hb]
      exact hfails
    | some b =>
      cases short with
      | true =>
        refine .inl ⟨{ u with data := none }, live', hsame, rfl, ?_, hended⟩
        rw [loadHandler, hfile]
        simp only [hpair, hb]
        exact hfails
      | false =>
        refine .inr ⟨content, b, ?_⟩
        have hpos : 0 < ((w.alloc live fresh).runs u).owned b.addr := by
          simp [World.owned, World.runs, owned_eq hne, hb]
        have hblock := hk.read (b := b) (Nat.lt_of_lt_of_le hpos (Nat.le_add_right _ _))
        have hchunk : ∀ addr, (loadChunk settings content b u).owned addr = u.owned addr := by
          intro addr
          simp only [owned_eq hne, owned_eq (t := loadChunk settings content b u) hne, hb]
          rfl
        have hstep : loadHandler settings false w t =
            some (if (loadChunk settings content b u).progress =
                (loadChunk settings content b u).size then
              loadFinished ((w.alloc live fresh).runs u) (loadChunk settings content b u)
            else (w.alloc live fresh).runs (loadChunk settings content b u)) := by
          rw [loadHandler, hfile]
          simp only [hpair, hb]
          exact congrArg (Option.map _) hblock
        rw [hpair]
        dsimp only
        refine ⟨rfl, hb, ?_⟩
        by_cases hends : (loadChunk settings content b u).progress =
            (loadChunk settings content b u).size
        · rw [if_pos hends] at hstep
          refine .inr ⟨hends, hstep, hk.mono ?_ rfl rfl⟩
          intro addr
          have hthis := owned_ended (w := (w.alloc live fresh).runs u) rfl live w.undoSaveBuf
            (loadChunk settings content b u) addr
          rw [hchunk] at hthis
          change ((w.alloc live fresh).ended live w.undoSaveBuf _).owned addr + _ +
            cnt w.undoSaveBuf.data addr = _ at hthis
          omega
        · rw [if_neg hends] at hstep
          refine .inl ⟨hends, hstep, hk.mono ?_ rfl rfl⟩
          intro addr
          have hthis := owned_runs (w := (w.alloc live fresh).runs u) rfl
            (loadChunk settings content b u) addr
          rw [hchunk] at hthis
          change ((w.alloc live fresh).runs _).owned addr + _ = _ at hthis
          omega

end Tasks

end RetroArch.Tasks.UndoState
