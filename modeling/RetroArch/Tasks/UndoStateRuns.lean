/- What the backups hold, over runs of requests, tasks and resets. -/

import RetroArch.Library.Run
import RetroArch.Tasks.UndoStateOwning

namespace RetroArch.Tasks.UndoState

open Library.Run
open SaveState (Block SaveStateBuf)

variable {σ : Type} {core : Core σ} {settings : Settings} {w : World σ}

/-- No callback of a finished backup is outstanding. -/
def Quiet (w : World σ) : Prop := ∀ t ∈ w.finished, t.kind ≠ .loadAndSave

/-- Nothing is requested between the end of a backup and its callback. The undo of a save follows
a save that was backed up, and the backups are not reset while it is running. -/
def InOrder (w : World σ) : Input σ → Prop
  | .save _ _ _ => Quiet w
  | .load _ => Quiet w
  | .undoSave => Quiet w ∧ ∀ o, w.overwritten = some o → o.backed = true
  | .reset => NoUndo w
  | _ => True

instance (w : World σ) : Decidable (Quiet w) :=
  inferInstanceAs (Decidable (∀ t ∈ w.finished, t.kind ≠ .loadAndSave))

instance (w : World σ) : Decidable (NoUndo w) :=
  inferInstanceAs (Decidable (∀ t ∈ w.running, t.kind ≠ .undoSave))

instance (w : World σ) (i : Input σ) : Decidable (InOrder w i) :=
  match i with
  | .save _ _ _ => inferInstanceAs (Decidable (Quiet w))
  | .load _ => inferInstanceAs (Decidable (Quiet w))
  | .undoSave =>
    inferInstanceAs (Decidable (Quiet w ∧ ∀ o ∈ w.overwritten, o.backed = true))
  | .reset => inferInstanceAs (Decidable (NoUndo w))
  | .play _ | .undoLoad | .handle _ | .gather => inferInstanceAs (Decidable True)

/-- The state that a load leaves: what it has loaded, with the SRAM that was there. -/
def restored (core : Core σ) (settings : Settings) (s loaded : σ) : σ :=
  if settings.blockSramOverwrite then core.keepSram s loaded else loaded

/-- An undo of a load brings back the state before the last one, and the next brings back this
one. -/
def UndoesLoad (core : Core σ) (settings : Settings) (w w' : World σ) : Prop :=
  w.undoLoadBuf.data.isSome → ∃ s w'', w.beforeLoad = some s ∧
    w'.core = restored core settings w.core s ∧
    w'.step core settings .undoLoad = some w'' ∧ w''.core = w.core

/-- An undo of a save that comes to its end has put back the file that was overwritten last, and
there is no other. -/
def UndoesSave (core : Core σ) (settings : Settings) (w w' : World σ) : Prop :=
  ∀ t, w.running = some t → t.kind = .undoSave → w'.running = none →
    (∃ o, w.overwritten = some o ∧ o.path = t.path ∧ w'.files t.path = some o.bytes) ∧
      w'.step core settings .undoSave = some w'

def Restores (core : Core σ) (settings : Settings) (w : World σ) (i : Input σ) (w' : World σ) :
    Prop :=
  match i with
  | .undoLoad => UndoesLoad core settings w w'
  | .handle none => UndoesSave core settings w w'
  | _ => True

/-- A save that will overwrite the file that is in the buffer. -/
def Task.Awaits (t : Task) : Prop := t.kind = .save ∧ t.backed = true ∧ t.opened = false

/-- The buffer has the file that is overwritten next, or the one that was overwritten last if this
was backed up. -/
def Backup (w : World σ) (b : Block) : Prop :=
  (∃ t, w.running = some t ∧ t.Awaits ∧ w.undoSaveBuf.path = t.path ∧
      w.files t.path = some b.bytes) ∨
    ((∀ t, w.running = some t → ¬ t.Awaits) ∧
      ∃ o, w.overwritten = some o ∧
        (o.backed = true → o.path = w.undoSaveBuf.path ∧ o.bytes = b.bytes))

/-- An undo of a save has written a part of what the buffer has. -/
structure Undoing (w : World σ) (t : Task) (b : Block) : Prop where
  data : t.data = some b
  buffer : w.undoSaveBuf.data = some b
  size : t.size = b.bytes.length
  last : ∃ o, w.overwritten = some o ∧ o.path = t.path ∧ o.bytes = b.bytes
  closed : t.opened = false → t.progress = 0
  opened : t.opened = true → w.files t.path = some (b.bytes.take t.progress)
  within : t.progress ≤ t.size

/-- A load has read a part of a file. -/
structure Reading (w : World σ) (t : Task) (b : Block) (content : List UInt8) : Prop where
  data : t.data = some b
  file : w.files t.path = some content
  size : t.size = content.length
  room : b.bytes.length = content.length + 1
  within : t.progress ≤ content.length
  read : b.bytes.take t.progress = content.take t.progress

def Going (w : World σ) (t : Task) : Prop :=
  match t.kind with
  | .save => True
  | .undoSave => ∃ b, Undoing w t b
  | _ =>
    (t.opened = false → t.data = none ∧ t.progress = 0) ∧
      (t.opened = true → ∃ b content, Reading w t b content)

theorem Undoing.congr {w' : World σ} {t : Task} {b : Block} (h : Undoing w t b)
    (hfiles : w'.files = w.files) (hbuf : w'.undoSaveBuf.data = w.undoSaveBuf.data)
    (hlast : w'.overwritten = w.overwritten) : Undoing w' t b := by
  refine ⟨h.data, ?_, h.size, ?_, h.closed, ?_, h.within⟩
  · rw [hbuf]
    exact h.buffer
  · rw [hlast]
    exact h.last
  · rw [hfiles]
    exact h.opened

theorem Going.congr {w' : World σ} {t : Task} (h : Going w t) (hfiles : w'.files = w.files)
    (hbuf : w'.undoSaveBuf.data = w.undoSaveBuf.data) (hlast : w'.overwritten = w.overwritten) :
    Going w' t := by
  have hread : ∀ b content, Reading w t b content → Reading w' t b content := by
    intro b content hr
    exact ⟨hr.data, hfiles ▸ hr.file, hr.size, hr.room, hr.within, hr.read⟩
  unfold Going at h ⊢
  cases hkind : t.kind with
  | save => trivial
  | undoSave =>
    rw [hkind] at h
    obtain ⟨b, hundo⟩ := h
    exact ⟨b, hundo.congr hfiles hbuf hlast⟩
  | load | loadAndSave =>
    rw [hkind] at h
    refine ⟨h.1, fun hopened => ?_⟩
    obtain ⟨b, content, hr⟩ := h.2 hopened
    exact ⟨b, content, hread b content hr⟩

/-- The memory is in order, and buffers and tasks have what they should. -/
structure Sound (core : Core σ) (w : World σ) : Prop where
  kept : Kept w fun _ => 0
  undone : ∀ t ∈ w.finished, t.kind = .undoSave → t.data = none ∧ w.undoSaveBuf.data = none
  last : ∀ t ∈ w.finished.dropLast, t.kind ≠ .loadAndSave
  backup : ∀ t ∈ w.finished, t.kind = .loadAndSave → w.running = none ∧
    ∀ b, t.data = some b → (b.bytes.take t.size).length = t.size ∧
      w.files t.path = some (b.bytes.take t.size)
  going : ∀ t, w.running = some t → Going w t
  loads : ∀ b, w.undoLoadBuf.data = some b →
    ∃ s, w.beforeLoad = some s ∧ Backs core s w.undoLoadBuf
  saves : ∀ b, w.undoSaveBuf.data = some b →
    b.bytes.length = w.undoSaveBuf.size ∧ Backup w b

theorem Sound.start (s : σ) (files : String → Option (List UInt8)) :
    Sound core (World.start s files) := by
  constructor
  · constructor
    · intro addr
      exact Nat.zero_le 1
    · intro addr hpos
      exact absurd hpos (Nat.lt_irrefl 0)
    · intro addr hlive
      cases hlive
  · intro t ht
    cases ht
  · intro t ht
    cases ht
  · intro t ht
    cases ht
  · intro t ht
    cases ht
  · intro b hb
    cases hb
  · intro b hb
    cases hb

theorem Sound.shares (h : Sound core w) : Shares w := by
  constructor
  · intro t hrun hkind
    have hgoing := h.going t hrun
    rw [Going, hkind] at hgoing
    obtain ⟨b, hundo⟩ := hgoing
    rw [hundo.data, hundo.buffer]
  · intro t ht hkind
    exact (h.undone t ht hkind).1

theorem Sound.empty (h : Sound core w) (hsize : core.size = 0) : w.undoLoadBuf.data = none := by
  cases hdata : w.undoLoadBuf.data with
  | none => rfl
  | some b =>
    obtain ⟨s, _, hback⟩ := h.loads b hdata
    exact absurd hsize (hback b hdata).1

theorem Sound.quiet {t : Task} (h : Sound core w) (hrun : w.running = some t) : Quiet w := by
  intro u hu hkind
  have hnone := (h.backup u hu hkind).1
  rw [hrun] at hnone
  cases hnone

theorem Quiet.last_concat (h : Quiet w) (u : Task) :
    ∀ v ∈ (w.finished ++ [u]).dropLast, v.kind ≠ .loadAndSave := by
  intro v hv
  rw [List.dropLast_concat] at hv
  exact h v hv

theorem Quiet.eq_ended {u v : Task} (h : Quiet w) (hv : v ∈ w.finished ++ [u])
    (hkind : v.kind = .loadAndSave) : v = u := by
  rcases List.mem_append.mp hv with hmem | hmem
  · exact absurd hkind (h v hmem)
  · exact List.mem_singleton.mp hmem

theorem Sound.undone_concat {buf : SaveStateBuf} {u : Task} (h : Sound core w)
    (hbuf : w.undoSaveBuf.data = none → buf.data = none)
    (hu : u.kind = .undoSave → u.data = none ∧ buf.data = none) :
    ∀ v ∈ w.finished ++ [u], v.kind = .undoSave → v.data = none ∧ buf.data = none := by
  intro v hv hkind
  rcases List.mem_append.mp hv with hmem | hmem
  · obtain ⟨hdata, hempty⟩ := h.undone v hmem hkind
    exact ⟨hdata, hbuf hempty⟩
  · rw [List.mem_singleton.mp hmem] at hkind ⊢
    exact hu hkind

theorem Sound.alloc (live : ℕ → Bool) (fresh : ℕ) (h : Sound core w)
    (hk : Kept (w.alloc live fresh) fun _ => 0) : Sound core (w.alloc live fresh) :=
  ⟨hk, h.undone, h.last, h.backup, fun t ht => (h.going t ht).congr rfl rfl rfl,
    h.loads, h.saves⟩

theorem Sound.push (live : ℕ → Bool) (fresh : ℕ) {t : Task} (h : Sound core w)
    (hrun : w.running = none) (hquiet : Quiet w)
    (hk : Kept ((w.alloc live fresh).runs t) fun _ => 0)
    (hgoing : Going ((w.alloc live fresh).runs t) t) (hawaits : ¬ t.Awaits) :
    Sound core ((w.alloc live fresh).runs t) := by
  refine ⟨hk, h.undone, h.last, ?_, ?_, h.loads, ?_⟩
  · intro u hu hkind
    exact absurd hkind (hquiet u hu)
  · intro u hu
    cases hu
    exact hgoing
  · intro b hb
    obtain ⟨hlength, hbackup⟩ := h.saves b hb
    refine ⟨hlength, .inr ⟨?_, ?_⟩⟩
    · intro u hu
      cases hu
      exact hawaits
    · rcases hbackup with ⟨u, hu, _⟩ | ⟨_, hlast⟩
      · rw [hrun] at hu
        cases hu
      · exact hlast

/-- What the call holds goes to a task, or is freed where one is running. -/
theorem sound_pushes {live : ℕ → Bool} {fresh : ℕ} {data : Option Block} (h : Sound core w)
    (hquiet : Quiet w) (hk : Kept (w.alloc live fresh) fun addr => 0 + cnt data addr) (t : Task)
    (ht : ∀ addr, t.owned addr = cnt data addr) (hgoing : Going ((w.alloc live fresh).runs t) t)
    (hawaits : ¬ t.Awaits) :
    (w.running = none → Sound core ((w.alloc live fresh).runs t)) ∧
      (w.running ≠ none → ∃ w', (w.alloc live fresh).freeData data = some w' ∧ Sound core w') := by
  constructor
  · intro hrun
    exact h.push live fresh hrun hquiet (push_kept data hk hrun ht) hgoing hawaits
  · intro _
    obtain ⟨live', hfree, hkept⟩ := freeData_spec hk ⟨h.shares.running, h.shares.finished⟩
    exact ⟨_, hfree, h.alloc live' fresh hkept⟩

theorem going_start (w : World σ) (kind : Kind) (path : String) (undoData : Option Block)
    (undoSize : ℕ) (hkind : kind ≠ .undoSave) (hsave : kind ≠ .save) :
    Going w ⟨kind, path, none, undoData, 0, undoSize, 0, false, false⟩ := by
  unfold Going
  cases kind with
  | save => exact absurd rfl hsave
  | undoSave => exact absurd rfl hkind
  | load | loadAndSave => exact ⟨fun _ => ⟨rfl, rfl⟩, fun hopened => nomatch hopened⟩

theorem sound_save (h : Sound core w) (hquiet : Quiet w) (path : String)
    (autosave background : Bool) :
    ∃ w', contentSaveState core path autosave background w = some w' ∧ Sound core w' := by
  by_cases hsize : core.size = 0
  · exact ⟨w, if_pos hsize, h⟩
  · -- the state is serialized now or by the task
    have hdata : ∃ live fresh data, (if background then (none, w)
          else
            (some (w.malloc (core.serialize w.core)).1, (w.malloc (core.serialize w.core)).2)) =
              (data, w.alloc live fresh) ∧
        Kept (w.alloc live fresh) fun addr => 0 + cnt data addr := by
      cases background with
      | true => exact ⟨w.live, w.fresh, none, rfl, h.kept⟩
      | false => exact ⟨_, _, some (w.malloc (core.serialize w.core)).1, rfl, h.kept.malloc _⟩
    obtain ⟨live, fresh, data, hpair, hk⟩ := hdata
    rw [contentSaveState, if_neg hsize]
    simp only [hpair]
    by_cases hfile : ((w.alloc live fresh).files path).isSome && !autosave
    · rw [if_pos hfile]
      obtain ⟨hpushed, hfreed⟩ := sound_pushes h hquiet hk
        ⟨.loadAndSave, path, none, data, 0, core.size, 0, false, false⟩
        (fun addr => by simp [Task.owned])
        (going_start _ _ _ _ _ (fun heq => by cases heq) (fun heq => by cases heq))
        (fun hawaits => by cases hawaits.1)
      cases hrun : w.running with
      | none =>
        refine ⟨_, ?_, hpushed hrun⟩
        rw [World.pushLoadAndSave, show (w.alloc live fresh).running = none from hrun]
        rfl
      | some t =>
        obtain ⟨w', hfree, hsound⟩ := hfreed (by rw [hrun]; exact fun heq => by cases heq)
        refine ⟨w', ?_, hsound⟩
        rw [World.pushLoadAndSave, show (w.alloc live fresh).running = some t from hrun]
        exact hfree
    · rw [if_neg hfile]
      obtain ⟨hpushed, hfreed⟩ := sound_pushes h hquiet hk
        ⟨.save, path, data, none, core.size, 0, 0, false, false⟩
        (fun addr => by simp [Task.owned]) trivial (fun hawaits => by cases hawaits.2.1)
      cases hrun : w.running with
      | none =>
        refine ⟨_, ?_, hpushed hrun⟩
        rw [World.pushSave, show (w.alloc live fresh).running = none from hrun]
        rfl
      | some t =>
        obtain ⟨w', hfree, hsound⟩ := hfreed (by rw [hrun]; exact fun heq => by cases heq)
        refine ⟨w', ?_, hsound⟩
        rw [World.pushSave, show (w.alloc live fresh).running = some t from hrun]
        exact hfree

theorem sound_load (h : Sound core w) (hquiet : Quiet w) (path : String) :
    Sound core (contentLoadState path w) := by
  unfold contentLoadState
  cases hrun : w.running with
  | some t => exact h
  | none =>
    refine h.push w.live w.fresh hrun hquiet (push_kept none h.kept hrun fun _ => rfl)
      (going_start _ _ _ _ _ (fun heq => nomatch heq) (fun heq => nomatch heq))
      (fun hawaits => nomatch hawaits.1)

theorem sound_undoSave (h : Sound core w) (hquiet : Quiet w)
    (hlast : ∀ o, w.overwritten = some o → o.backed = true) :
    Sound core (contentUndoSaveState w) := by
  unfold contentUndoSaveState
  cases hb : w.undoSaveBuf.data with
  | none => exact h
  | some b =>
    cases hrun : w.running with
    | some t => exact h
    | none =>
      dsimp only
      split_ifs with hsize
      · exact h
      obtain ⟨hlength, hbackup⟩ := h.saves b hb
      have hover : ∃ o, w.overwritten = some o ∧ o.path = w.undoSaveBuf.path ∧
          o.bytes = b.bytes := by
        rcases hbackup with ⟨u, hu, _⟩ | ⟨_, o, ho, hbacked⟩
        · rw [hrun] at hu
          cases hu
        · exact ⟨o, ho, hbacked (hlast o ho)⟩
      refine h.push w.live w.fresh hrun hquiet ?_ ?_ (fun hawaits => nomatch hawaits.1)
      · exact push_kept none h.kept hrun fun _ => rfl
      · exact ⟨b, rfl, hb, hlength.symm, hover, fun _ => rfl,
          (fun hopened => nomatch hopened), Nat.zero_le _⟩

theorem sound_reset (h : Sound core w) (hno : NoUndo w) :
    ∃ w', contentResetSavestateBackups w = some w' ∧ Sound core w' := by
  obtain ⟨live, hreset, hk⟩ := reset_spec h.kept h.shares hno
  refine ⟨_, hreset, hk, ?_, h.last, h.backup, ?_, ?_, ?_⟩
  · intro t ht hkind
    exact ⟨(h.undone t ht hkind).1, rfl⟩
  · intro t hrun
    have hgoing := h.going t hrun
    have hne := hno t hrun
    unfold Going at hgoing ⊢
    cases hkind : t.kind with
    | save => trivial
    | undoSave => exact absurd hkind hne
    | load | loadAndSave =>
      rw [hkind] at hgoing
      refine ⟨hgoing.1, fun hopened => ?_⟩
      obtain ⟨b, content, hr⟩ := hgoing.2 hopened
      exact ⟨b, content, hr.data, hr.file, hr.size, hr.room, hr.within, hr.read⟩
  · intro b hb
    cases hb
  · intro b hb
    cases hb

theorem Sound.loaded {live : ℕ → Bool} {fresh : ℕ} {buf : SaveStateBuf} (h : Sound core w)
    (hk : Kept (w.savedToRam live fresh buf) fun _ => 0) (hback : Backs core w.core buf)
    (bytes : List UInt8) :
    Sound core ((w.savedToRam live fresh buf).unserialize core settings bytes) := by
  refine ⟨hk.mono (fun _ => le_rfl) rfl rfl, h.undone, h.last, h.backup,
    fun t ht => (h.going t ht).congr rfl rfl rfl, ?_, h.saves⟩
  intro b _
  exact ⟨w.core, rfl, hback⟩

theorem core_unserialize (core : Core σ) (settings : Settings) (w : World σ) (s : σ) :
    (w.unserialize core settings (core.serialize s)).core = restored core settings w.core s := by
  simp only [World.unserialize, restored, core.unserialize_serialize]

theorem sound_undoLoad (h : Sound core w) :
    ∃ w', contentUndoLoadState core settings w = some w' ∧ Sound core w' ∧
      UndoesLoad core settings w w' := by
  cases hb : w.undoLoadBuf.data with
  | none =>
    refine ⟨w, ?_, h, ?_⟩
    · rw [contentUndoLoadState, hb]
    · intro hsome
      rw [hb] at hsome
      cases hsome
  | some b =>
    obtain ⟨s, hs, hback⟩ := h.loads b hb
    obtain ⟨live, fresh, buf, hundo, hbacks, hbuf, hk⟩ :=
      contentUndoLoadState_spec core settings h.kept h.shares hb hback
    have hsound : Sound core
        ((w.savedToRam live fresh buf).unserialize core settings (core.serialize s)) :=
      h.loaded hk hbacks _
    refine ⟨_, hundo, hsound, ?_⟩
    intro _
    obtain ⟨b', hb'⟩ := Option.isSome_iff_exists.mp hbuf
    -- the next undo finds the state of this one
    obtain ⟨live', fresh', buf', hundo', _⟩ :=
      contentUndoLoadState_spec core settings hsound.kept hsound.shares (s := w.core) hb' hbacks
    refine ⟨s, _, hs, core_unserialize core settings _ s, hundo', ?_⟩
    rw [core_unserialize]
    change restored core settings ((w.savedToRam live fresh buf).unserialize core settings
      (core.serialize s)).core w.core = w.core
    rw [core_unserialize]
    unfold restored
    split_ifs
    · exact core.keepSram_back _ _
    · rfl

theorem Reading.chunk {t : Task} {b : Block} {content : List UInt8} (h : Reading w t b content)
    (settings : Settings) : ∃ b', Reading w (loadChunk settings content b t) b' content := by
  let n := min (t.size - t.progress) settings.chunk
  let chunk := (content.drop t.progress).take n
  have hn : n ≤ content.length - t.progress := by
    have hsize := h.size
    omega
  have hchunk : chunk.length = n := by
    rw [List.length_take, List.length_drop]
    omega
  have hwithin := h.within
  have hroom := h.room
  have hfirst : (b.bytes.take t.progress ++ chunk).length = t.progress + chunk.length := by
    rw [List.length_append, List.length_take]
    omega
  refine ⟨b.store t.progress chunk, rfl, h.file, h.size, ?_, ?_, ?_⟩
  · change (b.bytes.take t.progress ++ chunk ++ b.bytes.drop (t.progress + chunk.length)).length = _
    rw [List.length_append, hfirst, List.length_drop]
    omega
  · change t.progress + chunk.length ≤ content.length
    omega
  · change (b.bytes.take t.progress ++ chunk ++ b.bytes.drop (t.progress + chunk.length)).take
      (t.progress + chunk.length) = content.take (t.progress + chunk.length)
    rw [List.take_left' hfirst, h.read, hchunk, List.take_add]

theorem reading_open {t : Task} {content : List UInt8} (hfile : w.files t.path = some content)
    (hclosed : t.opened = false → t.data = none ∧ t.progress = 0)
    (hopened : t.opened = true → ∃ b content, Reading w t b content) :
    ∃ b, Reading w (loadOpen content w t).2 b content := by
  unfold loadOpen
  cases hopen : t.opened with
  | true =>
    obtain ⟨b, content', hr⟩ := hopened hopen
    have hsame : content' = content := by
      have hthis := hr.file
      rw [hfile] at hthis
      exact (Option.some.inj hthis).symm
    subst hsame
    exact ⟨b, hr⟩
  | false =>
    have hzero := (hclosed hopen).2
    refine ⟨(w.malloc (List.replicate (content.length + 1) 0)).1, rfl, hfile, rfl, ?_, ?_, ?_⟩
    · exact List.length_replicate
    · change t.progress ≤ content.length
      omega
    · change List.take t.progress _ = List.take t.progress _
      rw [hzero, List.take_zero, List.take_zero]

theorem not_awaits {t : Task} (hkind : t.kind ≠ .save) : ¬ t.Awaits := fun h => hkind h.1

theorem Backup.keep {w' : World σ} {t : Task} {b : Block} (h : Backup w b)
    (hrun : w.running = some t) (hkind : t.kind ≠ .save)
    (hrun' : ∀ u, w'.running = some u → u.kind ≠ .save)
    (hbuf : w'.undoSaveBuf = w.undoSaveBuf) (hover : w'.overwritten = w.overwritten) :
    Backup w' b := by
  right
  rcases h with ⟨u, hu, hawaits, _⟩ | ⟨_, hlast⟩
  · rw [hrun] at hu
    cases hu
    exact absurd hawaits (not_awaits hkind)
  · refine ⟨fun u hu => not_awaits (hrun' u hu), ?_⟩
    rw [hbuf, hover]
    exact hlast

/-- A load that ends, without data or with the file. -/
theorem Sound.ended_load {live live' : ℕ → Bool} {fresh : ℕ} {t u : Task} (h : Sound core w)
    (hrun : w.running = some t) (hsave : t.kind ≠ .save) (hundo : t.kind ≠ .undoSave)
    (hkind : u.kind = t.kind)
    (hk : Kept ((w.alloc live fresh).ended live' w.undoSaveBuf u) fun _ => 0)
    (hdata : ∀ b, u.data = some b → (b.bytes.take u.size).length = u.size ∧
      w.files u.path = some (b.bytes.take u.size)) :
    Sound core ((w.alloc live fresh).ended live' w.undoSaveBuf u) := by
  have hquiet := h.quiet hrun
  refine ⟨hk, ?_, hquiet.last_concat u, ?_, ?_, h.loads, ?_⟩
  · apply h.undone_concat id
    intro hv
    rw [hkind] at hv
    exact absurd hv hundo
  · intro v hv hv'
    rw [hquiet.eq_ended hv hv']
    exact ⟨rfl, hdata⟩
  · intro v hv
    cases hv
  · intro b hb
    obtain ⟨hlength, hbackup⟩ := h.saves b hb
    exact ⟨hlength, hbackup.keep hrun hsave (fun v hv => nomatch hv) rfl rfl⟩

theorem going_reading {v : World σ} {u : Task} {b : Block} {content : List UInt8}
    (h : Reading v u b content) (hsave : u.kind ≠ .save) (hundo : u.kind ≠ .undoSave)
    (hopened : u.opened = true) : Going v u := by
  unfold Going
  cases hkind : u.kind with
  | save => exact absurd hkind hsave
  | undoSave => exact absurd hkind hundo
  | load | loadAndSave =>
    refine ⟨fun hclosed => ?_, fun _ => ⟨b, content, h⟩⟩
    rw [hopened] at hclosed
    cases hclosed

theorem sound_loadHandler (settings : Settings) {t : Task} (h : Sound core w)
    (hrun : w.running = some t) (hsave : t.kind ≠ .save) (hundo : t.kind ≠ .undoSave)
    (short : Bool) :
    ∃ w', loadHandler settings short w t = some w' ∧ Sound core w' := by
  have hgoing : (t.opened = false → t.data = none ∧ t.progress = 0) ∧
      (t.opened = true → ∃ b content, Reading w t b content) := by
    have hthis := h.going t hrun
    unfold Going at hthis
    cases hkind : t.kind with
    | save => exact absurd hkind hsave
    | undoSave => exact absurd hkind hundo
    | load | loadAndSave =>
      rw [hkind] at hthis
      exact hthis
  obtain ⟨live, fresh, hspec⟩ := loadHandler_spec settings h.kept h.shares hrun hundo
    (fun hopened => (hgoing.1 hopened).1) short
  rcases hspec with ⟨u, live', hkind, hnone, hstep, hk⟩ | ⟨content, b, hfile, hb, hspec⟩
  · refine ⟨_, hstep, h.ended_load hrun hsave hundo hkind hk ?_⟩
    intro b hb
    rw [hnone] at hb
    cases hb
  · obtain ⟨hkind, hopen⟩ := loadOpen_same content w t
    obtain ⟨b₀, hr₀⟩ := reading_open hfile hgoing.1 hgoing.2
    have hb₀ : b₀ = b := by
      have hthis := hr₀.data
      rw [hb] at hthis
      exact (Option.some.inj hthis).symm
    subst hb₀
    obtain ⟨b', hr⟩ := hr₀.chunk settings
    generalize hu : loadChunk settings content b₀ (loadOpen content w t).2 = u at *
    have hkindu : u.kind = t.kind := by
      rw [← hu]
      exact hkind
    have hopened : u.opened = true := by
      rw [← hu]
      exact hopen
    rcases hspec with ⟨_, hstep, hk⟩ | ⟨hends, hstep, hk⟩
    · refine ⟨_, hstep, hk, h.undone, h.last, ?_, ?_, h.loads, ?_⟩
      · intro v hv hv'
        exact absurd hv' (h.quiet hrun v hv)
      · intro v hv
        cases hv
        exact going_reading ⟨hr.data, hr.file, hr.size, hr.room, hr.within, hr.read⟩
          (hkindu ▸ hsave) (hkindu ▸ hundo) hopened
      · intro c hc
        obtain ⟨hlength, hbackup⟩ := h.saves c hc
        refine ⟨hlength, hbackup.keep hrun hsave ?_ rfl rfl⟩
        intro v hv
        cases hv
        exact hkindu ▸ hsave
    · refine ⟨_, hstep, h.ended_load hrun hsave hundo hkindu hk ?_⟩
      intro c hc
      have hcb : c = b' := by
        have hthis := hr.data
        rw [hc] at hthis
        exact Option.some.inj hthis
      subst hcb
      have htake : c.bytes.take u.size = content := by
        have hread := hr.read
        rw [hends, hr.size, List.take_length] at hread
        rw [hr.size]
        exact hread
      rw [htake]
      exact ⟨hr.size.symm, hr.file⟩

theorem Backup.opened {t : Task} {b : Block} (h : Backup w b) (hrun : w.running = some t)
    (hkind : t.kind = .save) :
    ∃ o, (saveOpen w t).1.overwritten = some o ∧
      (o.backed = true → o.path = w.undoSaveBuf.path ∧ o.bytes = b.bytes) := by
  unfold saveOpen
  cases hopened : t.opened with
  | true =>
    rcases h with ⟨u, hu, hawaits, _⟩ | ⟨_, hlast⟩
    · rw [hrun] at hu
      cases hu
      exact absurd hawaits.2.2 (by rw [hopened]; exact Bool.noConfusion)
    · exact hlast
  | false =>
    cases hfile : w.files t.path with
    | none =>
      rcases h with ⟨u, hu, _, _, hbytes⟩ | ⟨_, hlast⟩
      · rw [hrun] at hu
        cases hu
        rw [hfile] at hbytes
        cases hbytes
      · simp only [hkind, Bool.false_eq_true, if_false]
        exact hlast
    | some bytes =>
      simp only [hkind, Bool.false_eq_true, if_false]
      refine ⟨_, rfl, fun hbacked => ?_⟩
      rcases h with ⟨u, hu, _, hpath, hbytes⟩ | ⟨hnot, _⟩
      · rw [hrun] at hu
        cases hu
        rw [hfile] at hbytes
        exact ⟨hpath.symm, Option.some.inj hbytes⟩
      · exact absurd ⟨hkind, hbacked, hopened⟩ (hnot t hrun)

theorem overwritten_undo {t : Task} (hkind : t.kind = .undoSave) :
    (saveOpen w t).1.overwritten = w.overwritten := by
  unfold saveOpen
  split_ifs
  · rfl
  · simp only [hkind]

theorem going_save {v : World σ} {u : Task} (hkind : u.kind = .save) : Going v u := by
  rw [Going, hkind]
  trivial

theorem sound_saveHandler (settings : Settings) {t : Task} (h : Sound core w)
    (hrun : w.running = some t) (hkind : t.kind = .save) (short : Option ℕ) :
    ∃ w', saveHandler core settings short w t = some w' ∧ Sound core w' := by
  have hquiet := h.quiet hrun
  obtain ⟨live, fresh, data, bytes, _, hspec⟩ := saveHandler_spec core settings h.kept h.shares hrun
    (.inl hkind) (fun hundo => nomatch hkind.symm.trans hundo) short
  rcases hspec with ⟨_, _, hstep, hk⟩ | ⟨live', buf, _, hstep, hk, hbuf, _⟩
  · refine ⟨_, hstep, hk, h.undone, h.last, ?_, ?_, h.loads, ?_⟩
    · intro v hv hv'
      exact absurd hv' (hquiet v hv)
    · intro v hv
      cases hv
      exact going_save hkind
    · intro b hb
      obtain ⟨hlength, hbackup⟩ := h.saves b hb
      refine ⟨hlength, .inr ⟨?_, hbackup.opened hrun hkind⟩⟩
      intro v hv
      cases hv
      exact fun hawaits => nomatch hawaits.2.2
  · have hsame := hbuf hkind
    subst hsame
    refine ⟨_, hstep, hk, ?_, hquiet.last_concat _, ?_, ?_, h.loads, ?_⟩
    · apply h.undone_concat id
      intro hundo
      exact nomatch hkind.symm.trans hundo
    · intro v hv hv'
      rw [hquiet.eq_ended hv hv'] at hv'
      exact nomatch hkind.symm.trans hv'
    · intro v hv
      cases hv
    · intro b hb
      obtain ⟨hlength, hbackup⟩ := h.saves b hb
      exact ⟨hlength, .inr ⟨(fun v hv => nomatch hv), hbackup.opened hrun hkind⟩⟩

theorem Undoing.written {t : Task} {b : Block} (h : Undoing w t b) (settings : Settings) :
    let bytes := (b.bytes.drop t.progress).take (min (t.size - t.progress) settings.chunk)
    (((saveOpen w t).1.files t.path).getD []).take t.progress ++ bytes =
        b.bytes.take (t.progress + bytes.length) ∧
      t.progress + bytes.length ≤ t.size := by
  have hwithin := h.within
  have hsize := h.size
  have hlength : ((b.bytes.drop t.progress).take
      (min (t.size - t.progress) settings.chunk)).length =
      min (t.size - t.progress) settings.chunk := by
    rw [List.length_take, List.length_drop]
    omega
  have hold : (((saveOpen w t).1.files t.path).getD []).take t.progress =
      b.bytes.take t.progress := by
    unfold saveOpen
    cases hopened : t.opened with
    | true =>
      simp only [if_true, h.opened hopened, Option.getD_some]
      rw [List.take_take, Nat.min_self]
    | false =>
      rw [h.closed hopened, List.take_zero, List.take_zero]
  refine ⟨?_, by omega⟩
  rw [hold, hlength, List.take_add]

theorem sound_undoHandler (settings : Settings) {t : Task} (h : Sound core w)
    (hrun : w.running = some t) (hkind : t.kind = .undoSave) (short : Option ℕ) :
    ∃ w', saveHandler core settings short w t = some w' ∧ Sound core w' ∧
      (short = none → UndoesSave core settings w w') := by
  have hquiet := h.quiet hrun
  have hgoing := h.going t hrun
  rw [Going, hkind] at hgoing
  obtain ⟨b, hundo⟩ := hgoing
  obtain ⟨live, fresh, data, bytes, hbytes, hspec⟩ := saveHandler_spec core settings h.kept h.shares
    hrun (.inr hkind) (fun _ => by rw [hundo.data]; rfl) short
  obtain ⟨hdata, hmoved⟩ := hbytes b hundo.data
  obtain ⟨hwritten, hle⟩ := hundo.written settings
  have hover := overwritten_undo (w := w) hkind
  have hfile : short = none → (w.savedTo t live fresh bytes).files t.path =
      some (b.bytes.take (t.progress + bytes.length)) := by
    intro hnone
    rw [hnone] at hmoved
    subst hmoved
    exact (Function.update_self _ _ _).trans (congrArg some hwritten)
  rcases hspec with ⟨hnone, _, hstep, hk⟩ | ⟨live', buf, hends, hstep, hk, _, hbuf⟩
  · refine ⟨_, hstep, ⟨hk, h.undone, h.last, ?_, ?_, h.loads, ?_⟩, fun _ => ?_⟩
    · intro v hv hv'
      exact absurd hv' (hquiet v hv)
    · intro v hv
      cases hv
      rw [Going, show (t.wrote data bytes).kind = .undoSave from hkind]
      refine ⟨b, hdata, hundo.buffer, hundo.size, ?_, (fun hclosed => nomatch hclosed),
        fun _ => hfile hnone, ?_⟩
      · rw [show ((w.savedTo t live fresh bytes).runs (t.wrote data bytes)).overwritten =
          w.overwritten from hover]
        exact hundo.last
      · rw [hnone] at hmoved
        subst hmoved
        exact hle
    · intro c hc
      obtain ⟨hlength, hbackup⟩ := h.saves c hc
      have hne : t.kind ≠ .save := fun hsave => nomatch hkind.symm.trans hsave
      refine ⟨hlength, hbackup.keep hrun hne ?_ rfl hover⟩
      intro v hv
      cases hv
      exact hne
    · intro v _ _ hend
      cases hend
  · have hempty := hbuf hkind
    refine ⟨_, hstep, ⟨hk, ?_, hquiet.last_concat _, ?_, ?_, h.loads, ?_⟩, fun hnone => ?_⟩
    · apply h.undone_concat fun _ => hempty
      intro _
      exact ⟨rfl, hempty⟩
    · intro v hv hv'
      rw [hquiet.eq_ended hv hv'] at hv'
      exact nomatch hkind.symm.trans hv'
    · intro v hv
      cases hv
    · intro c hc
      exact nomatch hc.symm.trans hempty
    · intro v hv _ _
      rw [hrun] at hv
      cases hv
      refine ⟨?_, ?_⟩
      · obtain ⟨o, ho, hpath, hbytes'⟩ := hundo.last
        refine ⟨o, ho, hpath, ?_⟩
        have hall : t.progress + bytes.length = b.bytes.length := (hends hnone).trans hundo.size
        rw [show ((w.savedTo t live fresh bytes).ended live' buf
          (t.wrote none bytes)).files t.path = _ from hfile hnone, hall, List.take_length, hbytes']
      · change some (contentUndoSaveState _) = _
        unfold contentUndoSaveState
        rw [show ((w.savedTo t live fresh bytes).ended live' buf
          (t.wrote none bytes)).undoSaveBuf.data = none from hempty]

theorem last_popped {t : Task} {rest : List Task} (hfin : w.finished = t :: rest)
    (h : ∀ t ∈ w.finished.dropLast, t.kind ≠ .loadAndSave) :
    (∀ t ∈ rest.dropLast, t.kind ≠ .loadAndSave) ∧ (t.kind = .loadAndSave → rest = []) := by
  rw [hfin] at h
  cases rest with
  | nil => exact ⟨(fun u hu => nomatch hu), fun _ => rfl⟩
  | cons u rest =>
    rw [List.dropLast_cons_of_ne_nil (List.cons_ne_nil _ _)] at h
    refine ⟨fun v hv => h v (List.mem_cons_of_mem _ hv), fun hkind => ?_⟩
    exact absurd hkind (h t List.mem_cons_self)

theorem Sound.popped {t : Task} {rest : List Task} (h : Sound core w)
    (hfin : w.finished = t :: rest) (hk : Kept (w.popped rest) fun _ => 0) :
    Sound core (w.popped rest) := by
  have hmem : ∀ u ∈ rest, u ∈ w.finished := by
    intro u hu
    rw [hfin]
    exact List.mem_cons_of_mem _ hu
  exact ⟨hk, fun u hu => h.undone u (hmem u hu), (last_popped hfin h.last).1,
    fun u hu => h.backup u (hmem u hu), fun u hu => (h.going u hu).congr rfl rfl rfl, h.loads,
    h.saves⟩

theorem Sound.popped_owned {t : Task} {rest : List Task} (h : Sound core w)
    (hfin : w.finished = t :: rest) : Sound core (w.popped rest) := by
  refine h.popped hfin (h.kept.mono ?_ rfl rfl)
  intro addr
  have hthis := owned_popped hfin addr
  omega

theorem sound_undoCallback {t : Task} {rest : List Task} (h : Sound core w)
    (hfin : w.finished = t :: rest) (hkind : t.kind = .undoSave) :
    ∃ w', undoSaveStateCb w = some w' ∧ Sound core (w'.popped rest) := by
  have hin : t ∈ w.finished := by
    rw [hfin]
    exact List.mem_cons_self
  have hnone := (h.undone t hin hkind).2
  have hpopped := h.popped_owned hfin
  refine ⟨{ w with undoSaveBuf := emptyBuf }, ?_, hpopped.kept.mono ?_ rfl rfl, ?_, hpopped.last,
    hpopped.backup, ?_, hpopped.loads, ?_⟩
  · rw [undoSaveStateCb, World.dropUndoSave]
    simp only [hnone]
    rfl
  · intro addr
    have hsame : cnt w.undoSaveBuf.data addr = 0 := by rw [hnone, cnt_none]
    simp only [World.owned, World.popped, emptyBuf, cnt_none]
    omega
  · intro u hu hkind'
    exact ⟨(hpopped.undone u hu hkind').1, rfl⟩
  · intro u hu
    exact (hpopped.going u hu).congr rfl hnone.symm rfl
  · intro b hb
    cases hb

theorem sound_loadCallback {t : Task} {rest : List Task} (h : Sound core w)
    (hfin : w.finished = t :: rest) (hkind : t.kind = .load) :
    ∃ w', contentLoadStateCb core settings w t = some w' ∧ Sound core (w'.popped rest) := by
  cases hdata : t.data with
  | none =>
    refine ⟨w, ?_, h.popped_owned hfin⟩
    rw [contentLoadStateCb, hdata]
  | some b =>
    obtain ⟨live, fresh, buf, hcb, hbacks, hk⟩ :=
      loadCallback_spec core settings h.kept h.shares h.empty hfin hkind hdata
    have hpopped := h.popped_owned hfin
    exact ⟨_, hcb, hpopped.loaded hk hbacks _⟩

theorem sound_backupCallback {t : Task} {rest : List Task} (h : Sound core w)
    (hfin : w.finished = t :: rest) (hkind : t.kind = .loadAndSave) :
    ∃ w', (contentLoadStateCb core settings w t).bind (fun w =>
        w.pushSave t.path t.undoData t.undoSize t.data.isSome) = some w' ∧
      Sound core (w'.popped rest) := by
  have hin : t ∈ w.finished := by
    rw [hfin]
    exact List.mem_cons_self
  obtain ⟨hrun, hbackup⟩ := h.backup t hin hkind
  have hrest := (last_popped hfin h.last).2 hkind
  subst hrest
  cases hdata : t.data with
  | none =>
    let u : Task := ⟨.save, t.path, t.undoData, none, t.undoSize, 0, 0, false, false⟩
    have hk : Kept (w.popped []) fun addr => 0 + cnt t.undoData addr := by
      refine h.kept.mono ?_ rfl rfl
      intro addr
      have hthis := owned_popped hfin addr
      have ht : t.owned addr = cnt t.undoData addr := by
        simp [Task.owned, hdata]
      omega
    have hu : ∀ addr, u.owned addr = cnt t.undoData addr := fun addr => by simp [Task.owned, u]
    have hpopped := h.popped_owned hfin
    refine ⟨w.runs u, ?_, ?_⟩
    · rw [contentLoadStateCb, hdata]
      simp only [Option.bind_some, World.pushSave, hrun]
      rfl
    · exact hpopped.push w.live w.fresh hrun (fun v hv => by cases hv)
        (push_kept t.undoData hk hrun hu) trivial (fun hawaits => by cases hawaits.2.1)
  | some b =>
    let u : Task := ⟨.save, t.path, t.undoData, none, t.undoSize, 0, 0, false, true⟩
    have hno : NoUndo w := by
      intro v hv
      rw [hrun] at hv
      cases hv
    obtain ⟨live, fresh, copy, hcb, hcopy, hk⟩ :=
      backupCallback_spec core settings h.kept h.shares hno hfin hkind hdata
    have hu : ∀ addr, u.owned addr = cnt t.undoData addr := fun addr => by simp [Task.owned, u]
    obtain ⟨hlength, hfile⟩ := hbackup b hdata
    refine ⟨(w.backedUp live fresh ⟨some copy, t.path, t.size⟩).runs u, ?_,
      push_kept t.undoData hk hrun hu, ?_, ?_, ?_, ?_, h.loads, ?_⟩
    · rw [hcb]
      simp only [Option.bind_some, World.pushSave, World.backedUp, hrun]
      rfl
    · intro v hv
      cases hv
    · intro v hv
      cases hv
    · intro v hv
      cases hv
    · intro v hv
      cases hv
      exact going_save rfl
    · intro c hc
      cases hc
      rw [← hcopy] at hlength hfile
      exact ⟨hlength, .inl ⟨u, rfl, ⟨rfl, rfl, rfl⟩, rfl, hfile⟩⟩

theorem sound_gather (settings : Settings) (h : Sound core w) :
    ∃ w', gather core settings w = some w' ∧ Sound core w' := by
  cases hfin : w.finished with
  | nil =>
    refine ⟨w, ?_, h⟩
    rw [gather, hfin]
  | cons t rest =>
    have hcb : ∃ w', callback core settings w t = some w' ∧ Sound core (w'.popped rest) := by
      unfold callback
      cases hkind : t.kind with
      | save => exact ⟨w, rfl, h.popped_owned hfin⟩
      | undoSave => exact sound_undoCallback h hfin hkind
      | load => exact sound_loadCallback h hfin hkind
      | loadAndSave => exact sound_backupCallback h hfin hkind
    obtain ⟨w', hcb, hsound⟩ := hcb
    refine ⟨_, ?_, hsound⟩
    rw [gather, hfin]
    simp only [hcb]
    rfl

/-- Every step in order goes through, restores what it should, and keeps the memory and the
backups in order. -/
theorem sound_step (settings : Settings) (h : Sound core w) (i : Input σ) (hok : InOrder w i) :
    ∃ w', w.step core settings i = some w' ∧ Sound core w' ∧ Restores core settings w i w' := by
  cases i with
  | play next =>
    refine ⟨_, rfl, ⟨h.kept.mono (fun _ => le_rfl) rfl rfl, h.undone, h.last, h.backup,
      fun t ht => (h.going t ht).congr rfl rfl rfl, h.loads, h.saves⟩, trivial⟩
  | save path autosave background =>
    obtain ⟨w', hstep, hsound⟩ := sound_save h hok path autosave background
    exact ⟨w', hstep, hsound, trivial⟩
  | load path => exact ⟨_, rfl, sound_load h hok path, trivial⟩
  | undoLoad => exact sound_undoLoad h
  | undoSave => exact ⟨_, rfl, sound_undoSave h hok.1 hok.2, trivial⟩
  | reset =>
    obtain ⟨w', hstep, hsound⟩ := sound_reset h hok
    exact ⟨w', hstep, hsound, trivial⟩
  | gather =>
    obtain ⟨w', hstep, hsound⟩ := sound_gather settings h
    exact ⟨w', hstep, hsound, trivial⟩
  | handle short =>
    change ∃ w', UndoState.handle core settings short w = some w' ∧ _
    unfold UndoState.handle
    cases hrun : w.running with
    | none =>
      refine ⟨w, rfl, h, ?_⟩
      cases short with
      | none =>
        intro t ht
        rw [hrun] at ht
        cases ht
      | some n => trivial
    | some t =>
      have hload : t.kind ≠ .save → t.kind ≠ .undoSave →
          ∃ w', loadHandler settings short.isSome w t = some w' ∧ Sound core w' ∧
            Restores core settings w (.handle short) w' := by
        intro hsave hundo
        obtain ⟨w', hstep, hsound⟩ :=
          sound_loadHandler settings h hrun hsave hundo short.isSome
        refine ⟨w', hstep, hsound, ?_⟩
        cases short with
        | none =>
          intro u hu hkind
          rw [hrun] at hu
          cases hu
          exact absurd hkind hundo
        | some n => trivial
      cases hkind : t.kind with
      | save =>
        obtain ⟨w', hstep, hsound⟩ :=
          sound_saveHandler settings h hrun hkind short
        refine ⟨w', ?_, hsound, ?_⟩
        · simp only [hkind]
          exact hstep
        cases short with
        | none =>
          intro u hu hkind'
          rw [hrun] at hu
          cases hu
          exact nomatch hkind.symm.trans hkind'
        | some n => trivial
      | undoSave =>
        obtain ⟨w', hstep, hsound, hundoes⟩ :=
          sound_undoHandler settings h hrun hkind short
        refine ⟨w', ?_, hsound, ?_⟩
        · simp only [hkind]
          exact hstep
        cases short with
        | none => exact hundoes rfl
        | some n => trivial
      | load | loadAndSave =>
        simp only [hkind]
        exact hload (by rw [hkind]; exact Kind.noConfusion)
          (by rw [hkind]; exact Kind.noConfusion)

/-- A core with a byte and a byte of SRAM. -/
def bytesCore : Core (UInt8 × UInt8) where
  size := 2
  serialize s := [s.1, s.2]
  unserialize bytes := (bytes.getD 0 0, bytes.getD 1 0)
  keepSram s t := (t.1, s.2)
  length_serialize _ := rfl
  unserialize_serialize _ := rfl
  keepSram_back _ _ := rfl

/-- A file is saved, saved again, and the second save undone. -/
def savedTwice : List (Input (UInt8 × UInt8)) :=
  [.save "s" false false, .handle none, .gather, .play (1, 1), .save "s" false false, .handle none,
    .gather, .handle none, .gather, .undoSave]

end RetroArch.Tasks.UndoState
