/- What holds over runs of the queue of tasks: the lists share no task, and each task is handled and
   called back once. -/

import Mathlib.Data.List.Perm.Basic
import RetroArch.Queues.Gather

namespace RetroArch.Queues.Gather

open Library.Linked Library.Run

section Relinking

variable {heap heap' heap'' : Tasks} {task r : ℕ} {next : Option ℕ}

/-- The tasks are the same but for their links. -/
def Relinked (heap heap' : Tasks) : Prop :=
  ∀ r, (heap' r).type = (heap r).type ∧ (heap' r).callback = (heap r).callback ∧
    (heap' r).finished = (heap r).finished

theorem Relinked.refl (heap : Tasks) : Relinked heap heap := fun _ => ⟨rfl, rfl, rfl⟩

theorem Relinked.trans (h : Relinked heap heap') (h' : Relinked heap' heap'') :
    Relinked heap heap'' := by
  intro r
  obtain ⟨htype, hcallback, hfinished⟩ := h r
  obtain ⟨htype', hcallback', hfinished'⟩ := h' r
  exact ⟨htype'.trans htype, hcallback'.trans hcallback, hfinished'.trans hfinished⟩

theorem relinked_setNext (heap : Tasks) (task : ℕ) (next : Option ℕ) :
    Relinked heap (setNext heap task next) := by
  intro r
  rw [setNext]
  by_cases h : r = task
  · rw [h, Function.update_self]
    exact ⟨rfl, rfl, rfl⟩
  · rw [Function.update_of_ne h]
    exact ⟨rfl, rfl, rfl⟩

theorem links_setNext (heap : Tasks) (task : ℕ) (next : Option ℕ) :
    links (setNext heap task next) = Function.update (links heap) task next := by
  ext r : 1
  rw [links, setNext]
  by_cases h : r = task
  · rw [h, Function.update_self, Function.update_self]
  · rw [Function.update_of_ne h, Function.update_of_ne h, links]

theorem links_setFinished (heap : Tasks) (task : ℕ) :
    links (setFinished heap task) = links heap := by
  ext r : 1
  rw [links, setFinished]
  by_cases h : r = task
  · rw [h, Function.update_self, links]
  · rw [Function.update_of_ne h, links]

theorem setFinished_finished (heap : Tasks) (task r : ℕ) :
    ((setFinished heap task) r).finished = (decide (r = task) || (heap r).finished) := by
  rw [setFinished]
  by_cases h : r = task
  · rw [h, Function.update_self]
    simp
  · rw [Function.update_of_ne h]
    simp [h]

theorem setFinished_rest (heap : Tasks) (task r : ℕ) :
    ((setFinished heap task) r).type = (heap r).type ∧
      ((setFinished heap task) r).callback = (heap r).callback := by
  rw [setFinished]
  by_cases h : r = task
  · rw [h, Function.update_self]
    exact ⟨rfl, rfl⟩
  · rw [Function.update_of_ne h]
    exact ⟨rfl, rfl⟩

variable {queue : TaskQueue} {rs : List ℕ}

theorem put_spec (h : Queued (links heap) queue.front queue.back rs) (hnodup : rs.Nodup)
    (hr : task ∉ rs) :
    ∃ heap' queue', taskQueuePut heap queue task = some (heap', queue') ∧
      Queued (links heap') queue'.front queue'.back (rs ++ [task]) ∧ Relinked heap heap' ∧
      ∀ x, x ∉ rs → x ≠ task → links heap' x = links heap x := by
  have hself : Queued (links (setNext heap task none)) queue.front queue.back rs := by
    rw [links_setNext]
    exact h.update hr none
  have hend : links (setNext heap task none) task = none := by
    rw [links_setNext, Function.update_self]
  obtain ⟨front, back⟩ := queue
  cases front with
  | none =>
    obtain rfl := h.front_eq_none
    refine ⟨_, _, rfl, queued_singleton hend, relinked_setNext _ _ _, ?_⟩
    intro x _ hx
    rw [links_setNext, Function.update_of_ne hx]
  | some front =>
    obtain ⟨b, hback, hqueued, hb⟩ := hself.put hnodup hr hend
    dsimp only at hback
    subst hback
    refine ⟨_, _, rfl, ?_, (relinked_setNext _ _ _).trans (relinked_setNext _ _ _), ?_⟩
    · rw [links_setNext]
      exact hqueued
    · intro x hx hne
      have hxb : x ≠ b := fun heq => hx (heq ▸ hb)
      rw [links_setNext, Function.update_of_ne hxb, links_setNext, Function.update_of_ne hne]

theorem get_spec (h : Queued (links heap) queue.front queue.back rs) (hnodup : rs.Nodup) :
    (rs = [] ∧ taskQueueGet heap queue = none) ∨
      ∃ task rest queue', rs = task :: rest ∧
        taskQueueGet heap queue = some (task, setNext heap task none, queue') ∧
        Queued (links (setNext heap task none)) queue'.front queue'.back rest := by
  obtain ⟨front, back⟩ := queue
  cases front with
  | none => exact .inl ⟨h.front_eq_none, rfl⟩
  | some task =>
    obtain ⟨rest, hrest, hqueued⟩ := h.pop hnodup
    refine .inr ⟨task, rest, _, hrest, rfl, ?_⟩
    rw [links_setNext]
    exact hqueued

end Relinking

section Lists

/-- The private list `P` of the gather, with what its phase says of it. -/
def AtPhase (s : State) (P R : List ℕ) : Prop :=
  match s.phase with
  | .detaching queue => Chain (links s.heap) queue P ∧ s.handled = [] ∧ s.began = P.reverse ++ R
  | .walking task => Chain (links s.heap) task P ∧ s.handled ++ P = s.began.reverse
  | .handling task next =>
    ∃ rest, P = task :: rest ∧ Chain (links s.heap) next rest ∧
      s.handled ++ rest = s.began.reverse
  | _ => P = [] ∧ s.handled = s.began.reverse

/-- Every accepted task is listed, and once. -/
structure Parts (count : ℕ) (accepted all : List ℕ) : Prop where
  nodup : all.Nodup
  bound : ∀ r ∈ all, r < count
  accepted : ∀ r, r ∈ accepted ↔ r ∈ all

theorem Parts.perm {count : ℕ} {accepted all all' : List ℕ} (h : Parts count accepted all)
    (hperm : all.Perm all') : Parts count accepted all' where
  nodup := hperm.nodup_iff.mp h.nodup
  bound := fun r hr => h.bound r (hperm.mem_iff.mpr hr)
  accepted := fun r => (h.accepted r).trans hperm.mem_iff

/-- The tasks are in the private list `P`, running in `R`, finished in `F` or gone in `G`. -/
structure Holds (s : State) (P R F G : List ℕ) : Prop where
  running : Queued (links s.heap) s.running.front s.running.back R
  done : Queued (links s.heap) s.done.front s.done.back F
  atPhase : AtPhase s P R
  parts : Parts s.count s.accepted (P ++ (R ++ (F ++ G)))
  unfinished : ∀ r ∈ P ++ R, (s.heap r).finished → ∃ next, s.phase = .handling r next
  finished : ∀ r ∈ F ++ G, (s.heap r).finished
  called : s.called = G.filter fun r => (s.heap r).callback
  idle : s.phase = .idle → F = []
  began : s.began.Nodup

def Sound (s : State) : Prop := ∃ P R F G, Holds s P R F G

theorem sound_initial : Sound initial :=
  ⟨[], [], [], [], ⟨rfl, fun h => absurd rfl h⟩, ⟨rfl, fun h => absurd rfl h⟩, ⟨rfl, rfl⟩,
    ⟨List.nodup_nil, by simp, by simp [initial]⟩, by simp, by simp, rfl, fun _ => rfl,
    List.nodup_nil⟩

variable {s t : State} {P R F G : List ℕ}

theorem Holds.nodup_running (h : Holds s P R F G) : R.Nodup :=
  h.parts.nodup.of_append_right.of_append_left

theorem Holds.nodup_done (h : Holds s P R F G) : F.Nodup :=
  h.parts.nodup.of_append_right.of_append_right.of_append_left

theorem Holds.runningTasks_eq (h : Holds s P R F G) : runningTasks s = R := by
  apply h.running.1.nodes_eq
  have hsub : R ⊆ List.range s.count := by
    intro r hr
    exact List.mem_range.mpr (h.parts.bound r (by simp [hr]))
  have hle := (List.subperm_of_subset h.nodup_running hsub).length_le
  rwa [List.length_range] at hle

theorem called_relinked {heap heap' : Tasks} (h : Relinked heap heap') (G : List ℕ) :
    (G.filter fun r => (heap' r).callback) = G.filter fun r => (heap r).callback := by
  apply List.filter_congr
  intro r _
  exact (h r).2.1

theorem Holds.gather (h : Holds s P R F G) (hidle : s.phase = .idle) :
    Holds { s with phase := .detaching none, began := runningTasks s, handled := [] }
      P R F G := by
  have hphase := h.atPhase
  rw [AtPhase, hidle] at hphase
  obtain ⟨rfl, -⟩ := hphase
  have hrunning := h.runningTasks_eq
  exact { h with
    atPhase := ⟨rfl, rfl, by simpa using hrunning⟩
    unfinished := fun r hr hfin => by
      obtain ⟨next, hnext⟩ := h.unfinished r hr hfin
      exact nomatch hidle.symm.trans hnext
    idle := fun hcontra => nomatch hcontra
    began := by
      rw [hrunning]
      exact h.nodup_running }

theorem Holds.finish {task : ℕ} {next : Option ℕ} (h : Holds s P R F G)
    (hphase : s.phase = .handling task next) :
    Holds { s with heap := setFinished s.heap task } P R F G where
  running := by
    rw [links_setFinished]
    exact h.running
  done := by
    rw [links_setFinished]
    exact h.done
  atPhase := by
    have hat := h.atPhase
    rw [AtPhase, hphase] at hat
    rw [AtPhase, hphase]
    dsimp only
    rw [links_setFinished]
    exact hat
  parts := h.parts
  unfinished := fun r hr hfin => by
    by_cases heq : r = task
    · exact ⟨next, heq ▸ hphase⟩
    · rw [setFinished_finished, decide_eq_false heq, Bool.false_or] at hfin
      exact h.unfinished r hr hfin
  finished := fun r hr => by
    rw [setFinished_finished, h.finished r hr, Bool.or_true]
  called := by
    rw [h.called]
    apply List.filter_congr
    intro r _
    exact (setFinished_rest s.heap task r).2.symm
  idle := h.idle
  began := h.began

theorem Holds.detach {queue : Option ℕ} {task : ℕ} {running : TaskQueue} {rest : List ℕ}
    (h : Holds s P (task :: rest) F G) (hphase : s.phase = .detaching queue)
    (hqueued : Queued (links (setNext s.heap task none)) running.front running.back rest) :
    Holds { s with
      heap := setNext (setNext s.heap task none) task queue, running := running,
      phase := .detaching (some task) } (task :: P) rest F G := by
  have hnodup := h.parts.nodup
  have hperm : (P ++ (task :: rest ++ (F ++ G))).Perm (task :: (P ++ (rest ++ (F ++ G)))) :=
    List.perm_middle
  have hone := hperm.nodup_iff.mp hnodup
  have hout := (List.nodup_cons.mp hone).1
  simp only [List.mem_append, not_or] at hout
  obtain ⟨hP, hrest, hF, -⟩ := hout
  have hat := h.atPhase
  rw [AtPhase, hphase] at hat
  obtain ⟨hchain, hhandled, hbegan⟩ := hat
  have hrel := (relinked_setNext s.heap task none).trans
    (relinked_setNext (setNext s.heap task none) task queue)
  have hlinks : links (setNext (setNext s.heap task none) task queue) =
      Function.update (links s.heap) task queue := by
    rw [links_setNext, links_setNext, Function.update_idem]
  exact {
    running := by
      rw [links_setNext]
      exact hqueued.update hrest queue
    done := by
      rw [hlinks]
      exact h.done.update hF queue
    atPhase := by
      refine ⟨?_, hhandled, ?_⟩
      · rw [hlinks]
        exact hchain.push hP
      · rw [hbegan, List.reverse_cons, List.append_assoc, List.singleton_append]
    parts := h.parts.perm hperm
    unfinished := fun r hr hfin => by
      rw [(hrel r).2.2] at hfin
      obtain ⟨next, hnext⟩ := h.unfinished r (by
        rw [List.mem_append, List.mem_cons] at hr ⊢
        tauto) hfin
      exact nomatch hphase.symm.trans hnext
    finished := fun r hr => by
      rw [(hrel r).2.2]
      exact h.finished r hr
    called := by
      rw [called_relinked hrel]
      exact h.called
    idle := fun hcontra => nomatch hcontra
    began := h.began }

theorem Holds.detached {queue : Option ℕ} (h : Holds s P [] F G)
    (hphase : s.phase = .detaching queue) : Holds { s with phase := .walking queue } P [] F G := by
  have hat := h.atPhase
  rw [AtPhase, hphase] at hat
  obtain ⟨hchain, hhandled, hbegan⟩ := hat
  exact { h with
    atPhase := by
      refine ⟨hchain, ?_⟩
      rw [hhandled, hbegan, List.append_nil, List.reverse_reverse, List.nil_append]
    unfinished := fun r hr hfin => by
      obtain ⟨next, hnext⟩ := h.unfinished r hr hfin
      exact nomatch hphase.symm.trans hnext
    idle := fun hcontra => nomatch hcontra }

theorem Holds.handle {task : ℕ} (h : Holds s P R F G) (hphase : s.phase = .walking (some task)) :
    Holds { s with
      handled := s.handled ++ [task], phase := .handling task (s.heap task).next } P R F G := by
  have hat := h.atPhase
  rw [AtPhase, hphase] at hat
  obtain ⟨hchain, hhandled⟩ := hat
  exact { h with
    atPhase := by
      cases P with
      | nil => exact nomatch (show some task = none from hchain)
      | cons r rest =>
        obtain ⟨htask, hrest⟩ := hchain
        obtain rfl := Option.some.inj htask
        refine ⟨rest, rfl, hrest, ?_⟩
        rw [List.append_assoc, List.singleton_append]
        exact hhandled
    unfinished := fun r hr hfin => by
      obtain ⟨next, hnext⟩ := h.unfinished r hr hfin
      exact nomatch hphase.symm.trans hnext
    idle := fun hcontra => nomatch hcontra }

theorem Holds.walked (h : Holds s P R F G) (hphase : s.phase = .walking none) :
    Holds { s with phase := .collecting } P R F G := by
  have hat := h.atPhase
  rw [AtPhase, hphase] at hat
  obtain ⟨hchain, hhandled⟩ := hat
  have hP : P = [] := by
    cases P with
    | nil => rfl
    | cons r rest => exact nomatch hchain.1
  subst hP
  exact { h with
    atPhase := ⟨rfl, by simpa using hhandled⟩
    unfinished := fun r hr hfin => by
      obtain ⟨next, hnext⟩ := h.unfinished r hr hfin
      exact nomatch hphase.symm.trans hnext
    idle := fun hcontra => nomatch hcontra }

theorem Holds.walk_on {task : ℕ} {next : Option ℕ} {rest : List ℕ} {heap : Tasks}
    (h : Holds s (task :: rest) R F G) (hphase : s.phase = .handling task next)
    (hframe : ∀ x, x ∈ rest → links heap x = links s.heap x) :
    Chain (links heap) next rest ∧ s.handled ++ rest = s.began.reverse := by
  have hat := h.atPhase
  rw [AtPhase, hphase] at hat
  obtain ⟨rest', hrest, hchain, hhandled⟩ := hat
  obtain ⟨-, rfl⟩ := List.cons.inj hrest
  exact ⟨hchain.congr hframe, hhandled⟩

/-- The task that was handled is not finished and runs on. -/
theorem Holds.again {task : ℕ} {next : Option ℕ} {rest : List ℕ} {heap : Tasks}
    {running : TaskQueue} (h : Holds s (task :: rest) R F G)
    (hphase : s.phase = .handling task next) (hunfinished : (s.heap task).finished = false)
    (hqueued : Queued (links heap) running.front running.back (R ++ [task]))
    (hrel : Relinked s.heap heap)
    (hframe : ∀ x, x ∉ R → x ≠ task → links heap x = links s.heap x) :
    Holds { s with heap := heap, running := running, phase := .walking next }
      rest (R ++ [task]) F G := by
  have hperm : (task :: (rest ++ (R ++ (F ++ G)))).Perm (rest ++ (R ++ [task] ++ (F ++ G))) := by
    have hmiddle := (@List.perm_middle ℕ task (rest ++ R) (F ++ G)).symm
    simpa only [List.append_assoc, List.singleton_append] using hmiddle
  have hall : (task :: (rest ++ (R ++ (F ++ G)))).Nodup := h.parts.nodup
  obtain ⟨hout, hnodup⟩ := List.nodup_cons.mp hall
  have hdone : ∀ x ∈ F, links heap x = links s.heap x := by
    intro x hx
    apply hframe x
    · intro hR
      exact (List.disjoint_of_nodup_append hnodup.of_append_right) hR (by simp [hx])
    · rintro rfl
      exact hout (by simp [hx])
  have hrest : ∀ x ∈ rest, links heap x = links s.heap x := by
    intro x hx
    apply hframe x
    · intro hR
      exact (List.disjoint_of_nodup_append hnodup) hx (by simp [hR])
    · rintro rfl
      exact hout (by simp [hx])
  exact {
    running := hqueued
    done := h.done.congr hdone
    atPhase := h.walk_on hphase hrest
    parts := h.parts.perm hperm
    unfinished := fun r hr hfin => by
      rw [(hrel r).2.2] at hfin
      obtain ⟨next', hnext⟩ := h.unfinished r (by
        simp only [List.mem_append, List.mem_cons, List.not_mem_nil, or_false] at hr ⊢
        tauto) hfin
      obtain ⟨rfl, -⟩ := Phase.handling.inj (hphase.symm.trans hnext)
      rw [hunfinished] at hfin
      exact nomatch hfin
    finished := fun r hr => by
      rw [(hrel r).2.2]
      exact h.finished r hr
    called := by
      rw [called_relinked hrel]
      exact h.called
    idle := fun hcontra => nomatch hcontra
    began := h.began }

theorem Holds.finishes {task : ℕ} {next : Option ℕ} {rest : List ℕ} {heap : Tasks}
    {done : TaskQueue} (h : Holds s (task :: rest) R F G)
    (hphase : s.phase = .handling task next) (hfinished : (s.heap task).finished = true)
    (hqueued : Queued (links heap) done.front done.back (F ++ [task]))
    (hrel : Relinked s.heap heap)
    (hframe : ∀ x, x ∉ F → x ≠ task → links heap x = links s.heap x) :
    Holds { s with heap := heap, done := done, phase := .walking next }
      rest R (F ++ [task]) G := by
  have hperm : (task :: (rest ++ (R ++ (F ++ G)))).Perm (rest ++ (R ++ (F ++ [task] ++ G))) := by
    have hmiddle := (@List.perm_middle ℕ task (rest ++ (R ++ F)) G).symm
    simpa only [List.append_assoc, List.singleton_append] using hmiddle
  have hall : (task :: (rest ++ (R ++ (F ++ G)))).Nodup := h.parts.nodup
  obtain ⟨hout, hnodup⟩ := List.nodup_cons.mp hall
  have hrunning : ∀ x ∈ R, links heap x = links s.heap x := by
    intro x hx
    apply hframe x
    · intro hF
      exact (List.disjoint_of_nodup_append hnodup.of_append_right) hx (by simp [hF])
    · rintro rfl
      exact hout (by simp [hx])
  have hrest : ∀ x ∈ rest, links heap x = links s.heap x := by
    intro x hx
    apply hframe x
    · intro hF
      exact (List.disjoint_of_nodup_append hnodup) hx (by simp [hF])
    · rintro rfl
      exact hout (by simp [hx])
  exact {
    running := h.running.congr hrunning
    done := hqueued
    atPhase := h.walk_on hphase hrest
    parts := h.parts.perm hperm
    unfinished := fun r hr hfin => by
      rw [(hrel r).2.2] at hfin
      obtain ⟨next', hnext⟩ := h.unfinished r (List.mem_cons_of_mem task hr) hfin
      obtain ⟨rfl, -⟩ := Phase.handling.inj (hphase.symm.trans hnext)
      rw [List.mem_append] at hr
      exact absurd (by simp only [List.mem_append]; tauto) hout
    finished := fun r hr => by
      rw [(hrel r).2.2]
      by_cases heq : r = task
      · rw [heq, hfinished]
      · apply h.finished r
        simp only [List.mem_append, List.mem_singleton, heq, or_false] at hr ⊢
        exact hr
    called := by
      rw [called_relinked hrel]
      exact h.called
    idle := fun hcontra => nomatch hcontra
    began := h.began }

theorem Holds.collect {task : ℕ} {done : TaskQueue} {rest : List ℕ}
    (h : Holds s P R (task :: rest) G) (hphase : s.phase = .collecting)
    (hqueued : Queued (links (setNext s.heap task none)) done.front done.back rest) :
    Holds { s with
      heap := setNext s.heap task none, done := done, phase := .calling task,
      called := if ((setNext s.heap task none) task).callback then s.called ++ [task]
        else s.called } P R rest (G ++ [task]) := by
  have hperm : (P ++ (R ++ (task :: rest ++ G))).Perm (P ++ (R ++ (rest ++ (G ++ [task])))) := by
    apply List.Perm.append_left
    apply List.Perm.append_left
    rw [← List.append_assoc]
    exact @List.perm_append_comm ℕ [task] (rest ++ G)
  have hnodup := h.parts.nodup
  have hR : task ∉ R := by
    intro hmem
    exact (List.disjoint_of_nodup_append hnodup.of_append_right) hmem (by simp)
  have hat := h.atPhase
  rw [AtPhase, hphase] at hat
  have hrel := relinked_setNext s.heap task none
  exact {
    running := by
      rw [links_setNext]
      exact h.running.update hR none
    done := hqueued
    atPhase := hat
    parts := h.parts.perm hperm
    unfinished := fun r hr hfin => by
      rw [(hrel r).2.2] at hfin
      obtain ⟨next, hnext⟩ := h.unfinished r hr hfin
      exact nomatch hphase.symm.trans hnext
    finished := fun r hr => by
      rw [(hrel r).2.2]
      apply h.finished r
      simp only [List.mem_append, List.mem_cons, List.not_mem_nil, or_false] at hr ⊢
      tauto
    called := by
      rw [called_relinked hrel, List.filter_append, h.called]
      dsimp only
      rw [(hrel task).2.1]
      cases hcallback : (s.heap task).callback <;> simp [hcallback]
    idle := fun hcontra => nomatch hcontra
    began := h.began }

theorem Holds.collected (h : Holds s P R [] G) (hphase : s.phase = .collecting) :
    Holds { s with phase := .idle } P R [] G := by
  have hat := h.atPhase
  rw [AtPhase, hphase] at hat
  exact { h with
    atPhase := hat
    unfinished := fun r hr hfin => by
      obtain ⟨next, hnext⟩ := h.unfinished r hr hfin
      exact nomatch hphase.symm.trans hnext
    idle := fun _ => rfl }

theorem Holds.back {task : ℕ} (h : Holds s P R F G) (hphase : s.phase = .calling task) :
    Holds { s with phase := .collecting } P R F G := by
  have hat := h.atPhase
  rw [AtPhase, hphase] at hat
  exact { h with
    atPhase := hat
    unfinished := fun r hr hfin => by
      obtain ⟨next, hnext⟩ := h.unfinished r hr hfin
      exact nomatch hphase.symm.trans hnext
    idle := fun hcontra => nomatch hcontra }

end Lists

section Steps

variable {s t : State} {P R F G : List ℕ}

/-- The state in which a task was made and is in no list. -/
def created (s : State) (type : TaskType) (callback : Bool) : State :=
  { s with
    heap := Function.update s.heap s.count ⟨type, callback, false, none⟩, count := s.count + 1 }

theorem created_heap {type : TaskType} {callback : Bool} {r : ℕ} (hr : r < s.count) :
    (created s type callback).heap r = s.heap r := by
  rw [created]
  exact Function.update_of_ne (Nat.ne_of_lt hr) _ _

theorem created_self (s : State) (type : TaskType) (callback : Bool) :
    (created s type callback).heap s.count = ⟨type, callback, false, none⟩ := by
  rw [created]
  exact Function.update_self _ _ _

theorem Holds.created (h : Holds s P R F G) (type : TaskType) (callback : Bool) :
    Holds (created s type callback) P R F G := by
  have hsame : ∀ r ∈ P ++ (R ++ (F ++ G)), (Gather.created s type callback).heap r = s.heap r :=
    fun r hr => created_heap (h.parts.bound r hr)
  have hlinks : ∀ r ∈ P ++ (R ++ (F ++ G)),
      links (Gather.created s type callback).heap r = links s.heap r := by
    intro r hr
    rw [links, links, hsame r hr]
  have hat := h.atPhase
  exact {
    running := h.running.congr fun r hr => hlinks r (by simp [hr])
    done := h.done.congr fun r hr => hlinks r (by simp [hr])
    atPhase := by
      rw [AtPhase] at hat ⊢
      have hphase : (Gather.created s type callback).phase = s.phase := rfl
      rw [hphase]
      split at hat
      · exact ⟨hat.1.congr fun r hr => hlinks r (by simp [hr]), hat.2⟩
      · exact ⟨hat.1.congr fun r hr => hlinks r (by simp [hr]), hat.2⟩
      · obtain ⟨rest, rfl, hchain, hhandled⟩ := hat
        exact ⟨rest, rfl, hchain.congr fun r hr => hlinks r (by simp [hr]), hhandled⟩
      · exact hat
    parts := ⟨h.parts.nodup, fun r hr => Nat.lt_succ_of_lt (h.parts.bound r hr), h.parts.accepted⟩
    unfinished := fun r hr hfin => by
      rw [hsame r (by rw [← List.append_assoc]; exact List.mem_append_left _ hr)] at hfin
      exact h.unfinished r hr hfin
    finished := fun r hr => by
      rw [hsame r (by
        rw [← List.append_assoc]
        exact List.mem_append_right _ hr)]
      exact h.finished r hr
    called := by
      rw [Gather.created]
      dsimp only
      rw [h.called]
      apply List.filter_congr
      intro r hr
      exact congrArg Task.callback (hsame r (by simp [hr])).symm
    idle := h.idle
    began := h.began }

/-- A task that is in no list is put behind the running ones. -/
theorem Holds.accept {task : ℕ} {heap : Tasks} {running : TaskQueue} (h : Holds s P R F G)
    (hopen : s.phase.isOpen) (hbound : task < s.count) (hfresh : task ∉ P ++ (R ++ (F ++ G)))
    (hunfinished : (s.heap task).finished = false)
    (hqueued : Queued (links heap) running.front running.back (R ++ [task]))
    (hrel : Relinked s.heap heap)
    (hframe : ∀ x, x ∉ R → x ≠ task → links heap x = links s.heap x) :
    Holds { s with heap := heap, running := running, accepted := s.accepted ++ [task] }
      P (R ++ [task]) F G := by
  have hnodup := h.parts.nodup
  have hkeep : ∀ x ∈ P ++ F, links heap x = links s.heap x := by
    intro x hx
    have hmem := List.mem_append.mp hx
    apply hframe x
    · intro hR
      rcases hmem with hP | hF
      · exact (List.disjoint_of_nodup_append hnodup) hP (by simp [hR])
      · exact (List.disjoint_of_nodup_append hnodup.of_append_right) hR (by simp [hF])
    · rintro rfl
      exact hfresh (by simp only [List.mem_append]; tauto)
  have hperm : (task :: (P ++ (R ++ (F ++ G)))).Perm (P ++ (R ++ [task] ++ (F ++ G))) := by
    have hmiddle := (@List.perm_middle ℕ task (P ++ R) (F ++ G)).symm
    simpa only [List.append_assoc, List.singleton_append] using hmiddle
  have hparts : Parts s.count (s.accepted ++ [task]) (task :: (P ++ (R ++ (F ++ G)))) := by
    refine ⟨List.nodup_cons.mpr ⟨hfresh, hnodup⟩, ?_, ?_⟩
    · intro r hr
      rcases List.mem_cons.mp hr with rfl | hr
      · exact hbound
      · exact h.parts.bound r hr
    · intro r
      rw [List.mem_append, List.mem_singleton, List.mem_cons, h.parts.accepted r]
      exact or_comm
  have hat := h.atPhase
  exact {
    running := hqueued
    done := h.done.congr fun r hr => hkeep r (List.mem_append_right P hr)
    atPhase := by
      rw [AtPhase] at hat ⊢
      dsimp only
      cases hphase : s.phase with
      | idle =>
        rw [hphase] at hat
        exact hat
      | handling r next =>
        rw [hphase] at hat
        obtain ⟨rest, rfl, hchain, hhandled⟩ := hat
        exact ⟨rest, rfl, hchain.congr fun r hr => hkeep r (by simp [hr]), hhandled⟩
      | calling r =>
        rw [hphase] at hat
        exact hat
      | detaching queue => simp [hphase, Phase.isOpen] at hopen
      | walking r => simp [hphase, Phase.isOpen] at hopen
      | collecting => simp [hphase, Phase.isOpen] at hopen
    parts := hparts.perm hperm
    unfinished := fun r hr hfin => by
      rw [(hrel r).2.2] at hfin
      by_cases heq : r = task
      · rw [heq, hunfinished] at hfin
        exact nomatch hfin
      · apply h.unfinished r _ hfin
        simp only [List.mem_append, List.mem_singleton, heq, or_false] at hr ⊢
        exact hr
    finished := fun r hr => by
      rw [(hrel r).2.2]
      exact h.finished r hr
    called := by
      rw [called_relinked hrel]
      exact h.called
    idle := h.idle
    began := h.began }

/-- A push makes a task; it is refused where a blocking one runs, and accepted otherwise. -/
theorem push_cases (h : Holds s P R F G) (hopen : s.phase.isOpen) (type : TaskType)
    (callback : Bool) :
    ∃ t, taskQueuePush s type callback = some t ∧ t.phase = s.phase ∧
      ((type = .blocking ∧ (∃ r ∈ R, isBlocking s r) ∧ t = created s type callback ∧
          Holds t P R F G) ∨
        (¬ (type = .blocking ∧ ∃ r ∈ R, isBlocking s r) ∧
          t.accepted = s.accepted ++ [s.count] ∧
          Relinked (created s type callback).heap t.heap ∧ Holds t P (R ++ [s.count]) F G)) := by
  have hcreated := h.created type callback
  have hany : (runningTasks (created s type callback)).any (isBlocking (created s type callback)) ↔
      ∃ r ∈ R, isBlocking s r := by
    rw [hcreated.runningTasks_eq, List.any_eq_true]
    apply exists_congr
    intro r
    apply and_congr_right
    intro hr
    rw [isBlocking, isBlocking, created_heap (h.parts.bound r (by simp [hr]))]
  have hfresh : s.count ∉ P ++ (R ++ (F ++ G)) := fun hmem =>
    Nat.lt_irrefl _ (h.parts.bound _ hmem)
  have hR : s.count ∉ R := fun hmem => hfresh (by simp [hmem])
  obtain ⟨heap, running, hput, hqueued, hrel, hframe⟩ :=
    put_spec hcreated.running hcreated.nodup_running hR
  have hself := created_self s type callback
  rw [taskQueuePush]
  by_cases hrefused : type = .blocking ∧ ∃ r ∈ R, isBlocking s r
  · have hif : type = .blocking ∧
        (runningTasks (created s type callback)).any (isBlocking (created s type callback)) :=
      ⟨hrefused.1, hany.mpr hrefused.2⟩
    exact ⟨_, if_pos hif, rfl, .inl ⟨hrefused.1, hrefused.2, rfl, hcreated⟩⟩
  · have hif : ¬ (type = .blocking ∧
        (runningTasks (created s type callback)).any (isBlocking (created s type callback))) :=
      fun hboth => hrefused ⟨hboth.1, hany.mp hboth.2⟩
    have haccept := hcreated.accept hopen (Nat.lt_succ_self s.count) hfresh (by rw [hself]) hqueued
      hrel hframe
    refine ⟨_, (if_neg hif).trans ?_, ?_, .inr ⟨hrefused, ?_, ?_, haccept⟩⟩
    · exact congrArg (Option.map _) hput
    · rfl
    · rfl
    · exact hrel

theorem tick_cases (h : Holds s P R F G) (hphase : s.phase ≠ .idle) :
    ∃ t, tick s = some t ∧ Sound t ∧ t.accepted = s.accepted ∧ Relinked s.heap t.heap := by
  rw [tick]
  cases hp : s.phase with
  | idle => exact absurd hp hphase
  | detaching queue =>
    rcases get_spec h.running h.nodup_running with ⟨rfl, hget⟩ |
      ⟨task, rest, running, rfl, hget, hqueued⟩
    · dsimp only
      rw [hget]
      exact ⟨_, rfl, ⟨_, _, _, _, h.detached hp⟩, rfl, .refl _⟩
    · dsimp only
      rw [hget]
      exact ⟨_, rfl, ⟨_, _, _, _, h.detach hp hqueued⟩, rfl,
        (relinked_setNext _ _ _).trans (relinked_setNext _ _ _)⟩
  | walking task =>
    cases task with
    | none => exact ⟨_, rfl, ⟨_, _, _, _, h.walked hp⟩, rfl, .refl _⟩
    | some task => exact ⟨_, rfl, ⟨_, _, _, _, h.handle hp⟩, rfl, .refl _⟩
  | handling task next =>
    have hat := h.atPhase
    rw [AtPhase, hp] at hat
    obtain ⟨rest, rfl, -⟩ := hat
    have hall : (task :: (rest ++ (R ++ (F ++ G)))).Nodup := h.parts.nodup
    have hout := (List.nodup_cons.mp hall).1
    simp only [List.mem_append, not_or] at hout
    obtain ⟨-, hR, hF, -⟩ := hout
    cases hfin : (s.heap task).finished with
    | true =>
      obtain ⟨heap, done, hput, hqueued, hrel, hframe⟩ := put_spec h.done h.nodup_done hF
      dsimp only
      rw [if_pos hfin, hput]
      exact ⟨_, rfl, ⟨_, _, _, _, h.finishes hp hfin hqueued hrel hframe⟩, rfl, hrel⟩
    | false =>
      obtain ⟨heap, running, hput, hqueued, hrel, hframe⟩ :=
        put_spec h.running h.nodup_running hR
      dsimp only
      rw [if_neg (by simp [hfin]), hput]
      exact ⟨_, rfl, ⟨_, _, _, _, h.again hp hfin hqueued hrel hframe⟩, rfl, hrel⟩
  | collecting =>
    rcases get_spec h.done h.nodup_done with ⟨rfl, hget⟩ |
      ⟨task, rest, done, rfl, hget, hqueued⟩
    · dsimp only
      rw [hget]
      exact ⟨_, rfl, ⟨_, _, _, _, h.collected hp⟩, rfl, .refl _⟩
    · dsimp only
      rw [hget]
      exact ⟨_, rfl, ⟨_, _, _, _, h.collect hp hqueued⟩, rfl, relinked_setNext _ _ _⟩
  | calling task => exact ⟨_, rfl, ⟨_, _, _, _, h.back hp⟩, rfl, .refl _⟩

end Steps

end RetroArch.Queues.Gather
