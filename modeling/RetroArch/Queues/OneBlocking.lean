/- There is at most one unfinished blocking task where no handler pushes one past those that the
   gather has taken out of the queue. -/

import RetroArch.Queues.GatherRuns

namespace RetroArch.Queues.Gather

open Library.Linked Library.Run

/-- A task that was accepted, blocks and has not finished. -/
def Blocks (s : State) (r : ℕ) : Prop :=
  r ∈ s.accepted ∧ isBlocking s r ∧ (s.heap r).finished = false

instance (s : State) (r : ℕ) : Decidable (Blocks s r) := by
  unfold Blocks
  infer_instance

/-- There is one blocking task at most; a gather goes on, and where it ends each task that was
running at its start was handled once, and each finished one was called back once. -/
structure Proper (s : State) : Prop where
  one : ∀ r q, Blocks s r → Blocks s q → r = q
  goes_on : s.phase ≠ .idle → (tick s).isSome
  handled : s.phase = .idle → ∀ r, s.handled.count r = if r ∈ s.began then 1 else 0
  called : s.phase = .idle → ∀ r, s.called.count r =
    if r ∈ s.accepted ∧ (s.heap r).finished ∧ (s.heap r).callback then 1 else 0

/-- The task that is handled and those behind it, which are in no queue. -/
def privateTasks (s : State) : List ℕ :=
  match s.phase with
  | .handling task next => task :: nodes (links s.heap) s.count next
  | _ => []

/-- A blocking task is pushed where one is in the queue, which refuses it, or where those that the
gather has taken out are finished. -/
def Guarded (s : State) : Event → Prop
  | .push .blocking _ =>
    (runningTasks s).any (isBlocking s) ∨
      ∀ r ∈ privateTasks s, isBlocking s r → (s.heap r).finished
  | _ => True

instance (s : State) : DecidablePred (Guarded s) := by
  intro e
  cases e with
  | push type callback =>
    cases type with
    | none => exact .isTrue trivial
    | blocking => exact inferInstanceAs (Decidable (_ ∨ ∀ r ∈ _, _ → _))
  | gather => exact .isTrue trivial
  | tick => exact .isTrue trivial
  | finish => exact .isTrue trivial

section Runs

variable {s t : State} {P R F G : List ℕ} {e : Event}

theorem sound_step (hs : Sound s) (h : step s e = some t) : Sound t := by
  obtain ⟨P, R, F, G, hholds⟩ := hs
  cases e with
  | push type callback =>
    rw [step] at h
    split_ifs at h with hopen
    obtain ⟨t', ht', -, ⟨-, -, -, hkeep⟩ | ⟨-, -, -, hkeep⟩⟩ :=
      push_cases hholds hopen type callback
    · obtain rfl := Option.some.inj (h.symm.trans ht')
      exact ⟨_, _, _, _, hkeep⟩
    · obtain rfl := Option.some.inj (h.symm.trans ht')
      exact ⟨_, _, _, _, hkeep⟩
  | gather =>
    rw [step] at h
    split_ifs at h with hidle
    obtain rfl := Option.some.inj h
    exact ⟨_, _, _, _, hholds.gather hidle⟩
  | tick =>
    have hphase : s.phase ≠ .idle := by
      intro hidle
      rw [step, tick, hidle] at h
      cases h
    obtain ⟨t', ht', hsound, -⟩ := tick_cases hholds hphase
    obtain rfl := Option.some.inj (h.symm.trans ht')
    exact hsound
  | finish =>
    rw [step] at h
    split at h
    · next task next hphase =>
        obtain rfl := Option.some.inj h
        exact ⟨_, _, _, _, hholds.finish hphase⟩
    · cases h

theorem Sound.proper (hs : Sound s) (hone : ∀ r q, Blocks s r → Blocks s q → r = q) :
    Proper s := by
  obtain ⟨P, R, F, G, h⟩ := hs
  refine ⟨hone, ?_, ?_, ?_⟩
  · intro hphase
    obtain ⟨t, ht, -⟩ := tick_cases h hphase
    rw [ht]
    rfl
  · intro hidle r
    have hat := h.atPhase
    rw [AtPhase, hidle] at hat
    rw [hat.2, List.count_reverse]
    exact h.began.count
  · intro hidle r
    have hat := h.atPhase
    rw [AtPhase, hidle] at hat
    obtain ⟨rfl, -⟩ := hat
    obtain rfl := h.idle hidle
    have hG : G.Nodup := h.parts.nodup.of_append_right.of_append_right
    rw [h.called, (hG.filter _).count]
    congr 1
    apply propext
    rw [List.mem_filter, h.parts.accepted r]
    constructor
    · rintro ⟨hmem, hcallback⟩
      exact ⟨by simp [hmem], h.finished r (by simp [hmem]), hcallback⟩
    · rintro ⟨hmem, hfin, hcallback⟩
      refine ⟨?_, hcallback⟩
      rcases List.mem_append.mp (by simpa using hmem : r ∈ R ++ G) with hR | hG
      · obtain ⟨next, hnext⟩ := h.unfinished r (by simp [hR]) hfin
        cases hidle.symm.trans hnext
      · exact hG

theorem Holds.blocks (h : Holds s P R F G) {r : ℕ} (hr : Blocks s r) : r ∈ P ∨ r ∈ R := by
  obtain ⟨haccepted, -, hunfinished⟩ := hr
  have hmem := (h.parts.accepted r).mp haccepted
  simp only [List.mem_append] at hmem
  rcases hmem with hP | hR | hF | hG
  · exact .inl hP
  · exact .inr hR
  · rw [h.finished r (by simp [hF])] at hunfinished
    exact nomatch hunfinished
  · rw [h.finished r (by simp [hG])] at hunfinished
    exact nomatch hunfinished

theorem Holds.privateTasks_eq (h : Holds s P R F G) (hopen : s.phase.isOpen) :
    privateTasks s = P := by
  have hat := h.atPhase
  rw [AtPhase] at hat
  rw [privateTasks]
  cases hphase : s.phase with
  | handling task next =>
    rw [hphase] at hat
    obtain ⟨rest, rfl, hchain, -⟩ := hat
    have hall : (task :: (rest ++ (R ++ (F ++ G)))).Nodup := h.parts.nodup
    have hsub : rest ⊆ List.range s.count := by
      intro r hr
      exact List.mem_range.mpr (h.parts.bound r (by simp [hr]))
    have hle :=
      (List.subperm_of_subset (List.nodup_cons.mp hall).2.of_append_left hsub).length_le
    rw [List.length_range] at hle
    exact congrArg (task :: ·) (hchain.nodes_eq hle)
  | idle =>
    rw [hphase] at hat
    exact hat.1.symm
  | calling task =>
    rw [hphase] at hat
    exact hat.1.symm
  | detaching queue => simp [hphase, Phase.isOpen] at hopen
  | walking task => simp [hphase, Phase.isOpen] at hopen
  | collecting => simp [hphase, Phase.isOpen] at hopen

theorem blocks_of_step (hs : Sound s) (h : step s e = some t)
    (hpush : ∀ type callback, e ≠ .push type callback) {r : ℕ} (hr : Blocks t r) : Blocks s r := by
  obtain ⟨P, R, F, G, hholds⟩ := hs
  cases e with
  | push type callback => exact absurd rfl (hpush type callback)
  | gather =>
    rw [step] at h
    split_ifs at h with hidle
    obtain rfl := Option.some.inj h
    exact hr
  | tick =>
    have hphase : s.phase ≠ .idle := by
      intro hidle
      rw [step, tick, hidle] at h
      cases h
    obtain ⟨t', ht', -, haccepted, hrel⟩ := tick_cases hholds hphase
    obtain rfl := Option.some.inj (h.symm.trans ht')
    rw [Blocks, isBlocking, haccepted, (hrel r).1, (hrel r).2.2] at hr
    exact hr
  | finish =>
    rw [step] at h
    split at h
    · next task next hphase =>
        obtain rfl := Option.some.inj h
        obtain ⟨haccepted, hblocking, hunfinished⟩ := hr
        rw [isBlocking] at hblocking
        dsimp only at hblocking hunfinished
        rw [(setFinished_rest s.heap task r).1] at hblocking
        rw [setFinished_finished, Bool.or_eq_false_iff] at hunfinished
        exact ⟨haccepted, hblocking, hunfinished.2⟩
    · cases h

theorem blocks_created (h : Holds s P R F G) {type : TaskType} {callback : Bool} {r : ℕ}
    (hr : r ∈ s.accepted) :
    (isBlocking (created s type callback) r ∧
        ((created s type callback).heap r).finished = false) ↔
      isBlocking s r ∧ (s.heap r).finished = false := by
  have hlt := h.parts.bound r ((h.parts.accepted r).mp hr)
  rw [isBlocking, isBlocking, created_heap hlt]

theorem blocks_push (h : Holds s P R F G) {type : TaskType} {callback : Bool}
    (haccepted : t.accepted = s.accepted ++ [s.count])
    (hrel : Relinked (created s type callback).heap t.heap) (r : ℕ) :
    Blocks t r ↔ Blocks s r ∨ (r = s.count ∧ type = .blocking) := by
  have hself := created_self s type callback
  rw [Blocks, haccepted, isBlocking, (hrel r).1, (hrel r).2.2, List.mem_append,
    List.mem_singleton]
  constructor
  · rintro ⟨hmem | rfl, hrest⟩
    · exact .inl ⟨hmem, (blocks_created h hmem).mp hrest⟩
    · rw [hself] at hrest
      exact .inr ⟨rfl, of_decide_eq_true hrest.1⟩
  · rintro (⟨hmem, hrest⟩ | ⟨rfl, htype⟩)
    · exact ⟨.inl hmem, (blocks_created h hmem).mpr hrest⟩
    · rw [hself]
      exact ⟨.inr rfl, decide_eq_true htype, rfl⟩

/-- A push leaves one blocking task at most exactly if it is guarded. -/
theorem push_exact {type : TaskType} {callback : Bool} (h : Holds s P R F G)
    (hone : ∀ r q, Blocks s r → Blocks s q → r = q)
    (hstep : step s (.push type callback) = some t) :
    (∀ r q, Blocks t r → Blocks t q → r = q) ↔ Guarded s (.push type callback) := by
  rw [step] at hstep
  split_ifs at hstep with hopen
  have hfresh : ¬ Blocks s s.count := by
    rintro ⟨haccepted, -⟩
    exact Nat.lt_irrefl _ (h.parts.bound _ ((h.parts.accepted _).mp haccepted))
  obtain ⟨t', ht', -, ⟨htype, hblocked, rfl, -⟩ | ⟨hfree, haccepted, hrel, -⟩⟩ :=
    push_cases h hopen type callback
  · obtain rfl := Option.some.inj (hstep.symm.trans ht')
    subst htype
    constructor
    · intro _
      left
      rw [h.runningTasks_eq, List.any_eq_true]
      exact hblocked
    · intro _ r q hr hq
      exact hone r q ⟨hr.1, (blocks_created h hr.1).mp hr.2⟩ ⟨hq.1, (blocks_created h hq.1).mp hq.2⟩
  · obtain rfl := Option.some.inj (hstep.symm.trans ht')
    have hblocks := blocks_push h haccepted hrel
    cases type with
    | none =>
      refine ⟨fun _ => trivial, fun _ r q hr hq => ?_⟩
      rw [hblocks] at hr hq
      exact hone r q (hr.resolve_right fun hnew => nomatch hnew.2)
        (hq.resolve_right fun hnew => nomatch hnew.2)
    | blocking =>
      have hrunning : ¬ (runningTasks s).any (isBlocking s) := by
        rw [h.runningTasks_eq, List.any_eq_true]
        exact fun hblocked => hfree ⟨rfl, hblocked⟩
      constructor
      · intro hall
        right
        intro r hr hblocking
        by_contra hunfinished
        have haccept : r ∈ s.accepted := by
          rw [h.privateTasks_eq hopen] at hr
          exact (h.parts.accepted r).mpr (List.mem_append_left _ hr)
        have hold : Blocks s r := ⟨haccept, hblocking, by simpa using hunfinished⟩
        have heq := hall r s.count ((hblocks r).mpr (.inl hold))
          ((hblocks _).mpr (.inr ⟨rfl, rfl⟩))
        exact hfresh (heq ▸ hold)
      · intro hguarded
        have hnone : ∀ r, ¬ Blocks s r := by
          intro r hr
          rcases h.blocks hr with hP | hR
          · have hfin := hguarded.resolve_left hrunning r
              (by rw [h.privateTasks_eq hopen]; exact hP) hr.2.1
            rw [hr.2.2] at hfin
            exact nomatch hfin
          · exact hfree ⟨rfl, r, hR, hr.2.1⟩
        intro r q hr hq
        rw [hblocks] at hr hq
        exact (hr.resolve_left (hnone r)).1.trans (hq.resolve_left (hnone q)).1.symm

theorem proper_step (s : State) (e : Event) (t : State) (hs : Sound s) (hproper : Proper s)
    (hstep : step s e = some t) : Proper t ↔ Guarded s e := by
  have hsound := sound_step hs hstep
  have hproper_iff : Proper t ↔ ∀ r q, Blocks t r → Blocks t q → r = q :=
    ⟨Proper.one, hsound.proper⟩
  rw [hproper_iff]
  cases e with
  | push type callback =>
    obtain ⟨P, R, F, G, h⟩ := hs
    exact push_exact h hproper.one hstep
  | gather | tick | finish =>
    refine ⟨fun _ => trivial, fun _ r q hr hq => ?_⟩
    exact hproper.one r q (blocks_of_step hs hstep (by simp) hr)
      (blocks_of_step hs hstep (by simp) hq)

/-- All states of a run are proper exactly if all of its pushes are guarded. -/
theorem run_proper_iff (events : List Event) (t : State) (h : run step initial events = some t) :
    (∀ n s, run step initial (events.take n) = some s → Proper s) ↔
      RunsWithin step Guarded initial events t := by
  apply runsWithin_iff (fun s e t hs hstep => sound_step hs hstep) proper_step sound_initial _ h
  exact sound_initial.proper fun r q hr => absurd hr.1 List.not_mem_nil

/-- A blocking task that pushes another one after it has finished. -/
def chained : List Event :=
  [.push .blocking true, .gather, .tick, .tick, .tick, .finish, .push .blocking false, .tick, .tick,
    .tick, .tick, .tick]

theorem chained_proper : (run step initial chained).isSome ∧
    ∀ n s, run step initial (chained.take n) = some s → Proper s :=
  ⟨rfl, (run_proper_iff chained _ rfl).mpr (runsWithin_of_checked rfl)⟩

/-- A blocking task that pushes another one while it goes on. -/
theorem two_blocking :
    ¬ ∀ events t, run step initial events = some t → ∀ r q, Blocks t r → Blocks t q → r = q := by
  intro h
  have hone := h [.push .blocking true, .gather, .tick, .tick, .tick, .push .blocking false] _ rfl
    0 1
  exact absurd (hone (by decide) (by decide)) (by decide)

end Runs

end RetroArch.Queues.Gather
