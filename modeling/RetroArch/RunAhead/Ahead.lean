/- The game is played as without running ahead, and the frames shown are those to come. -/

import RetroArch.RunAhead.Runahead

namespace RetroArch.RunAhead

open Library.Asking

variable {σ φ δ : Type}

/-- Saving and loading never fails and changes nothing, at every size the core reports, and a
second core can be made. -/
structure Exact (core : Core σ φ δ) : Prop where
  size : ∀ s, core.retroSerializeSize s ≠ 0
  saves : ∀ s₀ s, ∃ data, core.retroSerialize s (core.retroSerializeSize s₀) = some data
  loads : ∀ s₀ s data, core.retroSerialize s (core.retroSerializeSize s₀) = some data →
    ∀ t, core.retroUnserialize t data (core.retroSerializeSize s₀) = (true, s) ∧
      core.retroUnserialize t data (asInt (core.retroSerializeSize s₀)) = (true, s)
  creates : core.secondaryCoreCreate.isSome = true

/-- The list answers every query with the value most recently given. -/
structure Remembers (list : List InputListElement) (given : List (Query × Int16)) : Prop where
  sized : Sized list
  answers : ∀ q, inputStateGetLast list q = lastGiven given q

theorem remembers_nil : Remembers [] [] := by
  refine ⟨fun e he => absurd he List.not_mem_nil, ?_⟩
  intro q
  unfold lastGiven
  split_ifs
  · rfl
  · rfl

theorem lastGiven_cons (given : List (Query × Int16)) (q q' : Query) (value : Int16) :
    lastGiven ((q, value) :: given) q' =
      if q' = q ∧ q.id < 65536 then value else lastGiven given q' := by
  unfold lastGiven
  by_cases heq : q' = q
  · subst heq
    rw [List.lookup_cons, beq_self_eq_true]
    split_ifs with h₁ h₂ h₃
    · rfl
    · exact absurd ⟨rfl, h₁⟩ h₂
    · exact absurd h₃.2 h₁
    · rfl
  · have hne : (q' == q) = false := beq_eq_false_iff_ne.mpr heq
    have hboth : ¬ (q' = q ∧ q.id < 65536) := fun h => heq h.1
    rw [List.lookup_cons, hne, if_neg hboth]

theorem Remembers.log {list : List InputListElement} {given : List (Query × Int16)}
    (h : Remembers list given) (q : Query) (value : Int16) :
    Remembers (if q.id < 65536 then inputStateSetLast list q value else list)
      ((q, value) :: given) := by
  by_cases hid : q.id < 65536
  · rw [if_pos hid]
    refine ⟨inputStateSetLast_sized h.sized hid value, ?_⟩
    intro q'
    rw [inputStateGetLast_setLast, lastGiven_cons, h.answers]
    simp only [hid, and_true]
  · rw [if_neg hid]
    refine ⟨h.sized, ?_⟩
    intro q'
    rw [lastGiven_cons, if_neg fun hboth => hid hboth.2]
    exact h.answers q'

section Frame

variable (core : Core σ φ δ) (input : Input)

theorem logged_dirty (l : Logging) (q : Query) (h : l.dirty = true) :
    (inputStateWithLogging input l q).2.dirty = true := by
  unfold inputStateWithLogging
  dsimp only
  rw [h, ite_self]

/-- A frame in which no answer differs from the last one is a frame with the last answers. -/
theorem logged_clean (p : Asking Query Int16 (σ × φ)) (list : List InputListElement)
    {given : List (Query × Int16)} (h : Remembers list given) (dirty : Bool) :
    (p.handled (inputStateWithLogging input) ⟨0, list, dirty⟩).2.dirty = true ∨
      (p.handled (inputStateWithLogging input) ⟨0, list, dirty⟩).1 =
          p.answered (lastGiven given) ∧
        ∀ q, inputStateGetLast (p.handled (inputStateWithLogging input) ⟨0, list, dirty⟩).2.list q =
          lastGiven given q := by
  refine Asking.handled_unless (fun l : Logging => l.dirty = true)
    (fun l => ∀ q, inputStateGetLast l.list q = lastGiven given q) ?_ ?_ p ?_
  · exact logged_dirty input
  · intro l q hlist
    by_cases hchange : input l.asked q ≠ inputStateGetLast l.list q
    · left
      unfold inputStateWithLogging
      exact if_pos hchange
    · right
      have hsame := not_not.mp hchange
      refine ⟨hsame.trans (hlist q), ?_⟩
      intro q'
      unfold inputStateWithLogging
      dsimp only
      split_ifs
      · rw [inputStateGetLast_setLast]
        split_ifs with heq
        · rw [heq, hsame, hlist]
        · exact hlist q'
      · exact hlist q'
  · exact h.answers

theorem logged_played (r : Runloop σ φ δ) {p : Played σ} (hcurrent : r.currentCore = p.state)
    (h : Remembers r.inputStateList p.given) :
    let ended := (core.retroRun r.currentCore).handled (inputStateWithLogging input)
      ⟨0, r.inputStateList, r.inputIsDirty⟩
    ended.1.1 = (p.frame core input).state ∧
      Remembers ended.2.list (p.frame core input).given := by
  have hkeep : ∀ (l : Logging) (s : ℕ × List (Query × Int16)) (q : Query),
      (l.asked = s.1 ∧ Remembers l.list s.2) →
        (inputStateWithLogging input l q).1 = input s.1 q ∧
          (inputStateWithLogging input l q).2.asked = s.1 + 1 ∧
            Remembers (inputStateWithLogging input l q).2.list ((q, input s.1 q) :: s.2) := by
    rintro l ⟨n, given⟩ q ⟨rfl, hlist⟩
    exact ⟨rfl, rfl, hlist.log q (input l.asked q)⟩
  obtain ⟨hresult, -, hremembers⟩ := Asking.handled_related
    (g := fun (s : ℕ × List (Query × Int16)) q =>
      (input s.1 q, (s.1 + 1, (q, input s.1 q) :: s.2)))
    (fun (l : Logging) s => l.asked = s.1 ∧ Remembers l.list s.2) hkeep (core.retroRun p.state)
    (s := ⟨0, r.inputStateList, r.inputIsDirty⟩) (t := (0, p.given)) ⟨rfl, h⟩
  rw [hcurrent]
  exact ⟨congrArg Prod.fst hresult, hremembers⟩

theorem coreRun_hidden {r : Runloop σ φ δ} {p : Played σ} (hhooked : r.hooked = true)
    (hactive : r.videoDriverActive = false) (hcurrent : r.currentCore = p.state)
    (h : Remembers r.inputStateList p.given) :
    ∃ list dirty, coreRun core input r =
        { r with
          currentCore := (p.frame core input).state
          inputStateList := list
          inputIsDirty := dirty } ∧
      Remembers list (p.frame core input).given ∧ (r.inputIsDirty = true → dirty = true) ∧
      (dirty = true ∨
        (p.frame core input).state = ((core.retroRun p.state).answered (lastGiven p.given)).1 ∧
          ∀ q, lastGiven (p.frame core input).given q = lastGiven p.given q) := by
  obtain ⟨hstate, hremembers⟩ := logged_played core input r hcurrent h
  have hclean := logged_clean input (core.retroRun r.currentCore) r.inputStateList h
    r.inputIsDirty
  refine ⟨_, ((core.retroRun r.currentCore).handled (inputStateWithLogging input)
    ⟨0, r.inputStateList, r.inputIsDirty⟩).2.dirty, ?_, hremembers, ?_, ?_⟩
  · unfold coreRun
    rw [if_pos hhooked]
    dsimp only
    unfold videoDriverFrame
    rw [if_neg (by rw [hactive]; exact Bool.false_ne_true), hstate]
  · intro hdirty
    exact Asking.handled_invariant (I := fun l : Logging => l.dirty = true) (logged_dirty input)
      (core.retroRun r.currentCore) hdirty
  · rcases hclean with hdirty | ⟨hresult, hanswers⟩
    · exact Or.inl hdirty
    · right
      refine ⟨?_, ?_⟩
      · rw [← hstate, hresult, hcurrent]
      · intro q
        rw [← hremembers.answers q, hanswers q]

end Frame

section Advancing

variable {core : Core σ φ δ} {f g : Query → Int16}

theorem advance_congr (h : ∀ q, f q = g q) (n : ℕ) (s : σ) :
    advance core f n s = advance core g n s := by
  rw [funext h]

theorem advance_succ (n : ℕ) (s : σ) :
    advance core f (n + 1) s = ((core.retroRun (advance core f n s)).answered f).1 := by
  induction n generalizing s with
  | zero => rfl
  | succ n ih => exact ih ((core.retroRun s).answered f).1

theorem frameAhead_succ (n : ℕ) (s : σ) :
    frameAhead core f (n + 2) s =
      frameAhead core f (n + 1) ((core.retroRun s).answered f).1 := rfl

end Advancing

section Loops

variable (core : Core σ φ δ)

/-- Running on with the last inputs shows the last frame, and goes back to the saved state. -/
theorem singleLoop_ahead (input : Input) {r : Runloop σ φ δ} {answers : Query → Int16}
    {data : δ} {s : σ}
    (hactive : r.videoDriverActive = true) (hwas : r.videoDriverIsActive = true)
    (hlist : ∀ q, inputStateGetLast r.inputStateList q = answers q)
    (hsaved : r.saveStateList = some (some data))
    (hload : ∀ t, core.retroUnserialize t data r.saveStateSize = (true, s)) (k left : ℕ) :
    singleLoop core input (k + 1) left r = (.completed, { r with
      currentCore := s
      shown := r.shown ++ [frameAhead core answers (left + 1) r.currentCore]
      videoDriverFrameCount := r.videoDriverFrameCount + 1 }) := by
  have hanswers : inputStateGetLast r.inputStateList = answers := funext hlist
  induction left generalizing r k with
  | zero =>
    unfold singleLoop runaheadCoreRunUseLastInput runaheadLoadState unserializeHook
      videoDriverFrame
    simp [hactive, hsaved, hload, hanswers, frameAhead, advance]
  | succ left ih =>
    have hnext : singleLoop core input (k + 1) (left + 1) r =
        singleLoop core input (k + 1 + 1) left
          { r with currentCore := ((core.retroRun r.currentCore).answered answers).1 } := by
      rw [singleLoop]
      unfold runaheadCoreRunUseLastInput suspendVideo runaheadResumeVideo videoDriverFrame
      simp [hactive, hwas, hanswers]
    rw [hnext, ih]
    · rw [frameAhead_succ]
    · exact hactive
    · exact hwas
    · exact hlist
    · exact hsaved
    · exact hload
    · exact hanswers

theorem suspendedSecondary_ahead {r : Runloop σ φ δ} {answers : Query → Int16} {t : σ}
    (hactive : r.videoDriverActive = true) (hwas : r.videoDriverIsActive = true)
    (hlist : ∀ q, inputStateGetLast r.inputStateList q = answers q)
    (hsecondary : r.secondaryCore = some t) (n : ℕ) :
    suspendedSecondary core n r = { r with secondaryCore := some (advance core answers n t) } := by
  have hanswers : inputStateGetLast r.inputStateList = answers := funext hlist
  induction n generalizing r t with
  | zero =>
    unfold suspendedSecondary
    rw [advance, ← hsecondary]
  | succ n ih =>
    have hnext : runaheadResumeVideo (runaheadRunSecondary core (suspendVideo r)) =
        { r with secondaryCore := some ((core.retroRun t).answered answers).1 } := by
      unfold runaheadRunSecondary secondaryCoreRunUseLastInput secondaryCoreEnsureExists
        suspendVideo runaheadResumeVideo videoDriverFrame
      simp [hactive, hwas, hanswers, hsecondary]
    unfold suspendedSecondary
    rw [hnext, ih]
    · rfl
    · exact hactive
    · exact hwas
    · exact hlist
    · rfl
    · exact hanswers

theorem runaheadRunSecondary_shown {r : Runloop σ φ δ} {answers : Query → Int16} {t : σ}
    (hactive : r.videoDriverActive = true)
    (hlist : ∀ q, inputStateGetLast r.inputStateList q = answers q)
    (hsecondary : r.secondaryCore = some t) :
    runaheadRunSecondary core r = { r with
      secondaryCore := some ((core.retroRun t).answered answers).1
      shown := r.shown ++ [((core.retroRun t).answered answers).2]
      videoDriverFrameCount := r.videoDriverFrameCount + 1 } := by
  have hanswers : inputStateGetLast r.inputStateList = answers := funext hlist
  unfold runaheadRunSecondary secondaryCoreRunUseLastInput secondaryCoreEnsureExists
    videoDriverFrame
  simp [hactive, hanswers, hsecondary]

end Loops

section Modes

variable {core : Core σ φ δ} {N : ℕ} (input : Input)

/-- What a call finds once the hooks are in place. -/
structure Ready (core : Core σ φ δ) (p : Played σ) (r : Runloop σ φ δ) : Prop where
  current : r.currentCore = p.state
  available : r.available = true
  secondaryAvailable : r.secondaryCoreAvailable = true
  active : r.videoDriverActive = true
  remembers : Remembers r.inputStateList p.given
  hooked : r.hooked = true
  known : r.saveStateSizeKnown = true
  wasActive : r.videoDriverIsActive = true
  buffer : r.saveStateList.isSome = true
  size : ∃ s, r.saveStateSize = core.retroSerializeSize s

theorem Exact.saveState (hexact : Exact core) {r : Runloop σ φ δ}
    (hbuffer : r.saveStateList.isSome = true)
    (hsize : ∃ s, r.saveStateSize = core.retroSerializeSize s) :
    ∃ data, runaheadSaveState core r = (true, { r with saveStateList := some (some data) }) ∧
      ∀ t, core.retroUnserialize t data r.saveStateSize = (true, r.currentCore) ∧
        core.retroUnserialize t data (asInt r.saveStateSize) = (true, r.currentCore) := by
  obtain ⟨s, hs⟩ := hsize
  obtain ⟨data, hdata⟩ := hexact.saves s r.currentCore
  obtain ⟨old, hold⟩ := Option.isSome_iff_exists.mp hbuffer
  refine ⟨data, ?_, ?_⟩
  · unfold runaheadSaveState
    rw [hold]
    dsimp only
    rw [hs, hdata]
  · rw [hs]
    exact hexact.loads s r.currentCore data hdata

theorem single_ahead (hexact : Exact core) {p : Played σ} {r : Runloop σ φ δ}
    (h : Ready core p r) :
    ∃ r', singleLoop core input 0 (N + 1) r = (.completed, r') ∧
      Ready core (p.frame core input) r' ∧
      r'.shown = r.shown ++
        [frameAhead core (lastGiven (p.frame core input).given) (N + 1)
          (p.frame core input).state] := by
  obtain ⟨list, dirty, hrun, hremembers, -, -⟩ :=
    coreRun_hidden core input (r := suspendVideo r) h.hooked rfl h.current h.remembers
  set ran : Runloop σ φ δ := { r with
    currentCore := (p.frame core input).state
    inputStateList := list
    inputIsDirty := dirty } with hran
  have hresumed : runaheadResumeVideo (coreRun core input (suspendVideo r)) = ran := by
    rw [hrun, hran]
    unfold runaheadResumeVideo suspendVideo
    rw [h.wasActive, ← h.active]
  obtain ⟨data, hsave, hload⟩ := hexact.saveState (r := ran) h.buffer h.size
  have hfirst : singleLoop core input 0 (N + 1) r =
      singleLoop core input (0 + 1) N { ran with saveStateList := some (some data) } := by
    rw [singleLoop]
    simp only [ne_eq, Nat.succ_ne_zero, not_false_eq_true, if_true, hresumed, hsave]
    rfl
  have hahead := singleLoop_ahead core input
    (r := { ran with saveStateList := some (some data) }) h.active h.wasActive hremembers.answers
    rfl (fun t => (hload t).1) 0 N
  refine ⟨_, hfirst.trans hahead, ?_, rfl⟩
  exact ⟨rfl, h.available, h.secondaryAvailable, h.active, hremembers, h.hooked, h.known,
    h.wasActive, rfl, h.size⟩

/-- The secondary core is `n` frames ahead. -/
def Synced (core : Core σ φ δ) (n : ℕ) (p : Played σ) (r : Runloop σ φ δ) : Prop :=
  r.secondaryCore = some (advance core (lastGiven p.given) n p.state)

theorem Exact.ensureExists (hexact : Exact core) (r : Runloop σ φ δ) :
    ∃ t, secondaryCoreEnsureExists core r = (true, { r with secondaryCore := some t }) ∧
      ∀ u, r.secondaryCore = some u → u = t := by
  unfold secondaryCoreEnsureExists
  rcases hcore : r.secondaryCore with _ | t
  · obtain ⟨t, ht⟩ := Option.isSome_iff_exists.mp hexact.creates
    refine ⟨t, ?_, fun u hu => nomatch hu⟩
    dsimp only
    rw [ht]
  · refine ⟨t, ?_, fun u hu => (Option.some.inj hu).symm⟩
    dsimp only
    rw [← hcore]

/-- Transferring the state and running on brings the secondary core one frame short of where it
has to be. -/
theorem resync_ahead (hexact : Exact core) {p : Played σ} {r : Runloop σ φ δ}
    (h : Ready core p r) {t : σ} (hsecondary : r.secondaryCore = some t) :
    ∃ r', resync core (N + 1) r = (.completed, r') ∧ Ready core p r' ∧ r'.inputIsDirty = false ∧
      Synced core N p r' ∧ r'.shown = r.shown := by
  obtain ⟨data, hsave, hload⟩ :=
    hexact.saveState (r := { r with inputIsDirty := false }) h.buffer h.size
  set saved : Runloop σ φ δ :=
    { r with inputIsDirty := false, saveStateList := some (some data) } with hsaved
  have hloaded : runaheadLoadStateSecondary core saved =
      (true, { saved with secondaryCore := some r.currentCore }) := by
    unfold runaheadLoadStateSecondary secondaryCoreDeserialize secondaryCoreEnsureExists
    simp [hsaved, hsecondary, hload]
  have hahead := suspendedSecondary_ahead core
    (r := { saved with secondaryCore := some r.currentCore }) h.active h.wasActive
    h.remembers.answers rfl N
  have hresync : resync core (N + 1) r = (.completed, { saved with
      secondaryCore := some (advance core (lastGiven p.given) N r.currentCore) }) := by
    unfold resync
    simp only [hsave, hloaded, Bool.true_eq_false, if_false, Nat.add_sub_cancel]
    exact congrArg _ hahead
  refine ⟨_, hresync, ?_, rfl, ?_, rfl⟩
  · exact ⟨h.current, h.available, h.secondaryAvailable, h.active, h.remembers, h.hooked, h.known,
      h.wasActive, rfl, h.size⟩
  · unfold Synced
    rw [h.current]

theorem secondary_ahead (hexact : Exact core) {p : Played σ} {r : Runloop σ φ δ}
    (h : Ready core p r)
    (hsynced : r.forceInputDirty = false → r.inputIsDirty = false → Synced core (N + 1) p r) :
    ∃ r', runWithSecondary core input (N + 1) r = (.completed, r') ∧
      Ready core (p.frame core input) r' ∧ r'.inputIsDirty = false ∧
      Synced core (N + 1) (p.frame core input) r' ∧
      r'.shown = r.shown ++
        [frameAhead core (lastGiven (p.frame core input).given) (N + 1)
          (p.frame core input).state] := by
  obtain ⟨t, hensure, hkept⟩ := hexact.ensureExists r
  set made : Runloop σ φ δ := { r with secondaryCore := some t } with hmade
  obtain ⟨list, dirty, hrun, hremembers, hmarked, hclean⟩ :=
    coreRun_hidden core input (r := suspendVideo made) h.hooked rfl h.current h.remembers
  set ran : Runloop σ φ δ := { made with
    currentCore := (p.frame core input).state
    inputStateList := list
    inputIsDirty := dirty } with hran
  have hresumed : runaheadResumeVideo (coreRun core input (suspendVideo made)) = ran := by
    rw [hrun, hran, hmade]
    unfold runaheadResumeVideo suspendVideo
    dsimp only
    rw [h.wasActive, ← h.active]
  have hready : Ready core (p.frame core input) ran :=
    ⟨rfl, h.available, h.secondaryAvailable, h.active, hremembers, h.hooked, h.known,
      h.wasActive, h.buffer, h.size⟩
  -- either way the secondary core is then one frame short
  obtain ⟨m, hm, hmReady, hmDirty, hmSynced, hmShown⟩ : ∃ m,
      (if ran.inputIsDirty ∨ ran.forceInputDirty then resync core (N + 1) ran
        else (.completed, ran)) = (.completed, m) ∧
      Ready core (p.frame core input) m ∧ m.inputIsDirty = false ∧
      Synced core N (p.frame core input) m ∧ m.shown = r.shown := by
    by_cases hresync : ran.inputIsDirty ∨ ran.forceInputDirty
    · rw [if_pos hresync]
      exact resync_ahead hexact hready rfl
    · rw [if_neg hresync]
      obtain ⟨hnotDirty, hnotForced⟩ := not_or.mp hresync
      refine ⟨ran, rfl, hready, Bool.eq_false_iff.mpr hnotDirty, ?_, rfl⟩
      rcases hclean with hdirty | ⟨hstate, hanswers⟩
      · exact absurd hdirty hnotDirty
      · have hwas := hsynced (Bool.eq_false_iff.mpr hnotForced)
          (Bool.eq_false_iff.mpr fun hd => hnotDirty (hmarked hd))
        have ht := hkept _ hwas
        unfold Synced
        change some t = _
        rw [← ht, hstate, advance_congr hanswers]
        rfl
  have hshown := runaheadRunSecondary_shown core hmReady.active
    hmReady.remembers.answers hmSynced
  have hall : runWithSecondary core input (N + 1) r =
      (.completed, runaheadRunSecondary core m) := by
    unfold runWithSecondary
    simp only [hensure, Bool.true_eq_false, if_false]
    rw [hresumed, hm]
  refine ⟨_, hall, ?_, ?_, ?_, ?_⟩
  · rw [hshown]
    exact ⟨hmReady.current, hmReady.available, hmReady.secondaryAvailable, hmReady.active,
      hmReady.remembers, hmReady.hooked, hmReady.known, hmReady.wasActive, hmReady.buffer,
      hmReady.size⟩
  · rw [hshown]
    exact hmDirty
  · rw [hshown]
    unfold Synced
    rw [advance_succ]
  · rw [hshown]
    dsimp only
    rw [hmShown]
    rfl

end Modes

section Calls

variable {core : Core σ φ δ} {config : Config} {N : ℕ} {useSecondary : Bool}

/-- What holds between calls; with a secondary core, it is as far ahead as it has to be unless
something says that it may not be. -/
structure Ahead (core : Core σ φ δ) (config : Config) (N : ℕ) (useSecondary : Bool)
    (p : Played σ) (r : Runloop σ φ δ) : Prop where
  current : r.currentCore = p.state
  available : r.available = true
  secondaryAvailable : r.secondaryCoreAvailable = true
  active : r.videoDriverActive = true
  remembers : Remembers r.inputStateList p.given
  ready : r.saveStateSizeKnown = true → Ready core p r
  synced : useSecondary = true → config.haveDynamic = true → r.saveStateSizeKnown = true →
    r.forceInputDirty = false → r.inputIsDirty = false → Synced core N p r

theorem initial_ahead (s : σ) :
    Ahead core config N useSecondary ⟨s, []⟩ (Runloop.initial s : Runloop σ φ δ) := by
  refine ⟨rfl, rfl, rfl, rfl, remembers_nil, ?_, ?_⟩
  · intro h
    exact absurd h Bool.false_ne_true
  · intro _ _ h
    exact absurd h Bool.false_ne_true

theorem runaheadCreate_ready (hexact : Exact core) {p : Played σ} {r : Runloop σ φ δ}
    (h : Ahead core config N useSecondary p r) :
    ∃ r', runaheadCreate core r = (true, r') ∧ Ready core p r' ∧ r'.forceInputDirty = true ∧
      r'.shown = r.shown := by
  have hsize : ¬ (core.retroSerializeSize r.currentCore = 0 ∨ true = false) := by
    rintro (hzero | hfalse)
    · exact hexact.size _ hzero
    · exact Bool.false_ne_true hfalse.symm
  refine ⟨_, if_neg hsize, ?_, rfl, rfl⟩
  exact ⟨h.current, h.available, h.secondaryAvailable, h.active, h.remembers, rfl, rfl, h.active,
    rfl, ⟨_, rfl⟩⟩

theorem checkForGui_ready {p : Played σ} {r : Runloop σ φ δ} (h : Ready core p r)
    (frameCount : UInt64) :
    Ready core p (checkForGui frameCount r) ∧ (checkForGui frameCount r).shown = r.shown ∧
      (checkForGui frameCount r).inputIsDirty = r.inputIsDirty ∧
      (checkForGui frameCount r).secondaryCore = r.secondaryCore ∧
      ((checkForGui frameCount r).forceInputDirty = false → r.forceInputDirty = false) := by
  unfold checkForGui
  split_ifs
  · refine ⟨?_, rfl, rfl, rfl, fun hnot => nomatch hnot⟩
    exact ⟨h.current, h.available, h.secondaryAvailable, h.active, h.remembers, h.hooked, h.known,
      h.wasActive, h.buffer, h.size⟩
  · refine ⟨?_, rfl, rfl, rfl, fun hnot => hnot⟩
    exact ⟨h.current, h.available, h.secondaryAvailable, h.active, h.remembers, h.hooked, h.known,
      h.wasActive, h.buffer, h.size⟩

/-- In either mode the frame is played, and the same frame to come is shown. -/
theorem runEitherCore_ahead (hexact : Exact core) (config : Config) (useSecondary : Bool)
    {p : Played σ} {r : Runloop σ φ δ} (input : Input) (h : Ready core p r)
    (hsynced : useSecondary = true → config.haveDynamic = true → r.forceInputDirty = false →
      r.inputIsDirty = false → Synced core (N + 1) p r) :
    ∃ r', runEitherCore core config (N + 1) useSecondary input r = (.completed, r') ∧
      Ready core (p.frame core input) r' ∧
      r'.shown = r.shown ++
        [frameAhead core (lastGiven (p.frame core input).given) (N + 1)
          (p.frame core input).state] ∧
      (useSecondary = true → config.haveDynamic = true →
        Synced core (N + 1) (p.frame core input) r') := by
  unfold runEitherCore
  by_cases hmode : useSecondary = false ∨ config.haveDynamic = false ∨
      r.secondaryCoreAvailable = false
  · rw [if_pos hmode]
    obtain ⟨r', hr', hready, hshown⟩ := single_ahead (N := N) input hexact h
    refine ⟨r', hr', hready, hshown, ?_⟩
    intro huse hdynamic
    rw [huse, hdynamic, h.secondaryAvailable] at hmode
    simp at hmode
  · rw [if_neg hmode]
    obtain ⟨huse, hrest⟩ := not_or.mp hmode
    obtain ⟨hdynamic, -⟩ := not_or.mp hrest
    obtain ⟨r', hr', hready, -, hahead, hshown⟩ := secondary_ahead (N := N) input hexact h
      (hsynced (Bool.eq_true_of_not_eq_false huse) (Bool.eq_true_of_not_eq_false hdynamic))
    exact ⟨r', hr', hready, hshown, fun _ _ => hahead⟩

/-- One call plays one frame, shows the last of the frames to come, and leaves the secondary core
there. -/
theorem doRunahead_ahead (hexact : Exact core) {runaheadCount : ℤ}
    (hcount : 1 ≤ runaheadCount) {p : Played σ} {r : Runloop σ φ δ} (input : Input)
    (h : Ahead core config runaheadCount.toNat useSecondary p r) :
    let r' := doRunahead core config runaheadCount useSecondary input r
    let p' := p.frame core input
    Ahead core config runaheadCount.toNat useSecondary p' r' ∧
      r'.shown = r.shown ++
        [frameAhead core (lastGiven p'.given) runaheadCount.toNat p'.state] ∧
      (useSecondary = true → config.haveDynamic = true →
        Synced core runaheadCount.toNat p' r') := by
  intro r' p'
  obtain ⟨n, hn⟩ : ∃ n, runaheadCount.toNat = n + 1 := ⟨runaheadCount.toNat - 1, by omega⟩
  rw [hn] at h ⊢
  obtain ⟨r₁, hcreated, hready, hsynced, hshown⟩ : ∃ r₁,
      (if r.saveStateSizeKnown then (true, r) else runaheadCreate core r) = (true, r₁) ∧
        Ready core p r₁ ∧
        (useSecondary = true → config.haveDynamic = true → r₁.forceInputDirty = false →
          r₁.inputIsDirty = false → Synced core (n + 1) p r₁) ∧ r₁.shown = r.shown := by
    by_cases hknown : r.saveStateSizeKnown = true
    · refine ⟨r, if_pos hknown, h.ready hknown, ?_, rfl⟩
      intro huse hdynamic
      exact h.synced huse hdynamic hknown
    · obtain ⟨r₁, hcreate, hready, hforced, hshown⟩ := runaheadCreate_ready hexact h
      refine ⟨r₁, (if_neg hknown).trans hcreate, hready, ?_, hshown⟩
      intro _ _ hnot
      rw [hforced] at hnot
      exact absurd hnot.symm Bool.false_ne_true
  obtain ⟨hcounted, hcountedShown, hcountedDirty, hcountedCore, hcountedForced⟩ :=
    checkForGui_ready hready r.videoDriverFrameCount
  obtain ⟨r₂, hr₂, hready₂, hshown₂, hsynced₂⟩ := runEitherCore_ahead (N := n) hexact config
    useSecondary input hcounted (by
      intro huse hdynamic hnotForced hnotDirty
      unfold Synced
      rw [hcountedCore]
      exact hsynced huse hdynamic (hcountedForced hnotForced) (hcountedDirty ▸ hnotDirty))
  have hcall : r' = { r₂ with forceInputDirty := false } := by
    have hrun : ¬ (runaheadCount ≤ 0 ∨ r.available = false) := by
      rintro (hle | hnot)
      · omega
      · rw [h.available] at hnot
        exact Bool.false_ne_true hnot.symm
    change doRunahead core config runaheadCount useSecondary input r = _
    unfold doRunahead
    rw [if_neg hrun]
    dsimp only
    rw [hcreated]
    dsimp only
    rw [if_neg (Bool.false_ne_true ∘ Eq.symm), hn, hr₂]
  rw [hcall]
  refine ⟨⟨hready₂.current, hready₂.available, hready₂.secondaryAvailable, hready₂.active,
    hready₂.remembers, ?_, ?_⟩, ?_, ?_⟩
  · intro _
    exact ⟨hready₂.current, hready₂.available, hready₂.secondaryAvailable, hready₂.active,
      hready₂.remembers, hready₂.hooked, hready₂.known, hready₂.wasActive, hready₂.buffer,
      hready₂.size⟩
  · intro huse hdynamic _ _ _
    exact hsynced₂ huse hdynamic
  · rw [← hshown, ← hcountedShown]
    exact hshown₂
  · intro huse hdynamic
    exact hsynced₂ huse hdynamic

theorem step_ahead (hexact : Exact core) {runaheadCount : ℤ} (hcount : 1 ≤ runaheadCount)
    {p : Played σ} {r : Runloop σ φ δ}
    (h : Ahead core config runaheadCount.toNat useSecondary p r) (e : Event δ) :
    Ahead core config runaheadCount.toNat useSecondary (p.step core e)
      (step core config runaheadCount useSecondary r e) := by
  cases e with
  | frame input => exact (doRunahead_ahead hexact hcount input h).1
  | reset =>
    refine ⟨congrArg _ h.current, h.available, h.secondaryAvailable, h.active, h.remembers,
      ?_, ?_⟩
    · intro hknown
      have hr := h.ready hknown
      exact ⟨congrArg _ h.current, hr.available, hr.secondaryAvailable, hr.active, hr.remembers,
        hr.hooked, hr.known, hr.wasActive, hr.buffer, hr.size⟩
    · intro _ _ hknown _ hnotDirty
      exact absurd ((if_pos (h.ready hknown).hooked).symm.trans hnotDirty)
        Bool.false_ne_true.symm
  | load data size =>
    have hstate : (core.retroUnserialize r.currentCore data size).2 =
        (core.retroUnserialize p.state data size).2 := by
      rw [h.current]
    refine ⟨hstate, h.available, h.secondaryAvailable, h.active, h.remembers, ?_, ?_⟩
    · intro hknown
      have hr := h.ready hknown
      exact ⟨hstate, hr.available, hr.secondaryAvailable, hr.active, hr.remembers, hr.hooked,
        hr.known, hr.wasActive, hr.buffer, hr.size⟩
    · intro _ _ hknown _ hnotDirty
      exact absurd ((if_pos (h.ready hknown).hooked).symm.trans hnotDirty)
        Bool.false_ne_true.symm
  | menuFrame =>
    refine ⟨h.current, h.available, h.secondaryAvailable, h.active, h.remembers, ?_, h.synced⟩
    intro hknown
    have hr := h.ready hknown
    exact ⟨hr.current, hr.available, hr.secondaryAvailable, hr.active, hr.remembers, hr.hooked,
      hr.known, hr.wasActive, hr.buffer, hr.size⟩

end Calls

section Runs

variable (core : Core σ φ δ) (config : Config) (runaheadCount : ℤ) (useSecondary : Bool)

/-- The frames that are shown from now on. -/
def framesShown (core : Core σ φ δ) (n : ℕ) (p : Played σ) : List (Event δ) → List φ
  | [] => []
  | .frame input :: events =>
    let p' := p.frame core input
    frameAhead core (lastGiven p'.given) n p'.state :: framesShown core n p' events
  | e :: events => framesShown core n (p.step core e) events

theorem run_ahead (hexact : Exact core) (hcount : 1 ≤ runaheadCount) {p : Played σ}
    {r : Runloop σ φ δ} (h : Ahead core config runaheadCount.toNat useSecondary p r)
    (events : List (Event δ)) :
    Ahead core config runaheadCount.toNat useSecondary (events.foldl (Played.step core) p)
        (events.foldl (step core config runaheadCount useSecondary) r) ∧
      (events.foldl (step core config runaheadCount useSecondary) r).shown =
        r.shown ++ framesShown core runaheadCount.toNat p events := by
  induction events generalizing p r with
  | nil => exact ⟨h, (List.append_nil _).symm⟩
  | cons e events ih =>
    have hnext := step_ahead hexact hcount h e
    obtain ⟨hlast, hshown⟩ := ih hnext
    refine ⟨hlast, hshown.trans ?_⟩
    cases e with
    | frame input =>
      have hframe := (doRunahead_ahead hexact hcount input h).2.1
      change (doRunahead core config runaheadCount useSecondary input r).shown ++ _ = _
      rw [hframe, List.append_assoc]
      rfl
    | reset => rfl
    | load data size => rfl
    | menuFrame => rfl

/-- A core that adds up a button. -/
def adder : Core Int16 Int16 Int16 where
  retroRun s := .ask ⟨0, 1, 0, 8⟩ fun pressed => .done (s + pressed, s)
  retroReset _ := 0
  retroSerializeSize _ := 2
  retroSerialize s _ := some s
  retroUnserialize _ data _ := (true, data)
  secondaryCoreCreate := some 0

theorem adder_exact : Exact adder := by
  refine ⟨fun _ => two_ne_zero, fun _ s => ⟨s, rfl⟩, ?_, rfl⟩
  intro _ s data hdata t
  obtain rfl := Option.some.inj hdata
  exact ⟨rfl, rfl⟩

end Runs

end RetroArch.RunAhead
