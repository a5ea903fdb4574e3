/- Commands for everyone over sockets that do not fail. -/

import RetroArch.Netplay.Sync

namespace RetroArch.Netplay.Queueing

open State Io Command Sync

variable {σ : Type}

/-- A connection that plays, with a socket that never fails. -/
structure Healthy (c : Connection) : Prop where
  active : c.active = true
  playing : c.mode = .playing
  sound : c.sendFaults = []

def Sound (np : NetplayT σ) : Prop :=
  ∀ i < np.connections.length, Healthy (np.connection i)

def enqueue (m : Message) (c : Connection) : Connection :=
  { c with sendPacketBuffer := c.sendPacketBuffer ++ [m] }

theorem Healthy.enqueue {c : Connection} (h : Healthy c) (m : Message) : Healthy (enqueue m c) :=
  ⟨h.active, h.playing, h.sound⟩

/-- The connections that `who` names have been sent `m`, and nothing else has happened. -/
structure Queued (who : ℕ → Bool) (m : Message) (np np' : NetplayT σ) : Prop where
  length : np'.connections.length = np.connections.length
  connection : ∀ i < np.connections.length,
    np'.connection i = if who i then enqueue m (np.connection i) else np.connection i
  isServer : np'.isServer = np.isServer
  localPaused : np'.localPaused = np.localPaused
  remotePaused : np'.remotePaused = np.remotePaused

variable {np np' : NetplayT σ} {m : Message} {who : ℕ → Bool}

theorem Queued.sound (h : Queued who m np np') (hsound : Sound np) : Sound np' := by
  intro i hi
  rw [h.length] at hi
  rw [h.connection i hi]
  split_ifs
  · exact (hsound i hi).enqueue m
  · exact hsound i hi

theorem queued_none (np : NetplayT σ) (m : Message) : Queued (fun _ => false) m np np :=
  ⟨rfl, fun _ _ => rfl, rfl, rfl, rfl⟩

theorem netplaySendRawCmd_sound {i : ℕ} (hsound : Sound np) (hi : i < np.connections.length)
    (m : Message) :
    (netplaySendRawCmd np i m).1 = true ∧
      Queued (fun j => decide (j = i)) m np (netplaySendRawCmd np i m).2 := by
  have hfaults := (hsound i hi).sound
  have hok : ¬ (np.connection i).sendFaults.headD false = true := by
    rw [hfaults]
    exact Bool.false_ne_true
  unfold netplaySendRawCmd
  rw [if_neg hok]
  refine ⟨rfl, NetplayT.setConnection_length _ _ _, ?_, rfl, rfl, rfl⟩
  intro j hj
  by_cases hji : j = i
  · subst hji
    rw [NetplayT.connection_setConnection np _ hj, decide_eq_true rfl, if_pos rfl]
    unfold enqueue
    rw [hfaults, List.tail_nil, ← hfaults]
  · rw [NetplayT.connection_setConnection_ne np _ (Ne.symm hji), decide_eq_false hji,
      if_neg Bool.false_ne_true]

theorem netplaySendFlush_sound {i : ℕ} (hsound : Sound np) (hi : i < np.connections.length)
    (m : Message) :
    (netplaySendFlush np i).1 = true ∧ Queued (fun _ => false) m np (netplaySendFlush np i).2 := by
  have hfaults := (hsound i hi).sound
  unfold netplaySendFlush
  refine ⟨?_, NetplayT.setConnection_length _ _ _, ?_, rfl, rfl, rfl⟩
  · rw [hfaults]
    rfl
  · intro j hj
    by_cases hji : j = i
    · subst hji
      rw [NetplayT.connection_setConnection np _ hj, if_neg Bool.false_ne_true, hfaults,
        List.tail_nil, ← hfaults]
    · rw [NetplayT.connection_setConnection_ne np _ (Ne.symm hji), if_neg Bool.false_ne_true]

theorem Queued.trans_none {np'' : NetplayT σ} (h : Queued who m np np')
    (h' : Queued (fun _ => false) m np' np'') : Queued who m np np'' := by
  refine ⟨h'.length.trans h.length, ?_, h'.isServer.trans h.isServer,
    h'.localPaused.trans h.localPaused, h'.remotePaused.trans h.remotePaused⟩
  intro i hi
  rw [h'.connection i (by rw [h.length]; exact hi), if_neg Bool.false_ne_true]
  exact h.connection i hi

theorem reaches_sound {except : Option ℕ} {i : ℕ} (hsound : Sound np)
    (hi : i < np.connections.length) : reaches np except i = decide (except ≠ some i) := by
  rw [reaches, (hsound i hi).active, (hsound i hi).playing]
  simp [ConnectionMode.ready]

theorem foldl_queued {f : NetplayT σ → ℕ → NetplayT σ}
    (hf : ∀ np i, Sound np → i < np.connections.length →
      Queued (fun j => decide (j = i) && who i) m np (f np i))
    (hsound : Sound np) {k : ℕ} (hk : k ≤ np.connections.length) :
    Queued (fun j => decide (j < k) && who j) m np ((List.range k).foldl f np) := by
  induction k with
  | zero =>
    refine ⟨rfl, ?_, rfl, rfl, rfl⟩
    intro i _
    rw [decide_eq_false (Nat.not_lt_zero i), Bool.false_and, if_neg Bool.false_ne_true]
    rfl
  | succ k ih =>
    have hbefore := ih (Nat.le_of_succ_le hk)
    rw [List.range_succ, List.foldl_append]
    set before := (List.range k).foldl f np with hbeforeEq
    have hlast := hf before k (hbefore.sound hsound) (by rw [hbefore.length]; omega)
    refine ⟨hlast.length.trans hbefore.length, ?_, hlast.isServer.trans hbefore.isServer,
      hlast.localPaused.trans hbefore.localPaused,
      hlast.remotePaused.trans hbefore.remotePaused⟩
    intro i hi
    change (f before k).connection i = _
    rw [hlast.connection i (by rw [hbefore.length]; exact hi), hbefore.connection i hi]
    rcases Nat.lt_trichotomy i k with hless | rfl | hmore
    · rw [decide_eq_false (by omega : ¬ i = k), decide_eq_true hless,
        decide_eq_true (by omega : i < k + 1), Bool.false_and, if_neg Bool.false_ne_true]
    · rw [decide_eq_true rfl, decide_eq_false (lt_irrefl i),
        decide_eq_true (Nat.lt_succ_self i), Bool.true_and, Bool.false_and,
        if_neg Bool.false_ne_true]
    · rw [decide_eq_false (by omega : ¬ i = k), decide_eq_false (by omega : ¬ i < k),
        decide_eq_false (by omega : ¬ i < k + 1), Bool.false_and, if_neg Bool.false_ne_true,
        Bool.false_and, if_neg Bool.false_ne_true]

theorem Queued.congr {who' : ℕ → Bool} (h : Queued who m np np')
    (hto : ∀ i < np.connections.length, who i = who' i) : Queued who' m np np' := by
  refine ⟨h.length, ?_, h.isServer, h.localPaused, h.remotePaused⟩
  intro i hi
  rw [h.connection i hi, hto i hi]

theorem netplaySendRawCmdAll_sound (hsound : Sound np) (except : Option ℕ) (m : Message) :
    Queued (fun i => decide (except ≠ some i)) m np (netplaySendRawCmdAll np except m) := by
  have hfold : Queued (fun j => decide (j < np.connections.length) && decide (except ≠ some j)) m
      np (netplaySendRawCmdAll np except m) := by
    apply foldl_queued _ hsound le_rfl
    intro np i hsound hi
    rw [reaches_sound hsound hi]
    by_cases hreach : decide (except ≠ some i) = true
    · rw [if_pos hreach, hreach]
      obtain ⟨hok, hqueued⟩ := netplaySendRawCmd_sound hsound hi m
      rcases hres : netplaySendRawCmd np i m with ⟨ok, np'⟩
      rw [hres] at hok hqueued
      dsimp only at hok hqueued
      rw [hok]
      exact hqueued.congr fun j _ => (Bool.and_true _).symm
    · rw [if_neg hreach, Bool.eq_false_iff.mpr hreach]
      exact (queued_none np m).congr fun j _ => (Bool.and_false _).symm
  apply hfold.congr
  intro i hi
  rw [decide_eq_true hi, Bool.true_and]

theorem netplaySendFlushAll_sound (hsound : Sound np) (except : Option ℕ) (m : Message) :
    Queued (fun _ => false) m np (netplaySendFlushAll np except) := by
  have hfold : Queued (fun j => decide (j < np.connections.length) && false) m np
      (netplaySendFlushAll np except) := by
    apply foldl_queued _ hsound le_rfl
    intro np i hsound hi
    rw [reaches_sound hsound hi]
    by_cases hreach : decide (except ≠ some i) = true
    · rw [if_pos hreach]
      obtain ⟨hok, hqueued⟩ := netplaySendFlush_sound hsound hi m
      rcases hres : netplaySendFlush np i with ⟨ok, np'⟩
      rw [hres] at hok hqueued
      dsimp only at hok hqueued
      rw [hok]
      exact hqueued.congr fun j _ => (Bool.and_false _).symm
    · rw [if_neg hreach]
      exact (queued_none np m).congr fun j _ => (Bool.and_false _).symm
  apply hfold.congr
  intro i _
  rw [Bool.and_false]

end RetroArch.Netplay.Queueing
