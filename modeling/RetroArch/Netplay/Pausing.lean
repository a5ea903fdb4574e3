/- What a server and its playing clients know about each other's pauses. -/

import RetroArch.Netplay.Queueing

namespace RetroArch.Netplay.Pausing

open Library.Run State Io Command Sync Queueing Reading

variable {σ : Type}

/-- PAUSE after its nick has been read. -/
def receivePause (np : NetplayT σ) (i : ℕ) : NetplayT σ :=
  if (np.connection i).mode ≠ .playing then np
  else
    let np := np.setConnection i fun c => { c with paused := true }
    let np := { np with remotePaused := true }
    if np.isServer then
      let np := netplaySendRawCmdAll np (some i) (.pause (nickField (np.connection i).nick))
      netplaySendFlushAll np (some i)
    else np

/-- What a delivered command does; those that are not about pausing are not followed here. -/
def receive (np : NetplayT σ) (i : ℕ) : Message → NetplayT σ
  | .pause _ => receivePause np i
  | .resume => remoteUnpaused np i
  | _ => np

/-- A server and the clients of its connections. The commands in flight are those in the send
buffers: of the connection at the server, and of the one connection at the client. -/
structure Net (σ : Type) where
  server : NetplayT σ
  clients : ℕ → NetplayT σ

def Net.size (net : Net σ) : ℕ := net.server.connections.length

/-- The head of a send buffer. -/
def takeMessage (np : NetplayT σ) (i : ℕ) : Option (Message × NetplayT σ) :=
  match (np.connection i).sendPacketBuffer with
  | [] => none
  | m :: rest => some (m, np.setConnection i fun c => { c with sendPacketBuffer := rest })

inductive Event
  | serverLocal (paused : Bool)
  | clientLocal (i : ℕ) (paused : Bool)
  | toServer (i : ℕ)
  | toClient (i : ℕ)
  deriving DecidableEq, Repr

def step (net : Net σ) : Event → Option (Net σ)
  | .serverLocal paused => some { net with server := netplayFrontendPaused net.server paused }
  | .clientLocal i paused =>
    if i < net.size then
      some { net with
        clients := Function.update net.clients i (netplayFrontendPaused (net.clients i) paused) }
    else none
  | .toServer i =>
    if i < net.size then
      (takeMessage (net.clients i) 0).map fun (m, client) =>
        ⟨receive net.server i m, Function.update net.clients i client⟩
    else none
  | .toClient i =>
    if i < net.size then
      (takeMessage net.server i).map fun (m, server) =>
        ⟨server, Function.update net.clients i (receive (net.clients i) 0 m)⟩
    else none

/-- What a command says about pausing. -/
def signal : Message → Option Bool
  | .pause _ => some true
  | .resume => some false
  | _ => none

def signals (np : NetplayT σ) (i : ℕ) : List Bool :=
  (np.connection i).sendPacketBuffer.filterMap signal

/-- No PAUSE or RESUME is in flight. -/
def Quiet (net : Net σ) : Prop :=
  ∀ i < net.size, signals net.server i = [] ∧ signals (net.clients i) 0 = []

/-- Everyone waits exactly for those that are paused. -/
def Agreed (net : Net σ) : Prop :=
  (∀ i < net.size, (net.clients i).remotePaused = true ↔
    net.server.localPaused = true ∨
      ∃ j < net.size, j ≠ i ∧ (net.clients j).localPaused = true) ∧
  (net.server.remotePaused = true ↔ ∃ j < net.size, (net.clients j).localPaused = true)

instance (net : Net σ) : Decidable (Quiet net) :=
  inferInstanceAs (Decidable (∀ i < net.size, _))

instance (net : Net σ) : Decidable (Agreed net) :=
  inferInstanceAs (Decidable ((∀ i < net.size, _ ↔ _ ∨ ∃ j < net.size, _) ∧
    (_ ↔ ∃ j < net.size, _)))

/-- All clients play, nobody is paused and nothing is known to the contrary. -/
structure Idle (net : Net σ) : Prop where
  server : Sound net.server ∧ net.server.isServer = true ∧ net.server.localPaused = false ∧
    net.server.remotePaused = false
  connections : ∀ i < net.size, (net.server.connection i).paused = false ∧
    signals net.server i = []
  clients : ∀ i < net.size, Sound (net.clients i) ∧ (net.clients i).connections.length = 1 ∧
    (net.clients i).isServer = false ∧ (net.clients i).localPaused = false ∧
    (net.clients i).remotePaused = false ∧ signals (net.clients i) 0 = []

section Effects

/-- What a function does to pauses and to the PAUSE and RESUME commands in flight. -/
structure Effect (np np' : NetplayT σ) (paused : ℕ → Bool) (sent : ℕ → List Bool) : Prop where
  sound : Sound np'
  length : np'.connections.length = np.connections.length
  isServer : np'.isServer = np.isServer
  paused : ∀ i < np.connections.length, (np'.connection i).paused = paused i
  sent : ∀ i < np.connections.length, signals np' i = signals np i ++ sent i

variable {np np' : NetplayT σ} {m : Message} {b : Bool} {who : ℕ → Bool}

theorem signals_enqueue (m : Message) (c : Connection) :
    (enqueue m c).sendPacketBuffer.filterMap signal =
      c.sendPacketBuffer.filterMap signal ++ (signal m).toList := by
  unfold enqueue
  rw [List.filterMap_append]
  rcases hsignal : signal m with _ | b
  · rw [List.filterMap_cons_none hsignal]
    rfl
  · rw [List.filterMap_cons_some hsignal]
    rfl

theorem Queued.effect (h : Queued who m np np') (hsound : Sound np) (hm : signal m = some b) :
    Effect np np' (fun i => (np.connection i).paused) fun i => if who i then [b] else [] := by
  refine ⟨h.sound hsound, h.length, h.isServer, ?_, ?_⟩
  · intro i hi
    rw [h.connection i hi]
    split_ifs
    · rfl
    · rfl
  · intro i hi
    rw [signals, signals, h.connection i hi]
    split_ifs
    · rw [signals_enqueue, hm]
      rfl
    · rw [List.append_nil]

theorem setPaused_sound (hsound : Sound np) (i : ℕ) (b : Bool) :
    Sound (np.setConnection i fun c => { c with paused := b }) := by
  intro j hj
  rw [NetplayT.setConnection_length] at hj
  have hold := hsound j hj
  have hactive := NetplayT.view_setConnection (fun c => c.active) np i j
    (f := fun c => { c with paused := b }) (fun _ => rfl)
  have hmode := NetplayT.view_setConnection (fun c => c.mode) np i j
    (f := fun c => { c with paused := b }) (fun _ => rfl)
  have hfaults := NetplayT.view_setConnection (fun c => c.sendFaults) np i j
    (f := fun c => { c with paused := b }) (fun _ => rfl)
  exact ⟨hactive.trans hold.active, hmode.trans hold.playing, hfaults.trans hold.sound⟩

theorem setPaused_paused {i j : ℕ} (hj : j < np.connections.length) (b : Bool) :
    ((np.setConnection i fun c => { c with paused := b }).connection j).paused =
      if j = i then b else (np.connection j).paused := by
  split_ifs with hji
  · subst hji
    rw [NetplayT.connection_setConnection np _ hj]
  · rw [NetplayT.connection_setConnection_ne np _ (Ne.symm hji)]

theorem setPaused_signals (i j : ℕ) (b : Bool) :
    signals (np.setConnection i fun c => { c with paused := b }) j = signals np j := by
  have hbuffer := NetplayT.view_setConnection (fun c => c.sendPacketBuffer) np i j
    (f := fun c => { c with paused := b }) (fun _ => rfl)
  rw [signals, hbuffer, signals]

theorem Effect.trans {np'' : NetplayT σ} {paused paused' : ℕ → Bool} {sent sent' : ℕ → List Bool}
    (h : Effect np np' paused sent) (h' : Effect np' np'' paused' sent') :
    Effect np np'' paused' fun i => sent i ++ sent' i := by
  refine ⟨h'.sound, h'.length.trans h.length, h'.isServer.trans h.isServer, ?_, ?_⟩
  · intro i hi
    exact h'.paused i (by rw [h.length]; exact hi)
  · intro i hi
    rw [h'.sent i (by rw [h.length]; exact hi), h.sent i hi, List.append_assoc]

theorem setPaused_effect (hsound : Sound np) (i : ℕ) (b : Bool) :
    Effect np (np.setConnection i fun c => { c with paused := b })
      (fun j => if j = i then b else (np.connection j).paused) fun _ => [] := by
  refine ⟨setPaused_sound hsound i b, NetplayT.setConnection_length _ _ _, rfl, ?_, ?_⟩
  · intro j hj
    exact setPaused_paused hj b
  · intro j _
    rw [setPaused_signals, List.append_nil]

theorem Effect.congr {np'' : NetplayT σ} {paused : ℕ → Bool} {sent : ℕ → List Bool}
    (h : Effect np np' paused sent) (hconnections : np''.connections = np'.connections)
    (hserver : np''.isServer = np'.isServer) : Effect np np'' paused sent := by
  have hconnection : ∀ i, np''.connection i = np'.connection i := by
    intro i
    rw [NetplayT.connection, hconnections, NetplayT.connection]
  refine ⟨?_, ?_, hserver.trans h.isServer, ?_, ?_⟩
  · intro i hi
    rw [hconnections] at hi
    rw [hconnection]
    exact h.sound i hi
  · rw [hconnections]
    exact h.length
  · intro i hi
    rw [hconnection]
    exact h.paused i hi
  · intro i hi
    rw [signals, hconnection]
    exact h.sent i hi

theorem receivePause_server (hsound : Sound np) (hserver : np.isServer = true) {i : ℕ}
    (hi : i < np.connections.length) :
    Effect np (receivePause np i) (fun j => decide (j = i) || (np.connection j).paused)
        (fun j => if j = i then [] else [true]) ∧
      (receivePause np i).localPaused = np.localPaused ∧
      (receivePause np i).remotePaused = true := by
  set marked : NetplayT σ :=
    { (np.setConnection i fun c => { c with paused := true }) with remotePaused := true }
    with hmarked
  have heq : receivePause np i = netplaySendFlushAll (netplaySendRawCmdAll marked (some i)
      (.pause (nickField (marked.connection i).nick))) (some i) := by
    unfold receivePause
    rw [if_neg (not_not.mpr (hsound i hi).playing)]
    exact if_pos hserver
  have hmark : Effect np marked (fun j => if j = i then true else (np.connection j).paused)
      fun _ => [] := (setPaused_effect hsound i true).congr rfl rfl
  have hsend := netplaySendRawCmdAll_sound hmark.sound (some i)
    (.pause (nickField (marked.connection i).nick))
  set sent := netplaySendRawCmdAll marked (some i) (.pause (nickField (marked.connection i).nick))
  have hflush := netplaySendFlushAll_sound (hsend.sound hmark.sound) (some i)
    (.pause (nickField (marked.connection i).nick))
  have hboth := hsend.trans_none hflush
  rw [heq]
  have heffect := hmark.trans (Queued.effect hboth hmark.sound (b := true) rfl)
  refine ⟨⟨heffect.sound, heffect.length, heffect.isServer, ?_, ?_⟩, hboth.localPaused,
    hboth.remotePaused⟩
  · intro j hj
    rw [heffect.paused j hj, hmark.paused j hj]
    by_cases hji : j = i
    · rw [if_pos hji, decide_eq_true hji, Bool.true_or]
    · rw [if_neg hji, decide_eq_false hji, Bool.false_or]
  · intro j hj
    rw [heffect.sent j hj, List.nil_append]
    by_cases hji : j = i
    · have hnot : decide (some i ≠ some j) = false := decide_eq_false (by rw [hji]; simp)
      rw [hnot, if_pos hji, if_neg Bool.false_ne_true]
    · have hto : decide (some i ≠ some j) = true := by
        apply decide_eq_true
        intro heq
        exact hji (Option.some.inj heq).symm
      rw [hto, if_neg hji, if_pos rfl]

theorem receivePause_client (hsound : Sound np) (hclient : np.isServer = false) {i : ℕ}
    (hi : i < np.connections.length) :
    Effect np (receivePause np i) (fun j => if j = i then true else (np.connection j).paused)
        (fun _ => []) ∧
      (receivePause np i).localPaused = np.localPaused ∧
      (receivePause np i).remotePaused = true := by
  have heq : receivePause np i =
      { (np.setConnection i fun c => { c with paused := true }) with remotePaused := true } := by
    unfold receivePause
    rw [if_neg (not_not.mpr (hsound i hi).playing)]
    exact if_neg (by rw [NetplayT.setConnection]; exact Bool.eq_false_iff.mp hclient)
  rw [heq]
  exact ⟨(setPaused_effect hsound i true).congr rfl rfl, rfl, rfl⟩

theorem any_paused (hsound : Sound np) :
    (np.connections.any fun c => c.active && c.paused) = true ↔
      ∃ j < np.connections.length, (np.connection j).paused = true := by
  rw [List.any_eq_true]
  constructor
  · rintro ⟨c, hc, hpaused⟩
    obtain ⟨j, hj, rfl⟩ := List.getElem_of_mem hc
    refine ⟨j, hj, ?_⟩
    rw [NetplayT.connection, List.getD_eq_getElem _ _ hj]
    exact (Bool.and_eq_true_iff.mp hpaused).2
  · rintro ⟨j, hj, hpaused⟩
    have hactive := (hsound j hj).active
    rw [NetplayT.connection, List.getD_eq_getElem _ _ hj] at hactive hpaused
    exact ⟨np.connections[j], List.getElem_mem hj, by rw [hactive, hpaused]; rfl⟩

/-- RESUME is passed on to everyone else where nobody is paused any more. -/
theorem remoteUnpaused_effect (hsound : Sound np) (i : ℕ) :
    ∃ clear : Bool,
      (clear = true ↔ np.localPaused = false ∧
        ¬ ∃ j < np.connections.length, j ≠ i ∧ (np.connection j).paused = true) ∧
      Effect np (remoteUnpaused np i) (fun j => !decide (j = i) && (np.connection j).paused)
        (fun j => if clear && !decide (j = i) then [false] else []) ∧
      (remoteUnpaused np i).localPaused = np.localPaused ∧
      ((remoteUnpaused np i).remotePaused = true ↔
        ∃ j < np.connections.length, j ≠ i ∧ (np.connection j).paused = true) := by
  set cleared := np.setConnection i fun c => { c with paused := false } with hcleared
  set marked : NetplayT σ :=
    { cleared with remotePaused := cleared.connections.any fun sc => sc.active && sc.paused }
    with hmarked
  have hlength : cleared.connections.length = np.connections.length :=
    NetplayT.setConnection_length _ _ _
  have hpaused : ∀ j < np.connections.length, (cleared.connection j).paused = true ↔
      j ≠ i ∧ (np.connection j).paused = true := by
    intro j hj
    rw [hcleared, setPaused_paused hj]
    by_cases hji : j = i
    · rw [if_pos hji]
      exact iff_of_false Bool.false_ne_true fun h => h.1 hji
    · rw [if_neg hji]
      exact (and_iff_right hji).symm
  have hany : marked.remotePaused = true ↔
      ∃ j < np.connections.length, j ≠ i ∧ (np.connection j).paused = true := by
    change (cleared.connections.any fun sc => sc.active && sc.paused) = true ↔ _
    rw [any_paused (setPaused_sound hsound i false), hlength]
    constructor
    · rintro ⟨j, hj, h⟩
      exact ⟨j, hj, (hpaused j hj).mp h⟩
    · rintro ⟨j, hj, h⟩
      exact ⟨j, hj, (hpaused j hj).mpr h⟩
  have hmark : Effect np marked (fun j => if j = i then false else (np.connection j).paused)
      fun _ => [] := (setPaused_effect hsound i false).congr rfl rfl
  have hflag : ∀ j, (if j = i then false else (np.connection j).paused) =
      (!decide (j = i) && (np.connection j).paused) := by
    intro j
    by_cases hji : j = i
    · rw [if_pos hji, decide_eq_true hji, Bool.not_true, Bool.false_and]
    · rw [if_neg hji, decide_eq_false hji, Bool.not_false, Bool.true_and]
  have heq : remoteUnpaused np i =
      if marked.remotePaused = false ∧ marked.localPaused = false then
        netplaySendRawCmdAll marked (some i) .resume
      else marked := rfl
  by_cases hclear : marked.remotePaused = false ∧ marked.localPaused = false
  · refine ⟨true, ⟨fun _ => ⟨hclear.2, ?_⟩, fun _ => rfl⟩, ?_⟩
    · rw [← hany, hclear.1]
      exact Bool.false_ne_true
    rw [heq, if_pos hclear]
    have hsend := netplaySendRawCmdAll_sound hmark.sound (some i) .resume
    have heffect := hmark.trans (Queued.effect hsend hmark.sound (b := false) rfl)
    refine ⟨⟨heffect.sound, heffect.length, heffect.isServer, ?_, ?_⟩, hsend.localPaused, ?_⟩
    · intro j hj
      rw [heffect.paused j hj, hmark.paused j hj, hflag]
    · intro j hj
      rw [heffect.sent j hj, List.nil_append, Bool.true_and]
      by_cases hji : j = i
      · have hnot : decide (some i ≠ some j) = false := decide_eq_false (by rw [hji]; simp)
        rw [hnot, decide_eq_true hji, Bool.not_true]
      · have hto : decide (some i ≠ some j) = true := by
          apply decide_eq_true
          intro hsame
          exact hji (Option.some.inj hsame).symm
        rw [hto, decide_eq_false hji, Bool.not_false]
    · rw [hsend.remotePaused]
      exact hany
  · refine ⟨false, ⟨fun h => absurd h Bool.false_ne_true, fun h => absurd ?_ hclear⟩, ?_⟩
    · exact ⟨Bool.eq_false_iff.mpr (mt hany.mp h.2), h.1⟩
    rw [heq, if_neg hclear]
    refine ⟨⟨hmark.sound, hmark.length, hmark.isServer, ?_, ?_⟩, rfl, hany⟩
    · intro j hj
      rw [hmark.paused j hj, hflag]
    · intro j hj
      rw [hmark.sent j hj, Bool.false_and, if_neg Bool.false_ne_true]

/-- Two different connections are paused. -/
def SeveralPaused (np : NetplayT σ) : Prop :=
  ∃ j k, j < k ∧ k < np.connections.length ∧ (np.connection j).paused = true ∧
    (np.connection k).paused = true

theorem countP_pos_iff_getElem? {α : Type} (p : α → Bool) (l : List α) :
    0 < l.countP p ↔ ∃ (k : ℕ) (a : α), l[k]? = some a ∧ p a = true := by
  rw [List.countP_pos_iff]
  constructor
  · rintro ⟨a, ha, hp⟩
    obtain ⟨k, hk⟩ := List.mem_iff_getElem?.mp ha
    exact ⟨k, a, hk, hp⟩
  · rintro ⟨k, a, hk, hp⟩
    exact ⟨a, List.mem_of_getElem? hk, hp⟩

theorem one_lt_countP_iff {α : Type} (p : α → Bool) (l : List α) :
    1 < l.countP p ↔ ∃ (j k : ℕ) (a b : α), j < k ∧ l[j]? = some a ∧ l[k]? = some b ∧
      p a = true ∧ p b = true := by
  induction l with
  | nil =>
    constructor
    · intro h
      exact absurd h (Nat.not_lt_zero _)
    · rintro ⟨j, k, a, b, -, ha, -⟩
      exact nomatch ha
  | cons x l ih =>
    constructor
    · intro h
      by_cases hx : p x = true
      · rw [List.countP_cons_of_pos hx] at h
        obtain ⟨k, b, hk, hb⟩ := (countP_pos_iff_getElem? p l).mp (by omega)
        exact ⟨0, k + 1, x, b, Nat.succ_pos k, rfl, hk, hx, hb⟩
      · rw [List.countP_cons_of_neg hx] at h
        obtain ⟨j, k, a, b, hjk, ha, hb, hpa, hpb⟩ := ih.mp h
        exact ⟨j + 1, k + 1, a, b, Nat.succ_lt_succ hjk, ha, hb, hpa, hpb⟩
    · rintro ⟨j, k, a, b, hjk, ha, hb, hpa, hpb⟩
      obtain ⟨k, rfl⟩ : ∃ i, k = i + 1 := ⟨k - 1, by omega⟩
      cases j with
      | zero =>
        have hx : p x = true := by
          have hsame : some x = some a := ha
          rw [Option.some.inj hsame]
          exact hpa
        have hpos := (countP_pos_iff_getElem? p l).mpr ⟨k, b, hb, hpb⟩
        rw [List.countP_cons_of_pos hx]
        omega
      | succ j =>
        have hmore := ih.mpr ⟨j, k, a, b, Nat.lt_of_succ_lt_succ hjk, ha, hb, hpa, hpb⟩
        rw [List.countP_cons]
        omega

theorem getElem?_connection {i : ℕ} {c : Connection} :
    np.connections[i]? = some c ↔ i < np.connections.length ∧ np.connection i = c := by
  rw [List.getElem?_eq_some_iff, NetplayT.connection]
  constructor
  · rintro ⟨hi, rfl⟩
    exact ⟨hi, List.getD_eq_getElem _ _ hi⟩
  · rintro ⟨hi, rfl⟩
    exact ⟨hi, (List.getD_eq_getElem _ _ hi).symm⟩

theorem one_lt_paused (hsound : Sound np) :
    1 < (np.connections.countP fun c => c.active && c.paused) ↔ SeveralPaused np := by
  rw [one_lt_countP_iff]
  constructor
  · rintro ⟨j, k, a, b, hjk, ha, hb, hpa, hpb⟩
    obtain ⟨hj, rfl⟩ := getElem?_connection.mp ha
    obtain ⟨hk, rfl⟩ := getElem?_connection.mp hb
    exact ⟨j, k, hjk, hk, (Bool.and_eq_true_iff.mp hpa).2, (Bool.and_eq_true_iff.mp hpb).2⟩
  · rintro ⟨j, k, hjk, hk, hpj, hpk⟩
    refine ⟨j, k, _, _, hjk, getElem?_connection.mpr ⟨hjk.trans hk, rfl⟩,
      getElem?_connection.mpr ⟨hk, rfl⟩, ?_, ?_⟩
    · rw [(hsound j (hjk.trans hk)).active, hpj]
      rfl
    · rw [(hsound k hk).active, hpk]
      rfl

/-- A change of the local pause goes to everyone, unless several others are paused. -/
theorem netplayFrontendPaused_effect (hsound : Sound np) {paused : Bool}
    (hchange : np.localPaused ≠ paused) :
    ∃ quiet : Bool, (quiet = true ↔ SeveralPaused np) ∧
      Effect np (netplayFrontendPaused np paused) (fun j => (np.connection j).paused)
        (fun _ => if quiet then [] else [paused]) ∧
      (netplayFrontendPaused np paused).localPaused = paused ∧
      (netplayFrontendPaused np paused).remotePaused = np.remotePaused := by
  set marked : NetplayT σ := { np with localPaused := paused } with hmarked
  have hmark : Effect np marked (fun j => (np.connection j).paused) fun _ => [] := by
    refine ⟨hsound, rfl, rfl, fun _ _ => rfl, ?_⟩
    intro j _
    rw [List.append_nil]
    rfl
  have hcount := one_lt_paused hsound
  set m := if paused then Message.pause (nickField marked.nick) else .resume with hm
  have heq : netplayFrontendPaused np paused =
      if 1 < marked.connections.countP fun c => c.active && c.paused then marked
      else forConnections marked fun np i =>
        if reaches np none i then (netplaySendFlush (netplaySendRawCmd np i m).2 i).2 else np := by
    unfold netplayFrontendPaused
    rw [if_neg hchange]
  by_cases hseveral : SeveralPaused np
  · refine ⟨true, ⟨fun _ => hseveral, fun _ => rfl⟩, ?_⟩
    rw [heq, if_pos (hcount.mpr hseveral)]
    exact ⟨hmark, rfl, rfl⟩
  · refine ⟨false, ⟨fun h => absurd h Bool.false_ne_true, fun h => absurd h hseveral⟩, ?_⟩
    rw [heq, if_neg (mt hcount.mp hseveral)]
    have hsend : Queued (fun j => decide (j < marked.connections.length) && true) m marked
        (forConnections marked fun np i =>
          if reaches np none i then (netplaySendFlush (netplaySendRawCmd np i m).2 i).2
          else np) := by
      apply foldl_queued _ hmark.sound le_rfl
      intro np i hsound hi
      have hreach : reaches np none i = true := by
        rw [reaches_sound hsound hi]
        rfl
      rw [if_pos hreach]
      obtain ⟨-, hqueued⟩ := netplaySendRawCmd_sound hsound hi m
      have hlen : i < (netplaySendRawCmd np i m).2.connections.length := by
        rw [hqueued.length]
        exact hi
      have hflush := (netplaySendFlush_sound (hqueued.sound hsound) hlen m).2
      exact (hqueued.trans_none hflush).congr fun j _ => (Bool.and_true _).symm
    have hsignal : signal m = some paused := by
      rw [hm]
      cases paused with
      | false => rfl
      | true => rfl
    have heffect := hmark.trans (Queued.effect hsend hmark.sound hsignal)
    refine ⟨⟨heffect.sound, heffect.length, heffect.isServer, ?_, ?_⟩, hsend.localPaused,
      hsend.remotePaused⟩
    · intro j hj
      rw [heffect.paused j hj]
      rfl
    · intro j hj
      have hall : (decide (j < marked.connections.length) && true) = true := by
        rw [Bool.and_true]
        exact decide_eq_true hj
      rw [heffect.sent j hj, hall, List.nil_append, if_pos rfl, if_neg Bool.false_ne_true]

end Effects

end RetroArch.Netplay.Pausing
