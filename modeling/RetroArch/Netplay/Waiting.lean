/- When everyone in a network waits exactly for those that are paused. -/

import RetroArch.Netplay.Pausing

namespace RetroArch.Netplay.Pausing

open Library.Run State Io Command Sync Queueing

variable {σ : Type}

/-- What a flag comes to when all that is under way has arrived. -/
def settled : Bool → List Bool → Bool
  | known, [] => known
  | _, b :: bs => settled b bs

theorem settled_append (known : Bool) (bs cs : List Bool) :
    settled known (bs ++ cs) = settled (settled known bs) cs := by
  induction bs generalizing known with
  | nil => rfl
  | cons b bs ih => exact ih b

theorem settled_toList (known : Bool) (b : Option Bool) :
    settled known b.toList = b.getD known := by
  cases b with
  | none => rfl
  | some b => rfl

section Taking

variable {np np' : NetplayT σ} {m : Message} {i : ℕ}

theorem takeMessage_effect (hsound : Sound np) (h : takeMessage np i = some (m, np')) :
    Sound np' ∧ np'.connections.length = np.connections.length ∧ np'.isServer = np.isServer ∧
      np'.localPaused = np.localPaused ∧ np'.remotePaused = np.remotePaused ∧
      (∀ j, (np'.connection j).paused = (np.connection j).paused) ∧
      signals np i = (signal m).toList ++ signals np' i ∧
      ∀ j, j ≠ i → signals np' j = signals np j := by
  rcases hbuffer : (np.connection i).sendPacketBuffer with _ | ⟨head, rest⟩
  · rw [takeMessage, hbuffer] at h
    cases h
  rw [takeMessage, hbuffer] at h
  obtain ⟨rfl, rfl⟩ := Prod.mk.inj (Option.some.inj h)
  have hi : i < np.connections.length := by
    by_contra hout
    have hzero : np.connection i = Connection.zero := by
      rw [NetplayT.connection]
      exact List.getD_eq_default _ _ (Nat.le_of_not_lt hout)
    rw [hzero] at hbuffer
    cases hbuffer
  refine ⟨?_, NetplayT.setConnection_length _ _ _, rfl, rfl, rfl, ?_, ?_, ?_⟩
  · intro j hj
    rw [NetplayT.setConnection_length] at hj
    have hold := hsound j hj
    have hactive := NetplayT.view_setConnection (fun c => c.active) np i j
      (f := fun c => { c with sendPacketBuffer := rest }) (fun _ => rfl)
    have hmode := NetplayT.view_setConnection (fun c => c.mode) np i j
      (f := fun c => { c with sendPacketBuffer := rest }) (fun _ => rfl)
    have hfaults := NetplayT.view_setConnection (fun c => c.sendFaults) np i j
      (f := fun c => { c with sendPacketBuffer := rest }) (fun _ => rfl)
    exact ⟨hactive.trans hold.active, hmode.trans hold.playing, hfaults.trans hold.sound⟩
  · intro j
    exact NetplayT.view_setConnection (fun c => c.paused) np i j
      (f := fun c => { c with sendPacketBuffer := rest }) (fun _ => rfl)
  · rw [signals, hbuffer, signals, NetplayT.connection_setConnection np _ hi]
    rcases hsignal : signal head with _ | b
    · rw [List.filterMap_cons_none hsignal]
      rfl
    · rw [List.filterMap_cons_some hsignal]
      rfl
  · intro j hji
    rw [signals, signals, NetplayT.connection_setConnection_ne np _ (Ne.symm hji)]

end Taking

def paused (net : Net σ) (i : ℕ) : Bool := (net.server.connection i).paused

/-- The server or another client is paused, as far as the server knows. -/
def OtherPaused (net : Net σ) (i : ℕ) : Prop :=
  net.server.localPaused = true ∨ ∃ j < net.size, j ≠ i ∧ paused net j = true

/-- Once all has arrived, the server knows who is paused, and each client has been told of the
others. -/
structure Known (net : Net σ) : Prop where
  server : Sound net.server ∧ net.server.isServer = true
  clients : ∀ i < net.size, Sound (net.clients i) ∧ (net.clients i).connections.length = 1 ∧
    (net.clients i).isServer = false
  up : ∀ i < net.size,
    settled (paused net i) (signals (net.clients i) 0) = (net.clients i).localPaused
  down : ∀ i < net.size,
    settled (net.clients i).remotePaused (signals net.server i) = true ↔ OtherPaused net i
  remote : net.server.remotePaused = true ↔ ∃ j < net.size, paused net j = true

theorem Idle.known {net : Net σ} (h : Idle net) : Known net := by
  obtain ⟨hsound, hserver, hlocal, hremote⟩ := h.server
  have hnobody : ∀ j < net.size, ¬ paused net j = true := by
    intro j hj
    rw [paused, (h.connections j hj).1]
    exact Bool.false_ne_true
  refine ⟨⟨hsound, hserver⟩, ?_, ?_, ?_, ?_⟩
  · intro i hi
    obtain ⟨hclient, hlength, hrole, -⟩ := h.clients i hi
    exact ⟨hclient, hlength, hrole⟩
  · intro i hi
    obtain ⟨-, -, -, hfree, -, hquiet⟩ := h.clients i hi
    rw [hquiet, hfree, paused, (h.connections i hi).1]
    rfl
  · intro i hi
    obtain ⟨-, -, -, -, hfree, -⟩ := h.clients i hi
    rw [(h.connections i hi).2, hfree]
    refine iff_of_false Bool.false_ne_true ?_
    rintro (hpaused | ⟨j, hj, -, hpaused⟩)
    · rw [hlocal] at hpaused
      exact Bool.false_ne_true hpaused
    · exact hnobody j hj hpaused
  · rw [hremote]
    refine iff_of_false Bool.false_ne_true ?_
    rintro ⟨j, hj, hpaused⟩
    exact hnobody j hj hpaused

theorem Known.agreed {net : Net σ} (h : Known net) (hquiet : Quiet net) : Agreed net := by
  have hknown : ∀ j < net.size, paused net j = (net.clients j).localPaused := by
    intro j hj
    have hup := h.up j hj
    rw [(hquiet j hj).2] at hup
    exact hup
  constructor
  · intro i hi
    have hdown := h.down i hi
    rw [(hquiet i hi).1] at hdown
    refine hdown.trans (or_congr Iff.rfl ?_)
    constructor
    · rintro ⟨j, hj, hji, hpaused⟩
      exact ⟨j, hj, hji, (hknown j hj).symm.trans hpaused⟩
    · rintro ⟨j, hj, hji, hpaused⟩
      exact ⟨j, hj, hji, (hknown j hj).trans hpaused⟩
  · refine h.remote.trans ?_
    constructor
    · rintro ⟨j, hj, hpaused⟩
      exact ⟨j, hj, (hknown j hj).symm.trans hpaused⟩
    · rintro ⟨j, hj, hpaused⟩
      exact ⟨j, hj, (hknown j hj).trans hpaused⟩

section Steps

/-- Exactly one connection other than `i` is paused. -/
def LonePaused (net : Net σ) (i : ℕ) : Prop :=
  ∃ j < net.size, j ≠ i ∧ paused net j = true ∧
    ∀ k < net.size, k ≠ i → paused net k = true → k = j

/-- Where the server tells everyone what they have to know: it does not resume while exactly one of
several clients is paused, and no RESUME leaves exactly one other client paused while the server
is not. -/
def Proper (net : Net σ) : Event → Prop
  | .serverLocal b =>
    net.server.localPaused = true → b = false →
      ∀ j < net.size, paused net j = true → (∀ k < net.size, paused net k = true → k = j) →
        net.size = 1
  | .toServer i =>
    ∀ m client, takeMessage (net.clients i) 0 = some (m, client) → signal m = some false →
      net.server.localPaused = false → paused net i = true → ¬ LonePaused net i
  | .clientLocal .. | .toClient _ => True

variable {net net' : Net σ}

theorem serverLocal_known (h : Known net) {b : Bool} (hproper : Proper net (.serverLocal b))
    (hstep : step net (.serverLocal b) = some net') : Known net' := by
  obtain rfl := Option.some.inj hstep
  by_cases hchange : net.server.localPaused = b
  · have hsame : netplayFrontendPaused net.server b = net.server := by
      unfold netplayFrontendPaused
      exact if_pos hchange
    rw [hsame]
    exact h
  obtain ⟨quiet, hquiet, heffect, hlocal, hremote⟩ :=
    netplayFrontendPaused_effect h.server.1 hchange
  set server := netplayFrontendPaused net.server b with hserver
  have hsize : server.connections.length = net.size := heffect.length
  have hpaused : ∀ j < net.size, (server.connection j).paused = paused net j := heffect.paused
  refine ⟨⟨heffect.sound, heffect.isServer.trans h.server.2⟩, ?_, ?_, ?_, ?_⟩
  · intro i hi
    exact h.clients i (hsize ▸ hi)
  · intro i hi
    have hi : i < net.size := hsize ▸ hi
    rw [paused, hpaused i hi]
    exact h.up i hi
  · intro i hi
    have hi : i < net.size := hsize ▸ hi
    have hdown := h.down i hi
    change settled (net.clients i).remotePaused (signals server i) = true ↔ _
    rw [heffect.sent i hi]
    have hother : OtherPaused { net with server := server } i ↔
        b = true ∨ ∃ j < net.size, j ≠ i ∧ paused net j = true := by
      unfold OtherPaused Net.size
      dsimp only
      rw [hlocal, hsize]
      refine or_congr Iff.rfl ?_
      constructor
      · rintro ⟨j, hj, hji, hp⟩
        exact ⟨j, hj, hji, (hpaused j hj).symm.trans hp⟩
      · rintro ⟨j, hj, hji, hp⟩
        exact ⟨j, hj, hji, (hpaused j hj).trans hp⟩
    rw [hother]
    cases quiet with
    | true =>
      -- nothing is sent, and everyone already waits for one of the paused connections
      obtain ⟨j, k, hjk, hk, hpj, hpk⟩ := hquiet.mp rfl
      have hsomebody : ∃ l < net.size, l ≠ i ∧ paused net l = true := by
        by_cases hji : j = i
        · exact ⟨k, hk, by omega, hpk⟩
        · exact ⟨j, hjk.trans hk, hji, hpj⟩
      rw [if_pos rfl, List.append_nil, hdown]
      exact iff_of_true (Or.inr hsomebody) (Or.inr hsomebody)
    | false =>
      rw [if_neg Bool.false_ne_true, settled_append]
      change b = true ↔ _
      constructor
      · intro hb
        exact Or.inl hb
      · rintro (hb | ⟨j, hj, hji, hp⟩)
        · exact hb
        · by_contra hb
          have hwas : net.server.localPaused = true := by
            cases hold : net.server.localPaused with
            | true => rfl
            | false => exact absurd (hold.trans (Bool.eq_false_iff.mpr hb).symm) hchange
          have hlone : ∀ k < net.size, paused net k = true → k = j := by
            intro k hk hpk
            by_contra hkj
            apply Bool.false_ne_true
            apply hquiet.mpr
            rcases Nat.lt_or_gt_of_ne hkj with hless | hmore
            · exact ⟨k, j, hless, hj, hpk, hp⟩
            · exact ⟨j, k, hmore, hk, hp, hpk⟩
          have hone := hproper hwas (Bool.eq_false_iff.mpr hb) j hj hp hlone
          omega
  · change server.remotePaused = true ↔ _
    rw [hremote, h.remote]
    constructor
    · rintro ⟨j, hj, hp⟩
      exact ⟨j, lt_of_lt_of_eq hj hsize.symm, (hpaused j hj).trans hp⟩
    · rintro ⟨j, hj, hp⟩
      have hj : j < net.size := hsize ▸ hj
      exact ⟨j, hj, (hpaused j hj).symm.trans hp⟩

theorem clientLocal_known (h : Known net) {i : ℕ} {b : Bool}
    (hstep : step net (.clientLocal i b) = some net') : Known net' := by
  by_cases hi : i < net.size
  swap
  · rw [step, if_neg hi] at hstep
    exact nomatch hstep
  rw [step, if_pos hi] at hstep
  obtain rfl := Option.some.inj hstep
  obtain ⟨hsound, hlength, hrole⟩ := h.clients i hi
  by_cases hchange : (net.clients i).localPaused = b
  · have hsame : netplayFrontendPaused (net.clients i) b = net.clients i := by
      unfold netplayFrontendPaused
      exact if_pos hchange
    rw [hsame, Function.update_eq_self]
    exact h
  obtain ⟨quiet, hquiet, heffect, hlocal, hremote⟩ := netplayFrontendPaused_effect hsound hchange
  have hsent : quiet = false := by
    rw [Bool.eq_false_iff]
    intro hq
    obtain ⟨j, k, hjk, hk, -⟩ := hquiet.mp hq
    omega
  set client := netplayFrontendPaused (net.clients i) b with hclient
  refine ⟨h.server, ?_, ?_, ?_, h.remote⟩
  · intro j hj
    by_cases hji : j = i
    · subst hji
      dsimp only
      rw [Function.update_self]
      exact ⟨heffect.sound, heffect.length.trans hlength, heffect.isServer.trans hrole⟩
    · dsimp only
      rw [Function.update_of_ne hji]
      exact h.clients j hj
  · intro j hj
    by_cases hji : j = i
    · subst hji
      dsimp only
      rw [Function.update_self, heffect.sent 0 (by omega), hsent, if_neg Bool.false_ne_true,
        settled_append, hlocal]
      rfl
    · dsimp only
      rw [Function.update_of_ne hji]
      exact h.up j hj
  · intro j hj
    have hflag : (Function.update net.clients i client j).remotePaused =
        (net.clients j).remotePaused := by
      by_cases hji : j = i
      · subst hji
        rw [Function.update_self, hremote]
      · rw [Function.update_of_ne hji]
    dsimp only
    rw [hflag]
    exact h.down j hj

/-- What a command that the server takes from client `i` has to do to what is known. -/
theorem served_known (h : Known net) {i : ℕ} {m : Message} {server client : NetplayT σ}
    {now : ℕ → Bool} {sent : ℕ → List Bool} (hi : i < net.size)
    (htake : takeMessage (net.clients i) 0 = some (m, client))
    (heffect : Effect net.server server now sent)
    (hnow : now i = (signal m).getD (paused net i)) (hrest : ∀ j, j ≠ i → now j = paused net j)
    (hdown : ∀ j < net.size,
      settled (settled (net.clients j).remotePaused (signals net.server j)) (sent j) = true ↔
        server.localPaused = true ∨ ∃ k < net.size, k ≠ j ∧ now k = true)
    (hremote : server.remotePaused = true ↔ ∃ j < net.size, now j = true) :
    Known ⟨server, Function.update net.clients i client⟩ := by
  obtain ⟨hsound, hlength, hrole⟩ := h.clients i hi
  obtain ⟨hclient, hlength', hrole', hlocal, hflag, -, hsignals, -⟩ :=
    takeMessage_effect hsound htake
  have hsize : server.connections.length = net.size := heffect.length
  have hpaused : ∀ j < net.size, (server.connection j).paused = now j := heffect.paused
  refine ⟨⟨heffect.sound, heffect.isServer.trans h.server.2⟩, ?_, ?_, ?_, ?_⟩
  · intro j hj
    have hj : j < net.size := hsize ▸ hj
    dsimp only
    by_cases hji : j = i
    · rw [hji, Function.update_self]
      exact ⟨hclient, hlength'.trans hlength, hrole'.trans hrole⟩
    · rw [Function.update_of_ne hji]
      exact h.clients j hj
  · intro j hj
    have hj : j < net.size := hsize ▸ hj
    have hup := h.up j hj
    rw [paused, hpaused j hj]
    dsimp only
    by_cases hji : j = i
    · rw [hji] at hup ⊢
      rw [Function.update_self, hnow, hlocal, ← hup, hsignals, settled_append, settled_toList]
    · rw [Function.update_of_ne hji, hrest j hji]
      exact hup
  · intro j hj
    have hj : j < net.size := hsize ▸ hj
    have hsame : (Function.update net.clients i client j).remotePaused =
        (net.clients j).remotePaused := by
      by_cases hji : j = i
      · rw [hji, Function.update_self, hflag]
      · rw [Function.update_of_ne hji]
    dsimp only
    rw [hsame, heffect.sent j hj, settled_append, hdown j hj]
    refine or_congr Iff.rfl ?_
    constructor
    · rintro ⟨k, hk, hkj, hp⟩
      exact ⟨k, lt_of_lt_of_eq hk hsize.symm, hkj, (hpaused k hk).trans hp⟩
    · rintro ⟨k, hk, hkj, hp⟩
      have hk : k < net.size := hsize ▸ hk
      exact ⟨k, hk, hkj, (hpaused k hk).symm.trans hp⟩
  · dsimp only
    rw [hremote]
    constructor
    · rintro ⟨k, hk, hp⟩
      exact ⟨k, lt_of_lt_of_eq hk hsize.symm, (hpaused k hk).trans hp⟩
    · rintro ⟨k, hk, hp⟩
      have hk : k < net.size := hsize ▸ hk
      exact ⟨k, hk, (hpaused k hk).symm.trans hp⟩

theorem toServer_known (h : Known net) {i : ℕ} (hproper : Proper net (.toServer i))
    (hstep : step net (.toServer i) = some net') : Known net' := by
  by_cases hi : i < net.size
  swap
  · rw [step, if_neg hi] at hstep
    exact nomatch hstep
  rw [step, if_pos hi, Option.map_eq_some_iff] at hstep
  obtain ⟨⟨m, client⟩, htake, rfl⟩ := hstep
  rcases hsignal : signal m with _ | b
  · -- the command says nothing about pausing
    have hsame : receive net.server i m = net.server := by
      cases m <;> first | rfl | exact nomatch hsignal
    dsimp only
    rw [hsame]
    have heffect : Effect net.server net.server (paused net) fun _ => [] :=
      ⟨h.server.1, rfl, rfl, fun _ _ => rfl, fun _ _ => (List.append_nil _).symm⟩
    refine served_known h hi htake heffect ?_ (fun _ _ => rfl) h.down h.remote
    rw [hsignal]
    rfl
  cases b with
  | true =>
    obtain ⟨nick, rfl⟩ : ∃ nick, m = .pause nick := by
      cases m <;> first | exact ⟨_, rfl⟩ | exact nomatch hsignal
    obtain ⟨heffect, hlocal, hremote⟩ := receivePause_server h.server.1 h.server.2 hi
    change (receive net.server i (.pause nick)).localPaused = net.server.localPaused at hlocal
    refine served_known h hi htake heffect ?_ ?_ ?_ ?_
    · rw [decide_eq_true rfl, Bool.true_or]
      rfl
    · intro j hji
      rw [decide_eq_false hji, Bool.false_or]
      rfl
    · intro j hj
      by_cases hji : j = i
      · subst hji
        rw [if_pos rfl, hlocal]
        refine (h.down j hj).trans (or_congr Iff.rfl ?_)
        apply exists_congr
        intro k
        refine and_congr_right fun _ => and_congr_right fun hkj => ?_
        rw [decide_eq_false hkj, Bool.false_or, paused]
      · rw [if_neg hji]
        refine iff_of_true rfl (Or.inr ⟨i, hi, Ne.symm hji, ?_⟩)
        rw [decide_eq_true rfl, Bool.true_or]
    · refine iff_of_true hremote ⟨i, hi, ?_⟩
      rw [decide_eq_true rfl, Bool.true_or]
  | false =>
    obtain rfl : m = .resume := by
      cases m <;> first | rfl | exact nomatch hsignal
    obtain ⟨clear, hclear, heffect, hlocal, hremote⟩ := remoteUnpaused_effect h.server.1 i
    change (receive net.server i .resume).localPaused = net.server.localPaused at hlocal
    have hnow : ∀ j, (!decide (j = i) && (net.server.connection j).paused) = true ↔
        j ≠ i ∧ paused net j = true := by
      intro j
      rw [Bool.and_eq_true, Bool.not_eq_true', decide_eq_false_iff_not]
      rfl
    refine served_known h hi htake heffect ?_ ?_ ?_ ?_
    · rw [decide_eq_true rfl, Bool.not_true, Bool.false_and]
      rfl
    · intro j hji
      rw [decide_eq_false hji, Bool.not_false, Bool.true_and]
      rfl
    · intro j hj
      have hdown := h.down j hj
      rw [hlocal]
      simp only [hnow]
      cases clear with
      | true =>
        obtain ⟨hnotLocal, hnobody⟩ := hclear.mp rfl
        rw [hnotLocal]
        by_cases hji : j = i
        · subst hji
          rw [decide_eq_true rfl, Bool.not_true, Bool.and_false, if_neg Bool.false_ne_true]
          refine hdown.trans ?_
          rw [OtherPaused, hnotLocal]
          refine or_congr Iff.rfl ?_
          constructor
          · rintro ⟨k, hk, hkj, hp⟩
            exact ⟨k, hk, hkj, hkj, hp⟩
          · rintro ⟨k, hk, hkj, -, hp⟩
            exact ⟨k, hk, hkj, hp⟩
        · rw [decide_eq_false hji, Bool.not_false, Bool.and_true, if_pos rfl]
          refine iff_of_false Bool.false_ne_true ?_
          rintro (hp | ⟨k, hk, -, hki, hp⟩)
          · exact Bool.false_ne_true hp
          · exact hnobody ⟨k, hk, hki, hp⟩
      | false =>
        rw [Bool.false_and, if_neg Bool.false_ne_true]
        refine hdown.trans ?_
        constructor
        · rintro (hp | ⟨k, hk, hkj, hp⟩)
          · exact Or.inl hp
          by_cases hki : k = i
          · -- the client that resumes was one of those `j` waits for
            subst hki
            by_cases hlocalPaused : net.server.localPaused = true
            · exact Or.inl hlocalPaused
            have hfree := Bool.eq_false_iff.mpr hlocalPaused
            obtain ⟨l, hl, hlk, hpl⟩ : ∃ l < net.size, l ≠ k ∧ paused net l = true := by
              by_contra hnobody
              exact Bool.false_ne_true (hclear.mpr ⟨hfree, hnobody⟩)
            by_cases hlj : l = j
            · subst hlj
              have hnotLone := hproper _ _ htake rfl hfree hp
              obtain ⟨l', hl', hlk', hpl', hne⟩ : ∃ l' < net.size, l' ≠ k ∧
                  paused net l' = true ∧ l' ≠ l := by
                by_contra hnone
                apply hnotLone
                refine ⟨l, hl, hlk, hpl, ?_⟩
                intro k' hk' hkk' hpk'
                by_contra hne
                exact hnone ⟨k', hk', hkk', hpk', hne⟩
              exact Or.inr ⟨l', hl', hne, hlk', hpl'⟩
            · exact Or.inr ⟨l, hl, hlj, hlk, hpl⟩
          · exact Or.inr ⟨k, hk, hkj, hki, hp⟩
        · rintro (hp | ⟨k, hk, hkj, -, hp⟩)
          · exact Or.inl hp
          · exact Or.inr ⟨k, hk, hkj, hp⟩
    · simp only [hnow]
      exact hremote

/-- A client notes what it is told, and sends nothing. -/
theorem receive_client {client : NetplayT σ} (hsound : Sound client)
    (hlength : client.connections.length = 1) (hrole : client.isServer = false) (m : Message) :
    Sound (receive client 0 m) ∧ (receive client 0 m).connections.length = 1 ∧
      (receive client 0 m).isServer = false ∧
      (receive client 0 m).localPaused = client.localPaused ∧
      signals (receive client 0 m) 0 = signals client 0 ∧
      (receive client 0 m).remotePaused = (signal m).getD client.remotePaused := by
  have hzero : 0 < client.connections.length := by omega
  rcases hsignal : signal m with _ | b
  · have hsame : receive client 0 m = client := by
      cases m <;> first | rfl | exact nomatch hsignal
    rw [hsame]
    exact ⟨hsound, hlength, hrole, rfl, rfl, rfl⟩
  cases b with
  | true =>
    obtain ⟨nick, rfl⟩ : ∃ nick, m = .pause nick := by
      cases m <;> first | exact ⟨_, rfl⟩ | exact nomatch hsignal
    obtain ⟨heffect, hlocal, hremote⟩ := receivePause_client hsound hrole hzero
    have hsent := heffect.sent 0 hzero
    rw [List.append_nil] at hsent
    exact ⟨heffect.sound, heffect.length.trans hlength, heffect.isServer.trans hrole, hlocal,
      hsent, hremote⟩
  | false =>
    obtain rfl : m = .resume := by
      cases m <;> first | rfl | exact nomatch hsignal
    obtain ⟨clear, -, heffect, hlocal, hremote⟩ := remoteUnpaused_effect hsound 0
    have hsent := heffect.sent 0 hzero
    rw [decide_eq_true rfl, Bool.not_true, Bool.and_false, if_neg Bool.false_ne_true,
      List.append_nil] at hsent
    refine ⟨heffect.sound, heffect.length.trans hlength, heffect.isServer.trans hrole, hlocal,
      hsent, ?_⟩
    apply Bool.eq_false_iff.mpr
    intro hp
    obtain ⟨j, hj, hne, -⟩ := hremote.mp hp
    omega

theorem toClient_known (h : Known net) {i : ℕ}
    (hstep : step net (.toClient i) = some net') : Known net' := by
  by_cases hi : i < net.size
  swap
  · rw [step, if_neg hi] at hstep
    exact nomatch hstep
  rw [step, if_pos hi, Option.map_eq_some_iff] at hstep
  obtain ⟨⟨m, server⟩, htake, rfl⟩ := hstep
  obtain ⟨hserver, hlength, hrole, hlocal, hremote, hpaused, hsignals, hothers⟩ :=
    takeMessage_effect h.server.1 htake
  obtain ⟨hclient, hone, hrole', hlocal', hsignals', hflag⟩ :=
    receive_client (h.clients i hi).1 (h.clients i hi).2.1 (h.clients i hi).2.2 m
  have hsize : server.connections.length = net.size := hlength
  set client := receive (net.clients i) 0 m with hclientEq
  have hother : ∀ j, OtherPaused ⟨server, Function.update net.clients i client⟩ j ↔
      OtherPaused net j := by
    intro j
    unfold OtherPaused Net.size paused
    dsimp only
    simp only [hlocal, hlength, hpaused]
  refine ⟨⟨hserver, hrole.trans h.server.2⟩, ?_, ?_, ?_, ?_⟩
  · intro j hj
    have hj : j < net.size := hsize ▸ hj
    dsimp only
    by_cases hji : j = i
    · rw [hji, Function.update_self]
      exact ⟨hclient, hone, hrole'⟩
    · rw [Function.update_of_ne hji]
      exact h.clients j hj
  · intro j hj
    have hj : j < net.size := hsize ▸ hj
    have hup := h.up j hj
    rw [paused]
    dsimp only
    rw [hpaused j]
    by_cases hji : j = i
    · rw [hji] at hup ⊢
      rw [Function.update_self, hsignals', hlocal']
      exact hup
    · rw [Function.update_of_ne hji]
      exact hup
  · intro j hj
    have hj : j < net.size := hsize ▸ hj
    rw [hother, ← h.down j hj]
    dsimp only
    by_cases hji : j = i
    · rw [hji, Function.update_self, hflag, hsignals, settled_append, settled_toList]
    · rw [Function.update_of_ne hji, hothers j hji]
  · dsimp only
    rw [hremote, h.remote]
    unfold paused
    dsimp only [Net.size]
    simp only [hlength, hpaused]

theorem step_known (h : Known net) {e : Event} (hproper : Proper net e)
    (hstep : step net e = some net') : Known net' := by
  cases e with
  | serverLocal b => exact serverLocal_known h hproper hstep
  | clientLocal i b => exact clientLocal_known h hstep
  | toServer i => exact toServer_known h hproper hstep
  | toClient i => exact toClient_known h hstep

/-- After a step that is not proper somebody waits for nobody, or runs on while somebody is
paused. -/
theorem improper_unknown (h : Known net) {e : Event} (himproper : ¬ Proper net e)
    (hstep : step net e = some net') : ¬ Known net' := by
  intro h'
  cases e with
  | clientLocal i b => exact himproper trivial
  | toClient i => exact himproper trivial
  | serverLocal b =>
    obtain rfl := Option.some.inj hstep
    have hlone : ∃ j < net.size, net.server.localPaused = true ∧ b = false ∧
        paused net j = true ∧ (∀ k < net.size, paused net k = true → k = j) ∧ net.size ≠ 1 := by
      by_contra hnone
      apply himproper
      intro hlocal hb j hj hp hlone
      by_contra hsize
      exact hnone ⟨j, hj, hlocal, hb, hp, hlone, hsize⟩
    obtain ⟨j, hj, hlocal, rfl, hp, hlone, hsize⟩ := hlone
    have hchange : net.server.localPaused ≠ false := by
      rw [hlocal]
      exact Bool.false_ne_true.symm
    obtain ⟨quiet, hquiet, heffect, -, -⟩ := netplayFrontendPaused_effect h.server.1 hchange
    have hloud : quiet = false := by
      rw [Bool.eq_false_iff]
      intro hq
      obtain ⟨k, l, hkl, hl, hpk, hpl⟩ := hquiet.mp hq
      have hk := hlone k (hkl.trans hl) hpk
      have hl := hlone l hl hpl
      omega
    -- another client is told to run on
    obtain ⟨i, hi, hij⟩ : ∃ i < net.size, i ≠ j := by
      by_cases hzero : j = 0
      · exact ⟨1, by omega, by omega⟩
      · exact ⟨0, by omega, Ne.symm hzero⟩
    have hsame : (netplayFrontendPaused net.server false).connections.length = net.size :=
      heffect.length
    have hdown := h'.down i (lt_of_lt_of_eq hi hsame.symm)
    dsimp only at hdown
    rw [heffect.sent i hi, hloud, if_neg Bool.false_ne_true, settled_append] at hdown
    refine Bool.false_ne_true (hdown.mpr (Or.inr ⟨j, lt_of_lt_of_eq hj hsame.symm, hij.symm, ?_⟩))
    exact (heffect.paused j hj).trans hp
  | toServer i =>
    by_cases hi : i < net.size
    swap
    · rw [step, if_neg hi] at hstep
      exact nomatch hstep
    rw [step, if_pos hi, Option.map_eq_some_iff] at hstep
    obtain ⟨⟨m, client⟩, htake, rfl⟩ := hstep
    have hlone : signal m = some false ∧ net.server.localPaused = false ∧
        paused net i = true ∧ LonePaused net i := by
      by_contra hnone
      apply himproper
      intro m' client' htake' hresume hfree hp hlone
      obtain ⟨rfl, -⟩ := Prod.mk.inj (Option.some.inj (htake.symm.trans htake'))
      exact hnone ⟨hresume, hfree, hp, hlone⟩
    obtain ⟨hresume, hfree, hp, j, hj, hji, hpj, honly⟩ := hlone
    obtain rfl : m = .resume := by
      cases m <;> first | rfl | exact nomatch hresume
    obtain ⟨clear, hclear, heffect, hlocal, -⟩ := remoteUnpaused_effect h.server.1 i
    have hkept : clear = false := by
      rw [Bool.eq_false_iff]
      intro hc
      exact (hclear.mp hc).2 ⟨j, hj, hji, hpj⟩
    -- the one that is left waits for itself
    have hsame : (receive net.server i .resume).connections.length = net.size := heffect.length
    have hdown := h'.down j (lt_of_lt_of_eq hj hsame.symm)
    dsimp only [receive] at hdown
    rw [Function.update_of_ne hji, heffect.sent j hj, hkept, Bool.false_and,
      if_neg Bool.false_ne_true, List.append_nil] at hdown
    have hwaits := (h.down j hj).mpr (Or.inr ⟨i, hi, Ne.symm hji, hp⟩)
    rcases hdown.mp hwaits with hpaused | ⟨k, hk, hkj, hpaused⟩
    · change (remoteUnpaused net.server i).localPaused = true at hpaused
      rw [hlocal, hfree] at hpaused
      exact Bool.false_ne_true hpaused
    · have hk : k < net.size := hsame ▸ hk
      have hnow := (heffect.paused k hk).symm.trans hpaused
      rw [Bool.and_eq_true, Bool.not_eq_true', decide_eq_false_iff_not] at hnow
      exact hkj (honly k hk hnow.1 hnow.2)

end Steps

/-- In every run of proper steps, everyone waits exactly for those that are paused whenever no
PAUSE or RESUME is under way. -/
theorem proper_run_agreed {start net : Net σ} {events : List Event} (hidle : Idle start)
    (hrun : RunsWithin step Proper start events net) (hquiet : Quiet net) : Agreed net := by
  have hknown : Known net :=
    hrun.invariant (fun _ _ _ h hproper hstep => step_known h hproper hstep) hidle.known
  exact hknown.agreed hquiet

/-- What is known is right all along a run exactly if its steps are proper. -/
theorem known_iff_proper {start net : Net σ} {events : List Event} (hidle : Idle start)
    (hrun : run step start events = some net) :
    (∀ n net', run step start (events.take n) = some net' → Known net') ↔
      RunsWithin step Proper start events net := by
  refine runsWithin_iff (I := fun _ => True) (fun _ _ _ _ _ => trivial) ?_ trivial hidle.known hrun
  intro s e t _ h hstep
  refine ⟨fun h' => ?_, fun hproper => step_known h hproper hstep⟩
  by_contra himproper
  exact improper_unknown h himproper hstep h'

def playingLink : Connection :=
  { Connection.zero with active := true, mode := .playing }

/-- A server and `n` clients that have all started to play. -/
def network (n : ℕ) : Net ℕ where
  server :=
    { netplayNew idleCore true false 0 false false false [] (fun _ => 0) 0 with
      connections := List.replicate n playingLink }
  clients _ :=
    { netplayNew idleCore false false 0 false false false [] (fun _ => 0) 0 with
      connections := [playingLink] }

theorem network_idle (n : ℕ) : Idle (network n) := by
  have hlength : (network n).server.connections.length = n := List.length_replicate
  have hconnection : ∀ i < n, (network n).server.connection i = playingLink := by
    intro i hi
    unfold NetplayT.connection network
    dsimp only
    rw [List.getD_eq_getElem _ _ (by rw [List.length_replicate]; exact hi),
      List.getElem_replicate]
  have hhealthy : Healthy playingLink := ⟨rfl, rfl, rfl⟩
  refine ⟨⟨?_, rfl, rfl, rfl⟩, ?_, ?_⟩
  · intro i hi
    rw [hconnection i (hlength ▸ hi)]
    exact hhealthy
  · intro i hi
    rw [signals, hconnection i (hlength ▸ hi)]
    exact ⟨rfl, rfl⟩
  · intro i _
    refine ⟨?_, rfl, rfl, rfl, rfl, rfl⟩
    intro j hj
    obtain rfl : j = 0 := by
      change j < 1 at hj
      omega
    exact hhealthy

theorem known_iff_proper_one : (∀ n net', run step (network 2)
      ([.serverLocal true].take n) = some net' → Known net') ↔
    RunsWithin step Proper (network 2) [.serverLocal true]
      { network 2 with server := netplayFrontendPaused (network 2).server true } :=
  known_iff_proper (network_idle 2) rfl

/-- One client pauses and the other is told of it. -/
theorem one_pauses_agreed : ∃ net : Net ℕ,
    RunsWithin step Proper (network 2) [.clientLocal 0 true, .toServer 0, .toClient 1] net ∧
      Quiet net ∧ Agreed net := by
  have hsend : ∀ m client, takeMessage ((step (network 2) (.clientLocal 0 true)).getD
      (network 2) |>.clients 0) 0 = some (m, client) → signal m = some true := by
    intro m client htake
    obtain ⟨rfl, -⟩ := Prod.mk.inj (Option.some.inj htake)
    rfl
  have hrun : ∃ net : Net ℕ,
      RunsWithin step Proper (network 2) [.clientLocal 0 true, .toServer 0, .toClient 1] net ∧
        Quiet net := by
    refine ⟨_, .cons trivial rfl (.cons ?_ rfl (.cons trivial rfl (.nil _))), ?_⟩
    · intro m client htake hresume
      rw [hsend m client htake] at hresume
      exact nomatch hresume
    · intro i hi
      have hi : i < 2 := hi
      obtain rfl | rfl : i = 0 ∨ i = 1 := by omega
      · exact ⟨rfl, rfl⟩
      · exact ⟨rfl, rfl⟩
  obtain ⟨net, hrun, hquiet⟩ := hrun
  exact ⟨net, hrun, hquiet, proper_run_agreed (network_idle 2) hrun hquiet⟩

/-- Both clients pause and resume again; the one that resumes last waits for the other for ever. -/
theorem last_resumed_waits : ∃ net : Net ℕ,
    run step (network 2) [.clientLocal 0 true, .toServer 0, .toClient 1, .clientLocal 1 true,
      .toServer 1, .toClient 0, .clientLocal 1 false, .toServer 1, .clientLocal 0 false,
      .toServer 0, .toClient 1] = some net ∧ Quiet net ∧ ¬ Agreed net := by
  have hrun : (run step (network 2) [.clientLocal 0 true, .toServer 0, .toClient 1,
      .clientLocal 1 true, .toServer 1, .toClient 0, .clientLocal 1 false, .toServer 1,
      .clientLocal 0 false, .toServer 0, .toClient 1]).any
      (fun net => decide (Quiet net ∧ ¬ Agreed net)) = true := by
    decide
  obtain ⟨net, hnet, hwaits⟩ := (Option.any_eq_true _ _).mp hrun
  exact ⟨net, hnet, of_decide_eq_true hwaits⟩

section Delivery

open Library.Rewinding Reading

variable {np : NetplayT σ} {i : ℕ}

theorem afterField_retape (hi : i < np.connections.length) (tape : Tape UInt8) (faults : List Bool)
    (n : ℕ) : afterField (np.retape i tape faults) i n =
      np.retape i (tape.read n).2 faults.tail := by
  rw [afterField, connection_retape hi, retape_retape]

/-- `netplay_get_cmd` does with the bytes of the two commands what delivering them does. -/
theorem netplayGetCmd_signal (pf : Platform σ) (settings : Settings) (hs : Handshake) (m : Message)
    (more : List UInt8) (hm : m = .resume ∨ ∃ nick, nick.length = 32 ∧ m = .pause nick)
    (hready : (np.connection i).mode.ready = true) (h : Arrived np i (m.encode ++ more)) :
    ∃ tape faults, tape.cells = (np.connection i).recvPacketBuffer.cells ∧ tape.rest = more ∧
      netplayGetCmd pf settings hs np i = done (receive (np.retape i tape faults) i m) i := by
  rw [Message.encode, List.append_assoc, List.append_assoc] at h
  have hsize := h.afterField
  have hpayload := hsize.afterField
  rw [length_htonl, length_htonl] at hpayload
  rw [length_htonl] at hsize
  have hcmd : m.cmd < 2 ^ 32 ∧ m.payload.length < 2 ^ 32 := by
    rcases hm with rfl | ⟨nick, hnick, rfl⟩
    · exact ⟨by decide, by decide⟩
    · have hpause : (Message.pause nick).payload.length = 32 := hnick
      exact ⟨show 0x0043 < 2 ^ 32 by decide, by rw [hpause]; decide⟩
  have hget : netplayGetCmd pf settings hs np i =
      handleCmd pf settings (afterField (afterField np i 4) i 4) i m.cmd m.payload.length := by
    rw [netplayGetCmd, if_neg (by rw [hready]; exact Bool.noConfusion),
      RECV_full h (length_htonl _), RECV_full hsize (length_htonl _), ntohl_htonl hcmd.1,
      ntohl_htonl hcmd.2]
  have hlast := hpayload.afterField
  rw [hget]
  rcases hm with rfl | ⟨nick, hnick, rfl⟩
  · have hread : afterField (afterField np i 4) i 4 = _ := afterField_retape h.lt _ _ 4
    have hrest := hpayload.rest
    rw [hread] at hrest ⊢
    rw [connection_retape h.lt] at hrest
    exact ⟨(((np.connection i).recvPacketBuffer.read 4).2.read 4).2, _, rfl, hrest, rfl⟩
  · have hread : afterField (afterField (afterField np i 4) i 4) i 32 = _ :=
      (congrArg (afterField · i 32) (afterField_retape h.lt _ _ 4)).trans
        (afterField_retape h.lt _ _ 32)
    have hrest := hlast.rest
    rw [Message.payload, hnick, hread, connection_retape h.lt] at hrest
    refine ⟨((((np.connection i).recvPacketBuffer.read 4).2.read 4).2.read 32).2,
      (np.connection i).recvFaults.tail.tail.tail, rfl, hrest, ?_⟩
    have hpause : handleCmd pf settings (afterField (afterField np i 4) i 4) i
        (Message.pause nick).cmd (Message.pause nick).payload.length =
          getPause (afterField (afterField np i 4) i 4) i 32 := by
      rw [Message.payload, hnick]
      rfl
    rw [hpause, getPause, if_neg (not_not.mpr rfl), RECV_full hpayload hnick, ← hread]
    simp only [receive, receivePause]
    split_ifs
    · rfl
    · rfl
    · rfl

theorem netplayGetCmd_signal_one : ∃ tape faults, tape.cells = Message.resume.encode ∧
    tape.rest = [] ∧ netplayGetCmd idleCore openSettings .wait
      ((network 1).server.retape 0 ⟨Message.resume.encode, 0, Nat.zero_le _⟩ []) 0 =
        done (receive (((network 1).server.retape 0
          ⟨Message.resume.encode, 0, Nat.zero_le _⟩ []).retape 0 tape faults) 0 .resume) 0 := by
  have h : Arrived ((network 1).server.retape 0 ⟨Message.resume.encode, 0, Nat.zero_le _⟩ []) 0
      (Message.resume.encode ++ []) :=
    ⟨by decide, fun _ h => absurd h List.not_mem_nil, rfl⟩
  exact netplayGetCmd_signal idleCore openSettings .wait .resume [] (.inl rfl) rfl h

end Delivery

end RetroArch.Netplay.Pausing
