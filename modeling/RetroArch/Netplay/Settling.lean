/- Resolving a frame once more changes nothing. -/

import RetroArch.Netplay.Fragments
import RetroArch.Netplay.Ordering

namespace RetroArch.Netplay.Settling

open Library.Bits Delta State Fragments Resolve ReadBack Searching Ordering

variable {σ : Type}

section Client

variable (np : NetplayT σ) (resim : Bool) (frame : ℕ) (real : List InputState) (device : ℕ)

/-- Why a client has the input it has when it is resolved again. -/
inductive Settled (client : ℕ) (simlated : List InputState) : Option (List UInt32) → Prop
  | real {s : InputState}
      (found : inputFor real client (np.expectedInputSize (1 <<< device)) = some s) :
      Settled client simlated (some s.data)
  | read (missing : inputFor real client (np.expectedInputSize (1 <<< device)) = none)
      (done : frame < (np.cursors.read client).frameCount) : Settled client simlated none
  | refused {e : InputState}
      (missing : inputFor real client (np.expectedInputSize (1 <<< device)) = none)
      (ahead : ¬ frame < (np.cursors.read client).frameCount)
      (reached : Reached client (np.expectedInputSize (1 <<< device)) e simlated)
      (size : e.size ≠ np.expectedInputSize (1 <<< device)) : Settled client simlated none
  | unknown {e : InputState}
      (missing : inputFor real client (np.expectedInputSize (1 <<< device)) = none)
      (ahead : ¬ frame < (np.cursors.read client).frameCount)
      (reached : Reached client (np.expectedInputSize (1 <<< device)) e simlated)
      (size : e.size = np.expectedInputSize (1 <<< device))
      (past : pastInput np device client = none) : Settled client simlated none
  | simulated {e p : InputState}
      (missing : inputFor real client (np.expectedInputSize (1 <<< device)) = none)
      (ahead : ¬ frame < (np.cursors.read client).frameCount)
      (reached : Reached client (np.expectedInputSize (1 <<< device)) e simlated)
      (size : e.size = np.expectedInputSize (1 <<< device))
      (past : pastInput np device client = some p)
      (kept : simulate (deviceType (np.configDevices device)) resim e.data p.data = e.data) :
      Settled client simlated (some e.data)

theorem simulate_again (dtype : ℕ) (simstate pstate : List UInt32) :
    simulate dtype resim (simulate dtype resim simstate pstate) pstate =
      simulate dtype resim simstate pstate := by
  have hword : ∀ w p : UInt32,
      ((w &&& keep ||| p &&& ~~~keep) &&& keep ||| p &&& ~~~keep) =
        (w &&& keep ||| p &&& ~~~keep) := by
    intro w p
    apply UInt32.toBitVec_inj.mp
    apply BitVec.eq_of_getLsbD_eq
    intro i hi
    simp only [UInt32.toBitVec_or, UInt32.toBitVec_and, UInt32.toBitVec_not, BitVec.getLsbD_or,
      BitVec.getLsbD_and, BitVec.getLsbD_not, hi, decide_true, Bool.true_and]
    cases keep.toBitVec.getLsbD i <;> simp
  simp only [simulate]
  split_ifs
  · rw [List.modify_modify_eq]
    congr 1
    funext w
    exact hword w (pstate.getD 0 0)
  · rfl

variable {np resim frame real device} {client : ℕ} {simlated list : List InputState}
  {data : Option (List UInt32)}

theorem settled_of_clientInput
    (h : clientInput np resim frame real device client simlated = (data, list)) :
    Settled np resim frame real device client list data := by
  simp only [clientInput] at h
  cases hreal : inputFor real client (np.expectedInputSize (1 <<< device)) with
  | some s =>
    rw [hreal] at h
    cases h
    exact .real hreal
  | none =>
    rw [hreal] at h
    simp only at h
    split_ifs at h with hread
    · cases h
      exact .read hreal hread
    rcases hsearch : netplayInputStateFor simlated client (np.expectedInputSize (1 <<< device))
      false false with ⟨_ | k, taken⟩
    · rw [hsearch] at h
      cases h
      obtain ⟨e, hsize, hreached⟩ := reached_of_search_none hsearch
      exact .refused hreal hread hreached hsize
    · rw [hsearch] at h
      simp only at h
      obtain ⟨e, hk, hsize, hreached⟩ := reached_of_search hsearch
      cases hpast : pastInput np device client with
      | none =>
        rw [hpast] at h
        cases h
        have hsame := hreached e.data
        rw [withData_self hk] at hsame
        exact .unknown hreal hread hsame hsize hpast
      | some p =>
        rw [hpast, hk] at h
        cases h
        refine .simulated hreal hread (hreached _) ?_ hpast (simulate_again resim _ _ _)
        exact length_simulate resim hsize (inputFor_size hpast)

theorem Settled.again (h : Settled np resim frame real device client simlated data) :
    clientInput np resim frame real device client simlated = (data, simlated) := by
  simp only [clientInput]
  cases h with
  | real found => rw [found]
  | read missing done =>
    rw [missing]
    exact if_pos done
  | refused missing ahead reached size =>
    rw [missing]
    simp only [if_neg ahead]
    rw [reached.search.2 size]
  | unknown missing ahead reached size past =>
    obtain ⟨k, hsearch, -⟩ := reached.search.1 size
    rw [missing]
    simp only [if_neg ahead]
    rw [hsearch]
    simp only [past]
  | @simulated e p missing ahead reached size past kept =>
    obtain ⟨k, hsearch, hk⟩ := reached.search.1 size
    rw [missing]
    simp only [if_neg ahead]
    rw [hsearch]
    simp only [past, hk, Option.map_some, Option.getD_some, kept, withData_self hk]

theorem Settled.of_reached {list : List InputState}
    (h : Settled np resim frame real device client simlated data)
    (hreached : ∀ e, Reached client (np.expectedInputSize (1 <<< device)) e simlated →
      Reached client (np.expectedInputSize (1 <<< device)) e list) :
    Settled np resim frame real device client list data := by
  cases h with
  | real found => exact .real found
  | read missing done => exact .read missing done
  | refused missing ahead reached size => exact .refused missing ahead (hreached _ reached) size
  | unknown missing ahead reached size past =>
    exact .unknown missing ahead (hreached _ reached) size past
  | simulated missing ahead reached size past kept =>
    exact .simulated missing ahead (hreached _ reached) size past kept

theorem Settled.other {client' : ℕ} (hne : client' ≠ client)
    (h : Settled np resim frame real device client simlated data) :
    Settled np resim frame real device client
      (clientInput np resim frame real device client' simlated).2 data := by
  simp only [clientInput]
  cases inputFor real client' (np.expectedInputSize (1 <<< device)) with
  | some s => exact h
  | none =>
    simp only
    split_ifs
    · exact h
    rcases hsearch : netplayInputStateFor simlated client' (np.expectedInputSize (1 <<< device))
      false false with ⟨_ | k, taken⟩
    · exact h
    · simp only
      obtain ⟨e, hk, -, -⟩ := reached_of_search hsearch
      cases pastInput np device client' with
      | none =>
        refine h.of_reached fun e' he' => ?_
        have hkept := he'.other hne hsearch e.data
        rw [withData_self hk] at hkept
        exact hkept
      | some p => exact h.of_reached fun e' he' => he'.other hne hsearch _

end Client

section Clients

variable {np : NetplayT σ} {resim : Bool} {frame : ℕ} {real : List InputState}
  {device clients : ℕ}

def count (clients : ℕ) (inputs : ℕ → Option (List UInt32)) (counted : List UInt32 × ℕ)
    (client : ℕ) : List UInt32 × ℕ :=
  if clients.testBit client then
    match inputs client with
    | some data => (data, counted.2 + 1)
    | none => counted
  else counted

/-- The last of some clients with input, and how many have it. -/
def tally (clients : ℕ) (inputs : ℕ → Option (List UInt32)) (among : List ℕ)
    (counted : List UInt32 × ℕ) : List UInt32 × ℕ :=
  among.foldl (count clients inputs) counted

theorem tally_cons (clients : ℕ) (inputs : ℕ → Option (List UInt32)) (client : ℕ) (among : List ℕ)
    (counted : List UInt32 × ℕ) : tally clients inputs (client :: among) counted =
      tally clients inputs among (count clients inputs counted client) := rfl

/-- Settled clients are only counted. -/
theorem foldl_settled {inputs : ℕ → Option (List UInt32)} {among : List ℕ}
    {simlated : List InputState}
    (h : ∀ client ∈ among, clients.testBit client = true →
      Settled np resim frame real device client simlated (inputs client))
    (counted : List UInt32 × ℕ) :
    among.foldl (nextClient np resim frame real device clients) (counted.1, counted.2, simlated) =
      ((tally clients inputs among counted).1, (tally clients inputs among counted).2,
        simlated) := by
  induction among generalizing counted with
  | nil => rfl
  | cons client among ih =>
    have hrest := ih fun c hc => h c (List.mem_cons_of_mem client hc)
    rw [List.foldl_cons, nextClient, tally_cons, count]
    by_cases hbit : clients.testBit client = true
    · rw [if_pos hbit, if_pos hbit, (h client List.mem_cons_self hbit).again]
      cases inputs client with
      | none => exact hrest counted
      | some data => exact hrest (data, counted.2 + 1)
    · rw [if_neg hbit, if_neg hbit]
      exact hrest counted

/-- The clients of a device settle one after the other. -/
theorem settled_foldl {among : List ℕ} (hnodup : among.Nodup) (known : Known) :
    (∀ client ∉ among, ∀ data,
      Settled np resim frame real device client known.2.2 data →
        Settled np resim frame real device client
          (among.foldl (nextClient np resim frame real device clients) known).2.2 data) ∧
    ∃ inputs : ℕ → Option (List UInt32),
      (∀ client ∈ among, clients.testBit client = true →
        Settled np resim frame real device client
          (among.foldl (nextClient np resim frame real device clients) known).2.2
          (inputs client)) ∧
      ((among.foldl (nextClient np resim frame real device clients) known).1,
        (among.foldl (nextClient np resim frame real device clients) known).2.1) =
        tally clients inputs among (known.1, known.2.1) := by
  induction among generalizing known with
  | nil => exact ⟨fun _ _ _ h => h, fun _ => none, fun _ hin => absurd hin List.not_mem_nil, rfl⟩
  | cons client among ih =>
    obtain ⟨hnot, hrest⟩ := List.nodup_cons.mp hnodup
    rw [List.foldl_cons]
    obtain ⟨hothers, inputs, hsettled, hcounted⟩ :=
      ih hrest (nextClient np resim frame real device clients known client)
    have hstep : ∀ other ≠ client, ∀ data,
        Settled np resim frame real device other known.2.2 data →
          Settled np resim frame real device other
            (nextClient np resim frame real device clients known client).2.2 data := by
      intro other hne data h
      have hkept := h.other (Ne.symm hne)
      rw [nextClient]
      split_ifs
      · rcases hinput : clientInput np resim frame real device client known.2.2 with
          ⟨_ | input, list⟩
        · rw [hinput] at hkept
          exact hkept
        · rw [hinput] at hkept
          exact hkept
      · exact h
    constructor
    · intro other hother data h
      have hne : other ≠ client := fun heq => hother (heq ▸ List.mem_cons_self)
      have hout : other ∉ among := fun hin => hother (List.mem_cons_of_mem client hin)
      exact hothers other hout data (hstep other hne data h)
    · rcases hinput : clientInput np resim frame real device client known.2.2 with ⟨data, list⟩
      have hfirst := settled_of_clientInput hinput
      have hinputs : ∀ counted, tally clients (Function.update inputs client data) among counted =
          tally clients inputs among counted := by
        intro counted
        apply List.foldl_ext
        intro counted other hother
        have hne : other ≠ client := fun heq => hnot (heq ▸ hother)
        rw [count, count, Function.update_of_ne hne]
      refine ⟨Function.update inputs client data, fun other hother hbit => ?_, ?_⟩
      · rcases List.mem_cons.mp hother with rfl | hother
        · rw [Function.update_self]
          apply hothers other hnot
          rw [nextClient, if_pos hbit, hinput]
          cases data with
          | none => exact hfirst
          | some data => exact hfirst
        · have hne : other ≠ client := fun heq => hnot (heq ▸ hother)
          rw [Function.update_of_ne hne]
          exact hsettled other hother hbit
      · rw [hcounted, tally_cons, hinputs, count, Function.update_self, nextClient, hinput]
        split_ifs
        · cases data with
          | none => rfl
          | some data => rfl
        · rfl

theorem clientsInput_again (simlated : List InputState) :
    clientsInput np resim frame real device clients
        (clientsInput np resim frame real device clients simlated).2.2 =
      clientsInput np resim frame real device clients simlated := by
  obtain ⟨-, inputs, hsettled, hcounted⟩ := @settled_foldl σ np resim frame real device clients
    (List.range MAX_CLIENTS) List.nodup_range ([], 0, simlated)
  refine (foldl_settled hsettled ([], 0)).trans ?_
  rw [← hcounted]
  rfl

end Clients

section Device

variable (np : NetplayT σ) (resim : Bool)

/-- The clients whose input a device gets in a frame. -/
def frameClients (f : DeltaFrame σ) (device : ℕ) : ℕ :=
  realClients (np.roster.deviceClients device) (f.realInput device)
    (np.expectedInputSize (1 <<< device))

/-- What is merged of several clients. -/
def mergedInput (f : DeltaFrame σ) (device : ℕ) : List UInt32 :=
  let dtype := deviceType (np.configDevices device)
  let digital := netplayMergeDigital np (List.replicate (np.expectedInputSize (1 <<< device)) 0) f
    device (frameClients np f device) (digitalOf dtype)
  netplayMergeAnalog np digital f device (frameClients np f device) dtype

theorem length_mergedInput (f : DeltaFrame σ) (device : ℕ) :
    (mergedInput np f device).length = np.expectedInputSize (1 <<< device) := by
  rw [mergedInput, length_netplayMergeAnalog, length_netplayMergeDigital, List.length_replicate]

theorem mergedInput_same {f f' : DeltaFrame σ} {device : ℕ} (h : SameDevice device f f') :
    mergedInput np f' device = mergedInput np f device := by
  have hclients : frameClients np f' device = frameClients np f device := h.clients _ _
  have hdigital := @SameDevice.mergeDigital σ np np.buffer device f f' h
  have hanalog := @SameDevice.mergeAnalog σ np np.buffer device f f' h
  rw [mergedInput, mergedInput, hclients, ← hdigital]
  exact hanalog _ _ _

/-- What is copied, from the list behind the states of another size. -/
theorem copyResolved_kept (f : DeltaFrame σ) (device : ℕ) (clientState : List UInt32)
    (clientCount : ℕ) {old : List UInt32} {rest : List InputState}
    (hkept : netplayInputStateFor ((f.resolvedInput device).dropWhile fun s =>
        decide (s.size ≠ np.expectedInputSize (1 <<< device) ∨ s.clientNum ≠ 0)) 0
        (np.expectedInputSize (1 <<< device)) false false = (some 0, ⟨true, 0, old⟩ :: rest)) :
    copyResolved np f device (frameClients np f device) clientState clientCount =
      if clientCount = 1 then (decide (old ≠ clientState), ⟨true, 0, clientState⟩ :: rest)
      else if clientCount = 0 then
        (decide (old ≠ List.replicate (np.expectedInputSize (1 <<< device)) 0),
          ⟨true, 0, List.replicate (np.expectedInputSize (1 <<< device)) 0⟩ :: rest)
      else
        match netplayInputStateFor rest 1 (np.expectedInputSize (1 <<< device)) false false with
        | (none, rest) => (false, ⟨true, 0, old⟩ :: rest)
        | (some j, rest) =>
          (decide (mergedInput np f device ≠ old),
            ⟨true, 0, mergedInput np f device⟩ :: withData rest j old) := by
  have hfirst : netplayInputStateFor (⟨true, 0, old⟩ :: rest) 1
      (np.expectedInputSize (1 <<< device)) false false = _ :=
    search_pass nofun fun _ => Nat.zero_ne_one
  simp only [copyResolved, hkept]
  split_ifs
  · rfl
  · rfl
  · rw [hfirst]
    rcases netplayInputStateFor rest 1 (np.expectedInputSize (1 <<< device)) false false with
      ⟨_ | j, rest⟩
    · rfl
    · rfl

/-- A device whose resolved state is what resolving it again gives. -/
structure Steady (device : ℕ) (f : DeltaFrame σ) (clientState : List UInt32) (clientCount : ℕ)
    (data : List UInt32) (rest : List InputState) : Prop where
  known : clientsInput np resim f.frame (f.realInput device) device (frameClients np f device)
    (f.simlatedInput device) = (clientState, clientCount, f.simlatedInput device)
  resolved : f.resolvedInput device = ⟨true, 0, data⟩ :: rest
  size : data.length = np.expectedInputSize (1 <<< device)
  single : clientCount = 1 → data = clientState
  nobody : clientCount = 0 → data = List.replicate (np.expectedInputSize (1 <<< device)) 0
  several : clientCount ≠ 1 → clientCount ≠ 0 → data = mergedInput np f device ∨
    ∃ e, e.size ≠ np.expectedInputSize (1 <<< device) ∧
      Reached 1 (np.expectedInputSize (1 <<< device)) e rest

/-- The data that the frontend reads. -/
def resolvedData (f : DeltaFrame σ) (device : ℕ) : Option (List UInt32) :=
  (f.resolvedInput device).head?.map InputState.data

theorem resolveDevice_eq (f : DeltaFrame σ) (device : ℕ) :
    resolveDevice np resim f device =
      let (clientState, clientCount, list) := clientsInput np resim f.frame (f.realInput device)
        device (frameClients np f device) (f.simlatedInput device)
      let f := { f with simlatedInput := Function.update f.simlatedInput device list }
      let (changed, resolved) := copyResolved np f device (frameClients np f device) clientState
        clientCount
      (changed, { f with resolvedInput := Function.update f.resolvedInput device resolved }) := by
  simp only [resolveDevice, resolveClients_eq]
  rfl

variable {np resim} {device : ℕ} {f : DeltaFrame σ}

theorem steady_resolveDevice (f : DeltaFrame σ) (device : ℕ) :
    ∃ clientState clientCount data rest,
      Steady np resim device (resolveDevice np resim f device).2 clientState clientCount data
        rest := by
  obtain ⟨_, _, hlength⟩ := resolveClients_frame np resim f device (frameClients np f device)
  have hagain := @clientsInput_again σ np resim f.frame (f.realInput device) device
    (frameClients np f device) (f.simlatedInput device)
  rw [resolveClients_eq] at hlength
  rw [resolveDevice_eq]
  rcases hinput : clientsInput np resim f.frame (f.realInput device) device
    (frameClients np f device) (f.simlatedInput device) with ⟨clientState, clientCount, list⟩
  rw [hinput] at hagain hlength
  dsimp only at hagain hlength ⊢
  have hsimlated : Function.update f.simlatedInput device list device = list :=
    Function.update_self ..
  obtain ⟨old, rest, hkept, hold⟩ := netplayInputStateFor_kept (f.resolvedInput device)
    (np.expectedInputSize (1 <<< device))
  rw [copyResolved_kept np { f with simlatedInput := Function.update f.simlatedInput device list }
    device clientState clientCount hkept]
  have hknown : ∀ resolved : List InputState, clientsInput np resim f.frame (f.realInput device)
      device (frameClients np { f with
        simlatedInput := Function.update f.simlatedInput device list
        resolvedInput := Function.update f.resolvedInput device resolved } device)
      (Function.update f.simlatedInput device list device) =
      (clientState, clientCount, Function.update f.simlatedInput device list device) := by
    intro resolved
    rw [hsimlated]
    exact hagain
  by_cases hone : clientCount = 1
  · rw [if_pos hone]
    exact ⟨clientState, clientCount, clientState, rest, hknown _, Function.update_self ..,
      hlength hone, fun _ => rfl, fun hzero => absurd (hone.symm.trans hzero) Nat.one_ne_zero,
      fun hnot => absurd hone hnot⟩
  rw [if_neg hone]
  by_cases hzero : clientCount = 0
  · rw [if_pos hzero]
    exact ⟨clientState, clientCount, _, rest, hknown _, Function.update_self ..,
      List.length_replicate, fun h => absurd h hone, fun _ => rfl, fun _ hnot => absurd hzero hnot⟩
  rw [if_neg hzero]
  rcases hsecond : netplayInputStateFor rest 1 (np.expectedInputSize (1 <<< device)) false false
    with ⟨_ | j, rest'⟩
  · obtain ⟨e, hsize, hreached⟩ := reached_of_search_none hsecond
    obtain rfl : rest = rest' := congrArg Prod.snd ((hreached.search.2 hsize).symm.trans hsecond)
    exact ⟨clientState, clientCount, old, rest, hknown _, Function.update_self .., hold,
      fun h => absurd h hone, fun h => absurd h hzero, fun _ _ => Or.inr ⟨e, hsize, hreached⟩⟩
  · exact ⟨clientState, clientCount, _, _, hknown _, Function.update_self ..,
      length_mergedInput np _ device, fun h => absurd h hone, fun h => absurd h hzero,
      fun _ _ => Or.inl rfl⟩

theorem Steady.again {clientState data : List UInt32} {clientCount : ℕ} {rest : List InputState}
    (h : Steady np resim device f clientState clientCount data rest) :
    (resolveDevice np resim f device).1 = false ∧
      resolvedData (resolveDevice np resim f device).2 device = resolvedData f device := by
  have hself : { f with
      simlatedInput := Function.update f.simlatedInput device (f.simlatedInput device) } = f := by
    rw [Function.update_eq_self]
  have hkept : netplayInputStateFor ((f.resolvedInput device).dropWhile fun s =>
      decide (s.size ≠ np.expectedInputSize (1 <<< device) ∨ s.clientNum ≠ 0)) 0
      (np.expectedInputSize (1 <<< device)) false false = (some 0, ⟨true, 0, data⟩ :: rest) := by
    have hsize : (InputState.mk true 0 data).size = np.expectedInputSize (1 <<< device) := h.size
    rw [h.resolved, List.dropWhile_cons_of_neg (by simp [hsize]), search_own rfl rfl, if_pos hsize]
  have hcopy := copyResolved_kept np f device clientState clientCount hkept
  rw [resolveDevice_eq, h.known]
  dsimp only
  rw [hself, hcopy]
  have hdata : ∀ resolved : List InputState, resolved.head? = some ⟨true, 0, data⟩ →
      resolvedData { f with resolvedInput := Function.update f.resolvedInput device resolved }
        device = resolvedData f device := by
    intro resolved hhead
    rw [resolvedData, resolvedData]
    dsimp only
    rw [Function.update_self, hhead, h.resolved]
    rfl
  by_cases hone : clientCount = 1
  · rw [if_pos hone, ← h.single hone]
    exact ⟨decide_eq_false (not_not_intro rfl), hdata _ rfl⟩
  rw [if_neg hone]
  by_cases hzero : clientCount = 0
  · rw [if_pos hzero, ← h.nobody hzero]
    exact ⟨decide_eq_false (not_not_intro rfl), hdata _ rfl⟩
  rw [if_neg hzero]
  rcases h.several hone hzero with hmerged | ⟨e, hsize, hreached⟩
  · rcases netplayInputStateFor rest 1 (np.expectedInputSize (1 <<< device)) false false with
      ⟨_ | j, rest'⟩
    · exact ⟨rfl, hdata _ rfl⟩
    · rw [← hmerged]
      exact ⟨decide_eq_false (not_not_intro rfl), hdata _ rfl⟩
  · rw [hreached.search.2 hsize]
    exact ⟨rfl, hdata _ rfl⟩

theorem Steady.other {clientState data : List UInt32} {clientCount device' : ℕ}
    {rest : List InputState} (hne : device ≠ device')
    (h : Steady np resim device f clientState clientCount data rest) :
    Steady np resim device (resolveDevice np resim f device').2 clientState clientCount data
      rest := by
  rw [resolveDevice_eq]
  rcases clientsInput np resim f.frame (f.realInput device') device' (frameClients np f device')
    (f.simlatedInput device') with ⟨clientState', clientCount', list⟩
  dsimp only
  have hlist : Function.update f.simlatedInput device' list device = f.simlatedInput device :=
    Function.update_of_ne hne ..
  have hmerged : ∀ resolved : List InputState, mergedInput np { f with
      simlatedInput := Function.update f.simlatedInput device' list
      resolvedInput := Function.update f.resolvedInput device' resolved } device =
      mergedInput np f device := by
    intro resolved
    apply mergedInput_same
    refine ⟨rfl, fun _ _ => rfl, fun _ _ => rfl, fun client size => ?_⟩
    dsimp only
    rw [hlist]
  refine ⟨?_, (Function.update_of_ne hne ..).trans h.resolved, h.size, h.single, h.nobody, ?_⟩
  · dsimp only
    rw [hlist]
    exact h.known
  · rw [hmerged]
    exact h.several

end Device

section Frame

variable {np : NetplayT σ} {resim : Bool} {f : DeltaFrame σ}

theorem resolvedData_other {device device' : ℕ} (hne : device ≠ device') :
    resolvedData (resolveDevice np resim f device').2 device = resolvedData f device := by
  rw [resolvedData, (resolveDevice_spec np resim f device').2.1 device hne, resolvedData]

theorem steady_resolveFrame (f : DeltaFrame σ) {device : ℕ} (hdevice : device < MAX_INPUT_DEVICES) :
    ∃ clientState clientCount data rest,
      Steady np resim device (resolveFrame np resim f).2 clientState clientCount data rest := by
  have hranges : ∀ n, ∀ device < n, ∃ clientState clientCount data rest,
      Steady np resim device ((List.range n).foldl (resolveNext np resim) (false, f)).2 clientState
        clientCount data rest := by
    intro n
    induction n with
    | zero => exact fun device h => absurd h (Nat.not_lt_zero device)
    | succ n ih =>
      intro device hlt
      rw [List.range_succ, List.foldl_append, List.foldl_cons, List.foldl_nil]
      rcases Nat.lt_succ_iff_lt_or_eq.mp hlt with hlt | rfl
      · obtain ⟨clientState, clientCount, data, rest, hsteady⟩ := ih device hlt
        exact ⟨clientState, clientCount, data, rest, hsteady.other (Nat.ne_of_lt hlt)⟩
      · exact steady_resolveDevice _ device
  rw [resolveFrame_eq]
  exact hranges MAX_INPUT_DEVICES device hdevice

theorem resolveFrame_steady (h : ∀ device < MAX_INPUT_DEVICES, ∃ clientState clientCount data rest,
      Steady np resim device f clientState clientCount data rest) :
    (resolveFrame np resim f).1 = false ∧
      ∀ device, resolvedData (resolveFrame np resim f).2 device = resolvedData f device := by
  have hranges : ∀ n ≤ MAX_INPUT_DEVICES,
      ((List.range n).foldl (resolveNext np resim) (false, f)).1 = false ∧
      (∀ device < MAX_INPUT_DEVICES, ∃ clientState clientCount data rest,
        Steady np resim device ((List.range n).foldl (resolveNext np resim) (false, f)).2
          clientState clientCount data rest) ∧
      ∀ device, resolvedData ((List.range n).foldl (resolveNext np resim) (false, f)).2 device =
        resolvedData f device := by
    intro n
    induction n with
    | zero => exact fun _ => ⟨rfl, h, fun _ => rfl⟩
    | succ n ih =>
      intro hn
      obtain ⟨hret, hsteady, hdata⟩ := ih (Nat.le_of_succ_le hn)
      rw [List.range_succ, List.foldl_append, List.foldl_cons, List.foldl_nil]
      obtain ⟨clientState, clientCount, data, rest, hdevice⟩ := hsteady n hn
      obtain ⟨hchanged, hsame⟩ := hdevice.again
      refine ⟨?_, fun device hlt => ?_, fun device => ?_⟩
      · rw [resolveNext, hret, hchanged]
        rfl
      · by_cases hdev : device = n
        · rw [hdev]
          exact steady_resolveDevice _ n
        · obtain ⟨clientState', clientCount', data', rest', hother⟩ := hsteady device hlt
          exact ⟨clientState', clientCount', data', rest', hother.other hdev⟩
      · by_cases hdev : device = n
        · rw [hdev]
          exact hsame.trans (hdata n)
        · exact (resolvedData_other hdev).trans (hdata device)
  rw [resolveFrame_eq]
  obtain ⟨hret, -, hdata⟩ := hranges MAX_INPUT_DEVICES (le_refl _)
  exact ⟨hret, hdata⟩

theorem resolveFrame_buffer {buffer : ℕ → DeltaFrame σ} (hpast : ∀ device client,
      pastInput { np with buffer := buffer } device client = pastInput np device client)
    (f : DeltaFrame σ) :
    resolveFrame { np with buffer := buffer } resim f = resolveFrame np resim f := by
  have hclient : ∀ frame real device, clientInput { np with buffer := buffer } resim frame real
      device = clientInput np resim frame real device := by
    intro frame real device
    funext client simlated
    simp only [clientInput, hpast]
    rfl
  have hclients : ∀ frame real device clients simlated,
      clientsInput { np with buffer := buffer } resim frame real device clients simlated =
        clientsInput np resim frame real device clients simlated := by
    intro frame real device clients simlated
    have hnext : nextClient { np with buffer := buffer } resim frame real device clients =
        nextClient np resim frame real device clients := by
      funext known client
      rw [nextClient, nextClient, hclient]
    rw [clientsInput, clientsInput, hnext]
  have hdevice : ∀ f device, resolveDevice { np with buffer := buffer } resim f device =
      resolveDevice np resim f device := by
    intro f device
    rw [resolveDevice_eq, resolveDevice_eq, hclients]
    rfl
  rw [resolveFrame_eq, resolveFrame_eq]
  congr 1
  funext resolved device
  rw [resolveNext, resolveNext, hdevice]

theorem resolveInput_again (np : NetplayT σ) (simPtr : ℕ) (resim : Bool) :
    (netplayResolveInput (netplayResolveInput np simPtr resim).2 simPtr resim).1 = false ∧
      ∀ device, resolvedData ((netplayResolveInput (netplayResolveInput np simPtr resim).2 simPtr
          resim).2.buffer simPtr) device =
        resolvedData ((netplayResolveInput np simPtr resim).2.buffer simPtr) device := by
  have hreal := (resolveFrame_real np resim (np.buffer simPtr)).1
  have hpast : ∀ device client, pastInput { np with
      buffer := Function.update np.buffer simPtr (resolveFrame np resim (np.buffer simPtr)).2 }
      device client = pastInput np device client := by
    intro device client
    simp only [pastInput]
    by_cases hptr : prevPtr np.bufferSize (np.cursors.read client).ptr = simPtr
    · rw [hptr, Function.update_self, hreal]
      rfl
    · rw [Function.update_of_ne hptr]
      rfl
  obtain ⟨hret, hdata⟩ := resolveFrame_steady fun device hdevice =>
    @steady_resolveFrame σ np resim (np.buffer simPtr) device hdevice
  simp only [netplayResolveInput, NetplayT.setFrame, Function.update_self,
    resolveFrame_buffer hpast]
  exact ⟨hret, hdata⟩

end Frame

/-- Where a client has one state in a list and its simulated one is found before a new one is
made, the resolved input does not depend on where the states stand; and a second call finds
nothing to change. -/
theorem resolveInput_settles (np : NetplayT σ) (simPtr : ℕ) (resim : Bool) :
    (∀ f, Rearranged (np.buffer simPtr) f → Orderly np (np.buffer simPtr) → Orderly np f →
      (netplayResolveInput (np.setFrame simPtr f) simPtr resim).1 =
        (netplayResolveInput np simPtr resim).1 ∧
      ((netplayResolveInput (np.setFrame simPtr f) simPtr resim).2.buffer simPtr).resolvedInput =
        ((netplayResolveInput np simPtr resim).2.buffer simPtr).resolvedInput) ∧
    (netplayResolveInput (netplayResolveInput np simPtr resim).2 simPtr resim).1 = false ∧
      ∀ device, resolvedData ((netplayResolveInput (netplayResolveInput np simPtr resim).2 simPtr
          resim).2.buffer simPtr) device =
        resolvedData ((netplayResolveInput np simPtr resim).2.buffer simPtr) device := by
  refine ⟨fun f hf hbefore hafter => ?_, resolveInput_again np simPtr resim⟩
  exact resolveInput_rearranged resim hf hbefore hafter

/-- A frame with the same input for every joypad, before it is resolved. -/
def joypadFrame (frame : ℕ) (real simlated : List InputState) : DeltaFrame ℕ :=
  { DeltaFrame.zero with
    used := true
    frame := frame
    realInput := fun _ => real
    simlatedInput := fun _ => simlated }

/-- Two clients share joypads; of the frame at 1 nothing is read yet. -/
def awaiting (real simlated : List InputState) : NetplayT ℕ :=
  let np := netplayNew idleCore true false 0 false false false [] (fun _ => RETRO_DEVICE_JOYPAD) 0
  { np with
    roster := { np.roster with deviceClients := fun _ => 3 }
    buffer := fun ptr =>
      if ptr = 1 then joypadFrame 1 real simlated
      else joypadFrame 0 [⟨true, 0, [0]⟩, ⟨true, 1, [0]⟩] []
    cursors := { np.cursors with read := fun _ => ⟨1, 1⟩ } }

theorem rearranged_joypads {real simlated real' simlated' : List InputState}
    (hreal : real.Perm real') (hsimlated : simlated.Perm simlated') :
    Rearranged ((awaiting real simlated).buffer 1) (joypadFrame 1 real' simlated') where
  frame := rfl
  resolved := rfl
  real _ := SameUsed.of_perm hreal
  simlated _ := SameUsed.of_perm hsimlated

/-- The simulated states of the two clients, in either order. -/
theorem swapped_states_settle :
    ((netplayResolveInput ((awaiting [] [⟨true, 0, [16]⟩, ⟨true, 1, [32]⟩]).setFrame 1
        (joypadFrame 1 [] [⟨true, 1, [32]⟩, ⟨true, 0, [16]⟩])) 1 true).2.buffer 1).resolvedInput =
      ((netplayResolveInput (awaiting [] [⟨true, 0, [16]⟩, ⟨true, 1, [32]⟩]) 1
        true).2.buffer 1).resolvedInput ∧
    (netplayResolveInput (netplayResolveInput
      (awaiting [] [⟨true, 0, [16]⟩, ⟨true, 1, [32]⟩]) 1 true).2 1 true).1 = false := by
  obtain ⟨hsame, hagain, -⟩ :=
    resolveInput_settles (awaiting [] [⟨true, 0, [16]⟩, ⟨true, 1, [32]⟩]) 1 true
  refine ⟨(hsame (joypadFrame 1 [] [⟨true, 1, [32]⟩, ⟨true, 0, [16]⟩])
    (rearranged_joypads (List.Perm.refl _) (List.Perm.swap ..)) ?_ ?_).2, hagain⟩
  · refine ⟨fun _ => List.Pairwise.nil, fun _ => ?_, fun _ => ?_⟩
    · simp [awaiting, joypadFrame, OnePerClient]
    · simp [awaiting, joypadFrame, Packed]
  · refine ⟨fun _ => List.Pairwise.nil, fun _ => ?_, fun _ => ?_⟩
    · simp [joypadFrame, OnePerClient]
    · simp [joypadFrame, Packed]

/-- An unused state in front of the simulated one is taken in its place, and the directions are
lost; and of two states of a client the first counts. -/
theorem rearranged_resolves_otherwise :
    (¬ ∀ (np : NetplayT ℕ) (simPtr : ℕ) (resim : Bool) (f : DeltaFrame ℕ),
      Rearranged (np.buffer simPtr) f →
      (∀ device, OnePerClient (f.realInput device) ∧ OnePerClient (f.simlatedInput device)) →
      ((netplayResolveInput (np.setFrame simPtr f) simPtr resim).2.buffer simPtr).resolvedInput =
        ((netplayResolveInput np simPtr resim).2.buffer simPtr).resolvedInput) ∧
    ¬ ∀ (np : NetplayT ℕ) (simPtr : ℕ) (resim : Bool) (f : DeltaFrame ℕ),
      Rearranged (np.buffer simPtr) f →
      (∀ device, Packed (np.expectedInputSize (1 <<< device)) (f.simlatedInput device)) →
      ((netplayResolveInput (np.setFrame simPtr f) simPtr resim).2.buffer simPtr).resolvedInput =
        ((netplayResolveInput np simPtr resim).2.buffer simPtr).resolvedInput := by
  constructor
  · intro h
    have hsame := h (awaiting [] [⟨true, 0, [16]⟩, ⟨false, 0, [0]⟩]) 1 true
      (joypadFrame 1 [] [⟨false, 0, [0]⟩, ⟨true, 0, [16]⟩])
      (rearranged_joypads (List.Perm.refl _) (List.Perm.swap ..))
      (fun _ => ⟨List.Pairwise.nil, by simp [joypadFrame, OnePerClient]⟩)
    exact absurd (congrFun hsame 0) (by decide)
  · intro h
    have hsame := h (awaiting [⟨true, 0, [1]⟩, ⟨true, 0, [2]⟩] []) 1 true
      (joypadFrame 1 [⟨true, 0, [2]⟩, ⟨true, 0, [1]⟩] [])
      (rearranged_joypads (List.Perm.swap ..) (List.Perm.refl _)) (fun _ => List.Pairwise.nil)
    exact absurd (congrFun hsame 0) (by decide)

end RetroArch.Netplay.Settling
