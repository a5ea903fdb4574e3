/- Resolving reads a list of input states as a map from the clients to their states. -/

import RetroArch.Netplay.Searching

namespace RetroArch.Netplay.Ordering

open Library.Bits Delta State Resolve ReadBack Searching

variable {σ : Type}

section Device

variable (np : NetplayT σ) (resim : Bool)

/-- The last input that was read of a client. -/
def pastInput (device client : ℕ) : Option InputState :=
  let pframe := np.buffer (prevPtr np.bufferSize (np.cursors.read client).ptr)
  inputFor (pframe.realInput device) client (np.expectedInputSize (1 <<< device))

/-- `resolveClient` on the lists of the device. -/
def clientInput (frame : ℕ) (real : List InputState) (device client : ℕ)
    (simlated : List InputState) : Option (List UInt32) × List InputState :=
  let dtype := deviceType (np.configDevices device)
  let dsize := np.expectedInputSize (1 <<< device)
  match inputFor real client dsize with
  | some simstate => (some simstate.data, simlated)
  | none =>
    if frame < (np.cursors.read client).frameCount then (none, simlated)
    else
      match netplayInputStateFor simlated client dsize false false with
      | (none, _) => (none, simlated)
      | (some k, list) =>
        match pastInput np device client with
        | none => (none, list)
        | some pstate =>
          let data := simulate dtype resim (((list[k]?).map InputState.data).getD [])
            pstate.data
          (some data, withData list k data)

theorem resolveClient_eq (f : DeltaFrame σ) (device client : ℕ) :
    resolveClient np resim f device client =
      let (data, list) := clientInput np resim f.frame (f.realInput device) device client
        (f.simlatedInput device)
      (data, { f with simlatedInput := Function.update f.simlatedInput device list }) := by
  have hself : { f with
      simlatedInput := Function.update f.simlatedInput device (f.simlatedInput device) } = f := by
    rw [Function.update_eq_self]
  simp only [resolveClient, clientInput, pastInput]
  cases inputFor (f.realInput device) client (np.expectedInputSize (1 <<< device)) with
  | some simstate => simp only [hself]
  | none =>
    simp only
    split_ifs
    · simp only [hself]
    · rcases netplayInputStateFor (f.simlatedInput device) client
        (np.expectedInputSize (1 <<< device)) false false with ⟨_ | k, list⟩
      · simp only [hself]
      · simp only
        generalize np.buffer (prevPtr np.bufferSize (np.cursors.read client).ptr) = pframe
        rcases inputFor (pframe.realInput device) client (np.expectedInputSize (1 <<< device)) with
          _ | pstate
        · rfl
        · rfl

/-- What is known after a client: the last input, how many have one, and the simulated states. -/
abbrev Known := List UInt32 × ℕ × List InputState

/-- One client of `resolveClients`. -/
def nextClient (frame : ℕ) (real : List InputState) (device clients : ℕ) (known : Known)
    (client : ℕ) : Known :=
  if clients.testBit client then
    match clientInput np resim frame real device client known.2.2 with
    | (some data, list) => (data, known.2.1 + 1, list)
    | (none, list) => (known.1, known.2.1, list)
  else known

def clientsInput (frame : ℕ) (real : List InputState) (device clients : ℕ)
    (simlated : List InputState) : Known :=
  (List.range MAX_CLIENTS).foldl (nextClient np resim frame real device clients) ([], 0, simlated)

theorem resolveClients_eq (f : DeltaFrame σ) (device clients : ℕ) :
    resolveClients np resim f device clients =
      let (clientState, clientCount, list) := clientsInput np resim f.frame (f.realInput device)
        device clients (f.simlatedInput device)
      (clientState, clientCount,
        { f with simlatedInput := Function.update f.simlatedInput device list }) := by
  rw [resolveClients, clientsInput]
  induction List.range MAX_CLIENTS using List.reverseRecOn with
  | nil =>
    simp only [List.foldl_nil, Function.update_eq_self]
  | append_singleton list client ih =>
    rw [List.foldl_append, List.foldl_append, ih]
    simp only [List.foldl_cons, List.foldl_nil, nextClient]
    split_ifs
    · rw [resolveClient_eq]
      simp only [Function.update_self, Function.update_idem]
      generalize clientInput np resim f.frame (f.realInput device) device client _ = result
      rcases result with ⟨_ | data, simlated⟩
      · rfl
      · rfl
    · rfl

end Device

section Same

/-- Two packed lists with the same states in use. -/
structure SameStates (size : ℕ) (list list' : List InputState) : Prop where
  packed : Packed size list
  packed' : Packed size list'
  used : ∀ client, usedOf list' client = usedOf list client

variable {size client : ℕ} {list list' : List InputState}

theorem SameStates.inputFor (h : SameStates size list list') (client size' : ℕ) :
    inputFor list' client size' = inputFor list client size' := by
  rw [inputFor_eq, inputFor_eq, h.used]

/-- A search takes the same state out of both lists, and leaves them the same. -/
theorem SameStates.search (h : SameStates size list list') (client : ℕ) :
    ((netplayInputStateFor list client size false false).1 = none ∧
      (netplayInputStateFor list' client size false false).1 = none) ∨
    ∃ k k' l l' e, netplayInputStateFor list client size false false = (some k, l) ∧
      netplayInputStateFor list' client size false false = (some k', l') ∧
      l[k]? = some e ∧ l'[k']? = some e ∧
      ∀ data, SameStates size (withData l k data) (withData l' k' data) := by
  have htaken : ∀ {k k' l l' e},
      netplayInputStateFor list client size false false = (some k, l) →
      netplayInputStateFor list' client size false false = (some k', l') →
      l[k]? = some e → l'[k']? = some e →
      ∀ data, SameStates size (withData l k data) (withData l' k' data) := by
    intro k k' l l' e hsearch hsearch' hk hk' data
    refine ⟨h.packed.search hsearch data, h.packed'.search hsearch' data, fun client' => ?_⟩
    by_cases hclient : client' = client
    · subst hclient
      obtain ⟨e₁, he₁, -, hreached⟩ := reached_of_search hsearch
      obtain ⟨e₂, he₂, -, hreached'⟩ := reached_of_search hsearch'
      obtain rfl := Option.some.inj (hk.symm.trans he₁)
      obtain rfl := Option.some.inj (hk'.symm.trans he₂)
      rw [(hreached data).usedOf, (hreached' data).usedOf]
    · rw [usedOf_other hclient hsearch, usedOf_other hclient hsearch', h.used]
  cases hused : usedOf list client with
  | none =>
    obtain ⟨k, l, hsearch, hk⟩ := search_fresh size hused
    obtain ⟨k', l', hsearch', hk'⟩ := search_fresh size ((h.used client).trans hused)
    exact Or.inr ⟨k, k', l, l', _, hsearch, hsearch', hk, hk', htaken hsearch hsearch' hk hk'⟩
  | some e =>
    have hreached := (h.packed.reached hused).search
    have hreached' := (h.packed'.reached ((h.used client).trans hused)).search
    by_cases hsize : e.size = size
    · obtain ⟨k, hsearch, hk⟩ := hreached.1 hsize
      obtain ⟨k', hsearch', hk'⟩ := hreached'.1 hsize
      exact Or.inr ⟨k, k', _, _, e, hsearch, hsearch', hk, hk', htaken hsearch hsearch' hk hk'⟩
    · exact Or.inl ⟨by rw [hreached.2 hsize], by rw [hreached'.2 hsize]⟩

variable {np : NetplayT σ} {buffer : ℕ → DeltaFrame σ} {device : ℕ} {real real' : List InputState}

theorem clientInput_same (resim : Bool) (frame : ℕ)
    (hpast : pastInput { np with buffer := buffer } device client = pastInput np device client)
    (hreal : inputFor real' client (np.expectedInputSize (1 <<< device)) =
      inputFor real client (np.expectedInputSize (1 <<< device)))
    (h : SameStates (np.expectedInputSize (1 <<< device)) list list') :
    (clientInput { np with buffer := buffer } resim frame real' device client list').1 =
      (clientInput np resim frame real device client list).1 ∧
    SameStates (np.expectedInputSize (1 <<< device))
      (clientInput np resim frame real device client list).2
      (clientInput { np with buffer := buffer } resim frame real' device client list').2 := by
  have hsize : ({ np with buffer := buffer } : NetplayT σ).expectedInputSize (1 <<< device) =
      np.expectedInputSize (1 <<< device) := rfl
  simp only [clientInput, hpast, hsize, hreal]
  cases inputFor real client (np.expectedInputSize (1 <<< device)) with
  | some simstate => exact ⟨rfl, h⟩
  | none =>
    simp only
    split_ifs
    · exact ⟨rfl, h⟩
    rcases h.search client with ⟨hnone, hnone'⟩ |
      ⟨k, k', l, l', e, hsearch, hsearch', hk, hk', hset⟩
    · rcases hsearch : netplayInputStateFor list client (np.expectedInputSize (1 <<< device))
        false false with ⟨_ | k, l⟩
      · rcases hsearch' : netplayInputStateFor list' client
          (np.expectedInputSize (1 <<< device)) false false with ⟨_ | k', l'⟩
        · exact ⟨rfl, h⟩
        · rw [hsearch'] at hnone'
          exact nomatch hnone'
      · rw [hsearch] at hnone
        exact nomatch hnone
    · rw [hsearch, hsearch']
      simp only [hk, hk']
      cases pastInput np device client with
      | none =>
        have hsame := hset e.data
        rw [withData_self hk, withData_self hk'] at hsame
        exact ⟨rfl, hsame⟩
      | some pstate => exact ⟨rfl, hset _⟩

theorem clientsInput_same (resim : Bool) (frame : ℕ)
    (hpast : ∀ client,
      pastInput { np with buffer := buffer } device client = pastInput np device client)
    (hreal : ∀ client, inputFor real' client (np.expectedInputSize (1 <<< device)) =
      inputFor real client (np.expectedInputSize (1 <<< device))) (clients : ℕ)
    (h : SameStates (np.expectedInputSize (1 <<< device)) list list') :
    (clientsInput { np with buffer := buffer } resim frame real' device clients list').1 =
      (clientsInput np resim frame real device clients list).1 ∧
    (clientsInput { np with buffer := buffer } resim frame real' device clients list').2.1 =
      (clientsInput np resim frame real device clients list).2.1 ∧
    SameStates (np.expectedInputSize (1 <<< device))
      (clientsInput np resim frame real device clients list).2.2
      (clientsInput { np with buffer := buffer } resim frame real' device clients list').2.2 := by
  rw [clientsInput, clientsInput]
  induction List.range MAX_CLIENTS using List.reverseRecOn with
  | nil => exact ⟨rfl, rfl, h⟩
  | append_singleton others client ih =>
    rw [List.foldl_append, List.foldl_append]
    simp only [List.foldl_cons, List.foldl_nil]
    generalize others.foldl _ ([], 0, list) = known at ih ⊢
    generalize others.foldl _ ([], 0, list') = known' at ih ⊢
    obtain ⟨clientState, clientCount, list⟩ := known
    obtain ⟨clientState', clientCount', list'⟩ := known'
    obtain ⟨rfl, rfl, hlists⟩ := ih
    rw [nextClient, nextClient]
    split_ifs
    · obtain ⟨hdata, hnext⟩ := clientInput_same resim frame (hpast client) (hreal client) hlists
      rcases hinput : clientInput np resim frame real device client list with ⟨_ | data, l⟩
      · rcases hinput' : clientInput { np with buffer := buffer } resim frame real' device client
          list' with ⟨_ | data', l'⟩
        · rw [hinput, hinput'] at hnext
          exact ⟨rfl, rfl, hnext⟩
        · rw [hinput, hinput'] at hdata
          exact nomatch hdata
      · rcases hinput' : clientInput { np with buffer := buffer } resim frame real' device client
          list' with ⟨_ | data', l'⟩
        · rw [hinput, hinput'] at hdata
          exact nomatch hdata
        · rw [hinput, hinput'] at hdata hnext
          obtain rfl := Option.some.inj hdata
          exact ⟨rfl, rfl, hnext⟩
    · exact ⟨rfl, rfl, hlists⟩

/-- Two frames in which a device is looked up the same. -/
structure SameDevice (device : ℕ) (f f' : DeltaFrame σ) : Prop where
  frame : f'.frame = f.frame
  real : ∀ client size, inputFor (f'.realInput device) client size =
    inputFor (f.realInput device) client size
  clients : ∀ clients size, realClients clients (f'.realInput device) size =
    realClients clients (f.realInput device) size
  simlated : ∀ client size, inputFor (f'.simlatedInput device) client size =
    inputFor (f.simlatedInput device) client size

variable {f f' : DeltaFrame σ}

theorem SameDevice.mergedStates (h : SameDevice device f f') (clients size : ℕ) :
    mergedStates { np with buffer := buffer } f' device clients size =
      mergedStates np f device clients size := by
  simp only [Resolve.mergedStates, netplayDeviceClientState, h.frame, h.real, h.clients, h.simlated]
  rfl

theorem SameDevice.mergeDigital (h : SameDevice device f f') (data digital : List UInt32)
    (clients : ℕ) :
    netplayMergeDigital { np with buffer := buffer } data f' device clients digital =
      netplayMergeDigital np data f device clients digital := by
  simp only [netplayMergeDigital, h.mergedStates]

theorem SameDevice.mergeAnalog (h : SameDevice device f f') (data : List UInt32)
    (clients dtype : ℕ) :
    netplayMergeAnalog { np with buffer := buffer } data f' device clients dtype =
      netplayMergeAnalog np data f device clients dtype := by
  simp only [netplayMergeAnalog, mergeAnalogPart, h.mergedStates]

theorem SameDevice.copyResolved (h : SameDevice device f f')
    (hresolved : f'.resolvedInput device = f.resolvedInput device) (clients : ℕ)
    (clientState : List UInt32) (clientCount : ℕ) :
    copyResolved { np with buffer := buffer } f' device clients clientState clientCount =
      copyResolved np f device clients clientState clientCount := by
  simp only [Resolve.copyResolved, h.mergeDigital, h.mergeAnalog, hresolved]
  rfl

end Same

section Frames

variable {np : NetplayT σ} {buffer : ℕ → DeltaFrame σ} {f f' : DeltaFrame σ}

/-- Two frames in which every device is looked up the same, with the same resolved input. -/
structure SameFrame (np : NetplayT σ) (f f' : DeltaFrame σ) : Prop where
  frame : f'.frame = f.frame
  resolved : f'.resolvedInput = f.resolvedInput
  real : ∀ device client size, inputFor (f'.realInput device) client size =
    inputFor (f.realInput device) client size
  clients : ∀ device clients size, realClients clients (f'.realInput device) size =
    realClients clients (f.realInput device) size
  simlated : ∀ device, SameStates (np.expectedInputSize (1 <<< device)) (f.simlatedInput device)
    (f'.simlatedInput device)

theorem resolveDevice_same (resim : Bool) (hpast : ∀ device client,
      pastInput { np with buffer := buffer } device client = pastInput np device client)
    (h : SameFrame np f f') (device : ℕ) :
    (resolveDevice { np with buffer := buffer } resim f' device).1 =
      (resolveDevice np resim f device).1 ∧
    SameFrame np (resolveDevice np resim f device).2
      (resolveDevice { np with buffer := buffer } resim f' device).2 := by
  have hsize : ({ np with buffer := buffer } : NetplayT σ).expectedInputSize (1 <<< device) =
      np.expectedInputSize (1 <<< device) := rfl
  simp only [resolveDevice, resolveClients_eq, h.frame, h.clients, hsize]
  obtain ⟨hstate, hcount, hlists⟩ := clientsInput_same resim f.frame (hpast device)
    (fun client => h.real device client _)
    (realClients (np.roster.deviceClients device) (f.realInput device)
      (np.expectedInputSize (1 <<< device))) (h.simlated device)
  generalize clientsInput np resim f.frame (f.realInput device) device _ _ = known at *
  generalize clientsInput { np with buffer := buffer } resim f.frame (f'.realInput device) device _
    _ = known' at *
  obtain ⟨clientState, clientCount, list⟩ := known
  obtain ⟨clientState', clientCount', list'⟩ := known'
  obtain rfl : clientState' = clientState := hstate
  obtain rfl : clientCount' = clientCount := hcount
  have hdevice : SameDevice device
      { f with simlatedInput := Function.update f.simlatedInput device list }
      { f' with
        frame := f.frame
        simlatedInput := Function.update f'.simlatedInput device list' } := by
    refine ⟨rfl, h.real device, h.clients device, fun client size => ?_⟩
    simp only [Function.update_self]
    exact hlists.inputFor client size
  have hcopy := fun clients => @SameDevice.copyResolved σ np buffer device _ _ hdevice
    (congrFun h.resolved device) clients clientState' clientCount'
  dsimp only
  rw [hcopy]
  refine ⟨rfl, rfl, ?_, h.real, h.clients, fun other => ?_⟩
  · dsimp only
    rw [h.resolved]
  · by_cases hother : other = device
    · subst hother
      simp only [Function.update_self]
      exact hlists
    · simp only [Function.update_of_ne hother]
      exact h.simlated other

theorem resolveFrame_same (resim : Bool) (hpast : ∀ device client,
      pastInput { np with buffer := buffer } device client = pastInput np device client)
    (h : SameFrame np f f') :
    (resolveFrame { np with buffer := buffer } resim f').1 = (resolveFrame np resim f).1 ∧
    SameFrame np (resolveFrame np resim f).2
      (resolveFrame { np with buffer := buffer } resim f').2 := by
  rw [resolveFrame_eq, resolveFrame_eq]
  induction List.range MAX_INPUT_DEVICES using List.reverseRecOn with
  | nil => exact ⟨rfl, h⟩
  | append_singleton devices device ih =>
    rw [List.foldl_append, List.foldl_append]
    simp only [List.foldl_cons, List.foldl_nil]
    obtain ⟨hret, hframe⟩ := ih
    obtain ⟨hchanged, hnext⟩ := resolveDevice_same resim hpast hframe device
    exact ⟨congrArg₂ (· || ·) hret hchanged, hnext⟩

end Frames

section Rearranging

/-- No two states in use are of one client. -/
def OnePerClient (list : List InputState) : Prop :=
  list.Pairwise fun a b => a.used = true → b.used = true → a.clientNum ≠ b.clientNum

/-- Two lists with the same states in use, wherever they stand, and any others. -/
def SameUsed (list list' : List InputState) : Prop :=
  ∀ state : InputState, state.used = true → (state ∈ list' ↔ state ∈ list)

variable {list list' : List InputState}

theorem SameUsed.of_perm (h : list.Perm list') : SameUsed list list' :=
  fun _ _ => h.mem_iff.symm

theorem OnePerClient.usedOf_eq (h : OnePerClient list) {client : ℕ} {e : InputState} :
    usedOf list client = some e ↔ e ∈ list ∧ e.used = true ∧ e.clientNum = client := by
  induction list with
  | nil => exact ⟨nofun, fun hin => absurd hin.1 List.not_mem_nil⟩
  | cons x list ih =>
    obtain ⟨hfirst, hrest⟩ := List.pairwise_cons.mp h
    rw [usedOf, List.find?_cons]
    cases hmatch : x.used && decide (x.clientNum = client) with
    | true =>
      obtain ⟨hused, hnum⟩ := (Bool.and_eq_true_iff).mp hmatch
      have hnum := of_decide_eq_true hnum
      constructor
      · intro heq
        obtain rfl := Option.some.inj heq
        exact ⟨List.mem_cons_self, hused, hnum⟩
      · rintro ⟨hin, heused, henum⟩
        rcases List.mem_cons.mp hin with rfl | hin
        · rfl
        · exact absurd (hnum.trans henum.symm) (hfirst e hin hused heused)
    | false =>
      have hnot : ¬ (x.used = true ∧ x.clientNum = client) := by simpa using hmatch
      constructor
      · intro heq
        obtain ⟨hin, hof⟩ := (ih hrest).mp heq
        exact ⟨List.mem_cons_of_mem x hin, hof⟩
      · rintro ⟨hin, hof⟩
        rcases List.mem_cons.mp hin with rfl | hin
        · exact absurd hof hnot
        · exact (ih hrest).mpr ⟨hin, hof⟩

theorem SameUsed.usedOf (hsame : SameUsed list list') (h : OnePerClient list)
    (h' : OnePerClient list') (client : ℕ) : usedOf list' client = usedOf list client := by
  apply Option.ext
  intro e
  rw [h.usedOf_eq, h'.usedOf_eq]
  constructor
  · rintro ⟨hin, hused, hnum⟩
    exact ⟨(hsame e hused).mp hin, hused, hnum⟩
  · rintro ⟨hin, hused, hnum⟩
    exact ⟨(hsame e hused).mpr hin, hused, hnum⟩

theorem testBit_realClients (clients : ℕ) (list : List InputState) (size client : ℕ) :
    (realClients clients list size).testBit client = true ↔
      clients.testBit client = true ∨
        ∃ s ∈ list, s.used = true ∧ s.size = size ∧ s.clientNum % 32 = client := by
  rw [realClients]
  induction list generalizing clients with
  | nil => simp
  | cons x list ih =>
    rw [List.foldl_cons, ih]
    by_cases hx : x.used = true ∧ x.size = size
    · rw [if_pos hx, testBit_setBit, Bool.or_eq_true, decide_eq_true_iff]
      simp only [List.mem_cons, exists_eq_or_imp, hx, true_and]
      tauto
    · rw [if_neg hx]
      simp only [List.mem_cons, exists_eq_or_imp]
      tauto

theorem SameUsed.realClients (hsame : SameUsed list list') (clients size : ℕ) :
    realClients clients list' size = realClients clients list size := by
  apply Nat.eq_of_testBit_eq
  intro client
  rw [Bool.eq_iff_iff, testBit_realClients, testBit_realClients]
  apply or_congr_right
  constructor
  · rintro ⟨s, hin, hused, hof⟩
    exact ⟨s, (hsame s hused).mp hin, hused, hof⟩
  · rintro ⟨s, hin, hused, hof⟩
    exact ⟨s, (hsame s hused).mpr hin, hused, hof⟩

/-- A frame whose inputs stand in other places. -/
structure Rearranged (f f' : DeltaFrame σ) : Prop where
  frame : f'.frame = f.frame
  resolved : f'.resolvedInput = f.resolvedInput
  real : ∀ device, SameUsed (f.realInput device) (f'.realInput device)
  simlated : ∀ device, SameUsed (f.simlatedInput device) (f'.simlatedInput device)

/-- A client has one state in a list, and its simulated one is found before a new one is made. -/
structure Orderly (np : NetplayT σ) (f : DeltaFrame σ) : Prop where
  real : ∀ device, OnePerClient (f.realInput device)
  simlated : ∀ device, OnePerClient (f.simlatedInput device)
  packed : ∀ device, Packed (np.expectedInputSize (1 <<< device)) (f.simlatedInput device)

variable {np : NetplayT σ} {f f' : DeltaFrame σ}

theorem Rearranged.same (h : Rearranged f f') (hf : Orderly np f) (hf' : Orderly np f') :
    SameFrame np f f' where
  frame := h.frame
  resolved := h.resolved
  real device client size := by
    rw [inputFor_eq, inputFor_eq, (h.real device).usedOf (hf.real device) (hf'.real device)]
  clients device := (h.real device).realClients
  simlated device :=
    { packed := hf.packed device
      packed' := hf'.packed device
      used := (h.simlated device).usedOf (hf.simlated device) (hf'.simlated device) }

/-- The input of a frame resolves to the same, wherever its states stand. -/
theorem resolveInput_rearranged {simPtr : ℕ} (resim : Bool) (h : Rearranged (np.buffer simPtr) f')
    (hf : Orderly np (np.buffer simPtr)) (hf' : Orderly np f') :
    (netplayResolveInput (np.setFrame simPtr f') simPtr resim).1 =
      (netplayResolveInput np simPtr resim).1 ∧
    ((netplayResolveInput (np.setFrame simPtr f') simPtr resim).2.buffer simPtr).resolvedInput =
      ((netplayResolveInput np simPtr resim).2.buffer simPtr).resolvedInput := by
  have hsame := h.same hf hf'
  have hpast : ∀ device client,
      pastInput { np with buffer := Function.update np.buffer simPtr f' } device client =
        pastInput np device client := by
    intro device client
    simp only [pastInput]
    by_cases hptr : prevPtr np.bufferSize (np.cursors.read client).ptr = simPtr
    · rw [hptr, Function.update_self]
      exact hsame.real device client _
    · rw [Function.update_of_ne hptr]
      rfl
  obtain ⟨hret, hresolved⟩ := resolveFrame_same resim hpast hsame
  simp only [netplayResolveInput, NetplayT.setFrame, Function.update_self]
  exact ⟨hret, hresolved.resolved⟩

end Rearranging

end RetroArch.Netplay.Ordering
