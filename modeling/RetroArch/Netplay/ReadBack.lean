/- The core reads the local input of a frame that was captured and resolved. -/

import Mathlib.Data.List.Induction
import RetroArch.Netplay.Controls
import RetroArch.Netplay.Frames

namespace RetroArch.Netplay.ReadBack

open Library.Bits Delta State Command Resolve Poll Frames Messaging Controls

variable {σ : Type} {np np' : NetplayT σ}

theorem netplayInputStateFor_state {list list' : List InputState} {clientNum size k : ℕ}
    {mustCreate mustNotCreate : Bool}
    (h : netplayInputStateFor list clientNum size mustCreate mustNotCreate = (some k, list')) :
    ∃ state, list'[k]? = some state ∧ state.used = true ∧ state.clientNum = clientNum ∧
      state.size = size := by
  induction list generalizing k list' with
  | nil =>
    cases mustNotCreate
    swap
    · cases h
    cases h
    exact ⟨⟨true, clientNum, List.replicate size 0⟩, rfl, rfl, rfl, List.length_replicate⟩
  | cons ret rest ih =>
    rw [netplayInputStateFor] at h
    split_ifs at h with hfree hret hmatch
    · cases h
      exact ⟨⟨true, clientNum, List.replicate size 0⟩, rfl, rfl, rfl, List.length_replicate⟩
    · cases h
      exact ⟨ret, rfl, hret.1, hret.2, hmatch.2⟩
    · cases h
    · rcases hrest : netplayInputStateFor rest clientNum size mustCreate mustNotCreate with
        ⟨_ | i, rest'⟩
      · rw [hrest] at h
        cases h
      · rw [hrest] at h
        cases h
        obtain ⟨state, hstate, hof⟩ := ih hrest
        exact ⟨state, hstate, hof⟩

theorem netplayInputStateFor_fresh {list : List InputState} (clientNum size : ℕ)
    (mustCreate : Bool) (hfree : ∀ state ∈ list, state.used = false) :
    ∃ before after, netplayInputStateFor list clientNum size mustCreate false =
        (some before.length,
          before ++ ⟨true, clientNum, List.replicate size 0⟩ :: after) ∧
      (∀ state ∈ before, state.used = false) ∧ ∀ state ∈ after, state.used = false := by
  induction list with
  | nil => exact ⟨[], [], rfl, by simp, by simp⟩
  | cons ret rest ih =>
    have hret : ret.used = false := hfree ret List.mem_cons_self
    have hrest : ∀ state ∈ rest, state.used = false := fun state hstate =>
      hfree state (List.mem_cons_of_mem ret hstate)
    by_cases hsize : ret.size = size
    · refine ⟨[], rest, ?_, by simp, hrest⟩
      simp [netplayInputStateFor, hret, hsize]
    · obtain ⟨before, after, hstep, hbefore, hafter⟩ := ih hrest
      refine ⟨ret :: before, after, ?_, ?_, hafter⟩
      · simp [netplayInputStateFor, hret, hsize, hstep]
      · simpa [hret] using hbefore

theorem inputFor_only {before after : List InputState} {clientNum size : ℕ} {data : List UInt32}
    (hbefore : ∀ state ∈ before, state.used = false) (hdata : data.length = size) :
    inputFor (before ++ ⟨true, clientNum, data⟩ :: after) clientNum size =
      some ⟨true, clientNum, data⟩ := by
  have hskip : before.find? (fun i => i.used && decide (i.clientNum = clientNum)) = none := by
    rw [List.find?_eq_none]
    intro state hstate
    simp [hbefore state hstate]
  rw [inputFor_eq, usedOf, List.find?_append, hskip]
  simp [InputState.size, hdata]

theorem realClients_only {before after : List InputState} {client size : ℕ} {data : List UInt32}
    (hbefore : ∀ state ∈ before, state.used = false) (hafter : ∀ state ∈ after, state.used = false)
    (hclient : client < MAX_CLIENTS) :
    realClients (1 <<< client) (before ++ ⟨true, client, data⟩ :: after) size = 1 <<< client := by
  have hskip : ∀ (states : List InputState) (clients : ℕ),
      (∀ state ∈ states, state.used = false) → realClients clients states size = clients := by
    intro states clients hstates
    unfold realClients
    induction states with
    | nil => rfl
    | cons state states ih =>
      have hstate : state.used = false := hstates state List.mem_cons_self
      rw [List.foldl_cons, if_neg (by simp [hstate])]
      exact ih fun s hs => hstates s (List.mem_cons_of_mem state hs)
  have hmod : client % 32 = client := Nat.mod_eq_of_lt hclient
  have hset : setBit (1 <<< client) client = 1 <<< client := by
    rw [setBit, Nat.or_self]
  have hrest := hskip after (1 <<< client) hafter
  have hfirst := hskip before (1 <<< client) hbefore
  rw [realClients] at hrest hfirst ⊢
  rw [List.foldl_append, hfirst, List.foldl_cons]
  simp only [hmod, hset, ite_self]
  exact hrest

section Capture

/-- The number our own input is kept under. -/
def localClient (np : NetplayT σ) : ℕ :=
  if np.selfMode = .slave then MAX_CLIENTS else np.selfClientNum

/-- The local devices that are taken when the devices of a list have got theirs. -/
def usedDevices (np : NetplayT σ) (devices : List ℕ) : ℕ :=
  devices.foldl (fun used device =>
    setBit used (localDevice np used (deviceType (np.configDevices device)))) 0

/-- The local device that a device of ours gets. -/
def assignedDevice (np : NetplayT σ) (device : ℕ) : ℕ :=
  localDevice np (usedDevices np ((devicesOf np.selfDevices).takeWhile (· ≠ device)))
    (deviceType (np.configDevices device))

/-- One device of `captureInput`. -/
def captureDevice (np : NetplayT σ) (input : LocalInput) (taken : ℕ × DeltaFrame σ)
    (device : ℕ) : ℕ × DeltaFrame σ :=
  let (usedDevices, f) := taken
  let devType := deviceType (np.configDevices device)
  let from_ := localDevice np usedDevices devType
  let usedDevices := setBit usedDevices from_
  match netplayInputStateFor (f.realInput device) (localClient np)
      (np.expectedInputSize (1 <<< device)) true false with
  | (none, list) => (usedDevices, { f with
      realInput := Function.update f.realInput device list })
  | (some k, list) =>
    let f := { f with realInput := Function.update f.realInput device list }
    if input.blocked = false ∧ 0 < np.cursors.self.frameCount then
      (usedDevices, setData f device k fun data =>
        data.mapIdx fun word _ => (input.stateCb from_ devType).getD word 0)
    else (usedDevices, f)

theorem captureInput_eq (np : NetplayT σ) (input : LocalInput) (f : DeltaFrame σ) :
    captureInput np input f =
      ((devicesOf np.selfDevices).foldl (captureDevice np input) (0, f)).2 :=
  rfl

variable (np) {input : LocalInput}

theorem captureDevice_spec (taken : ℕ × DeltaFrame σ) (device : ℕ) :
    (captureDevice np input taken device).1 =
        setBit taken.1 (localDevice np taken.1 (deviceType (np.configDevices device))) ∧
      ∀ other, other ≠ device →
        (captureDevice np input taken device).2.realInput other = taken.2.realInput other := by
  simp only [captureDevice]
  split
  · exact ⟨rfl, fun other hne => Function.update_of_ne hne _ _⟩
  · split_ifs
    · refine ⟨rfl, ?_⟩
      intro other hne
      simp [setData, hne]
    · exact ⟨rfl, fun other hne => Function.update_of_ne hne _ _⟩

theorem captureDevices_taken (devices : List ℕ) (taken : ℕ × DeltaFrame σ) :
    (devices.foldl (captureDevice np input) taken).1 =
      devices.foldl (fun used device =>
        setBit used (localDevice np used (deviceType (np.configDevices device)))) taken.1 := by
  induction devices generalizing taken with
  | nil => rfl
  | cons device devices ih =>
    rw [List.foldl_cons, ih, (captureDevice_spec np taken device).1, List.foldl_cons]

theorem captureDevices_other {devices : List ℕ} (taken : ℕ × DeltaFrame σ) {other : ℕ}
    (hother : other ∉ devices) :
    (devices.foldl (captureDevice np input) taken).2.realInput other =
      taken.2.realInput other := by
  induction devices generalizing taken with
  | nil => rfl
  | cons device devices ih =>
    rw [List.mem_cons, not_or] at hother
    rw [List.foldl_cons, ih _ hother.2, (captureDevice_spec np taken device).2 other hother.1]

theorem mapIdx_getD (data : List UInt32) {size : ℕ} (hsize : data.length = size) :
    (List.replicate size (0 : UInt32)).mapIdx (fun word _ => data[word]?.getD 0) = data := by
  apply List.ext_getElem
  · simp [hsize]
  · intro i hi hdata
    simp [hdata]

/-- A device that nobody has input for holds what its local device says. -/
theorem captureDevice_fresh (cb : RetroInputState) (taken : ℕ × DeltaFrame σ) {device : ℕ}
    (hdevice : device < MAX_INPUT_DEVICES) (hlater : 0 < np.cursors.self.frameCount)
    (hfree : ∀ state ∈ taken.2.realInput device, state.used = false) :
    ∃ before after,
      (captureDevice np ⟨false, captureInputState cb⟩ taken device).2.realInput device =
        before ++ ⟨true, localClient np, captureInputState cb
          (localDevice np taken.1 (deviceType (np.configDevices device)))
          (deviceType (np.configDevices device))⟩ :: after ∧
      (∀ state ∈ before, state.used = false) ∧ ∀ state ∈ after, state.used = false := by
  obtain ⟨before, after, hstep, hbefore, hafter⟩ := netplayInputStateFor_fresh (localClient np)
    (np.expectedInputSize (1 <<< device)) true hfree
  refine ⟨before, after, ?_, hbefore, hafter⟩
  have hsize : np.expectedInputSize (1 <<< device) = deviceSize (np.configDevices device) :=
    netplayExpectedInputSize_single np.configDevices hdevice
  simp only [captureDevice, hstep, hlater, and_self, if_true, setData, Function.update_self]
  rw [List.modify_eq_take_cons_drop (by simp)]
  simp [hsize, mapIdx_getD _ (length_captureInputState cb _ _)]

/-- After the capture a device of ours holds what its local device says. -/
theorem captureInput_fresh (cb : RetroInputState) (f : DeltaFrame σ) {device : ℕ}
    (hown : device ∈ devicesOf np.selfDevices) (hlater : 0 < np.cursors.self.frameCount)
    (hfree : ∀ state ∈ f.realInput device, state.used = false) :
    ∃ before after,
      (captureInput np ⟨false, captureInputState cb⟩ f).realInput device =
        before ++ ⟨true, localClient np, captureInputState cb (assignedDevice np device)
          (deviceType (np.configDevices device))⟩ :: after ∧
      (∀ state ∈ before, state.used = false) ∧ ∀ state ∈ after, state.used = false := by
  obtain ⟨pre, post, hsplit⟩ := List.append_of_mem hown
  have hnodup := nodup_devicesOf np.selfDevices
  rw [hsplit, List.nodup_append] at hnodup
  obtain ⟨-, hcons, hapart⟩ := hnodup
  have hpre : device ∉ pre := fun h => hapart device h device List.mem_cons_self rfl
  have hpost : device ∉ post := (List.nodup_cons.mp hcons).1
  have htaken : (devicesOf np.selfDevices).takeWhile (· ≠ device) = pre := by
    rw [hsplit, List.takeWhile_append_of_pos]
    · simp
    · intro other hother
      simpa using fun h : other = device => hpre (h ▸ hother)
  have hsmall : device < MAX_INPUT_DEVICES := (mem_devicesOf.mp hown).1
  rw [captureInput_eq, hsplit, List.foldl_append, List.foldl_cons, captureDevices_other _ _ hpost]
  have hkept : ∀ state ∈ (pre.foldl (captureDevice np ⟨false, captureInputState cb⟩)
      (0, f)).2.realInput device, state.used = false := by
    rw [captureDevices_other _ _ hpre]
    exact hfree
  have hfirst := captureDevice_fresh np cb _ hsmall hlater hkept
  rw [captureDevices_taken] at hfirst
  rw [assignedDevice, htaken]
  exact hfirst

end Capture

section Resolution

variable (np) (resim : Bool)

theorem inputFor_size {list : List InputState} {clientNum size : ℕ} {state : InputState}
    (h : inputFor list clientNum size = some state) : state.size = size := by
  rw [inputFor_eq] at h
  obtain ⟨found, -, hfound⟩ := Option.bind_eq_some_iff.mp h
  split_ifs at hfound with hsize
  cases hfound
  exact hsize

theorem length_simulate {dtype size : ℕ} {simstate pstate : List UInt32}
    (hsim : simstate.length = size) (hpast : pstate.length = size) :
    (simulate dtype resim simstate pstate).length = size := by
  rw [simulate]
  split_ifs
  · rw [List.length_modify, hsim]
  · exact hpast

theorem resolveClient_frame (f : DeltaFrame σ) (device client : ℕ) :
    ∃ simlated, (resolveClient np resim f device client).2 = { f with simlatedInput := simlated } ∧
      ∀ data, (resolveClient np resim f device client).1 = some data →
        data.length = np.expectedInputSize (1 <<< device) := by
  simp only [resolveClient]
  cases hreal : inputFor (f.realInput device) client (np.expectedInputSize (1 <<< device)) with
  | some state =>
    refine ⟨f.simlatedInput, rfl, ?_⟩
    rintro data hdata
    cases hdata
    exact inputFor_size hreal
  | none =>
    simp only
    split_ifs
    · exact ⟨f.simlatedInput, rfl, fun _ h => nomatch h⟩
    rcases hsim : netplayInputStateFor (f.simlatedInput device) client
      (np.expectedInputSize (1 <<< device)) false false with ⟨_ | k, list⟩
    · exact ⟨f.simlatedInput, rfl, fun _ h => nomatch h⟩
    obtain ⟨state, hstate, -, -, hsize⟩ := netplayInputStateFor_state hsim
    simp only
    cases hpast : inputFor ((np.buffer (prevPtr np.bufferSize
      (np.cursors.read client).ptr)).realInput device) client
      (np.expectedInputSize (1 <<< device)) with
    | none => exact ⟨_, rfl, fun _ h => nomatch h⟩
    | some pstate =>
      refine ⟨_, rfl, ?_⟩
      rintro data hdata
      cases hdata
      apply length_simulate
      · simpa [hstate, InputState.size] using hsize
      · exact inputFor_size hpast

theorem resolveClients_frame (f : DeltaFrame σ) (device clients : ℕ) :
    ∃ simlated, (resolveClients np resim f device clients).2.2 =
        { f with simlatedInput := simlated } ∧
      ((resolveClients np resim f device clients).2.1 = 1 →
        (resolveClients np resim f device clients).1.length =
          np.expectedInputSize (1 <<< device)) := by
  unfold resolveClients
  induction List.range MAX_CLIENTS using List.reverseRecOn with
  | nil => exact ⟨f.simlatedInput, rfl, fun h => nomatch h⟩
  | append_singleton list client ih =>
    rw [List.foldl_append, List.foldl_cons, List.foldl_nil]
    generalize list.foldl _ ([], 0, f) = resolved at ih ⊢
    obtain ⟨clientState, clientCount, frame⟩ := resolved
    obtain ⟨simlated, hframe, hlength⟩ := ih
    simp only at hframe hlength ⊢
    subst hframe
    split_ifs with hclient
    · obtain ⟨simlated', hframe', hdata⟩ := resolveClient_frame np resim
        { f with simlatedInput := simlated } device client
      rcases hresolved : resolveClient np resim { f with simlatedInput := simlated } device client
        with ⟨_ | data, frame'⟩
      · rw [hresolved] at hframe'
        exact ⟨simlated', hframe', hlength⟩
      · rw [hresolved] at hframe' hdata
        exact ⟨simlated', hframe', fun _ => hdata data rfl⟩
    · exact ⟨simlated, rfl, hlength⟩

theorem foldl_range_only {α : Type} {step : α → ℕ → α} {s t : α} (k : ℕ) (hat : step s k = t)
    (hother : ∀ s n, k ≠ n → step s n = s) (n : ℕ) :
    (List.range n).foldl step s = if k < n then t else s := by
  induction n with
  | zero => rfl
  | succ n ih =>
    rw [List.range_succ, List.foldl_append, ih, List.foldl_cons, List.foldl_nil]
    by_cases hsame : k = n
    · subst hsame
      rw [if_neg (Nat.lt_irrefl k), if_pos (Nat.lt_succ_self k), hat]
    · rw [hother _ n hsame]
      exact if_congr (by omega) rfl rfl

theorem resolveClients_only (f : DeltaFrame σ) {device client : ℕ} {state : InputState}
    (hclient : client < MAX_CLIENTS)
    (hreal : inputFor (f.realInput device) client (np.expectedInputSize (1 <<< device)) =
      some state) :
    resolveClients np resim f device (1 <<< client) = (state.data, 1, f) := by
  have hbit : ∀ other, (1 <<< client).testBit other = decide (client = other) := by
    intro other
    rw [Nat.one_shiftLeft, Nat.testBit_two_pow]
  have hresolve : resolveClient np resim f device client = (some state.data, f) := by
    simp only [resolveClient, hreal]
  rw [resolveClients]
  refine (foldl_range_only client ?_ (fun s other hne => ?_) MAX_CLIENTS).trans (if_pos hclient)
  · simp [hbit, hresolve]
  · simp [hbit, hne]

section Merging

variable (f : DeltaFrame σ) (device clients : ℕ)

theorem length_netplayMergeDigital (data digital : List UInt32) :
    (netplayMergeDigital np data f device clients digital).length = data.length := by
  simp only [netplayMergeDigital]
  split_ifs
  · rw [List.length_mapIdx]
  all_goals
    generalize mergedStates np f device clients data.length = states
    induction states generalizing data with
    | nil => rfl
    | cons state states ih => rw [List.foldl_cons, ih, List.length_mapIdx]

theorem length_netplayMergeAnalog (data : List UInt32) (dtype : ℕ) :
    (netplayMergeAnalog np data f device clients dtype).length = data.length := by
  simp only [netplayMergeAnalog]
  split_ifs <;> simp [mergeAnalogPart]

end Merging

theorem netplayInputStateFor_kept (list : List InputState) (size : ℕ) :
    ∃ data rest, netplayInputStateFor
        (list.dropWhile fun s => decide (s.size ≠ size ∨ s.clientNum ≠ 0)) 0 size false false =
        (some 0, ⟨true, 0, data⟩ :: rest) ∧ data.length = size := by
  cases hlist : list.dropWhile fun s => decide (s.size ≠ size ∨ s.clientNum ≠ 0) with
  | nil => exact ⟨List.replicate size 0, [], rfl, List.length_replicate⟩
  | cons first rest =>
    have hfirst : first.size = size ∧ first.clientNum = 0 := by
      have hhead := List.head?_dropWhile_not
        (fun s : InputState => decide (s.size ≠ size ∨ s.clientNum ≠ 0)) list
      rw [hlist] at hhead
      simpa using hhead
    obtain ⟨used, clientNum, data⟩ := first
    obtain ⟨hsize, rfl⟩ := hfirst
    cases used
    · refine ⟨List.replicate size 0, rest, ?_, List.length_replicate⟩
      simp [netplayInputStateFor, hsize]
    · refine ⟨data, rest, ?_, hsize⟩
      simp [netplayInputStateFor, hsize]

/-- Whatever is resolved, the core is shown words of the size of the device; the input of one
client as it is. -/
theorem copyResolved_shows (f : DeltaFrame σ) (device clients : ℕ) {clientState : List UInt32}
    {clientCount : ℕ}
    (hlength : clientCount = 1 → clientState.length = np.expectedInputSize (1 <<< device)) :
    ∃ data rest, (copyResolved np f device clients clientState clientCount).2 =
        ⟨true, 0, data⟩ :: rest ∧
      data.length = np.expectedInputSize (1 <<< device) ∧
      (clientCount = 1 → data = clientState) := by
  simp only [copyResolved]
  obtain ⟨old, rest, hkept, hold⟩ :=
    netplayInputStateFor_kept (f.resolvedInput device) (np.expectedInputSize (1 <<< device))
  rw [hkept]
  simp only
  split_ifs with hone hzero
  · exact ⟨clientState, rest, rfl, hlength hone, fun _ => rfl⟩
  · exact ⟨_, rest, rfl, List.length_replicate, fun h => absurd h hone⟩
  · rcases hsecond : netplayInputStateFor rest 1 (np.expectedInputSize (1 <<< device)) false false
      with ⟨_ | j, rest'⟩
    · refine ⟨old, rest', ?_, hold, fun h => absurd h hone⟩
      simp [netplayInputStateFor, hsecond]
    · have hcreated : netplayInputStateFor (⟨true, 0, old⟩ :: rest) 1
          (np.expectedInputSize (1 <<< device)) false false =
          (some (j + 1), ⟨true, 0, old⟩ :: rest') := by
        simp [netplayInputStateFor, hsecond]
      rw [hcreated]
      refine ⟨_, rest'.modify j fun s => { s with data := old }, rfl, ?_, fun h => absurd h hone⟩
      rw [length_netplayMergeAnalog, length_netplayMergeDigital, List.length_replicate]

/-- One client alone has input for a device. -/
def Only (f : DeltaFrame σ) (device client : ℕ) (data : List UInt32) : Prop :=
  ∃ before after, f.realInput device = before ++ ⟨true, client, data⟩ :: after ∧
    (∀ state ∈ before, state.used = false) ∧ ∀ state ∈ after, state.used = false

/-- What the core is shown of a device: words of its size, those of its only client. -/
def Resolved (f : DeltaFrame σ) (device : ℕ) (resolved : List InputState) : Prop :=
  ∃ data rest, resolved = ⟨true, 0, data⟩ :: rest ∧
    data.length = np.expectedInputSize (1 <<< device) ∧
    ∀ client clientData, client < MAX_CLIENTS → np.roster.deviceClients device = 1 <<< client →
      Only f device client clientData →
      clientData.length = np.expectedInputSize (1 <<< device) → data = clientData

theorem resolveDevice_spec (f : DeltaFrame σ) (device : ℕ) :
    (resolveDevice np resim f device).2.realInput = f.realInput ∧
    (∀ other, other ≠ device →
      (resolveDevice np resim f device).2.resolvedInput other = f.resolvedInput other) ∧
    Resolved np f device ((resolveDevice np resim f device).2.resolvedInput device) := by
  have honly : ∀ client clientData, client < MAX_CLIENTS →
      np.roster.deviceClients device = 1 <<< client → Only f device client clientData →
      clientData.length = np.expectedInputSize (1 <<< device) →
      resolveClients np resim f device (realClients (np.roster.deviceClients device)
        (f.realInput device) (np.expectedInputSize (1 <<< device))) = (clientData, 1, f) := by
    rintro client clientData hclient hclients ⟨before, after, hlist, hbefore, hafter⟩ hsize
    rw [hclients, hlist, realClients_only hbefore hafter hclient]
    exact resolveClients_only np resim f hclient (hlist ▸ inputFor_only hbefore hsize)
  obtain ⟨simlated, hframe, hlength⟩ := resolveClients_frame np resim f device
    (realClients (np.roster.deviceClients device) (f.realInput device)
      (np.expectedInputSize (1 <<< device)))
  simp only [resolveDevice]
  rcases hresolved : resolveClients np resim f device (realClients
    (np.roster.deviceClients device) (f.realInput device)
      (np.expectedInputSize (1 <<< device))) with ⟨clientState, clientCount, frame⟩
  rw [hresolved] at honly hframe hlength
  simp only at hframe hlength
  subst hframe
  obtain ⟨data, rest, hcopy, hdata, hone⟩ := copyResolved_shows np
    { f with simlatedInput := simlated } device (realClients
    (np.roster.deviceClients device) (f.realInput device)
      (np.expectedInputSize (1 <<< device))) hlength
  refine ⟨rfl, fun other hne => Function.update_of_ne hne _ _, data, rest, ?_, hdata, ?_⟩
  · simp only [Function.update_self]
    exact hcopy
  · intro client clientData hclient hclients hreal hsize
    have hsame := honly client clientData hclient hclients hreal hsize
    simp only [Prod.mk.injEq] at hsame
    exact (hone hsame.2.1).trans hsame.1

/-- One device of `resolveFrame`. -/
def resolveNext (np : NetplayT σ) (resim : Bool) (resolved : Bool × DeltaFrame σ) (device : ℕ) :
    Bool × DeltaFrame σ :=
  ((resolved.1 || (resolveDevice np resim resolved.2 device).1),
    (resolveDevice np resim resolved.2 device).2)

theorem resolveFrame_eq (f : DeltaFrame σ) :
    resolveFrame np resim f =
      (List.range MAX_INPUT_DEVICES).foldl (resolveNext np resim) (false, f) :=
  rfl

theorem resolveFrame_spec (f : DeltaFrame σ) {device : ℕ} (hdevice : device < MAX_INPUT_DEVICES) :
    Resolved np f device ((resolveFrame np resim f).2.resolvedInput device) := by
  have hranges : ∀ n,
      ((List.range n).foldl (resolveNext np resim) (false, f)).2.realInput = f.realInput ∧
        ∀ device < n, Resolved np f device
          (((List.range n).foldl (resolveNext np resim) (false, f)).2.resolvedInput device) := by
    intro n
    induction n with
    | zero => exact ⟨rfl, fun _ h => absurd h (Nat.not_lt_zero _)⟩
    | succ n ih =>
      obtain ⟨hreal, hbefore⟩ := ih
      rw [List.range_succ, List.foldl_append, List.foldl_cons, List.foldl_nil]
      generalize (List.range n).foldl (resolveNext np resim) (false, f) = resolved
        at hreal hbefore ⊢
      obtain ⟨hkept, hother, hresolved⟩ := resolveDevice_spec np resim resolved.2 n
      refine ⟨hkept.trans hreal, ?_⟩
      intro device hlt
      obtain hold | rfl : device < n ∨ device = n := by omega
      · have hsame := hother device (by omega)
        exact hsame ▸ hbefore device hold
      · obtain ⟨data, rest, hlist, hlength, honly⟩ := hresolved
        refine ⟨data, rest, hlist, hlength, ?_⟩
        rintro client clientData hclient hclients ⟨before, after, hsplit, hfree⟩ hsize
        exact honly client clientData hclient hclients
          ⟨before, after, (congrFun hreal device).trans hsplit, hfree⟩ hsize
  rw [resolveFrame_eq]
  exact (hranges MAX_INPUT_DEVICES).2 device hdevice

end Resolution

/-- The local client fills the frame it is at, later than the first, with what its driver says,
and is the only client of a device of its own. -/
structure Filled (cb : RetroInputState) (np np' : NetplayT σ) (device : ℕ) : Prop where
  later : 0 < np.cursors.self.frameCount
  own : device ∈ devicesOf np.selfDevices
  fresh : ∀ ready, np.frameReady np.cursors.self.ptr np.cursors.self.frameCount = some ready →
    (ready.buffer np.cursors.self.ptr).haveLocal = false ∧
      ∀ state ∈ (ready.buffer np.cursors.self.ptr).realInput device, state.used = false
  filled : getSelfInputState ⟨false, captureInputState cb⟩ np = some (true, np')
  client : localClient np < MAX_CLIENTS
  only : np'.roster.deviceClients device = 1 <<< localClient np

theorem markLocal_frame (np : NetplayT σ) (f : DeltaFrame σ) :
    ((markLocal np f).buffer np.cursors.self.ptr).realInput = f.realInput ∧
      (markLocal np f).configDevices = np.configDevices := by
  rw [markLocal]
  split_ifs
  · refine ⟨?_, rfl⟩
    simp [NetplayT.setRead, NetplayT.setFrame]
  · refine ⟨?_, rfl⟩
    simp

theorem getSelfInputState_frames {input : LocalInput} {ready : NetplayT σ}
    (hready : np.frameReady np.cursors.self.ptr np.cursors.self.frameCount = some ready)
    (hlocal : (ready.buffer np.cursors.self.ptr).haveLocal = false)
    (h : getSelfInputState input np = some (true, np')) :
    frames np' = frames (markLocal ready
      (captureInput ready input (ready.buffer np.cursors.self.ptr))) := by
  simp only [getSelfInputState] at h
  rw [hready] at h
  simp only [hlocal, Bool.false_eq_true, if_false] at h
  split_ifs at h
  all_goals obtain ⟨-, rfl⟩ := Prod.mk.inj (Option.some.inj h)
  · exact (frames_of_game (game_delayedStateChange _)).trans (frames_sendCurInputs _)
  · exact frames_sendCurInputs _

theorem Filled.frame {cb : RetroInputState} {device : ℕ} (h : Filled cb np np' device) :
    Only (np'.buffer np.cursors.self.ptr) device (localClient np)
        (captureInputState cb (assignedDevice np device) (deviceType (np.configDevices device))) ∧
      np'.configDevices = np.configDevices := by
  cases hready : np.frameReady np.cursors.self.ptr np.cursors.self.frameCount with
  | none =>
    have hfilled := h.filled
    simp only [getSelfInputState, hready] at hfilled
    cases hfilled
  | some ready =>
    obtain ⟨hlocal, hfree⟩ := h.fresh ready hready
    have hframes := getSelfInputState_frames hready hlocal h.filled
    obtain ⟨f, -, rfl⟩ := Option.map_eq_some_iff.mp hready
    obtain ⟨hreal, hconfig⟩ := markLocal_frame (np.setFrame np.cursors.self.ptr f)
      (captureInput (np.setFrame np.cursors.self.ptr f) ⟨false, captureInputState cb⟩
        ((np.setFrame np.cursors.self.ptr f).buffer np.cursors.self.ptr))
    simp only [frames, Prod.mk.injEq] at hframes
    obtain ⟨-, -, -, hbuffer, hdevices, -⟩ := hframes
    rw [hbuffer, hdevices]
    refine ⟨?_, hconfig⟩
    obtain ⟨before, after, hlist, hbefore, hafter⟩ :=
      captureInput_fresh (np.setFrame np.cursors.self.ptr f) cb
        ((np.setFrame np.cursors.self.ptr f).buffer np.cursors.self.ptr) h.own h.later hfree
    exact ⟨before, after, (congrFun hreal device).trans hlist, hbefore, hafter⟩

/-- A query is answered, and one for the device itself, where `libretro.h` defines the control,
with what the driver said of the local device. -/
def Answers (np np' : NetplayT σ) (cb : RetroInputState) (own : ℕ)
    (port device idx id : UInt32) : Prop :=
  ∃ value, netplayInputState np' port device idx id = .ok value ∧
    (port.toNat = own → device.toNat = deviceType (np.configDevices own) →
      Defined device.toNat idx.toNat id.toNat →
      value = said cb (assignedDevice np own) device.toNat idx.toNat id.toNat)

/-- The query stays inside the words of the device it is about, and a control of the device itself
is captured, or the driver says nothing of it. -/
def Fits (np : NetplayT σ) (cb : RetroInputState) (own : ℕ)
    (port device idx id : UInt32) : Prop :=
  (port.toNat < MAX_INPUT_DEVICES →
    ∀ p ∈ correctPort np.configDevices port.toNat device.toNat,
      Within (np.configDevices p) device idx id) ∧
  (port.toNat = own → device.toNat = deviceType (np.configDevices own) →
    Defined device.toNat idx.toNat id.toNat →
    Captured device.toNat idx.toNat id.toNat ∨
      cb (assignedDevice np own) device.toNat idx.toNat id.toNat = 0)

theorem correctPort_spec {configDevices : ℕ → ℕ} {port device p : ℕ}
    (hport : port < MAX_INPUT_DEVICES) (h : correctPort configDevices port device = some p) :
    p < MAX_INPUT_DEVICES ∧
      (device = RETRO_DEVICE_JOYPAD ∨ deviceType (configDevices p) = device) := by
  rw [correctPort] at h
  split_ifs at h with hother
  · have hmem := List.mem_of_find?_eq_some h
    have htype := List.find?_some h
    exact ⟨List.mem_range.mp hmem, .inr (of_decide_eq_true htype)⟩
  · cases h
    refine ⟨hport, ?_⟩
    by_contra hnot
    rw [not_or] at hnot
    exact hother hnot

theorem correctPort_own {configDevices : ℕ → ℕ} {own : ℕ} :
    correctPort configDevices own (deviceType (configDevices own)) = some own := by
  simp [correctPort]

theorem defined_size_ne {dtype idx id : ℕ} (h : Defined (deviceType dtype) idx id) :
    deviceSize dtype ≠ 0 := by
  rcases h with ⟨h, -⟩ | ⟨h, -⟩ | ⟨h, -⟩ | ⟨h, -⟩ | ⟨h, -⟩ <;> rw [deviceSize, h] <;> decide

theorem within_of_empty {dtype : ℕ} {device idx id : UInt32} (hsize : deviceSize dtype = 0)
    (hdevice : device.toNat = RETRO_DEVICE_JOYPAD ∨ deviceType dtype = device.toNat) :
    Within dtype device idx id := by
  have hnone : ∀ type, type ≠ RETRO_DEVICE_JOYPAD → device.toNat = type →
      deviceType dtype = type := by
    intro type hother htype
    rcases hdevice with hjoypad | hsame
    · exact absurd (htype.symm.trans hjoypad) hother
    · exact hsame.trans htype
  refine ⟨fun _ hwords => absurd hsize hwords, fun hanalog => ?_, fun hpointing => ?_⟩
  · have htype := hnone _ (by decide) hanalog
    rw [deviceSize, htype] at hsize
    cases hsize
  · rcases hpointing with hmouse | hgun
    · have htype := hnone _ (by decide) hmouse
      rw [deviceSize, htype] at hsize
      cases hsize
    · have htype := hnone _ (by decide) hgun
      rw [deviceSize, htype] at hsize
      cases hsize

theorem netplayResolveInput_snd (np : NetplayT σ) (ptr : ℕ) (resim : Bool) :
    (netplayResolveInput np ptr resim).2 =
      np.setFrame ptr (resolveFrame np resim (np.buffer ptr)).2 := by
  rw [netplayResolveInput]

theorem netplayInputState_none {port device idx id : UInt32}
    (hp : correctPort np.configDevices port.toNat device.toNat = none) :
    netplayInputState np port device idx id = .ok 0 := by
  rw [netplayInputState, hp, ite_self]

/-- What the core is shown of a device that has a state in use. -/
theorem netplayInputState_some {port device idx id : UInt32} {p : ℕ} {data : List UInt32}
    {rest : List InputState} (hport : port.toNat < MAX_INPUT_DEVICES)
    (hp : correctPort np.configDevices port.toNat device.toNat = some p)
    (hdata : (np.buffer (shownPtr np)).resolvedInput p = ⟨true, 0, data⟩ :: rest) :
    netplayInputState np port device idx id =
      if data.length = 0 then .ok 0 else readInputState data device idx id := by
  rw [netplayInputState, if_neg (Nat.not_le.mpr hport), hp]
  simp only [hdata]
  simp [InputState.size]

/-- A query is answered as it should be exactly when it is about what is captured. -/
theorem local_input_reads_back_iff {cb : RetroInputState} {own : ℕ} (h : Filled cb np np' own)
    {resim : Bool}
    (hshown : shownPtr (netplayResolveInput np' np.cursors.self.ptr resim).2 =
      np.cursors.self.ptr) (port device idx id : UInt32) :
    Answers np (netplayResolveInput np' np.cursors.self.ptr resim).2 cb own port device idx id ↔
      Fits np cb own port device idx id := by
  obtain ⟨honly, hconfig⟩ := h.frame
  rw [netplayResolveInput_snd] at hshown ⊢
  generalize hresolved : np'.setFrame np.cursors.self.ptr
    (resolveFrame np' resim (np'.buffer np.cursors.self.ptr)).2 = resolved at hshown ⊢
  have hconfig' : resolved.configDevices = np.configDevices := hresolved ▸ hconfig
  have hbuffer : resolved.buffer np.cursors.self.ptr =
      (resolveFrame np' resim (np'.buffer np.cursors.self.ptr)).2 := by
    rw [← hresolved, NetplayT.setFrame_buffer]
  have hown : own < MAX_INPUT_DEVICES := (mem_devicesOf.mp h.own).1
  by_cases hport : port.toNat < MAX_INPUT_DEVICES
  swap
  · refine iff_of_true ⟨0, if_pos (Nat.not_lt.mp hport), ?_⟩ ⟨fun hlt => absurd hlt hport, ?_⟩
    · rintro rfl
      exact absurd hown hport
    · rintro rfl
      exact absurd hown hport
  cases hp : correctPort np.configDevices port.toNat device.toNat with
  | none =>
    have hread : netplayInputState resolved port device idx id = .ok 0 :=
      netplayInputState_none (hconfig' ▸ hp)
    have hother : ∀ {goal : Prop}, port.toNat = own →
        device.toNat = deviceType (np.configDevices own) → goal := by
      intro goal hsame htype
      rw [hsame, htype, correctPort_own] at hp
      cases hp
    refine iff_of_true ⟨0, hread, fun hsame htype => hother hsame htype⟩
      ⟨fun _ p hmem => ?_, fun hsame htype => hother hsame htype⟩
    rw [hp] at hmem
    cases hmem
  | some p =>
    obtain ⟨hsmall, htype⟩ := correctPort_spec hport hp
    obtain ⟨data, rest, hlist, hlength, hclient⟩ :=
      resolveFrame_spec np' resim (np'.buffer np.cursors.self.ptr) hsmall
    have hsize : np'.expectedInputSize (1 <<< p) = deviceSize (np.configDevices p) := by
      rw [NetplayT.expectedInputSize, netplayExpectedInputSize_single _ hsmall, hconfig]
    rw [hsize] at hlength hclient
    have hread : netplayInputState resolved port device idx id =
        if data.length = 0 then .ok 0 else readInputState data device idx id :=
      netplayInputState_some hport (hconfig' ▸ hp) (hshown.symm ▸ hbuffer ▸ hlist)
    have hwithin : (∃ value, netplayInputState resolved port device idx id = .ok value) ↔
        Within (np.configDevices p) device idx id := by
      rw [hread]
      by_cases hempty : data.length = 0
      · rw [if_pos hempty]
        exact iff_of_true ⟨0, rfl⟩ (within_of_empty (hlength ▸ hempty) htype)
      · rw [if_neg hempty]
        exact readInputState_some_iff hlength hempty htype
    by_cases hself : port.toNat = own ∧ device.toNat = deviceType (np.configDevices own) ∧
        Defined device.toNat idx.toNat id.toNat
    · obtain ⟨hsame, hdevice, hdefined⟩ := hself
      have hpown : p = own := by
        rw [hsame, hdevice, correctPort_own] at hp
        exact (Option.some.inj hp).symm
      subst hpown
      rw [hdevice] at hdefined
      have hcaptured : data = captureInputState cb (assignedDevice np p)
          (deviceType (np.configDevices p)) :=
        hclient _ _ h.client h.only honly (length_captureInputState cb _ _)
      have hnonempty : ¬ data.length = 0 := hlength ▸ defined_size_ne hdefined
      rw [if_neg hnonempty, hcaptured] at hread
      have hsaid := readInputState_said_iff cb (assignedDevice np p) device idx id
        hdevice.symm hdefined
      rw [← hread, ← hdevice] at hsaid
      constructor
      · rintro ⟨value, hvalue, hanswer⟩
        have hboth := hsaid.mp (hvalue.trans (congrArg _ (hanswer hsame hdevice
          (hdevice ▸ hdefined))))
        refine ⟨fun _ q hq => ?_, fun _ _ _ => hboth.2⟩
        rw [hp] at hq
        cases hq
        exact hboth.1
      · rintro ⟨hinside, hcontrol⟩
        exact ⟨_, hsaid.mpr ⟨hinside hport p hp, hcontrol hsame hdevice (hdevice ▸ hdefined)⟩,
          fun _ _ _ => rfl⟩
    · have hnot : ∀ {goal : Prop}, port.toNat = own →
          device.toNat = deviceType (np.configDevices own) →
          Defined device.toNat idx.toNat id.toNat → goal := by
        intro goal hsame hdevice hdefined
        exact absurd ⟨hsame, hdevice, hdefined⟩ hself
      constructor
      · rintro ⟨value, hvalue, -⟩
        refine ⟨fun _ q hq => ?_, fun hsame hdevice hdefined => hnot hsame hdevice hdefined⟩
        rw [hp] at hq
        cases hq
        exact hwithin.mp ⟨value, hvalue⟩
      · rintro ⟨hinside, -⟩
        obtain ⟨value, hvalue⟩ := hwithin.mpr (hinside hport p hp)
        exact ⟨value, hvalue, fun hsame hdevice hdefined => hnot hsame hdevice hdefined⟩

/-- A client that plays alone, a frame later than the first, with a device of its own. -/
def playing (device : ℕ) : NetplayT ℕ :=
  let np := netplayNew idleCore true false 0 false false false [] (fun _ => device) 0
  { np with
    selfMode := .playing
    selfDevices := 1
    roster := { np.roster with deviceClients := Function.update np.roster.deviceClients 0 1 }
    cursors := { np.cursors with self := ⟨1, 1⟩, run := ⟨1, 1⟩ } }

/-- A driver with one control held. -/
def holding (device idx id : ℕ) (value : Int16) : RetroInputState :=
  fun _ device' idx' id' => if device' = device ∧ idx' = idx ∧ id' = id then value else 0

theorem playing_filled (device : ℕ) (cb : RetroInputState) :
    ∃ np', Filled cb (playing device) np' 0 ∧
      shownPtr (netplayResolveInput np' 1 false).2 = 1 := by
  obtain ⟨np', hfilled, honly, hshown⟩ : ∃ np',
      getSelfInputState ⟨false, captureInputState cb⟩ (playing device) = some (true, np') ∧
        np'.roster.deviceClients 0 = 1 <<< 0 ∧ shownPtr np' = 1 :=
    ⟨_, rfl, rfl, rfl⟩
  refine ⟨np', ⟨Nat.one_pos, show 0 ∈ devicesOf 1 by decide, ?_, hfilled,
    show 0 < MAX_CLIENTS by decide, honly⟩, ?_⟩
  · intro ready hready
    cases hready
    exact ⟨rfl, fun _ h => nomatch h⟩
  · rw [netplayResolveInput_snd]
    exact hshown

theorem stick_reads_back :
    ∃ np', Filled (holding RETRO_DEVICE_ANALOG 1 0 1000) (playing RETRO_DEVICE_ANALOG) np' 0 ∧
      Answers (playing RETRO_DEVICE_ANALOG) (netplayResolveInput np' 1 false).2
        (holding RETRO_DEVICE_ANALOG 1 0 1000) 0 0 5 1 0 := by
  obtain ⟨np', hfilled, hshown⟩ :=
    playing_filled RETRO_DEVICE_ANALOG (holding RETRO_DEVICE_ANALOG 1 0 1000)
  refine ⟨np', hfilled, (local_input_reads_back_iff hfilled hshown 0 5 1 0).mpr ⟨?_, ?_⟩⟩
  · intro _ p hp
    cases hp
    decide
  · intro _ _ _
    exact .inl (by decide)

/-- A button of an analog device is read behind its three words. -/
theorem analog_button_outside :
    ∃ np', Filled (holding RETRO_DEVICE_ANALOG 2 0 1000) (playing RETRO_DEVICE_ANALOG) np' 0 ∧
      shownPtr (netplayResolveInput np' 1 false).2 = 1 ∧
      Defined RETRO_DEVICE_ANALOG 2 0 ∧
      ¬ Answers (playing RETRO_DEVICE_ANALOG) (netplayResolveInput np' 1 false).2
        (holding RETRO_DEVICE_ANALOG 2 0 1000) 0 0 5 2 0 := by
  obtain ⟨np', hfilled, hread⟩ : ∃ np',
      getSelfInputState ⟨false, captureInputState (holding RETRO_DEVICE_ANALOG 2 0 1000)⟩
        (playing RETRO_DEVICE_ANALOG) = some (true, np') ∧
      netplayInputState (netplayResolveInput np' 1 false).2 0 5 2 0 = .error (.word 3) :=
    ⟨_, rfl, rfl⟩
  obtain ⟨np'', hnp, hshown⟩ :=
    playing_filled RETRO_DEVICE_ANALOG (holding RETRO_DEVICE_ANALOG 2 0 1000)
  have hsame : np'' = np' := by
    have heq := hnp.filled.symm.trans hfilled
    exact (Prod.mk.inj (Option.some.inj heq)).2
  subst hsame
  refine ⟨np'', hnp, hshown, by decide, ?_⟩
  rintro ⟨value, hvalue, -⟩
  rw [hread] at hvalue
  cases hvalue

end RetroArch.Netplay.ReadBack
