/- What the local driver says, packed into the words of a frame, and how the core reads it. -/

import RetroArch.Netplay.Poll

namespace RetroArch.Netplay.Controls

open Delta State

variable {σ : Type}

/-- `netplay_key_ntoh_mapping`: `RETROK_UNKNOWN`, and the keys of `netplay_keys.h`. -/
def netplayKeyNtohMapping : List ℕ :=
  [0, 8, 9, 10, 12, 13, 19, 27, 32, 33, 34, 35, 36, 38, 39, 40, 41, 42, 43, 44, 45, 46, 47, 48,
    49, 50, 51, 52, 53, 54, 55, 56, 57, 58, 59, 60, 61, 62, 63, 64, 91, 92, 93, 94, 95, 96, 97,
    98, 99, 100, 101, 102, 103, 104, 105, 106, 107, 108, 109, 110, 111, 112, 113, 114, 115, 116,
    117, 118, 119, 120, 121, 122, 127, 256, 257, 258, 259, 260, 261, 262, 263, 264, 265, 266,
    267, 268, 269, 270, 271, 272, 273, 274, 275, 276, 277, 278, 279, 280, 281, 282, 283, 284,
    285, 286, 287, 288, 289, 290, 291, 292, 293, 294, 295, 296, 300, 301, 302, 303, 304, 305,
    306, 307, 308, 309, 310, 311, 312, 313, 314, 315, 316, 317, 318, 319, 320, 321, 322]

def NETPLAY_KEY_UNKNOWN : ℕ := 0
def NETPLAY_KEY_LAST : ℕ := 137
def RETROK_LAST : ℕ := 324

def netplayKeyNtoh (key : ℕ) : ℕ := netplayKeyNtohMapping.getD key 0

/-- The array that `netplay_key_hton_init` fills. -/
def mapping : List ℕ :=
  (List.range NETPLAY_KEY_LAST).foldl (fun mapping i => mapping.set (netplayKeyNtoh i) i)
    (List.replicate RETROK_LAST 0)

def netplayKeyHton (key : ℕ) : ℕ :=
  if RETROK_LAST ≤ key then NETPLAY_KEY_UNKNOWN else mapping.getD key 0

/-- `retro_input_state_t`: the answer for a port, a device, an index and an id. -/
abbrev RetroInputState := ℕ → ℕ → ℕ → ℕ → Int16

def RETRO_DEVICE_ID_JOYPAD_R3 : ℕ := 15
def RETRO_DEVICE_ID_MOUSE_Y : ℕ := 1
def RETRO_DEVICE_ID_MOUSE_HORIZ_WHEELDOWN : ℕ := 8
def RETRO_DEVICE_ID_LIGHTGUN_START : ℕ := 6

/-- `state[0] |= tmp ? 1 << i : 0`, for some ids. -/
def buttons (pressed : ℕ → Bool) (ids : List ℕ) : UInt32 :=
  ids.foldl (fun word i => if pressed i then word ||| UInt32.ofNat (2 ^ i) else word) 0

/-- `(uint16_t)tmp_x | (((uint16_t)tmp_y) << 16)` -/
def axes (x y : Int16) : UInt32 := x.toUInt16.toUInt32 ||| y.toUInt16.toUInt32 <<< 16

/-- The loop over the keys. -/
def captureKeys (pressed : ℕ → Bool) : List ℕ → ℕ → ℕ → List UInt32 → List UInt32
  | [], _, _, state => state
  | key :: keys, word, bit, state =>
    let state :=
      if pressed key then state.modify word fun w => w ||| UInt32.ofNat (2 ^ bit) else state
    if bit + 1 < 32 then captureKeys pressed keys word (bit + 1) state
    else if word + 1 < state.length then captureKeys pressed keys (word + 1) 0 state
    else state

/-- The words that `get_self_input_state` takes from the driver for a device. -/
def captureInputState (cb : RetroInputState) (localDevice dtype : ℕ) : List UInt32 :=
  let pressed (device i : ℕ) : Bool := cb localDevice device 0 i ≠ 0
  let axes (device idx : ℕ) : UInt32 :=
    axes (cb localDevice device idx 0) (cb localDevice device idx 1)
  if dtype = RETRO_DEVICE_ANALOG then
    [buttons (pressed RETRO_DEVICE_JOYPAD) (List.range (RETRO_DEVICE_ID_JOYPAD_R3 + 1)),
      axes RETRO_DEVICE_ANALOG 0, axes RETRO_DEVICE_ANALOG 1]
  else if dtype = RETRO_DEVICE_JOYPAD then
    [buttons (pressed RETRO_DEVICE_JOYPAD) (List.range (RETRO_DEVICE_ID_JOYPAD_R3 + 1))]
  else if dtype = RETRO_DEVICE_MOUSE ∨ dtype = RETRO_DEVICE_LIGHTGUN then
    let last :=
      if dtype = RETRO_DEVICE_MOUSE then RETRO_DEVICE_ID_MOUSE_HORIZ_WHEELDOWN
      else RETRO_DEVICE_ID_LIGHTGUN_START
    [buttons (pressed dtype) (List.range' 2 (last - 1)), axes dtype 0]
  else if dtype = RETRO_DEVICE_KEYBOARD then
    captureKeys (fun key => pressed RETRO_DEVICE_KEYBOARD (netplayKeyNtoh key))
      (List.range' 1 (NETPLAY_KEY_LAST - 1)) 0 1 (List.replicate 5 0)
  else []

/-- A read beyond the words of the state, or a shift by the width of a word or more. -/
inductive ReadFault
  | word (n : ℕ)
  | shift (n : ℕ)
  deriving DecidableEq

/-- `((1 << bit) & data[word]) ? 1 : 0` -/
def readButton (data : List UInt32) (word bit : ℕ) : Except ReadFault Int16 :=
  if 32 ≤ bit then .error (.shift bit)
  else
    match data[word]? with
    | none => .error (.word word)
    | some w => .ok (if w.toNat.testBit bit then 1 else 0)

/-- `(int16_t)(uint16_t)(data[word] >> shift)` -/
def readAxis (data : List UInt32) (word shift : ℕ) : Except ReadFault Int16 :=
  match data[word]? with
  | none => .error (.word word)
  | some w =>
    if 32 ≤ shift then .error (.shift shift)
    else .ok (w >>> UInt32.ofNat shift).toUInt16.toInt16

/-- "If the port doesn't seem to correspond to the device, "correct" it." -/
def correctPort (configDevices : ℕ → ℕ) (port device : ℕ) : Option ℕ :=
  if device ≠ RETRO_DEVICE_JOYPAD ∧ deviceType (configDevices port) ≠ device then
    (List.range MAX_INPUT_DEVICES).find? fun port => deviceType (configDevices port) = device
  else some port

/-- The part of `netplay_input_state` after the words of the device are found. -/
def readInputState (data : List UInt32) (device idx id : UInt32) : Except ReadFault Int16 :=
  if device.toNat = RETRO_DEVICE_JOYPAD then readButton data 0 id.toNat
  else if device.toNat = RETRO_DEVICE_ANALOG then
    if data.length ≠ 3 then .ok 0 else readAxis data (1 + idx).toNat (id * 16).toNat
  else if device.toNat = RETRO_DEVICE_MOUSE ∨ device.toNat = RETRO_DEVICE_LIGHTGUN then
    if data.length ≠ 2 then .ok 0
    else if id.toNat ≤ RETRO_DEVICE_ID_MOUSE_Y then readAxis data 1 (id * 16).toNat
    else readButton data 0 id.toNat
  else if device.toNat = RETRO_DEVICE_KEYBOARD then
    let key := netplayKeyHton id.toNat
    if key = NETPLAY_KEY_UNKNOWN then .ok 0
    else if key / 32 ≤ data.length then readButton data (key / 32) (key % 32)
    else .ok 0
  else .ok 0

/-- The frame the core is shown. -/
def shownPtr (np : NetplayT σ) : ℕ :=
  if np.isReplay then np.cursors.replay.ptr else np.cursors.run.ptr

/-- `netplay_input_state` -/
def netplayInputState (np : NetplayT σ) (port device idx id : UInt32) : Except ReadFault Int16 :=
  if MAX_INPUT_DEVICES ≤ port.toNat then .ok 0
  else
    match correctPort np.configDevices port.toNat device.toNat with
    | none => .ok 0
    | some port =>
      match (np.buffer (shownPtr np)).resolvedInput port with
      | [] => .ok 0
      | istate :: _ =>
        if istate.used = false ∨ istate.size = 0 then .ok 0
        else readInputState istate.data device idx id

/-- The keys of `libretro.h`. -/
def retroKeys : List ℕ :=
  [8, 9, 12, 13, 19, 27] ++ List.range' 32 5 ++ List.range' 38 27 ++ List.range' 91 37 ++
    List.range' 256 41 ++ List.range' 300 24

/-- The indices and ids that `libretro.h` defines for a type of device. -/
def Defined (dtype idx id : ℕ) : Prop :=
  (dtype = RETRO_DEVICE_JOYPAD ∧ idx = 0 ∧ (id ≤ 15 ∨ id = 256)) ∨
  (dtype = RETRO_DEVICE_ANALOG ∧ ((idx ≤ 1 ∧ id ≤ 1) ∨ (idx = 2 ∧ id ≤ 15))) ∨
  (dtype = RETRO_DEVICE_MOUSE ∧ idx = 0 ∧ id ≤ 10) ∨
  (dtype = RETRO_DEVICE_LIGHTGUN ∧ idx = 0 ∧ id ≤ 16) ∨
  (dtype = RETRO_DEVICE_KEYBOARD ∧ idx = 0 ∧ id ∈ retroKeys)

/-- What is not a button: the sticks, the motion of a mouse, where a light gun points. -/
def IsAxis (dtype idx id : ℕ) : Prop :=
  (dtype = RETRO_DEVICE_ANALOG ∧ idx ≤ 1) ∨
  (dtype = RETRO_DEVICE_MOUSE ∧ id ≤ 1) ∨
  (dtype = RETRO_DEVICE_LIGHTGUN ∧ (id ≤ 1 ∨ id = 13 ∨ id = 14))

instance (dtype idx id : ℕ) : Decidable (Defined dtype idx id) :=
  inferInstanceAs (Decidable (_ ∨ _))

instance (dtype idx id : ℕ) : Decidable (IsAxis dtype idx id) :=
  inferInstanceAs (Decidable (_ ∨ _))

/-- What the driver said, with buttons and keys as 0 or 1. -/
def said (cb : RetroInputState) (localDevice dtype idx id : ℕ) : Int16 :=
  let value := cb localDevice dtype idx id
  if IsAxis dtype idx id then value else if value = 0 then 0 else 1

/-- The controls that are captured. -/
def Captured (dtype idx id : ℕ) : Prop :=
  (dtype = RETRO_DEVICE_JOYPAD ∧ id ≤ 15) ∨
  (dtype = RETRO_DEVICE_ANALOG ∧ idx ≤ 1) ∨
  (dtype = RETRO_DEVICE_MOUSE ∧ id ≤ 8) ∨
  (dtype = RETRO_DEVICE_LIGHTGUN ∧ id ≤ 6) ∨
  (dtype = RETRO_DEVICE_KEYBOARD ∧ id ∈ netplayKeyNtohMapping.tail)

instance (dtype idx id : ℕ) : Decidable (Captured dtype idx id) :=
  inferInstanceAs (Decidable (_ ∨ _))

/-- The queries that stay inside a state of the words of a type: no button from 32 on, and no
stick or direction that there is not. -/
def Within (dtype : ℕ) (device idx id : UInt32) : Prop :=
  (device.toNat = RETRO_DEVICE_JOYPAD → deviceSize dtype ≠ 0 → id.toNat < 32) ∧
  (device.toNat = RETRO_DEVICE_ANALOG → (1 + idx).toNat < 3 ∧ (id * 16).toNat < 32) ∧
  (device.toNat = RETRO_DEVICE_MOUSE ∨ device.toNat = RETRO_DEVICE_LIGHTGUN → id.toNat < 32)

instance (dtype : ℕ) (device idx id : UInt32) : Decidable (Within dtype device idx id) :=
  inferInstanceAs (Decidable (_ ∧ _))

theorem toNat_ofNat_pow {i : ℕ} (h : i < 32) : (UInt32.ofNat (2 ^ i)).toNat = 2 ^ i := by
  have hlt : 2 ^ i < 2 ^ 32 := Nat.pow_lt_pow_right (by omega) h
  simpa using hlt

theorem testBit_set (w : UInt32) {i : ℕ} (h : i < 32) (j : ℕ) :
    (w ||| UInt32.ofNat (2 ^ i)).toNat.testBit j = (w.toNat.testBit j || decide (i = j)) := by
  rw [UInt32.toNat_or, Nat.testBit_or, toNat_ofNat_pow h, Nat.testBit_two_pow]

theorem testBit_foldl_set (p : ℕ → Prop) [DecidablePred p] {ids : List ℕ}
    (hids : ∀ i ∈ ids, i < 32) (word : UInt32) (j : ℕ) :
    (ids.foldl (fun word i => if p i then word ||| UInt32.ofNat (2 ^ i) else word) word).toNat.testBit
      j = (word.toNat.testBit j || decide (j ∈ ids) && decide (p j)) := by
  induction ids generalizing word with
  | nil => simp
  | cons i ids ih =>
    have hi : i < 32 := hids i List.mem_cons_self
    rw [List.foldl_cons, ih fun k hk => hids k (List.mem_cons_of_mem i hk)]
    by_cases hp : p i
    · rw [if_pos hp, testBit_set word hi]
      by_cases hij : i = j
      · subst hij
        simp [hp]
      · have hji : ¬ j = i := fun h => hij h.symm
        simp [hij, hji]
    · rw [if_neg hp]
      by_cases hji : j = i
      · subst hji
        simp [hp]
      · simp [hji]

theorem testBit_buttons (pressed : ℕ → Bool) {ids : List ℕ} (hids : ∀ i ∈ ids, i < 32) (j : ℕ) :
    (buttons pressed ids).toNat.testBit j = (decide (j ∈ ids) && pressed j) := by
  rw [buttons, testBit_foldl_set (fun i => pressed i = true) hids]
  simp

theorem low_half (a b : UInt16) : (a.toUInt32 ||| b.toUInt32 <<< 16).toUInt16 = a := by
  apply UInt16.toBitVec_inj.mp
  ext i hi
  simp

theorem high_half (a b : UInt16) : ((a.toUInt32 ||| b.toUInt32 <<< 16) >>> 16).toUInt16 = b := by
  apply UInt16.toBitVec_inj.mp
  ext i hi
  have hwide : 16 + i < 32 := by omega
  simp only [UInt32.toBitVec_toUInt16, UInt32.toBitVec_shiftRight, UInt32.toBitVec_or]
  simp [hwide, hi]

theorem readAxis_axes {data : List UInt32} {word shift : ℕ} {x y : Int16}
    (hword : data[word]? = some (axes x y)) (hshift : shift = 0 ∨ shift = 16) :
    readAxis data word shift = .ok (if shift = 0 then x else y) := by
  rcases hshift with rfl | rfl
  · have hlow : (axes x y).toUInt16 = x.toUInt16 := low_half _ _
    simp [readAxis, hword, hlow]
  · have hhigh : (axes x y >>> 16).toUInt16 = y.toUInt16 := high_half _ _
    simp [readAxis, hword, hhigh]

theorem readButton_ok {data : List UInt32} {word bit : ℕ} {w : UInt32}
    (hword : data[word]? = some w) (hbit : bit < 32) :
    readButton data word bit = .ok (if w.toNat.testBit bit then 1 else 0) := by
  simp [readButton, hword, hbit]

theorem netplayKeyNtoh_lt {key : ℕ} (hkey : key < NETPLAY_KEY_LAST) :
    netplayKeyNtoh key < RETROK_LAST ∧ netplayKeyNtohMapping[key]? = some (netplayKeyNtoh key) := by
  have hsmall : netplayKeyNtohMapping.all (· < 324) = true := by decide
  have hlength : key < netplayKeyNtohMapping.length := hkey
  rw [netplayKeyNtoh, List.getD_eq_getElem _ _ hlength]
  refine ⟨?_, List.getElem?_eq_getElem hlength⟩
  have hlt := List.all_eq_true.mp hsmall _ (List.getElem_mem hlength)
  exact of_decide_eq_true hlt

theorem mapping_spec (n : ℕ) (hn : n ≤ NETPLAY_KEY_LAST) {id : ℕ} (hid : id < RETROK_LAST) :
    let mapping := (List.range n).foldl (fun mapping i => mapping.set (netplayKeyNtoh i) i)
      (List.replicate RETROK_LAST 0)
    mapping.length = RETROK_LAST ∧
      ((∃ key < n, netplayKeyNtoh key = id ∧ mapping.getD id 0 = key) ∨
        (mapping.getD id 0 = 0 ∧ ∀ key < n, netplayKeyNtoh key ≠ id)) := by
  induction n with
  | zero =>
    refine ⟨List.length_replicate, .inr ⟨?_, by simp⟩⟩
    simp [List.getD_eq_getElem?_getD, hid]
  | succ n ih =>
    obtain ⟨hlength, hbefore⟩ := ih (by omega)
    have hcode := (netplayKeyNtoh_lt (show n < NETPLAY_KEY_LAST by omega)).1
    simp only [List.range_succ, List.foldl_append, List.foldl_cons, List.foldl_nil,
      List.length_set, hlength, true_and]
    generalize (List.range n).foldl (fun mapping i => mapping.set (netplayKeyNtoh i) i)
      (List.replicate RETROK_LAST 0) = table at hlength hbefore ⊢
    by_cases hsame : netplayKeyNtoh n = id
    · refine .inl ⟨n, by omega, hsame, ?_⟩
      rw [List.getD_eq_getElem?_getD, hsame, List.getElem?_set_self (by omega)]
      rfl
    · have hkept : (table.set (netplayKeyNtoh n) n).getD id 0 = table.getD id 0 := by
        rw [List.getD_eq_getElem?_getD, List.getElem?_set_ne hsame,
          List.getD_eq_getElem?_getD]
      rw [hkept]
      obtain ⟨key, hkey, hof, hat⟩ | ⟨hzero, hnone⟩ := hbefore
      · exact .inl ⟨key, by omega, hof, hat⟩
      · refine .inr ⟨hzero, ?_⟩
        intro key hkey
        obtain hlt | rfl : key < n ∨ key = n := by omega
        · exact hnone key hlt
        · exact hsame

theorem netplayKeyHton_spec (id : ℕ) :
    if netplayKeyHton id = NETPLAY_KEY_UNKNOWN then id ∉ netplayKeyNtohMapping.tail
    else netplayKeyHton id < NETPLAY_KEY_LAST ∧ netplayKeyNtoh (netplayKeyHton id) = id ∧
      id ∈ netplayKeyNtohMapping.tail := by
  have hlisted : ∀ {key}, key < NETPLAY_KEY_LAST → key ≠ 0 →
      netplayKeyNtoh key ∈ netplayKeyNtohMapping.tail := by
    intro key hkey hzero
    have hat := (netplayKeyNtoh_lt hkey).2
    obtain ⟨key, rfl⟩ := Nat.exists_eq_succ_of_ne_zero hzero
    have htail : netplayKeyNtohMapping.tail[key]? = some (netplayKeyNtoh (key + 1)) := by
      rw [List.getElem?_tail]
      exact hat
    exact List.mem_of_getElem? htail
  have hfound : ∀ {code}, code ∈ netplayKeyNtohMapping.tail →
      ∃ key < NETPLAY_KEY_LAST, key ≠ 0 ∧ netplayKeyNtoh key = code := by
    intro code hcode
    obtain ⟨key, hkey, rfl⟩ := List.mem_iff_getElem.mp hcode
    have hlt : key + 1 < NETPLAY_KEY_LAST := by
      have hlength : netplayKeyNtohMapping.tail.length = 136 := rfl
      rw [NETPLAY_KEY_LAST]
      omega
    refine ⟨key + 1, hlt, by omega, ?_⟩
    rw [List.getElem_tail]
    exact List.getD_eq_getElem _ _ hlt
  by_cases hid : RETROK_LAST ≤ id
  · rw [if_pos (by rw [netplayKeyHton, if_pos hid])]
    intro hmem
    obtain ⟨key, hkey, -, hcode⟩ := hfound hmem
    have hlt := (netplayKeyNtoh_lt hkey).1
    omega
  · have hspec := (mapping_spec NETPLAY_KEY_LAST le_rfl (show id < RETROK_LAST by omega)).2
    rw [netplayKeyHton, if_neg hid]
    change (∃ key < NETPLAY_KEY_LAST, netplayKeyNtoh key = id ∧ mapping.getD id 0 = key) ∨
      (mapping.getD id 0 = 0 ∧ ∀ key < NETPLAY_KEY_LAST, netplayKeyNtoh key ≠ id) at hspec
    obtain ⟨key, hkey, hof, hat⟩ | ⟨hzero, hnone⟩ := hspec
    · rw [hat]
      by_cases hzero : key = NETPLAY_KEY_UNKNOWN
      · rw [if_pos hzero, ← hof, hzero]
        decide
      · rw [if_neg hzero]
        exact ⟨hkey, hof, hof ▸ hlisted hkey hzero⟩
    · have hunknown : mapping.getD id 0 = NETPLAY_KEY_UNKNOWN := hzero
      rw [if_pos hunknown]
      intro hmem
      obtain ⟨key, hkey, -, hcode⟩ := hfound hmem
      exact hnone key hkey hcode

theorem length_captureKeys (pressed : ℕ → Bool) (keys : List ℕ) (word bit : ℕ)
    (state : List UInt32) : (captureKeys pressed keys word bit state).length = state.length := by
  induction keys generalizing word bit state with
  | nil => rfl
  | cons key keys ih =>
    rw [captureKeys]
    split_ifs <;> simp [ih]

theorem length_captureInputState (cb : RetroInputState) (localDevice device : ℕ) :
    (captureInputState cb localDevice (deviceType device)).length = deviceSize device := by
  by_cases hkeyboard : deviceType device = RETRO_DEVICE_KEYBOARD
  · simp only [captureInputState, deviceSize, hkeyboard, RETRO_DEVICE_ANALOG, RETRO_DEVICE_JOYPAD,
      RETRO_DEVICE_MOUSE, RETRO_DEVICE_LIGHTGUN, RETRO_DEVICE_KEYBOARD]
    exact length_captureKeys _ _ _ _ _
  · simp only [captureInputState, deviceSize, if_neg hkeyboard]
    by_cases hanalog : deviceType device = RETRO_DEVICE_ANALOG
    · simp [hanalog, RETRO_DEVICE_ANALOG, RETRO_DEVICE_JOYPAD, RETRO_DEVICE_MOUSE,
        RETRO_DEVICE_LIGHTGUN]
    · by_cases hjoypad : deviceType device = RETRO_DEVICE_JOYPAD
      · simp [hjoypad, RETRO_DEVICE_ANALOG, RETRO_DEVICE_JOYPAD]
      · by_cases hmouse : deviceType device = RETRO_DEVICE_MOUSE
        · simp [hmouse, RETRO_DEVICE_ANALOG, RETRO_DEVICE_JOYPAD, RETRO_DEVICE_MOUSE]
        · by_cases hgun : deviceType device = RETRO_DEVICE_LIGHTGUN
          · simp [hgun, RETRO_DEVICE_ANALOG, RETRO_DEVICE_JOYPAD, RETRO_DEVICE_MOUSE,
              RETRO_DEVICE_LIGHTGUN]
          · simp [hanalog, hjoypad, hmouse, hgun]

theorem testBit_key (state : List UInt32) {word bit : ℕ} (hword : word < state.length)
    (hbit : bit < 32) (j : ℕ) :
    (((state.modify word fun w => w ||| UInt32.ofNat (2 ^ bit)).getD (j / 32) 0).toNat.testBit
      (j % 32)) =
      ((state.getD (j / 32) 0).toNat.testBit (j % 32) || decide (j = 32 * word + bit)) := by
  have hj := Nat.div_add_mod j 32
  simp only [List.getD_eq_getElem?_getD, List.getElem?_modify]
  by_cases hsame : word = j / 32
  · subst hsame
    have hbit' : (bit = j % 32) = (j = 32 * (j / 32) + bit) := by
      apply propext
      omega
    simp only [List.getElem?_eq_getElem hword, if_true, Option.map_eq_map, Option.map_some,
      Option.getD_some, testBit_set _ hbit, hbit']
  · have hother : ¬ j = 32 * word + bit := by omega
    simp [hsame, hother]

theorem testBit_captureKeys (pressed : ℕ → Bool) (n : ℕ) {word bit : ℕ} (hbit : bit < 32)
    {state : List UInt32} (hroom : 32 * word + bit + n ≤ 32 * state.length) (j : ℕ) :
    ((captureKeys pressed (List.range' (32 * word + bit) n) word bit state).getD
      (j / 32) 0).toNat.testBit (j % 32) =
    ((state.getD (j / 32) 0).toNat.testBit (j % 32) ||
      decide (32 * word + bit ≤ j ∧ j < 32 * word + bit + n) && pressed j) := by
  induction n generalizing word bit state with
  | zero =>
    have hnone : ¬ (32 * word + bit ≤ j ∧ j < 32 * word + bit) := by omega
    simp [captureKeys, hnone]
  | succ n ih =>
    have hword : word < state.length := by omega
    rw [List.range'_succ, captureKeys]
    generalize hset : (if pressed (32 * word + bit) = true then
      state.modify word fun w => w ||| UInt32.ofNat (2 ^ bit) else state) = state'
    have hlength : state'.length = state.length := by
      rw [← hset]
      split_ifs <;> simp
    have hfirst : (state'.getD (j / 32) 0).toNat.testBit (j % 32) =
        ((state.getD (j / 32) 0).toNat.testBit (j % 32) ||
          decide (j = 32 * word + bit) && pressed j) := by
      rw [← hset]
      by_cases hj : j = 32 * word + bit
      · by_cases hpressed : pressed (32 * word + bit) = true
        · rw [if_pos hpressed, testBit_key state hword hbit]
          simp [hj, hpressed]
        · rw [if_neg hpressed]
          simp [hj, hpressed]
      · by_cases hpressed : pressed (32 * word + bit) = true
        · rw [if_pos hpressed, testBit_key state hword hbit]
          simp [hj]
        · rw [if_neg hpressed]
          simp [hj]
    have hrange : ∀ first, first = 32 * word + bit + 1 →
        (decide (j = 32 * word + bit) && pressed j ||
          decide (first ≤ j ∧ j < first + n) && pressed j) =
        (decide (32 * word + bit ≤ j ∧ j < 32 * word + bit + (n + 1)) && pressed j) := by
      rintro first rfl
      have hsplit : (j = 32 * word + bit ∨
          (32 * word + bit + 1 ≤ j ∧ j < 32 * word + bit + 1 + n)) ↔
          (32 * word + bit ≤ j ∧ j < 32 * word + bit + (n + 1)) := by
        omega
      rw [← Bool.and_or_distrib_right, ← Bool.decide_or, decide_eq_decide.mpr hsplit]
    simp only [hlength]
    split_ifs with hnext hmore
    · have hkey : 32 * word + bit + 1 = 32 * word + (bit + 1) := by omega
      rw [hkey, ih hnext (by omega), hfirst, Bool.or_assoc, hrange _ hkey.symm]
    · have hkey : 32 * word + bit + 1 = 32 * (word + 1) + 0 := by omega
      rw [hkey, ih (by omega) (by omega), hfirst, Bool.or_assoc, hrange _ hkey.symm]
    · have hn : n = 0 := by omega
      subst hn
      have hnone : ¬ (32 * word + bit + 1 ≤ j ∧ j < 32 * word + bit + 1 + 0) := by omega
      rw [hfirst, ← hrange _ rfl]
      simp only [hnone, decide_false, Bool.false_and, Bool.or_false]

section Reading

theorem readButton_some_iff {data : List UInt32} {word bit : ℕ} (hword : word < data.length) :
    (∃ value, readButton data word bit = .ok value) ↔ bit < 32 := by
  constructor
  · rintro ⟨value, hread⟩
    by_contra hbit
    rw [readButton, if_pos (by omega)] at hread
    cases hread
  · intro hbit
    exact ⟨_, readButton_ok (List.getElem?_eq_getElem hword) hbit⟩

theorem readAxis_some_iff {data : List UInt32} {word shift : ℕ} :
    (∃ value, readAxis data word shift = .ok value) ↔ word < data.length ∧ shift < 32 := by
  constructor
  · rintro ⟨value, hread⟩
    rw [readAxis] at hread
    split at hread
    · cases hread
    · rename_i w hword
      obtain ⟨hlt, -⟩ := List.getElem?_eq_some_iff.mp hword
      split_ifs at hread with hshift
      exact ⟨hlt, by omega⟩
  · rintro ⟨hword, hshift⟩
    rw [readAxis, List.getElem?_eq_getElem hword]
    simp only [if_neg (Nat.not_le.mpr hshift)]
    exact ⟨_, rfl⟩

theorem readInputState_joypad {data : List UInt32} {device idx id : UInt32}
    (hdevice : device.toNat = RETRO_DEVICE_JOYPAD) :
    readInputState data device idx id = readButton data 0 id.toNat := by
  rw [readInputState, if_pos hdevice]

theorem readInputState_analog {data : List UInt32} {device idx id : UInt32}
    (hdevice : device.toNat = RETRO_DEVICE_ANALOG) (hlength : data.length = 3) :
    readInputState data device idx id = readAxis data (1 + idx).toNat (id * 16).toNat := by
  simp [readInputState, hdevice, hlength, RETRO_DEVICE_ANALOG, RETRO_DEVICE_JOYPAD]

theorem readInputState_pointing {data : List UInt32} {device idx id : UInt32}
    (hdevice : device.toNat = RETRO_DEVICE_MOUSE ∨ device.toNat = RETRO_DEVICE_LIGHTGUN)
    (hlength : data.length = 2) :
    readInputState data device idx id =
      if id.toNat ≤ 1 then readAxis data 1 (id * 16).toNat else readButton data 0 id.toNat := by
  rcases hdevice with hdevice | hdevice <;>
    simp [readInputState, hdevice, hlength, RETRO_DEVICE_ANALOG, RETRO_DEVICE_JOYPAD,
      RETRO_DEVICE_MOUSE, RETRO_DEVICE_LIGHTGUN, RETRO_DEVICE_ID_MOUSE_Y]

theorem readInputState_keyboard {data : List UInt32} {device idx id : UInt32}
    (hdevice : device.toNat = RETRO_DEVICE_KEYBOARD) (hlength : data.length = 5) :
    readInputState data device idx id =
      if netplayKeyHton id.toNat = NETPLAY_KEY_UNKNOWN then .ok 0
      else readButton data (netplayKeyHton id.toNat / 32) (netplayKeyHton id.toNat % 32) := by
  have hother : RETRO_DEVICE_KEYBOARD ≠ RETRO_DEVICE_JOYPAD ∧
      RETRO_DEVICE_KEYBOARD ≠ RETRO_DEVICE_ANALOG ∧
      ¬ (RETRO_DEVICE_KEYBOARD = RETRO_DEVICE_MOUSE ∨
        RETRO_DEVICE_KEYBOARD = RETRO_DEVICE_LIGHTGUN) := by
    decide
  rw [readInputState, hdevice, if_neg hother.1, if_neg hother.2.1, if_neg hother.2.2,
    if_pos rfl, hlength]
  have hspec := netplayKeyHton_spec id.toNat
  split_ifs at hspec with hunknown
  · simp only [if_pos hunknown]
  · have hlast := hspec.1
    rw [NETPLAY_KEY_LAST] at hlast
    have hinside : netplayKeyHton id.toNat / 32 ≤ 5 := by omega
    simp only [if_neg hunknown, if_pos hinside]

theorem one_add_toNat {idx : UInt32} (hidx : idx.toNat ≤ 2) : (1 + idx).toNat = 1 + idx.toNat := by
  rw [UInt32.toNat_add]
  have hone : (1 : UInt32).toNat = 1 := rfl
  rw [hone]
  omega

theorem shift_lt {id : UInt32} (hid : id.toNat ≤ 1) : (id * 16).toNat = id.toNat * 16 := by
  rw [UInt32.toNat_mul]
  have hsixteen : (16 : UInt32).toNat = 16 := rfl
  rw [hsixteen]
  omega

theorem within_joypad {dtype : ℕ} {device idx id : UInt32}
    (hdevice : device.toNat = RETRO_DEVICE_JOYPAD) (hsize : deviceSize dtype ≠ 0) :
    Within dtype device idx id ↔ id.toNat < 32 := by
  simp [Within, hdevice, hsize, RETRO_DEVICE_JOYPAD, RETRO_DEVICE_ANALOG, RETRO_DEVICE_MOUSE,
    RETRO_DEVICE_LIGHTGUN]

theorem within_analog {dtype : ℕ} {device idx id : UInt32}
    (hdevice : device.toNat = RETRO_DEVICE_ANALOG) :
    Within dtype device idx id ↔ (1 + idx).toNat < 3 ∧ (id * 16).toNat < 32 := by
  have hjoypad : RETRO_DEVICE_ANALOG ≠ RETRO_DEVICE_JOYPAD := by decide
  have hpointing : ¬ (RETRO_DEVICE_ANALOG = RETRO_DEVICE_MOUSE ∨
      RETRO_DEVICE_ANALOG = RETRO_DEVICE_LIGHTGUN) := by
    decide
  simp only [Within, hdevice, hjoypad, hpointing, false_implies, true_implies, true_and, and_true]

theorem within_pointing {dtype : ℕ} {device idx id : UInt32}
    (hdevice : device.toNat = RETRO_DEVICE_MOUSE ∨ device.toNat = RETRO_DEVICE_LIGHTGUN) :
    Within dtype device idx id ↔ id.toNat < 32 := by
  rcases hdevice with hdevice | hdevice <;>
    simp [Within, hdevice, RETRO_DEVICE_JOYPAD, RETRO_DEVICE_ANALOG, RETRO_DEVICE_MOUSE,
      RETRO_DEVICE_LIGHTGUN]

theorem readInputState_some_iff {data : List UInt32} {dtype : ℕ} {device idx id : UInt32}
    (hlength : data.length = deviceSize dtype) (hsize : data.length ≠ 0)
    (hdevice : device.toNat = RETRO_DEVICE_JOYPAD ∨ deviceType dtype = device.toNat) :
    (∃ value, readInputState data device idx id = .ok value) ↔ Within dtype device idx id := by
  have hpos : 0 < data.length := by omega
  by_cases hjoypad : device.toNat = RETRO_DEVICE_JOYPAD
  · rw [readInputState_joypad hjoypad, readButton_some_iff hpos,
      within_joypad hjoypad (hlength ▸ hsize)]
  have htype : deviceType dtype = device.toNat := hdevice.resolve_left hjoypad
  rw [deviceSize, htype] at hlength
  by_cases hanalog : device.toNat = RETRO_DEVICE_ANALOG
  · have hthree : data.length = 3 := by
      rw [hlength, hanalog]
      rfl
    rw [readInputState_analog hanalog hthree, readAxis_some_iff, hthree, within_analog hanalog]
  by_cases hmouse : device.toNat = RETRO_DEVICE_MOUSE ∨ device.toNat = RETRO_DEVICE_LIGHTGUN
  · have htwo : data.length = 2 := by
      rcases hmouse with hmouse | hgun
      · rw [hlength, hmouse]
        rfl
      · rw [hlength, hgun]
        rfl
    rw [readInputState_pointing hmouse htwo, within_pointing hmouse]
    by_cases haxis : id.toNat ≤ 1
    · rw [if_pos haxis, readAxis_some_iff, shift_lt haxis]
      omega
    · rw [if_neg haxis, readButton_some_iff hpos]
  · have hwithin : Within dtype device idx id := by
      simp [Within, hjoypad, hanalog, hmouse]
    refine iff_of_true ?_ hwithin
    by_cases hkeyboard : device.toNat = RETRO_DEVICE_KEYBOARD
    · have hfive : data.length = 5 := by
        rw [hlength, hkeyboard]
        rfl
      rw [readInputState_keyboard hkeyboard hfive]
      have hspec := netplayKeyHton_spec id.toNat
      split_ifs at hspec ⊢
      · exact ⟨0, rfl⟩
      · have hlast := hspec.1
        rw [NETPLAY_KEY_LAST] at hlast
        exact (readButton_some_iff (by omega)).mpr (by omega)
    · exact ⟨0, by simp [readInputState, hjoypad, hanalog, hmouse, hkeyboard]⟩

theorem readButton_said_iff {data : List UInt32} {word bit : ℕ} {w : UInt32} (captured : Prop)
    [Decidable captured] {value : Int16} (hword : data[word]? = some w) (hbit : bit < 32)
    (htest : w.toNat.testBit bit = (decide captured && decide (value ≠ 0))) :
    readButton data word bit = .ok (if value = 0 then 0 else 1) ↔ captured ∨ value = 0 := by
  rw [readButton_ok hword hbit, htest]
  by_cases hvalue : value = 0
  · simp [hvalue]
  · by_cases hcaptured : captured
    · simp [hvalue, hcaptured]
    · have hdiffer : ¬ (0 : Int16) = 1 := by decide
      simp [hvalue, hcaptured, hdiffer]

variable (cb : RetroInputState) (localDevice : ℕ) {device idx id : UInt32}

theorem joypad_said_iff (hdevice : device.toNat = RETRO_DEVICE_JOYPAD) (hidx : idx.toNat = 0)
    (hid : id.toNat ≤ 15 ∨ id.toNat = 256) :
    readInputState (captureInputState cb localDevice RETRO_DEVICE_JOYPAD) device idx id =
        .ok (said cb localDevice RETRO_DEVICE_JOYPAD idx.toNat id.toNat) ↔ id.toNat ≤ 15 := by
  rw [readInputState_joypad hdevice]
  rcases hid with hid | hid
  · have hsaid : said cb localDevice RETRO_DEVICE_JOYPAD idx.toNat id.toNat =
        if cb localDevice RETRO_DEVICE_JOYPAD 0 id.toNat = 0 then 0 else 1 := by
      rw [said, if_neg (by simp [IsAxis, RETRO_DEVICE_JOYPAD, RETRO_DEVICE_ANALOG,
        RETRO_DEVICE_MOUSE, RETRO_DEVICE_LIGHTGUN]), hidx]
    refine iff_of_true ?_ hid
    rw [hsaid, readButton_said_iff True rfl (by omega)]
    · exact .inl trivial
    · rw [testBit_buttons _ (by simp [RETRO_DEVICE_ID_JOYPAD_R3]; omega)]
      simp [RETRO_DEVICE_ID_JOYPAD_R3]
      omega
  · refine iff_of_false ?_ (by omega)
    simp [readButton, hid]

theorem analog_said_iff (hdevice : device.toNat = RETRO_DEVICE_ANALOG)
    (hid : (idx.toNat ≤ 1 ∧ id.toNat ≤ 1) ∨ (idx.toNat = 2 ∧ id.toNat ≤ 15)) :
    readInputState (captureInputState cb localDevice RETRO_DEVICE_ANALOG) device idx id =
        .ok (said cb localDevice RETRO_DEVICE_ANALOG idx.toNat id.toNat) ↔ idx.toNat ≤ 1 := by
  rw [readInputState_analog hdevice rfl]
  have hword : (1 + idx).toNat = 1 + idx.toNat := one_add_toNat (by omega)
  rcases hid with ⟨hidx, hid⟩ | ⟨hidx, -⟩
  · refine iff_of_true ?_ hidx
    rw [hword, shift_lt hid, said, if_pos (.inl ⟨rfl, hidx⟩)]
    have hstick : (captureInputState cb localDevice RETRO_DEVICE_ANALOG)[1 + idx.toNat]? =
        some (axes (cb localDevice RETRO_DEVICE_ANALOG idx.toNat 0)
          (cb localDevice RETRO_DEVICE_ANALOG idx.toNat 1)) := by
      obtain hzero | hone : idx.toNat = 0 ∨ idx.toNat = 1 := by omega
      · rw [hzero]
        rfl
      · rw [hone]
        rfl
    rw [readAxis_axes hstick (by omega)]
    obtain hzero | hone : id.toNat = 0 ∨ id.toNat = 1 := by omega
    · simp [hzero]
    · simp [hone]
  · refine iff_of_false ?_ (by omega)
    intro hread
    have hinside := (readAxis_some_iff.mp ⟨_, hread⟩).1
    have hthree : (captureInputState cb localDevice RETRO_DEVICE_ANALOG).length = 3 := rfl
    omega

/-- A mouse or a light gun: two axes, the buttons up to the last that is captured, and the rest,
that reads as nothing. -/
theorem pointing_said_iff {dtype last : ℕ} (hdevice : device.toNat = dtype)
    (hdtype : (dtype = RETRO_DEVICE_MOUSE ∧ last = 8) ∨ (dtype = RETRO_DEVICE_LIGHTGUN ∧ last = 6))
    (hidx : idx.toNat = 0) (hid : id.toNat < 32) :
    readInputState (captureInputState cb localDevice dtype) device idx id =
        .ok (said cb localDevice dtype idx.toNat id.toNat) ↔
      id.toNat ≤ last ∨ cb localDevice dtype idx.toNat id.toNat = 0 := by
  have hpointing : dtype = RETRO_DEVICE_MOUSE ∨ dtype = RETRO_DEVICE_LIGHTGUN :=
    hdtype.imp And.left And.left
  have hdata : captureInputState cb localDevice dtype =
      [buttons (fun i => cb localDevice dtype 0 i ≠ 0) (List.range' 2 (last - 1)),
        axes (cb localDevice dtype 0 0) (cb localDevice dtype 0 1)] := by
    rcases hdtype with ⟨rfl, rfl⟩ | ⟨rfl, rfl⟩ <;> rfl
  have hlast : last = 8 ∨ last = 6 := hdtype.imp And.right And.right
  rw [hdata, readInputState_pointing (hdevice ▸ hpointing) rfl, hidx]
  by_cases haxis : id.toNat ≤ 1
  · refine iff_of_true ?_ (.inl (by omega))
    have hsaid : said cb localDevice dtype 0 id.toNat = cb localDevice dtype 0 id.toNat := by
      rw [said, if_pos]
      rcases hpointing with rfl | rfl
      · exact .inr (.inl ⟨rfl, haxis⟩)
      · exact .inr (.inr ⟨rfl, .inl haxis⟩)
    rw [if_pos haxis, shift_lt haxis, readAxis_axes rfl (by omega), hsaid]
    obtain hzero | hone : id.toNat = 0 ∨ id.toNat = 1 := by omega
    · simp [hzero]
    · simp [hone]
  · have htest : (buttons (fun i => decide (cb localDevice dtype 0 i ≠ 0))
        (List.range' 2 (last - 1))).toNat.testBit id.toNat =
        (decide (id.toNat ≤ last) && decide (cb localDevice dtype 0 id.toNat ≠ 0)) := by
      have hrange : (id.toNat ∈ List.range' 2 (last - 1)) = (id.toNat ≤ last) := by
        rw [List.mem_range'_1]
        apply propext
        omega
      rw [testBit_buttons _ (by simp; omega)]
      simp only [hrange]
    rw [if_neg haxis]
    by_cases hscreen : IsAxis dtype 0 id.toNat
    · have hfar : ¬ id.toNat ≤ last := by
        rcases hscreen with ⟨rfl, -⟩ | ⟨-, hmouse⟩ | ⟨-, hgun⟩
        · rcases hpointing with h | h <;> cases h
        · exact absurd hmouse haxis
        · omega
      rw [said, if_pos hscreen, readButton_ok rfl hid, htest]
      simp [hfar, eq_comm]
    · rw [said, if_neg hscreen, readButton_said_iff _ rfl hid htest]

theorem captureInputState_keyboard :
    captureInputState cb localDevice RETRO_DEVICE_KEYBOARD =
      captureKeys
        (fun key => decide (cb localDevice RETRO_DEVICE_KEYBOARD 0 (netplayKeyNtoh key) ≠ 0))
        (List.range' (32 * 0 + 1) 136) 0 1 (List.replicate 5 0) := by
  have hother : RETRO_DEVICE_KEYBOARD ≠ RETRO_DEVICE_ANALOG ∧
      RETRO_DEVICE_KEYBOARD ≠ RETRO_DEVICE_JOYPAD ∧
      ¬ (RETRO_DEVICE_KEYBOARD = RETRO_DEVICE_MOUSE ∨
        RETRO_DEVICE_KEYBOARD = RETRO_DEVICE_LIGHTGUN) := by
    decide
  simp only [captureInputState, if_neg hother.1, if_neg hother.2.1, if_neg hother.2.2, if_true,
    NETPLAY_KEY_LAST]

theorem keyboard_said_iff (hdevice : device.toNat = RETRO_DEVICE_KEYBOARD)
    (hidx : idx.toNat = 0) :
    readInputState (captureInputState cb localDevice RETRO_DEVICE_KEYBOARD) device idx id =
        .ok (said cb localDevice RETRO_DEVICE_KEYBOARD idx.toNat id.toNat) ↔
      id.toNat ∈ netplayKeyNtohMapping.tail ∨
        cb localDevice RETRO_DEVICE_KEYBOARD idx.toNat id.toNat = 0 := by
  have hlength : (captureInputState cb localDevice RETRO_DEVICE_KEYBOARD).length = 5 :=
    length_captureKeys _ _ _ _ _
  have hsaid : said cb localDevice RETRO_DEVICE_KEYBOARD idx.toNat id.toNat =
      if cb localDevice RETRO_DEVICE_KEYBOARD 0 id.toNat = 0 then 0 else 1 := by
    rw [said, if_neg (by simp [IsAxis, RETRO_DEVICE_KEYBOARD, RETRO_DEVICE_ANALOG,
      RETRO_DEVICE_MOUSE, RETRO_DEVICE_LIGHTGUN]), hidx]
  rw [readInputState_keyboard hdevice hlength, hsaid, hidx]
  have hspec := netplayKeyHton_spec id.toNat
  by_cases hunknown : netplayKeyHton id.toNat = NETPLAY_KEY_UNKNOWN
  · rw [if_pos hunknown] at hspec ⊢
    have hdiffer : ¬ (0 : Int16) = 1 := by decide
    by_cases hzero : cb localDevice RETRO_DEVICE_KEYBOARD 0 id.toNat = 0
    · simp [hzero]
    · simp [hspec, hzero, hdiffer]
  · rw [if_neg hunknown] at hspec ⊢
    obtain ⟨hlast, hkey, hmem⟩ := hspec
    generalize hnumber : netplayKeyHton id.toNat = key at hlast hkey hunknown ⊢
    rw [NETPLAY_KEY_LAST] at hlast
    rw [NETPLAY_KEY_UNKNOWN] at hunknown
    have hinside : key / 32 < (captureInputState cb localDevice RETRO_DEVICE_KEYBOARD).length := by
      omega
    have hbit : ((captureInputState cb localDevice RETRO_DEVICE_KEYBOARD)[key / 32]).toNat.testBit
        (key % 32) = (decide (id.toNat ∈ netplayKeyNtohMapping.tail) &&
          decide (cb localDevice RETRO_DEVICE_KEYBOARD 0 id.toNat ≠ 0)) := by
      have hloop : ((captureInputState cb localDevice RETRO_DEVICE_KEYBOARD).getD
          (key / 32) 0).toNat.testBit (key % 32) =
          (((List.replicate 5 0).getD (key / 32) (0 : UInt32)).toNat.testBit (key % 32) ||
            decide (32 * 0 + 1 ≤ key ∧ key < 32 * 0 + 1 + 136) &&
              decide (cb localDevice RETRO_DEVICE_KEYBOARD 0 (netplayKeyNtoh key) ≠ 0)) := by
        rw [captureInputState_keyboard]
        exact testBit_captureKeys _ 136 (by omega) (by simp) key
      have hzero : (List.replicate 5 (0 : UInt32)).getD (key / 32) 0 = 0 := by
        rw [List.getD_eq_getElem?_getD, List.getElem?_replicate]
        split_ifs <;> rfl
      have hseen : 32 * 0 + 1 ≤ key ∧ key < 32 * 0 + 1 + 136 := by omega
      rw [List.getD_eq_getElem _ _ hinside, hzero, hkey] at hloop
      rw [hloop]
      simp [hseen, hmem]
    exact readButton_said_iff _ (List.getElem?_eq_getElem hinside) (Nat.mod_lt _ (by omega)) hbit

/-- What the driver said is read back exactly when the control is captured, or says nothing. -/
theorem readInputState_said_iff {dtype : ℕ} (device idx id : UInt32)
    (hdevice : deviceType dtype = device.toNat)
    (hdefined : Defined (deviceType dtype) idx.toNat id.toNat) :
    readInputState (captureInputState cb localDevice (deviceType dtype)) device idx id =
        .ok (said cb localDevice (deviceType dtype) idx.toNat id.toNat) ↔
      Within dtype device idx id ∧
        (Captured (deviceType dtype) idx.toNat id.toNat ∨
          cb localDevice (deviceType dtype) idx.toNat id.toNat = 0) := by
  obtain ⟨htype, hidx, hid⟩ | ⟨htype, hid⟩ | ⟨htype, hidx, hid⟩ | ⟨htype, hidx, hid⟩ |
    ⟨htype, hidx, hid⟩ := hdefined <;> rw [htype] at hdevice ⊢
  · have hsize : deviceSize dtype ≠ 0 := by
      rw [deviceSize, htype]
      decide
    rw [joypad_said_iff cb localDevice hdevice.symm hidx hid, within_joypad hdevice.symm hsize]
    exact ⟨fun hlow => ⟨by omega, .inl (.inl ⟨rfl, hlow⟩)⟩, fun hwithin => by omega⟩
  · have hword : (1 + idx).toNat = 1 + idx.toNat := one_add_toNat (by omega)
    rw [analog_said_iff cb localDevice hdevice.symm hid, within_analog hdevice.symm, hword]
    constructor
    · intro hstick
      have hside : id.toNat ≤ 1 := by omega
      exact ⟨⟨by omega, by rw [shift_lt hside]; omega⟩, .inl (.inr (.inl ⟨rfl, hstick⟩))⟩
    · rintro ⟨⟨hinside, -⟩, -⟩
      omega
  · rw [pointing_said_iff cb localDevice hdevice.symm (.inl ⟨rfl, rfl⟩) hidx (by omega),
      within_pointing (.inl hdevice.symm)]
    simp only [show id.toNat < 32 by omega, true_and]
    exact or_congr_left (by simp [Captured, RETRO_DEVICE_JOYPAD, RETRO_DEVICE_ANALOG,
      RETRO_DEVICE_MOUSE, RETRO_DEVICE_LIGHTGUN, RETRO_DEVICE_KEYBOARD])
  · rw [pointing_said_iff cb localDevice hdevice.symm (.inr ⟨rfl, rfl⟩) hidx (by omega),
      within_pointing (.inr hdevice.symm)]
    simp only [show id.toNat < 32 by omega, true_and]
    exact or_congr_left (by simp [Captured, RETRO_DEVICE_JOYPAD, RETRO_DEVICE_ANALOG,
      RETRO_DEVICE_MOUSE, RETRO_DEVICE_LIGHTGUN, RETRO_DEVICE_KEYBOARD])
  · have hwithin : Within dtype device idx id := by
      simp [Within, ← hdevice, RETRO_DEVICE_JOYPAD, RETRO_DEVICE_ANALOG, RETRO_DEVICE_MOUSE,
        RETRO_DEVICE_LIGHTGUN, RETRO_DEVICE_KEYBOARD]
    rw [keyboard_said_iff cb localDevice hdevice.symm hidx]
    simp only [hwithin, true_and]
    exact or_congr_left (by simp [Captured, RETRO_DEVICE_JOYPAD, RETRO_DEVICE_ANALOG,
      RETRO_DEVICE_MOUSE, RETRO_DEVICE_LIGHTGUN, RETRO_DEVICE_KEYBOARD])

end Reading

end RetroArch.Netplay.Controls
