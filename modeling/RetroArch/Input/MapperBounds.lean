/- Where the input mapper reads and writes with the tables of a remap file. -/

import RetroArch.Input.Mapper

namespace RetroArch.Input.MapperBounds

open Mapper

section Model

abbrev MAX_USERS : ℕ := 16
abbrev RARCH_CUSTOM_BIND_LIST_END : ℕ := 35
abbrev RETROK_UNKNOWN : UInt32 := 0
abbrev RETROK_LAST : ℕ := 324

/-- The numbers that `config_get_int` finds in a remap file for one user. -/
structure RemapFile where
  btn : ℕ → Option Int32
  key : ℕ → Option Int32
  stk : ℕ → Option Int32
  libretroDevice : Option Int32

structure Settings where
  remapIds : ℕ → UInt32
  keymapperIds : ℕ → UInt32
  libretroDevice : UInt32

def loadRemap (remap : Option Int32) (old : UInt32) : UInt32 :=
  match remap with
  | some v => if v ≠ -1 then v.toUInt32 else UInt32.ofNat RARCH_UNMAPPED
  | none => old

/-- `input_remapping_load_file` for one user, as far as the mapper reads it. -/
def inputRemappingLoadFile (conf : RemapFile) (old : Settings) : Settings where
  remapIds j :=
    if j < RARCH_FIRST_CUSTOM_BIND then loadRemap (conf.btn j) (old.remapIds j)
    else if j < RARCH_ANALOG_BIND_LIST_END then
      loadRemap (conf.stk (j - RARCH_FIRST_CUSTOM_BIND)) (old.remapIds j)
    else old.remapIds j
  keymapperIds j :=
    if j < RARCH_FIRST_CUSTOM_BIND then ((conf.key j).map Int32.toUInt32).getD RETROK_UNKNOWN
    else old.keymapperIds j
  libretroDevice := (conf.libretroDevice.map Int32.toUInt32).getD old.libretroDevice

/-- An element of one of the three arrays: of `analog_value[port]`, a word of `keys`, a word of the
bits of `buttons[port]`. -/
inductive Access
  | analogValue (index : ℕ)
  | keys (word : ℕ)
  | buttons (word : ℕ)

def Access.Inside : Access → Prop
  | analogValue index => index < 8
  | keys word => word < RETROK_LAST / 32 + 1
  | buttons word => word < 256 / 32

/-- The overlay is polled for the first user alone. -/
structure UserInput where
  pad : Pad
  overlay : ℕ → Bool

def held (input : UserInput) (j : ℕ) : Prop :=
  j < RARCH_FIRST_CUSTOM_BIND ∧ input.pad.press j ≠ 0 ∨ input.overlay j

instance (input : UserInput) (j : ℕ) : Decidable (held input j) :=
  inferInstanceAs (Decidable (_ ∨ _))

variable (limit : ℚ) (settings : Settings) (input : UserInput)

def keyAccesses (j : ℕ) : List Access :=
  let remapButton := settings.keymapperIds j
  if remapButton ≠ RETROK_UNKNOWN ∧ held input j ∧ j ≠ remapButton.toNat then
    [.keys (remapButton.toNat / 32)]
  else []

def buttonAccesses (j : ℕ) : List Access :=
  let remapButton := (settings.remapIds j).toNat
  if held input j ∧ j ≠ remapButton ∧ remapButton ≠ RARCH_UNMAPPED then
    if remapButton < RARCH_FIRST_CUSTOM_BIND then [.buttons (remapButton / 32)]
    else [.analogValue (remapButton - RARCH_FIRST_CUSTOM_BIND)]
  else []

/-- The guard compares with the size of `analog_value[i]` in bytes. -/
def axisAccesses (j : ℕ) : List Access :=
  let k := j + RARCH_FIRST_CUSTOM_BIND
  let remapAxis := (settings.remapIds k).toNat
  if 0 < (analogs input.pad j).toInt.natAbs ∧ k ≠ remapAxis ∧ remapAxis ≠ RARCH_UNMAPPED then
    if remapAxis < RARCH_FIRST_CUSTOM_BIND ∧ Beyond limit (analogs input.pad j) then
      [.buttons (remapAxis / 32)]
    else
      let bind := (remapAxis + 2 ^ 32 - RARCH_FIRST_CUSTOM_BIND) % 2 ^ 32
      if bind < 8 * 2 then [.analogValue bind] else []
  else []

/-- `RETRO_DEVICE_KEYBOARD`, and `RETRO_DEVICE_JOYPAD` or `RETRO_DEVICE_ANALOG`. -/
def isKeyboard : Prop := settings.libretroDevice % 256 = 3
def isGamepad : Prop := settings.libretroDevice % 256 = 1 ∨ settings.libretroDevice % 256 = 5

instance : Decidable (isKeyboard settings) := inferInstanceAs (Decidable (_ = _))
instance : Decidable (isGamepad settings) := inferInstanceAs (Decidable (_ ∨ _))

/-- What `input_mapper_poll` accesses for one user, the arrays it clears included. -/
def userAccesses : List Access :=
  (List.range (RETROK_LAST / 32 + 1)).map .keys ++
  if isKeyboard settings then
    (List.range RARCH_CUSTOM_BIND_LIST_END).flatMap (keyAccesses settings input)
  else if isGamepad settings then
    (List.range 8).map .buttons ++ (List.range 8).map .analogValue ++
    (List.range RARCH_FIRST_CUSTOM_BIND).flatMap (buttonAccesses settings input) ++
    (List.range 8).flatMap (axisAccesses limit settings input)
  else []

inductive Query
  | joypad (id : ℕ)
  | analog (idx id : ℕ)
  | keyboard (id : ℕ)

/-- What `input_mapper_state` accesses. -/
def stateAccesses : Query → List Access
  | .joypad id => [.buttons (id / 32)]
  | .analog idx id =>
    if idx < 2 ∧ id < 2 then
      [.analogValue (idx * 4 + id * 2), .analogValue (idx * 4 + id * 2 + 1)]
    else []
  | .keyboard id => if id < RETROK_LAST then [.keys (id / 32)] else []

end Model

section Statement

variable (limit : ℚ) (conf : Fin MAX_USERS → RemapFile) (old : Fin MAX_USERS → Settings)
  (input : Fin MAX_USERS → UserInput) (query : Query)

/-- With the settings of the file, for the users with an array of their own. -/
def StaysInside : Prop :=
  (∀ i, ∀ a ∈ userAccesses limit (inputRemappingLoadFile (conf i) (old i)) (input i), a.Inside) ∧
    ∀ a ∈ stateAccesses query, a.Inside

/-- Nothing that is used has a target that no array has a place for. -/
structure Harmless (settings : Settings) (input : UserInput) : Prop where
  keys : isKeyboard settings → ∀ j < RARCH_CUSTOM_BIND_LIST_END, held input j →
    j ≠ (settings.keymapperIds j).toNat → (settings.keymapperIds j).toNat < 352
  buttons : isGamepad settings → ∀ j < RARCH_FIRST_CUSTOM_BIND, held input j →
    j ≠ (settings.remapIds j).toNat → (settings.remapIds j).toNat ≠ RARCH_UNMAPPED →
    (settings.remapIds j).toNat < RARCH_ANALOG_BIND_LIST_END
  axes : isGamepad settings → ∀ j < 8, analogs input.pad j ≠ 0 →
    j + RARCH_FIRST_CUSTOM_BIND ≠ (settings.remapIds (j + RARCH_FIRST_CUSTOM_BIND)).toNat →
    ¬(24 ≤ (settings.remapIds (j + RARCH_FIRST_CUSTOM_BIND)).toNat ∧
      (settings.remapIds (j + RARCH_FIRST_CUSTOM_BIND)).toNat < 32)

def Query.Known : Query → Prop
  | joypad id => id < 256
  | _ => True

end Statement

section Inside

variable {limit : ℚ} {settings : Settings} {input : UserInput}

theorem keyAccesses_inside (j : ℕ) :
    (∀ a ∈ keyAccesses settings input j, a.Inside) ↔
      (held input j → j ≠ (settings.keymapperIds j).toNat →
        (settings.keymapperIds j).toNat < 352) := by
  have hlast : RETROK_LAST / 32 + 1 = 11 := rfl
  have hunknown : settings.keymapperIds j = RETROK_UNKNOWN →
      (settings.keymapperIds j).toNat = 0 := fun h => by rw [h]; rfl
  simp only [keyAccesses]
  split_ifs with h
  · simp only [List.mem_singleton, forall_eq, Access.Inside]
    constructor
    · intro hword _ _
      omega
    · intro htarget
      have := htarget h.2.1 h.2.2
      omega
  · refine iff_of_true (fun a ha => absurd ha List.not_mem_nil) fun hheld hj => ?_
    have := hunknown (by tauto)
    omega

theorem buttonAccesses_inside (j : ℕ) :
    (∀ a ∈ buttonAccesses settings input j, a.Inside) ↔
      (held input j → j ≠ (settings.remapIds j).toNat →
        (settings.remapIds j).toNat ≠ RARCH_UNMAPPED →
        (settings.remapIds j).toNat < RARCH_ANALOG_BIND_LIST_END) := by
  have hbinds := binds
  simp only [buttonAccesses]
  split_ifs with h htarget
  · simp only [List.mem_singleton, forall_eq, Access.Inside]
    exact iff_of_true (by omega) fun _ _ _ => by omega
  · simp only [List.mem_singleton, forall_eq, Access.Inside]
    constructor
    · intro hindex _ _ _
      omega
    · intro hbound
      have := hbound h.1 h.2.1 h.2.2
      omega
  · exact iff_of_true (fun a ha => absurd ha List.not_mem_nil) fun hheld hj hmapped =>
      absurd ⟨hheld, hj, hmapped⟩ h

theorem axisAccesses_inside (j : ℕ) :
    (∀ a ∈ axisAccesses limit settings input j, a.Inside) ↔
      (analogs input.pad j ≠ 0 →
        j + RARCH_FIRST_CUSTOM_BIND ≠
          (settings.remapIds (j + RARCH_FIRST_CUSTOM_BIND)).toNat →
        ¬(24 ≤ (settings.remapIds (j + RARCH_FIRST_CUSTOM_BIND)).toNat ∧
          (settings.remapIds (j + RARCH_FIRST_CUSTOM_BIND)).toNat < 32)) := by
  have hbinds := binds
  have hsize := (settings.remapIds (j + RARCH_FIRST_CUSTOM_BIND)).toNat_lt
  simp only [axisAccesses, natAbs_pos]
  split_ifs with h hbeyond hbind
  · simp only [List.mem_singleton, forall_eq, Access.Inside]
    exact iff_of_true (by omega) fun _ _ => by omega
  · simp only [List.mem_singleton, forall_eq, Access.Inside]
    constructor
    · intro hindex _ _
      omega
    · intro hbound
      have := hbound h.1 h.2.1
      omega
  · exact iff_of_true (fun a ha => absurd ha List.not_mem_nil) fun _ _ => by omega
  · refine iff_of_true (fun a ha => absurd ha List.not_mem_nil) fun hval hk hbetween => ?_
    exact h ⟨hval, hk, by omega⟩

theorem cleared_inside {n : ℕ} {access : ℕ → Access} (h : ∀ k < n, (access k).Inside) :
    ∀ a ∈ (List.range n).map access, a.Inside := by
  intro a ha
  obtain ⟨k, hk, rfl⟩ := List.mem_map.mp ha
  exact h k (List.mem_range.mp hk)

theorem userAccesses_inside :
    (∀ a ∈ userAccesses limit settings input, a.Inside) ↔ Harmless settings input := by
  rw [userAccesses, List.forall_mem_append]
  refine (and_iff_right (cleared_inside fun _ h => h)).trans ?_
  split_ifs with hkeyboard hgamepad
  · have hother : ¬isGamepad settings := fun h => by
      rw [isKeyboard] at hkeyboard
      rw [isGamepad, hkeyboard] at h
      exact absurd h (by decide)
    rw [List.forall_mem_flatMap]
    simp only [List.mem_range, keyAccesses_inside]
    exact ⟨fun h => ⟨fun _ => h, fun h' => absurd h' hother, fun h' => absurd h' hother⟩,
      fun h => h.keys hkeyboard⟩
  · rw [List.forall_mem_append, List.forall_mem_append, List.forall_mem_append,
      List.forall_mem_flatMap, List.forall_mem_flatMap]
    simp only [List.mem_range, buttonAccesses_inside, axisAccesses_inside]
    exact ⟨fun h => ⟨fun h' => absurd h' hkeyboard, fun _ => h.1.2, fun _ => h.2⟩,
      fun h => ⟨⟨⟨cleared_inside fun _ h => h, cleared_inside fun _ h => h⟩, h.buttons hgamepad⟩,
        h.axes hgamepad⟩⟩
  · exact iff_of_true (fun a ha => absurd ha List.not_mem_nil)
      ⟨fun h => absurd h hkeyboard, fun h => absurd h hgamepad, fun h => absurd h hgamepad⟩

theorem stateAccesses_inside (query : Query) :
    (∀ a ∈ stateAccesses query, a.Inside) ↔ query.Known := by
  cases query with
  | joypad id =>
    simp only [stateAccesses, List.mem_singleton, forall_eq, Access.Inside, Query.Known]
    omega
  | analog idx id =>
    refine iff_of_true (fun a ha => ?_) trivial
    rw [stateAccesses] at ha
    split_ifs at ha with h
    · rcases List.mem_pair.mp ha with rfl | rfl
      all_goals
        simp only [Access.Inside]
        omega
    · exact absurd ha List.not_mem_nil
  | keyboard id =>
    refine iff_of_true (fun a ha => ?_) trivial
    rw [stateAccesses] at ha
    split_ifs at ha with h
    · rw [List.mem_singleton.mp ha]
      simp only [Access.Inside]
      omega
    · exact absurd ha List.not_mem_nil

end Inside

end RetroArch.Input.MapperBounds
