/- Which control tables let every control of a pad act on its own target. -/

import RetroArch.Input.Mapper

namespace RetroArch.Input.Remapped

open Mapper

section Axes

variable {limit : ℚ} {pad : Pad}

theorem exists_last {p : ℕ → Prop} {n : ℕ} (h : ∃ c < n, p c) :
    ∃ c < n, p c ∧ ∀ c', c < c' → c' < n → ¬p c' := by
  induction n with
  | zero => obtain ⟨c, hc, -⟩ := h; exact absurd hc (Nat.not_lt_zero c)
  | succ n ih =>
    by_cases hn : p n
    · exact ⟨n, n.lt_succ_self, hn, fun c' hlt hc' => absurd hc' (by omega)⟩
    · obtain ⟨c, hc, hp⟩ := h
      have hlt : c < n := lt_of_le_of_ne (Nat.le_of_lt_succ hc) fun heq => hn (heq ▸ hp)
      obtain ⟨d, hd, hpd, hlast⟩ := ih ⟨c, hlt, hp⟩
      refine ⟨d, Nat.lt_succ_of_lt hd, hpd, fun c' hdc hc' => ?_⟩
      rcases Nat.lt_succ_iff_lt_or_eq.mp hc' with hlt | rfl
      · exact hlast c' hdc hlt
      · exact hn

theorem hit_iff (ids : ℕ → ℕ) (limit : ℚ) (pad : Pad) {a : ℕ} (ha : RARCH_FIRST_CUSTOM_BIND ≤ a)
    (ha' : a < RARCH_ANALOG_BIND_LIST_END) :
    Hit ids limit pad a ↔ Aimed ids limit pad a ∨ ids a = a ∧ Live pad a := by
  constructor
  · rintro ⟨c, hc, hacts, hids⟩
    by_cases hself : c = a
    · exact .inr ⟨hself ▸ hids, hself ▸ hacts.1⟩
    · exact .inl ⟨c, hc, hacts, hids, hself⟩
  · rintro (⟨c, hc, hacts, hids, -⟩ | ⟨hids, hlive⟩)
    · exact ⟨c, hc, hacts, hids⟩
    · exact ⟨a, ha', ⟨hlive, fun _ hlow => by omega⟩, hids⟩

theorem row_value (table : RemapIds) {a : ℕ} (ha : RARCH_FIRST_CUSTOM_BIND ≤ a)
    (ha' : a < RARCH_ANALOG_BIND_LIST_END) :
    let val := (pollGamepad table.ids limit pad).analogValue (a - RARCH_FIRST_CUSTOM_BIND)
    (¬Aimed table.ids limit pad a → val = 0) ∧
      (Aimed table.ids limit pad a → a % 2 = 1 → val.toInt < 0) ∧
      (Aimed table.ids limit pad a → a % 2 = 0 → ¬Turned table.ids limit pad a → 0 < val.toInt) ∧
      (Turned table.ids limit pad a → a % 2 = 0 → val.toInt < 0) := by
  obtain ⟨x, rfl⟩ := Nat.exists_eq_add_of_le' ha
  have hbinds := binds
  have hx : x < 8 := by omega
  have hpolled := polled table limit pad
  rw [Nat.add_sub_cancel]
  have hlast := hpolled.last x hx
  refine ⟨fun hnot => hpolled.zero x hx fun c hc haims => hnot ⟨c, hc, haims⟩,
    fun haimed hodd => ?_, fun haimed heven hturned => ?_, fun hturned heven => ?_⟩
  · obtain ⟨c, hc, haims, hafter⟩ := exists_last haimed
    rw [hlast c hc haims hafter]
    exact (worth_sign haims.1.1 _).1 hodd
  · obtain ⟨c, hc, haims, hafter⟩ := exists_last haimed
    rw [hlast c hc haims hafter]
    exact (worth_sign haims.1.1 _).2.1 heven fun hfull => hturned ⟨c, hc, haims, hfull, hafter⟩
  · obtain ⟨c, hc, haims, hfull, hafter⟩ := hturned
    rw [hlast c hc haims hafter]
    exact (worth_sign haims.1.1 _).2.2 heven hfull

theorem live_halves {e : ℕ} (he : RARCH_FIRST_CUSTOM_BIND ≤ e) (heven : e % 2 = 0) :
    (Live pad e ↔ 0 < (pad.stick ((e - RARCH_FIRST_CUSTOM_BIND) / 2)).toInt) ∧
      (Live pad (e + 1) ↔ (pad.stick ((e - RARCH_FIRST_CUSTOM_BIND) / 2)).toInt < 0) := by
  have hbinds := binds
  have hplus : (e - RARCH_FIRST_CUSTOM_BIND) % 2 = 0 := by omega
  have hminus : (e + 1 - RARCH_FIRST_CUSTOM_BIND) % 2 = 1 ∧
      (e + 1 - RARCH_FIRST_CUSTOM_BIND) / 2 = (e - RARCH_FIRST_CUSTOM_BIND) / 2 := by omega
  rw [Live, Live, if_neg (by omega), if_neg (by omega), Deflected, Deflected, analogs, analogs,
    hplus, hminus.1, hminus.2, if_pos rfl, if_neg one_ne_zero]
  simp only [Int16.le_iff_toInt_le, Ne, ← toInt_eq_zero]
  have hz : (0 : Int16).toInt = 0 := rfl
  split_ifs <;> omega

theorem axisState_eq (ids : ℕ → ℕ) (limit : ℚ) (pad : Pad) {e : ℕ}
    (he : RARCH_FIRST_CUSTOM_BIND ≤ e) (he' : e < RARCH_ANALOG_BIND_LIST_END)
    (heven : e % 2 = 0) :
    let row := pollGamepad ids limit pad
    let val1 := row.analogValue (e - RARCH_FIRST_CUSTOM_BIND)
    let val2 := row.analogValue (e + 1 - RARCH_FIRST_CUSTOM_BIND)
    axisState ids pad row ((e - RARCH_FIRST_CUSTOM_BIND) / 2) =
      (if ids e = e ∧ ids (e + 1) = e + 1 then pad.stick ((e - RARCH_FIRST_CUSTOM_BIND) / 2)
        else 0) ||| if val1 ≠ 0 then val1 else val2 := by
  have hbinds := binds
  obtain ⟨x, rfl⟩ : ∃ x, e = RARCH_FIRST_CUSTOM_BIND + 2 * x :=
    ⟨(e - RARCH_FIRST_CUSTOM_BIND) / 2, by omega⟩
  have hx : x < 4 := by omega
  have hoffset : x / 2 * 4 + x % 2 * 2 = 2 * x := by omega
  have hbind : RARCH_FIRST_CUSTOM_BIND + x / 2 * 4 + x % 2 * 2 =
      RARCH_FIRST_CUSTOM_BIND + 2 * x := by
    omega
  have hhalf : (RARCH_FIRST_CUSTOM_BIND + 2 * x - RARCH_FIRST_CUSTOM_BIND) / 2 = x := by omega
  have hplus : RARCH_FIRST_CUSTOM_BIND + 2 * x - RARCH_FIRST_CUSTOM_BIND = 2 * x := by omega
  have hminus : RARCH_FIRST_CUSTOM_BIND + 2 * x + 1 - RARCH_FIRST_CUSTOM_BIND = 2 * x + 1 := by
    omega
  have hinside : x / 2 < 2 ∧ x % 2 < 2 := by omega
  rw [hhalf, hplus, hminus]
  simp only [axisState, inputStateDevice, inputMapperState, hoffset, hbind, hinside, and_self,
    true_and, if_true]
  generalize (pollGamepad ids limit pad).analogValue (2 * x) = val1
  generalize (pollGamepad ids limit pad).analogValue (2 * x + 1) = val2
  have hbase : (if ids (RARCH_FIRST_CUSTOM_BIND + 2 * x) ≠ RARCH_FIRST_CUSTOM_BIND + 2 * x ∨
      ids (RARCH_FIRST_CUSTOM_BIND + 2 * x + 1) ≠ RARCH_FIRST_CUSTOM_BIND + 2 * x + 1 then 0
      else pad.stick x) =
      if ids (RARCH_FIRST_CUSTOM_BIND + 2 * x) = RARCH_FIRST_CUSTOM_BIND + 2 * x ∧
      ids (RARCH_FIRST_CUSTOM_BIND + 2 * x + 1) = RARCH_FIRST_CUSTOM_BIND + 2 * x + 1
      then pad.stick x else 0 := by
    split_ifs <;> tauto
  rw [hbase]
  by_cases hsome : val1 ≠ 0 ∨ val2 ≠ 0
  · rw [if_pos hsome]
  · push Not at hsome
    rw [if_neg (by tauto), hsome.1, hsome.2, if_neg (not_not.mpr rfl), Int16.or_zero]

theorem reported_iff (ids : ℕ → ℕ) (pad : Pad) (row : Row) {e : ℕ}
    (he : RARCH_FIRST_CUSTOM_BIND ≤ e) (heven : e % 2 = 0) :
    let val := axisState ids pad row ((e - RARCH_FIRST_CUSTOM_BIND) / 2)
    (Reported ids pad row e ↔ 0 < val.toInt) ∧
      (Reported ids pad row (e + 1) ↔ val.toInt < 0) := by
  have hhalf : (e + 1 - RARCH_FIRST_CUSTOM_BIND) / 2 = (e - RARCH_FIRST_CUSTOM_BIND) / 2 := by
    have hbinds := binds
    omega
  refine ⟨?_, ?_⟩
  · rw [Reported, if_pos heven]
  · rw [Reported, hhalf, if_neg (by omega)]

/-- The signs of what is reported for an axis: `base` is what the stick itself says, unless it was
moved away, and the other two what was written for the halves. -/
theorem signs_of_axis (base val1 val2 : Int16) :
    (0 < (base ||| if val1 ≠ 0 then val1 else val2).toInt ↔
      0 ≤ base.toInt ∧ (0 < val1.toInt ∨ val1.toInt = 0 ∧ 0 < val2.toInt ∨
        val1.toInt = 0 ∧ val2.toInt = 0 ∧ 0 < base.toInt)) ∧
    ((base ||| if val1 ≠ 0 then val1 else val2).toInt < 0 ↔
      base.toInt < 0 ∨ val1.toInt < 0 ∨ val1.toInt = 0 ∧ val2.toInt < 0) := by
  have hzero := toInt_eq_zero val1
  rw [toInt_or_pos, toInt_or_neg]
  split_ifs with h
  · have hval := mt hzero.mp h
    omega
  · have hval := hzero.mpr (not_not.mp h)
    omega

section Halves

variable {aimed1 aimed2 self1 self2 turned : Prop} {stick base val1 val2 : ℤ}

/-- Of one axis: when the signs tell which halves are hit. -/
theorem signs_iff (hturned : turned → aimed1) (hmoved : ¬(self1 ∧ self2) → base = 0)
    (hkept : self1 → self2 → base = stick) (hzero1 : ¬aimed1 → val1 = 0)
    (hpos1 : aimed1 → ¬turned → 0 < val1) (hneg1 : turned → val1 < 0)
    (hzero2 : ¬aimed2 → val2 = 0) (hneg2 : aimed2 → val2 < 0) :
    ((0 ≤ base ∧ (0 < val1 ∨ val1 = 0 ∧ 0 < val2 ∨ val1 = 0 ∧ val2 = 0 ∧ 0 < base) ↔
        aimed1 ∨ self1 ∧ 0 < stick) ∧
      (base < 0 ∨ val1 < 0 ∨ val1 = 0 ∧ val2 < 0 ↔ aimed2 ∨ self2 ∧ stick < 0)) ↔
    ¬((aimed1 ∨ self1 ∧ 0 < stick) ∧ (aimed2 ∨ self2 ∧ stick < 0)) ∧
      (self1 → 0 < stick → aimed1 ∨ self2) ∧ (self2 → stick < 0 → aimed2 ∨ self1) ∧
      ¬turned := by
  constructor
  · rintro ⟨hplus, hminus⟩
    have hapart : ¬((aimed1 ∨ self1 ∧ 0 < stick) ∧ (aimed2 ∨ self2 ∧ stick < 0)) := by
      rintro ⟨hhit1, hhit2⟩
      have hup := hplus.mpr hhit1
      have hdown := hminus.mpr hhit2
      omega
    refine ⟨hapart, fun hself hpos => ?_, fun hself hneg => ?_, fun hturn => ?_⟩
    · by_contra hnone
      have hup := hplus.mpr (.inr ⟨hself, hpos⟩)
      have h1 := hzero1 fun h => hnone (.inl h)
      have hbase := hmoved fun h => hnone (.inr h.2)
      by_cases haimed : aimed2
      · have := hneg2 haimed
        omega
      · have := hzero2 haimed
        omega
    · by_contra hnone
      have hdown := hminus.mpr (.inr ⟨hself, hneg⟩)
      have h2 := hzero2 fun h => hnone (.inl h)
      have hbase := hmoved fun h => hnone (.inr h.1)
      have h1 : val1 < 0 := by omega
      have haimed : aimed1 := by
        by_contra hnot
        have := hzero1 hnot
        omega
      exact hapart ⟨.inl haimed, .inr ⟨hself, hneg⟩⟩
    · have hup := hplus.mpr (.inl (hturned hturn))
      have := hneg1 hturn
      omega
  · rintro ⟨hapart, hplus, hminus, hturn⟩
    have hbase : base = 0 ∨ base = stick ∧ self1 ∧ self2 := by
      by_cases hself : self1 ∧ self2
      · exact .inr ⟨hkept hself.1 hself.2, hself⟩
      · exact .inl (hmoved hself)
    have h1 : 0 ≤ val1 := by
      by_cases haimed : aimed1
      · exact (hpos1 haimed hturn).le
      · exact (hzero1 haimed).ge
    have h2 : val2 ≤ 0 := by
      by_cases haimed : aimed2
      · exact (hneg2 haimed).le
      · exact (hzero2 haimed).le
    refine ⟨⟨fun hup => ?_, fun hhit => ?_⟩, fun hdown => ?_, fun hhit => ?_⟩
    · by_contra hnone
      have hv1 := hzero1 fun h => hnone (.inl h)
      rcases hbase with hbase | ⟨hbase, hself, -⟩
      · omega
      · exact hnone (.inr ⟨hself, by omega⟩)
    · have hnot : ¬(aimed2 ∨ self2 ∧ stick < 0) := fun h => hapart ⟨hhit, h⟩
      have hv2 := hzero2 fun h => hnot (.inl h)
      have hnonneg : 0 ≤ base := by
        rcases hbase with hbase | ⟨hbase, -, hself⟩
        · exact hbase.ge
        · exact hbase ▸ Int.not_lt.mp fun h => hnot (.inr ⟨hself, h⟩)
      by_cases haimed : aimed1
      · exact ⟨hnonneg, .inl (hpos1 haimed hturn)⟩
      · obtain ⟨hself, hpos⟩ := hhit.resolve_left haimed
        have hstick := hkept hself ((hplus hself hpos).resolve_left haimed)
        exact ⟨hnonneg, .inr (.inr ⟨hzero1 haimed, hv2, hstick ▸ hpos⟩)⟩
    · by_contra hnone
      have hv2 := hzero2 fun h => hnone (.inl h)
      rcases hbase with hbase | ⟨hbase, -, hself⟩
      · omega
      · exact hnone (.inr ⟨hself, by omega⟩)
    · have hv1 := hzero1 fun h => hapart ⟨.inl h, hhit⟩
      by_cases haimed : aimed2
      · exact .inr (.inr ⟨hv1, hneg2 haimed⟩)
      · obtain ⟨hself, hneg⟩ := hhit.resolve_left haimed
        have hstick := hkept ((hminus hself hneg).resolve_left haimed) hself
        exact .inl (hstick ▸ hneg)

end Halves

theorem axis_moved_iff (table : RemapIds) (limit : ℚ) (pad : Pad) {e : ℕ}
    (he : RARCH_FIRST_CUSTOM_BIND ≤ e) (he' : e < RARCH_ANALOG_BIND_LIST_END)
    (heven : e % 2 = 0) :
    let row := pollGamepad table.ids limit pad
    ((Reported table.ids pad row e ↔ Hit table.ids limit pad e) ∧
      (Reported table.ids pad row (e + 1) ↔ Hit table.ids limit pad (e + 1))) ↔
      Sound table.ids limit pad e := by
  intro row
  have hbinds := binds
  have hbind : RARCH_FIRST_CUSTOM_BIND ≤ e + 1 := Nat.le_succ_of_le he
  have hlast : e + 1 < RARCH_ANALOG_BIND_LIST_END := by omega
  have hodd : (e + 1) % 2 = 1 := by omega
  obtain ⟨hrplus, hrminus⟩ := reported_iff table.ids pad row he heven
  obtain ⟨hlplus, hlminus⟩ := @live_halves pad e he heven
  obtain ⟨hnone1, -, hpos1, hneg1⟩ := @row_value limit pad table e he he'
  obtain ⟨hnone2, hneg2, -, -⟩ := @row_value limit pad table (e + 1) hbind hlast
  have haimed : Turned table.ids limit pad e → Aimed table.ids limit pad e :=
    fun ⟨c, hc, haims, _⟩ => ⟨c, hc, haims⟩
  have hbase : ∀ {base : Int16}, base = (if table.ids e = e ∧ table.ids (e + 1) = e + 1 then
      pad.stick ((e - RARCH_FIRST_CUSTOM_BIND) / 2) else 0) →
      (¬(table.ids e = e ∧ table.ids (e + 1) = e + 1) → base.toInt = 0) ∧
        (table.ids e = e → table.ids (e + 1) = e + 1 →
          base.toInt = (pad.stick ((e - RARCH_FIRST_CUSTOM_BIND) / 2)).toInt) := by
    rintro base rfl
    exact ⟨fun h => by rw [if_neg h]; rfl, fun h1 h2 => by rw [if_pos ⟨h1, h2⟩]⟩
  have hsigns := signs_iff haimed (hbase rfl).1 (hbase rfl).2
    (fun h => (toInt_eq_zero _).mpr (hnone1 h)) (fun h => hpos1 h heven)
    (fun h => hneg1 h heven) (fun h => (toInt_eq_zero _).mpr (hnone2 h)) fun h => hneg2 h hodd
  rw [hrplus, hrminus, axisState_eq table.ids limit pad he he' heven, (signs_of_axis _ _ _).1,
    (signs_of_axis _ _ _).2, hit_iff table.ids limit pad he he',
    hit_iff table.ids limit pad hbind hlast, hlplus, hlminus, hsigns]
  constructor
  · rintro ⟨hapart, hplus, hminus, hturned⟩
    refine ⟨?_, fun hself hlive => hplus hself (hlplus.mp hlive),
      fun hself hlive => hminus hself (hlminus.mp hlive), hturned⟩
    rwa [hit_iff table.ids limit pad he he', hit_iff table.ids limit pad hbind hlast, hlplus,
      hlminus]
  · rintro ⟨hapart, hplus, hminus, hturned⟩
    refine ⟨?_, fun hself hpos => hplus hself (hlplus.mpr hpos),
      fun hself hneg => hminus hself (hlminus.mpr hneg), hturned⟩
    rwa [hit_iff table.ids limit pad he he', hit_iff table.ids limit pad hbind hlast, hlplus,
      hlminus] at hapart

end Axes

section Controls

variable {limit : ℚ} {pad : Pad}

theorem hit_button (ids : ℕ → ℕ) (limit : ℚ) (pad : Pad) {b : ℕ}
    (hb : b < RARCH_FIRST_CUSTOM_BIND) :
    Hit ids limit pad b ↔ Aimed ids limit pad b ∨ ids b = b ∧ pad.press b ≠ 0 := by
  have hbinds := binds
  constructor
  · rintro ⟨c, hc, hacts, hids⟩
    by_cases hself : c = b
    · subst hself
      have hlive := hacts.1
      rw [Live, if_pos hb] at hlive
      exact .inr ⟨hids, hlive⟩
    · exact .inl ⟨c, hc, hacts, hids, hself⟩
  · rintro (⟨c, hc, hacts, hids, -⟩ | ⟨hids, hpress⟩)
    · exact ⟨c, hc, hacts, hids⟩
    · refine ⟨b, by omega, ⟨?_, fun hle => absurd hle (Nat.not_le_of_lt hb)⟩, hids⟩
      rwa [Live, if_pos hb]

theorem shift_ne_zero : ∀ b < RARCH_FIRST_CUSTOM_BIND, (1 : Int16) <<< Int16.ofNat b ≠ 0 := by
  decide

/-- Buttons always act on their targets, and so do half axes beyond the threshold. -/
theorem button_moved (table : RemapIds) (limit : ℚ) (pad : Pad) {b : ℕ}
    (hb : b < RARCH_FIRST_CUSTOM_BIND) (buttonMask : Bool) :
    buttonState table.ids pad (pollGamepad table.ids limit pad) b buttonMask ≠ 0 ↔
      Hit table.ids limit pad b := by
  have hrow := (polled table limit pad).buttons b hb
  have hmask := pad.mask_bits b hb
  have hshift := shift_ne_zero b hb
  rw [hit_button table.ids limit pad hb, Aimed, ← hrow, buttonState, inputStateDevice,
    inputMapperState]
  generalize pollGamepad table.ids limit pad = row
  by_cases hbit : row.buttons b = true
  · rw [if_pos hbit]
    exact iff_of_true (by decide) (.inl hbit)
  · rw [if_neg hbit, or_iff_right hbit]
    by_cases hself : table.ids b = b
    · rw [if_neg (not_not.mpr hself.symm), and_iff_right hself]
      cases buttonMask with
      | false => exact Iff.rfl
      | true =>
        rw [← hmask, if_pos rfl, if_pos rfl]
        split_ifs with hpress
        · exact iff_of_true hshift hpress
        · exact iff_of_false (not_not.mpr rfl) hpress
    · rw [if_pos (Ne.symm hself)]
      exact iff_of_false (not_not.mpr rfl) fun h => hself h.1

theorem polled_user (limit : ℚ) (users : ℕ → User) {maxUsers : ℕ} (handle : ℕ → Row) {port : ℕ}
    (hport : port < maxUsers)
    (hdevice : (users port).device = .joypad ∨ (users port).device = .analog) :
    inputMapperPoll limit users maxUsers handle port =
      pollGamepad (users port).table.ids limit (users port).pad := by
  rw [inputMapperPoll]
  induction maxUsers with
  | zero => exact absurd hport (Nat.not_lt_zero port)
  | succ n ih =>
    rw [List.range_succ, List.foldl_append, List.foldl_cons, List.foldl_nil]
    rcases Nat.lt_succ_iff_lt_or_eq.mp hport with hlt | rfl
    · split_ifs
      · exact (if_neg hlt.ne).trans (ih hlt)
      · exact ih hlt
    · rw [if_pos hdevice]
      exact if_pos rfl

/-- Every control of a user is moved to its own target just when the four axes are sound. -/
theorem moved_iff (limit : ℚ) (users : ℕ → User) (maxUsers : ℕ) (handle : ℕ → Row) (port : ℕ)
    (hport : port < maxUsers)
    (hdevice : (users port).device = .joypad ∨ (users port).device = .analog) :
    Moved (users port).table.ids limit (users port).pad
        (inputMapperPoll limit users maxUsers handle port) ↔
      ∀ x < 4, Sound (users port).table.ids limit (users port).pad
        (RARCH_FIRST_CUSTOM_BIND + 2 * x) := by
  have hbinds := binds
  rw [polled_user limit users handle hport hdevice]
  constructor
  · intro hmoved x hx
    exact (axis_moved_iff (users port).table limit (users port).pad (Nat.le_add_right _ _)
      (by omega) (by omega)).mp
      ⟨hmoved.axes _ (Nat.le_add_right _ _) (by omega), hmoved.axes _ (by omega) (by omega)⟩
  · intro hsound
    refine ⟨fun b hb buttonMask => button_moved (users port).table limit _ hb buttonMask,
      fun a ha ha' => ?_⟩
    obtain ⟨x, hx, ha⟩ : ∃ x < 4, a = RARCH_FIRST_CUSTOM_BIND + 2 * x ∨
        a = RARCH_FIRST_CUSTOM_BIND + 2 * x + 1 :=
      ⟨(a - RARCH_FIRST_CUSTOM_BIND) / 2, by omega, by omega⟩
    have hboth := (axis_moved_iff (users port).table limit (users port).pad
      (Nat.le_add_right _ (2 * x)) (by omega) (by omega)).mpr (hsound x hx)
    rcases ha with rfl | rfl
    · exact hboth.1
    · exact hboth.2

end Controls

/-- The negative half of the left X axis is not mapped to anything. -/
def halfUnmapped : RemapIds where
  ids k := if k = 17 then RARCH_UNMAPPED else k
  valid k hk := by
    by_cases h : k = 17
    · exact .inr (if_pos h)
    · exact .inl (by rw [if_neg h]; exact hk)

/-- Nothing is pressed, and the left stick is held to the right. -/
def heldRight : Pad where
  press _ := 0
  mask := 0
  axis _ := 0
  key _ := false
  stick x := if x = 0 then 32767 else 0
  mask_bits id _ := by rw [Int16.zero_and]

/-- The positive half of the axis is mapped to itself, and yet is not reported. -/
theorem halfUnmapped_not_moved :
    ¬∀ (limit : ℚ) (users : ℕ → User) (maxUsers : ℕ) (handle : ℕ → Row) (port : ℕ),
      port < maxUsers → (users port).device = .joypad ∨ (users port).device = .analog →
      Moved (users port).table.ids limit (users port).pad
        (inputMapperPoll limit users maxUsers handle port) := by
  intro hall
  have hmoved := hall 16383 (fun _ => ⟨.joypad, halfUnmapped, heldRight⟩) 1 (fun _ => .clear) 0
    Nat.zero_lt_one (.inl rfl)
  rw [polled_user 16383 _ _ Nat.zero_lt_one (.inl rfl)] at hmoved
  have hsound := (axis_moved_iff halfUnmapped 16383 heldRight (e := 16) le_rfl (by decide)
    rfl).mp ⟨hmoved.axes 16 le_rfl (by decide), hmoved.axes 17 (by decide) (by decide)⟩
  have hlive : Live heldRight 16 := (live_halves le_rfl rfl).1.mpr (by decide)
  rcases hsound.plus rfl hlive with ⟨c, -, -, hids, hne⟩ | hids
  · rw [halfUnmapped] at hids
    dsimp only at hids
    split_ifs at hids
    · exact absurd hids (by decide)
    · exact hne hids
  · exact absurd hids (by decide)

/-- Every control is mapped to itself. -/
def selfMapped : RemapIds := ⟨id, fun _ hk => .inl hk⟩

theorem selfMapped_moved :
    Moved selfMapped.ids 16383 heldRight (inputMapperPoll 16383
      (fun _ => ⟨.analog, selfMapped, heldRight⟩) 1 (fun _ => .clear) 0) := by
  refine (moved_iff 16383 (fun _ => ⟨.analog, selfMapped, heldRight⟩) 1 (fun _ => .clear) 0
    Nat.zero_lt_one (.inr rfl)).mpr fun x hx => ?_
  refine ⟨?_, fun _ _ => .inr rfl, fun _ _ => .inr rfl, ?_⟩
  · rintro ⟨⟨c, -, hplus, hc⟩, d, -, hminus, hd⟩
    have heven : (RARCH_FIRST_CUSTOM_BIND + 2 * x) % 2 = 0 := by
      have hbinds := binds
      omega
    have hhalves := @live_halves heldRight _
      (Nat.le_add_right RARCH_FIRST_CUSTOM_BIND (2 * x)) heven
    have hup := hhalves.1.mp (hc ▸ hplus.1)
    have hdown := hhalves.2.mp (hd ▸ hminus.1)
    omega
  · rintro ⟨c, -, haims, -⟩
    exact haims.2.2 haims.2.1

end RetroArch.Input.Remapped
