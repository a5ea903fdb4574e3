/- Which archives are walked without an access outside the file. -/

import RetroArch.File.Archive

namespace RetroArch.File.ArchiveWalk

open Library.Bytes Config Archive

variable {σ : Type} {data : List UInt8} {dir offset size v : ℕ}

/-- A field of the file, as far as its bytes are there. -/
def field (data : List UInt8) (offset size : ℕ) : ℕ := ofLE ((data.drop offset).take size)

theorem bytesAt_eq_some {bs : List UInt8} :
    bytesAt data offset size = some bs ↔
      offset + size ≤ data.length ∧ (data.drop offset).take size = bs := by
  unfold bytesAt
  split_ifs with h
  · simp [h]
  · simp [h]

theorem bytesAt_inside (h : offset + size ≤ data.length) :
    bytesAt data offset size = some ((data.drop offset).take size) := if_pos h

theorem readLE_eq_some :
    readLE data offset size = some v ↔ offset + size ≤ data.length ∧ field data offset size = v := by
  unfold readLE field bytesAt
  split_ifs with h
  · simp [h]
  · simp [h]

theorem readLE_inside (h : offset + size ≤ data.length) :
    readLE data offset size = some (field data offset size) := readLE_eq_some.mpr ⟨h, rfl⟩

def isRecord (data : List UInt8) (dir : ℕ) : Prop := field data dir 4 = centralFileHeaderSignature

def nameLength (data : List UInt8) (dir : ℕ) : ℕ := field data (dir + 28) 2

def localHeader (data : List UInt8) (dir : ℕ) : ℕ := field data (dir + 42) 4

/-- The record at this place of the directory, with the local header it points at. -/
def recordAt (data : List UInt8) (dir : ℕ) : Record where
  filename := (data.drop (dir + 46)).take (nameLength data dir)
  cdata := localHeader data dir + 30 + field data (localHeader data dir + 26) 2 +
    field data (localHeader data dir + 28) 2
  cmode := field data (dir + 10) 2
  size := field data (dir + 24) 4
  csize := field data (dir + 20) 4
  checksum := field data (dir + 16) 4
  payback := 46 + nameLength data dir + field data (dir + 30) 2 + field data (dir + 32) 2

/-- The bytes that the record says hold its entry. -/
def cdataAt (data : List UInt8) (dir : ℕ) : List UInt8 :=
  (data.drop (recordAt data dir).cdata).take (recordAt data dir).csize

/-- The record with its name, its local header and its data lie in the file. -/
structure RecordInside (data : List UInt8) (dir : ℕ) : Prop where
  record : dir + 46 + nameLength data dir ≤ data.length
  localHeader : localHeader data dir + 30 ≤ data.length
  cdata : (recordAt data dir).cdata + (recordAt data dir).csize ≤ data.length

theorem RecordInside.nameLength_eq {data : List UInt8} {dir : ℕ} {name : Str}
    (h : RecordInside data dir) (hname : (recordAt data dir).filename = name) :
    nameLength data dir = name.length := by
  have hrange := h.record
  rw [← hname, recordAt, List.length_take, List.length_drop]
  omega

theorem stepInternal_stop (hinside : dir + 4 ≤ data.length) (hno : ¬ isRecord data dir) :
    zipParseFileIterateStepInternal data dir = some .stop := by
  unfold zipParseFileIterateStepInternal
  rw [readLE_inside hinside]
  exact if_pos hno

theorem stepInternal_error (hinside : dir + 34 ≤ data.length) (hrecord : isRecord data dir)
    (hlong : pathMaxLength ≤ nameLength data dir) :
    zipParseFileIterateStepInternal data dir = some .error := by
  have hsignature : ¬ field data dir 4 ≠ centralFileHeaderSignature := not_not.mpr hrecord
  unfold zipParseFileIterateStepInternal
  rw [readLE_inside (by omega : dir + 4 ≤ data.length)]
  simp only [Option.bind_eq_bind, Option.bind_some, if_neg hsignature]
  rw [readLE_inside (by omega), readLE_inside (by omega), readLE_inside (by omega),
    readLE_inside (by omega), readLE_inside (by omega), readLE_inside (by omega),
    readLE_inside (by omega)]
  exact if_pos hlong

theorem stepInternal_entry (hrecord : isRecord data dir)
    (hshort : nameLength data dir < pathMaxLength)
    (hheader : dir + 46 + nameLength data dir ≤ data.length)
    (hlocal : localHeader data dir + 30 ≤ data.length) :
    zipParseFileIterateStepInternal data dir = some (.entry (recordAt data dir)) := by
  have hsignature : ¬ field data dir 4 ≠ centralFileHeaderSignature := not_not.mpr hrecord
  have hname : ¬ field data (dir + 28) 2 ≥ pathMaxLength := Nat.not_le.mpr hshort
  unfold zipParseFileIterateStepInternal
  rw [readLE_inside (by omega : dir + 4 ≤ data.length)]
  simp only [Option.bind_eq_bind, Option.bind_some, if_neg hsignature]
  rw [readLE_inside (by omega), readLE_inside (by omega), readLE_inside (by omega),
    readLE_inside (by omega), readLE_inside (by omega), readLE_inside (by omega),
    readLE_inside (by omega)]
  simp only [Option.bind_some, if_neg hname]
  have hoffset : localHeader data dir = field data (dir + 42) 4 := rfl
  have hlength : nameLength data dir = field data (dir + 28) 2 := rfl
  rw [hoffset] at hlocal
  rw [hlength] at hheader
  rw [bytesAt_inside hheader, readLE_inside (by omega)]
  simp only [Option.bind_some]
  rw [readLE_inside (by omega), readLE_inside (by omega)]
  rfl

theorem stepInternal_cases {r : StepInternal} (h : zipParseFileIterateStepInternal data dir = some r) :
    (r = .stop ∧ dir + 4 ≤ data.length ∧ ¬ isRecord data dir) ∨
      (r = .error ∧ dir + 34 ≤ data.length ∧ isRecord data dir ∧
        pathMaxLength ≤ nameLength data dir) ∨
      (r = .entry (recordAt data dir) ∧ isRecord data dir ∧ nameLength data dir < pathMaxLength ∧
        dir + 46 + nameLength data dir ≤ data.length ∧ localHeader data dir + 30 ≤ data.length) := by
  have hread := h
  unfold zipParseFileIterateStepInternal at hread
  simp only [Option.bind_eq_bind, Option.bind_eq_some_iff, readLE_eq_some] at hread
  obtain ⟨signature, ⟨hsignature, rfl⟩, hread⟩ := hread
  by_cases hrecord : isRecord data dir
  · have hyes : ¬ field data dir 4 ≠ centralFileHeaderSignature := not_not.mpr hrecord
    rw [if_neg hyes] at hread
    simp only [Option.bind_eq_some_iff, readLE_eq_some] at hread
    obtain ⟨_, _, _, _, _, _, _, _, _, ⟨_, rfl⟩, _, _, _, ⟨hcomment, _⟩, hread⟩ := hread
    by_cases hlong : pathMaxLength ≤ nameLength data dir
    · rw [stepInternal_error (by omega) hrecord hlong] at h
      exact Or.inr (Or.inl ⟨(Option.some.inj h).symm, by omega, hrecord, hlong⟩)
    · have hname : ¬ field data (dir + 28) 2 ≥ pathMaxLength := hlong
      rw [if_neg hname] at hread
      simp only [Option.bind_eq_some_iff, readLE_eq_some, bytesAt_eq_some] at hread
      obtain ⟨_, ⟨hheader, _⟩, _, ⟨_, rfl⟩, _, _, _, ⟨hlocal, _⟩, _⟩ := hread
      have hinside : localHeader data dir + 30 ≤ data.length := by
        unfold localHeader
        omega
      rw [stepInternal_entry hrecord (Nat.not_le.mp hlong) hheader hinside] at h
      exact Or.inr (Or.inr
        ⟨(Option.some.inj h).symm, hrecord, Nat.not_le.mp hlong, hheader, hinside⟩)
  · rw [stepInternal_stop hsignature hrecord] at h
    exact Or.inl ⟨(Option.some.inj h).symm, hsignature, hrecord⟩

section Inside

/-- A callback that always returns. -/
def total (cb : Record → List UInt8 → σ → Bool × σ) : Callback σ :=
  fun r cdata userdata => some (cb r cdata userdata)

variable {cb : Record → List UInt8 → σ → Bool × σ} {userdata : σ}

/-- The directory from here on lies in the file, up to where the walk leaves it: what is no record,
a name that is too long, or an entry the callback stops at. -/
inductive Inside (data : List UInt8) (cb : Record → List UInt8 → σ → Bool × σ) : ℕ → σ → Prop
  | ending {dir : ℕ} {userdata : σ} (hinside : dir + 4 ≤ data.length)
      (hno : ¬ isRecord data dir) : Inside data cb dir userdata
  | longName {dir : ℕ} {userdata : σ} (hinside : dir + 34 ≤ data.length)
      (hrecord : isRecord data dir) (hlong : pathMaxLength ≤ nameLength data dir) :
      Inside data cb dir userdata
  | stopped {dir : ℕ} {userdata : σ} (hrecord : isRecord data dir)
      (hshort : nameLength data dir < pathMaxLength) (hinside : RecordInside data dir)
      (hstop : (cb (recordAt data dir) (cdataAt data dir) userdata).1 = false) :
      Inside data cb dir userdata
  | next {dir : ℕ} {userdata : σ} (hrecord : isRecord data dir)
      (hshort : nameLength data dir < pathMaxLength) (hinside : RecordInside data dir)
      (hgo : (cb (recordAt data dir) (cdataAt data dir) userdata).1 = true)
      (hrest : Inside data cb (dir + (recordAt data dir).payback)
        (cb (recordAt data dir) (cdataAt data dir) userdata).2) : Inside data cb dir userdata

/-- The entry found, its data read and the callback's answer taken. -/
theorem step_entry (cb : Callback σ) (userdata : σ) {state : Transfer}
    (hrecord : isRecord data state.directory)
    (hshort : nameLength data state.directory < pathMaxLength)
    (hinside : RecordInside data state.directory) :
    zipParseFileIterateStep data cb state userdata =
      (cb (recordAt data state.directory) (cdataAt data state.directory) userdata).map fun answer =>
        if answer.1 then
          (1, { state with
            directory := state.directory + (recordAt data state.directory).payback }, answer.2)
        else (0, state, answer.2) := by
  unfold zipParseFileIterateStep
  rw [stepInternal_entry hrecord hshort hinside.record hinside.localHeader]
  simp only [Option.bind_eq_bind, Option.bind_some]
  rw [bytesAt_inside hinside.cdata, Option.bind_some]
  change Option.bind (cb _ (cdataAt data state.directory) userdata) _ = _
  cases cb (recordAt data state.directory) (cdataAt data state.directory) userdata with
  | none => rfl
  | some answer =>
    rw [Option.bind_some, Option.map_some]
    split_ifs <;> rfl

theorem step_stop {cb : Callback σ} {state : Transfer} (hinside : state.directory + 4 ≤ data.length)
    (hno : ¬ isRecord data state.directory) :
    zipParseFileIterateStep data cb state userdata = some (0, state, userdata) := by
  unfold zipParseFileIterateStep
  rw [stepInternal_stop hinside hno]
  rfl

theorem step_error {cb : Callback σ} {state : Transfer}
    (hinside : state.directory + 34 ≤ data.length) (hrecord : isRecord data state.directory)
    (hlong : pathMaxLength ≤ nameLength data state.directory) :
    zipParseFileIterateStep data cb state userdata = some (-1, state, userdata) := by
  unfold zipParseFileIterateStep
  rw [stepInternal_error hinside hrecord hlong]
  rfl

/-- A step that keeps to the file is one of these. -/
theorem step_cases {cb : Callback σ} {state : Transfer} {answer : Int × Transfer × σ}
    (h : zipParseFileIterateStep data cb state userdata = some answer) :
    (state.directory + 4 ≤ data.length ∧ ¬ isRecord data state.directory) ∨
      (state.directory + 34 ≤ data.length ∧ isRecord data state.directory ∧
        pathMaxLength ≤ nameLength data state.directory) ∨
      (isRecord data state.directory ∧ nameLength data state.directory < pathMaxLength ∧
        RecordInside data state.directory) := by
  unfold zipParseFileIterateStep at h
  obtain ⟨r, hinternal, hrest⟩ := Option.bind_eq_some_iff.mp h
  rcases stepInternal_cases hinternal with ⟨-, hstop⟩ | ⟨-, herror⟩ |
      ⟨rfl, hrecord, hshort, hheader, hlocal⟩
  · exact Or.inl hstop
  · exact Or.inr (Or.inl herror)
  · obtain ⟨cdata, hcdata, -⟩ := Option.bind_eq_some_iff.mp hrest
    have hrange := (bytesAt_eq_some.mp hcdata).1
    exact Or.inr (Or.inr ⟨hrecord, hshort, hheader, hlocal, hrange⟩)

end Inside

section Walk

variable {cb : Callback σ} {w : Walk σ} {state' : Transfer} {userdata' : σ} {rounds : ℕ} {ok : Bool}

theorem iterate_step (htype : w.state.type = .iterate) :
    fileArchiveParseFileIterate data cb w =
      (zipParseFileIterateStep data cb w.state w.userdata).map fun answer =>
        (0, { w with
          state := { answer.2.1 with
            type := if answer.1 = -1 then .deinitError
              else if answer.1 ≠ 1 then .deinit else answer.2.1.type }
          userdata := answer.2.2 }) := by
  unfold fileArchiveParseFileIterate
  rw [htype]
  cases zipParseFileIterateStep data cb w.state w.userdata with
  | none => rfl
  | some answer => rfl

theorem walk_deinit (htype : w.state.type = .deinit) :
    fileArchiveWalk data cb (rounds + 1) w = some (.returned w.returnerr) := by
  unfold fileArchiveWalk fileArchiveParseFileIterate
  simp [htype, answer]

theorem walk_deinitError (htype : w.state.type = .deinitError) :
    fileArchiveWalk data cb (rounds + 1) w = some (.returned false) := by
  unfold fileArchiveWalk fileArchiveParseFileIterate
  simp [htype, answer]

theorem walk_step {ret : Int} (htype : w.state.type = .iterate)
    (hstep : zipParseFileIterateStep data cb w.state w.userdata = some (ret, state', userdata')) :
    fileArchiveWalk data cb (rounds + 1) w =
      fileArchiveWalk data cb rounds
        { w with
          state := { state' with
            type := if ret = -1 then .deinitError
              else if ret ≠ 1 then .deinit else state'.type }
          userdata := userdata' } := by
  rw [fileArchiveWalk, iterate_step htype, hstep]
  rfl

end Walk

section Sound

variable {cb : Record → List UInt8 → σ → Bool × σ} {userdata : σ} {w : Walk σ} {rounds : ℕ}
variable {ok : Bool}

theorem walk_of_inside {dir : ℕ} (h : Inside data cb dir userdata) (hdir : w.state.directory = dir)
    (huser : w.userdata = userdata) (htype : w.state.type = .iterate) :
    ∃ rounds ok, fileArchiveWalk data (total cb) rounds w = some (.returned ok) := by
  induction h generalizing w with
  | ending hinside hno =>
    subst hdir
    refine ⟨2, w.returnerr, ?_⟩
    rw [walk_step htype (step_stop hinside hno)]
    exact walk_deinit rfl
  | longName hinside hrecord hlong =>
    subst hdir
    refine ⟨2, false, ?_⟩
    rw [walk_step htype (step_error hinside hrecord hlong)]
    exact walk_deinitError rfl
  | stopped hrecord hshort hinside hstop =>
    subst hdir huser
    refine ⟨2, w.returnerr, ?_⟩
    have hstep := step_entry (total cb) w.userdata hrecord hshort hinside
    simp only [total, Option.map_some, hstop, Bool.false_eq_true, if_false] at hstep
    rw [walk_step htype hstep]
    exact walk_deinit rfl
  | next hrecord hshort hinside hgo hrest ih =>
    subst hdir huser
    have hstep := step_entry (total cb) w.userdata hrecord hshort hinside
    simp only [total, Option.map_some, hgo, if_true] at hstep
    obtain ⟨rounds, ok, hwalk⟩ := ih (w := { w with
      state := { w.state with
        directory := w.state.directory + (recordAt data w.state.directory).payback }
      userdata := (cb (recordAt data w.state.directory) (cdataAt data w.state.directory)
        w.userdata).2 }) rfl rfl htype
    refine ⟨rounds + 1, ok, ?_⟩
    rw [walk_step htype hstep]
    exact hwalk

/-- A walk that returns has stayed inside, its induction being on the rounds. -/
theorem inside_of_walk (htype : w.state.type = .iterate)
    (h : fileArchiveWalk data (total cb) rounds w = some (.returned ok)) :
    Inside data cb w.state.directory w.userdata := by
  induction rounds generalizing w with
  | zero => exact nomatch h
  | succ rounds ih =>
    cases hstep : zipParseFileIterateStep data (total cb) w.state w.userdata with
    | none =>
      rw [fileArchiveWalk, iterate_step htype, hstep] at h
      exact WalkEnd.noConfusion (Option.some.inj h)
    | some answer =>
      rcases step_cases hstep with ⟨hinside, hno⟩ | ⟨hinside, hrecord, hlong⟩ |
          ⟨hrecord, hshort, hinside⟩
      · exact Inside.ending hinside hno
      · exact Inside.longName hinside hrecord hlong
      · have hentry := step_entry (total cb) w.userdata hrecord hshort hinside
        cases hgo : (cb (recordAt data w.state.directory) (cdataAt data w.state.directory)
            w.userdata).1 with
        | false => exact Inside.stopped hrecord hshort hinside hgo
        | true =>
          simp only [total, Option.map_some, hgo, if_true] at hentry
          rw [walk_step htype hentry] at h
          have hrest := ih (w := { w with
            state := { w.state with
              directory := w.state.directory + (recordAt data w.state.directory).payback }
            userdata := (cb (recordAt data w.state.directory)
              (cdataAt data w.state.directory) w.userdata).2 }) htype h
          exact Inside.next hrecord hshort hinside hgo hrest

end Sound

section EndRecord

variable {f footer : ℕ}

/-- The size the archive code works with. -/
def archiveSize (data : List UInt8) : ℕ := (asInt32 data.length).toNat

/-- An end record whose comment reaches to the end; the search looks at none before offset 23. -/
structure IsEndRecord (data : List UInt8) (f : ℕ) : Prop where
  front : 22 < f
  signature : field data f 4 = endOfCentralDirSignature
  comment : f + 22 + field data (f + 20) 2 = archiveSize data

/-- The last one, which is the one that is found. -/
def EndRecord (data : List UInt8) (f : ℕ) : Prop :=
  IsEndRecord data f ∧ ∀ f', f < f' → ¬ IsEndRecord data f'

theorem archiveSize_le (data : List UInt8) : archiveSize data ≤ data.length := by
  unfold archiveSize asInt32
  omega

theorem findFooter_spec (data : List UInt8) (footer : ℕ) (hinside : footer + 22 ≤ data.length) :
    (findFooter data (archiveSize data) footer = some none ∧ ∀ f ≤ footer, ¬ IsEndRecord data f) ∨
      ∃ f ≤ footer, findFooter data (archiveSize data) footer = some (some f) ∧
        IsEndRecord data f ∧ ∀ f', f < f' → f' ≤ footer → ¬ IsEndRecord data f' := by
  induction footer with
  | zero =>
    left
    refine ⟨rfl, ?_⟩
    intro f hf hend
    have hfront := hend.front
    omega
  | succ footer ih =>
    have hbelow := ih (by omega)
    by_cases hfront : footer + 1 ≤ 22
    · left
      refine ⟨if_pos hfront, ?_⟩
      intro f hf hend
      have hfront' := hend.front
      omega
    · have hread : findFooter data (archiveSize data) (footer + 1) =
          if field data (footer + 1) 4 = endOfCentralDirSignature then
            if footer + 1 + 22 + field data (footer + 1 + 20) 2 = archiveSize data then
              some (some (footer + 1))
            else findFooter data (archiveSize data) footer
          else findFooter data (archiveSize data) footer := by
        rw [findFooter, if_neg hfront, readLE_inside (by omega), readLE_inside (by omega)]
        rfl
      by_cases hend : IsEndRecord data (footer + 1)
      · right
        refine ⟨footer + 1, le_refl _, ?_, hend, ?_⟩
        · rw [hread, if_pos hend.signature, if_pos hend.comment]
        · intro f' hlt hle
          omega
      · have hnext : findFooter data (archiveSize data) (footer + 1) =
            findFooter data (archiveSize data) footer := by
          rw [hread]
          split_ifs with hsignature hcomment
          · exact absurd ⟨by omega, hsignature, hcomment⟩ hend
          · rfl
          · rfl
        rw [hnext]
        rcases hbelow with ⟨hnone, hno⟩ | ⟨f, hf, hsome, hfound, hlast⟩
        · left
          refine ⟨hnone, ?_⟩
          intro f hf
          rcases Nat.of_le_succ hf with hf | rfl
          · exact hno f hf
          · exact hend
        · right
          refine ⟨f, by omega, hsome, hfound, ?_⟩
          intro f' hlt hle
          rcases Nat.of_le_succ hle with hle | rfl
          · exact hlast f' hlt hle
          · exact hend

theorem not_isEndRecord (h : archiveSize data < f + 22) : ¬ IsEndRecord data f := by
  intro hend
  have hcomment := hend.comment
  omega

theorem init_found (h : EndRecord data f) (state : Transfer) :
    fileArchiveParseFileInit data state = some
      (0, { state with
        handle := true
        archiveSize := asInt32 data.length
        footer := f
        directory := field data (f + 16) 4 }) := by
  have hfront := h.1.front
  have hcomment := h.1.comment
  have hle := archiveSize_le data
  have hsize : ¬ asInt32 data.length < 22 := by
    unfold archiveSize at hcomment
    omega
  have hsearch : findFooter data (archiveSize data) (archiveSize data - 22) = some (some f) := by
    rcases findFooter_spec data (archiveSize data - 22) (by omega) with
      ⟨-, hno⟩ | ⟨f', hf', hsome, hfound, hlast⟩
    · exact absurd h.1 (hno f (by omega))
    · rcases Nat.lt_trichotomy f f' with hlt | rfl | hlt
      · exact absurd hfound (h.2 f' hlt)
      · exact hsome
      · exact absurd h.1 (hlast f hlt (by omega))
  unfold fileArchiveParseFileInit zipParseFileInit
  rw [if_neg hsize]
  change Option.bind (findFooter data (archiveSize data) (archiveSize data - 22)) _ = _
  rw [hsearch, Option.bind_some]
  change Option.bind (readLE data (f + 16) 4) _ = _
  rw [readLE_inside (by omega)]
  rfl

theorem init_missing (h : ∀ f, ¬ IsEndRecord data f) (state : Transfer) :
    ∃ state', fileArchiveParseFileInit data state = some (-1, state') := by
  have hle := archiveSize_le data
  unfold fileArchiveParseFileInit zipParseFileInit
  split_ifs with hsize
  · exact ⟨_, rfl⟩
  · have hsearch : findFooter data (archiveSize data) (archiveSize data - 22) = some none := by
      have hlarge : 22 ≤ archiveSize data := by
        have hnot : ¬ asInt32 data.length < 22 := hsize
        unfold archiveSize
        omega
      rcases findFooter_spec data (archiveSize data - 22) (by omega) with
        ⟨hnone, -⟩ | ⟨f, -, -, hfound, -⟩
      · exact hnone
      · exact absurd hfound (h f)
    refine ⟨{ state with
      handle := true, archiveSize := asInt32 data.length, footer := 0, directory := 0 }, ?_⟩
    change Option.bind (findFooter data (archiveSize data) (archiveSize data - 22)) _ = _
    rw [hsearch]
    rfl

theorem endRecord_or_missing (data : List UInt8) :
    (∃ f, EndRecord data f) ∨ ∀ f, ¬ IsEndRecord data f := by
  by_cases hsmall : archiveSize data < 22
  · right
    intro f
    exact not_isEndRecord (by omega)
  · have hle := archiveSize_le data
    rcases findFooter_spec data (archiveSize data - 22) (by omega) with
      ⟨-, hno⟩ | ⟨f, -, -, hfound, hlast⟩
    · right
      intro f
      by_cases hf : f ≤ archiveSize data - 22
      · exact hno f hf
      · exact not_isEndRecord (by omega)
    · left
      refine ⟨f, hfound, ?_⟩
      intro f' hlt
      by_cases hf : f' ≤ archiveSize data - 22
      · exact hlast f' hlt hf
      · exact not_isEndRecord (by omega)

variable {cb : Callback σ} {userdata : σ} {rounds : ℕ}

/-- The walk as it stands behind a successful init. -/
def opened (data : List UInt8) (f : ℕ) (userdata : σ) : Walk σ where
  state :=
    { type := .iterate, archiveSize := asInt32 data.length, handle := true, footer := f,
      directory := field data (f + 16) 4 }
  returnerr := true
  userdata := userdata

theorem iterate_found (h : EndRecord data f) :
    fileArchiveParseFileIterate data cb (walkStart userdata) =
      some (0, opened data f userdata) := by
  unfold fileArchiveParseFileIterate
  change Option.bind (fileArchiveParseFileInit data (walkStart userdata).state) _ = _
  rw [init_found h]
  rfl

theorem walk_missing (h : ∀ f, ¬ IsEndRecord data f) :
    fileArchiveWalk data cb (rounds + 1) (walkStart userdata) = some (.returned true) := by
  obtain ⟨state', hinit⟩ := init_missing h (walkStart userdata).state
  have hiterate : fileArchiveParseFileIterate data cb (walkStart userdata) =
      some (-1, { walkStart userdata with state := { state' with type := .deinitError } }) := by
    unfold fileArchiveParseFileIterate
    change Option.bind (fileArchiveParseFileInit data (walkStart userdata).state) _ = _
    rw [hinit]
    rfl
  rw [fileArchiveWalk, hiterate]
  rfl

theorem walk_found (h : EndRecord data f) :
    fileArchiveWalk data cb (rounds + 1) (walkStart userdata) =
      fileArchiveWalk data cb rounds (opened data f userdata) := by
  rw [fileArchiveWalk, iterate_found h]
  rfl

end EndRecord

section Safety

variable (data : List UInt8) (cb : Record → List UInt8 → σ → Bool × σ) (userdata : σ)

/-- The last end record is there and its directory lies in the file. -/
def Intact : Prop :=
  ∃ f, EndRecord data f ∧ Inside data cb (field data (f + 16) 4) userdata

/-- The walk ends, all its accesses are inside the file, and it reports an archive that is not
intact. -/
def WalkSafe : Prop :=
  ∃ rounds ok, fileArchiveWalk data (total cb) rounds (walkStart userdata) = some (.returned ok) ∧
    (¬ Intact data cb userdata → ok = false)

/-- No corrupt archive is reported: without an end record the walk succeeds, and a directory that
leaves the file takes the walk with it. -/
theorem walkSafe_iff : WalkSafe data cb userdata ↔ Intact data cb userdata := by
  constructor
  · rintro ⟨rounds, ok, hwalk, hcorrupt⟩
    cases rounds with
    | zero => exact nomatch hwalk
    | succ rounds =>
      rcases endRecord_or_missing data with ⟨f, hf⟩ | hmissing
      · rw [walk_found hf] at hwalk
        exact ⟨f, hf, inside_of_walk (w := opened data f userdata) rfl hwalk⟩
      · have hnot : ¬ Intact data cb userdata := fun h => hmissing h.choose h.choose_spec.1.1
        rw [walk_missing hmissing, hcorrupt hnot] at hwalk
        exact nomatch hwalk
  · rintro ⟨f, hf, hinside⟩
    obtain ⟨rounds, ok, hwalk⟩ :=
      walk_of_inside (w := opened data f userdata) hinside rfl rfl rfl
    refine ⟨rounds + 1, ok, ?_, fun hnot => absurd ⟨f, hf, hinside⟩ hnot⟩
    rw [walk_found hf]
    exact hwalk

/-- An end record behind 23 other bytes, its directory at the last offset there is. -/
def farDirectory : List UInt8 :=
  List.replicate 23 0 ++ [80, 75, 5, 6] ++ List.replicate 12 0 ++ [255, 255, 255, 255, 0, 0]

theorem walk_leaves_file :
    ¬ ∀ (data : List UInt8) (cb : Record → List UInt8 → Unit → Bool × Unit),
      WalkSafe data cb () := by
  intro h
  obtain ⟨rounds, ok, hwalk, -⟩ := h farDirectory fun _ _ _ => (true, ())
  have hlost : ∀ rounds, fileArchiveWalk farDirectory (total fun _ _ _ => (true, ())) (rounds + 2)
      (walkStart ()) = some .lost := by
    intro rounds
    rfl
  match rounds, hwalk with
  | 0, hwalk => exact nomatch hwalk
  | 1, hwalk => exact nomatch hwalk
  | rounds + 2, hwalk =>
    rw [hlost] at hwalk
    exact nomatch hwalk

end Safety

end RetroArch.File.ArchiveWalk
