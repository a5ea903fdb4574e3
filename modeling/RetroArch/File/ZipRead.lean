/- Which entry of a well-formed archive a lookup by name delivers. -/

import Mathlib.Data.List.Nodup
import RetroArch.File.ArchiveWalk

set_option maxRecDepth 10000

namespace RetroArch.File.ZipRead

open Config Archive ArchiveWalk

variable {data : List UInt8} {dir stop : ℕ} {unpack : Unpack} {needle : Str} {rounds : ℕ}

structure Entry where
  name : Str
  deflated : Bool
  cdata : List UInt8
  content : List UInt8
  deriving DecidableEq, Repr

/-- The records of the entries, one behind the other. -/
inductive Directory (data : List UInt8) : ℕ → List Entry → ℕ → Prop
  | nil (dir : ℕ) : Directory data dir [] dir
  | cons {dir stop : ℕ} {e : Entry} {es : List Entry} (hrecord : isRecord data dir)
      (hinside : RecordInside data dir) (hname : (recordAt data dir).filename = e.name)
      (hmode : (recordAt data dir).cmode = if e.deflated then 8 else 0)
      (hsize : (recordAt data dir).size = e.content.length) (hcdata : cdataAt data dir = e.cdata)
      (hrest : Directory data (dir + (recordAt data dir).payback) es stop) :
      Directory data dir (e :: es) stop

/-- An end record wherever it stands. -/
def EndAt (data : List UInt8) (f : ℕ) : Prop :=
  field data f 4 = endOfCentralDirSignature ∧ f + 22 + field data (f + 20) 2 = data.length

/-- A zip archive with these entries, none of whose sizes or offsets needs 64 bits. -/
structure WellFormed (data : List UInt8) (es : List Entry) : Prop where
  fits : data.length < 2 ^ 32
  directory : ∃ f stop, EndAt data f ∧ (∀ f', f < f' → ¬ EndAt data f') ∧
    Directory data (field data (f + 16) 4) es stop ∧ stop ≤ f ∧ ¬ isRecord data stop
  distinct : (es.map Entry.name).Nodup
  names : ∀ e ∈ es, 0 ∉ e.name
  stored : ∀ e ∈ es, e.deflated = false → e.cdata = e.content
  sizes : ∀ e ∈ es, e.content.length < 2 ^ 32 - 1

/-- Inflating inverts deflating. -/
def Inverts (unpack : Unpack) (es : List Entry) : Prop :=
  ∀ e ∈ es, e.deflated = true → unpack e.cdata e.content.length = some e.content

theorem Directory.stop_ge {es : List Entry} (h : Directory data dir es stop) (hne : es ≠ []) :
    dir + 46 ≤ stop := by
  induction h with
  | nil => exact absurd rfl hne
  | @cons dir stop e es hrecord hinside hname hmode hsize hcdata hrest ih =>
    have hpayback : 46 ≤ (recordAt data dir).payback := by
      simp only [recordAt]
      omega
    cases es with
    | nil =>
      cases hrest
      omega
    | cons e' es =>
      have hle := ih (List.cons_ne_nil e' es)
      omega

section Outcome

/-- The entry is looked at and passed by. -/
def passes (needle : Str) (e : Entry) : Bool :=
  decide (e.name.length < pathMaxLength) && decide (e.name ≠ []) &&
    (isDirectoryName e.name || !decide (needle <:+: e.name))

/-- The entry that the lookup comes to a decision at. -/
def firstHit (needle : Str) (es : List Entry) : Option Entry := es.find? fun e => !passes needle e

def outcome (unpack : Unpack) (needle : Str) (es : List Entry) : ReadEnd :=
  match firstHit needle es with
  | none => .returned (-1) none
  | some h =>
    if pathMaxLength ≤ h.name.length then .returned (-1) none
    else if h.name = [] then .lost
    else match unpack h.cdata h.content.length with
      | none => .lost
      | some b => .returned (asInt32 h.content.length) (some b)

/-- The walk at a place of the directory, with nothing found so far. -/
structure Searching (needle : Str) (dir : ℕ) (w : Walk DecompState) : Prop where
  type : w.state.type = .iterate
  directory : w.state.directory = dir
  returnerr : w.returnerr = true
  userdata : w.userdata = { needle := needle, buf := none, size := 0, found := false }

variable {w : Walk DecompState} {e : Entry} {es : List Entry}

theorem loop_step {ret : Int} {state' : Transfer} {userdata' : DecompState}
    (htype : w.state.type = .iterate) (herr : w.returnerr = true)
    (hfound : userdata'.found = false)
    (hstep : zipParseFileIterateStep data (zipFileDecompressed unpack) w.state w.userdata =
      some (ret, state', userdata')) :
    zipFileReadLoop unpack data (rounds + 1) w =
      zipFileReadLoop unpack data rounds
        { w with
          state := { state' with
            type := if ret = -1 then .deinitError
              else if ret ≠ 1 then .deinit else state'.type }
          userdata := userdata' } := by
  rw [zipFileReadLoop, iterate_step htype, hstep]
  simp [herr, hfound]

theorem loop_found {ret : Int} {state' : Transfer} {userdata' : DecompState}
    (htype : w.state.type = .iterate) (hfound : userdata'.found = true)
    (hstep : zipParseFileIterateStep data (zipFileDecompressed unpack) w.state w.userdata =
      some (ret, state', userdata')) :
    zipFileReadLoop unpack data (rounds + 1) w =
      some (.returned (asInt32 userdata'.size) userdata'.buf) := by
  rw [zipFileReadLoop, iterate_step htype, hstep]
  simp [hfound, zipFileReadResult]

theorem loop_lost (htype : w.state.type = .iterate)
    (hstep : zipParseFileIterateStep data (zipFileDecompressed unpack) w.state w.userdata = none) :
    zipFileReadLoop unpack data (rounds + 1) w = some .lost := by
  rw [zipFileReadLoop, iterate_step htype, hstep]
  rfl

theorem loop_closed (htype : w.state.type = .deinit ∨ w.state.type = .deinitError)
    (hfound : w.userdata.found = false) :
    zipFileReadLoop unpack data (rounds + 1) w = some (.returned (-1) w.userdata.buf) := by
  rw [zipFileReadLoop]
  rcases htype with htype | htype <;>
    simp [fileArchiveParseFileIterate, htype, answer, zipFileReadResult, hfound]

theorem cstr_of_not_mem {name : Str} (h : 0 ∉ name) : cstr name = name := by
  unfold cstr
  induction name with
  | nil => rfl
  | cons b name ih =>
    rw [List.mem_cons, not_or] at h
    have hb : decide (b ≠ 0) = true := decide_eq_true (Ne.symm h.1)
    rw [List.takeWhile_cons, hb, if_pos rfl, ih h.2]

theorem decompressed_eq {r : Record} {userdata : DecompState} (cdata : List UInt8)
    (hname : r.filename = e.name) (hnul : 0 ∉ e.name) :
    zipFileDecompressed unpack r cdata userdata =
      if e.name = [] then none
      else if isDirectoryName e.name then some (true, userdata)
      else if userdata.needle <:+: e.name then
        (unpack cdata r.size).map fun data =>
          (true, { userdata with found := true, buf := some data, size := r.size })
      else some (true, userdata) := by
  simp only [zipFileDecompressed, hname, cstr_of_not_mem hnul]

theorem passes_iff : passes needle e = true ↔
    e.name.length < pathMaxLength ∧ e.name ≠ [] ∧
      (isDirectoryName e.name = true ∨ ¬ needle <:+: e.name) := by
  simp [passes, and_assoc]

/-- From any place of the directory the loop ends with the outcome for the entries from there
on. -/
theorem loop_directory (h : Directory data dir es stop) (hstop : ¬ isRecord data stop)
    (hinside : stop + 4 ≤ data.length) (hnames : ∀ e ∈ es, 0 ∉ e.name)
    (hw : Searching needle dir w) :
    ∃ rounds, zipFileReadLoop unpack data rounds w = some (outcome unpack needle es) := by
  induction h generalizing w with
  | nil dir =>
    refine ⟨2, ?_⟩
    have hdir := hw.directory
    subst hdir
    rw [loop_step hw.type hw.returnerr (by rw [hw.userdata]) (step_stop hinside hstop),
      loop_closed (Or.inl rfl) (by rw [hw.userdata]), hw.userdata]
    rfl
  | @cons dir stop e es hrecord hentry hname hmode hsize hcdata hrest ih =>
    have hdir := hw.directory
    subst hdir
    have hnul : 0 ∉ e.name := hnames e List.mem_cons_self
    have hlength := hentry.nameLength_eq hname
    by_cases hshort : e.name.length < pathMaxLength
    · have hstep := step_entry (zipFileDecompressed unpack) w.userdata hrecord
        (by rw [hlength]; exact hshort) hentry
      rw [decompressed_eq _ hname hnul, hcdata, hsize, hw.userdata] at hstep
      have hnot : ¬ pathMaxLength ≤ e.name.length := Nat.not_le.mpr hshort
      by_cases hempty : e.name = []
      · refine ⟨1, ?_⟩
        rw [if_pos hempty] at hstep
        have hhit : firstHit needle (e :: es) = some e := by
          simp [firstHit, passes, hempty]
        rw [loop_lost hw.type (by rw [hw.userdata]; exact hstep), outcome, hhit]
        dsimp only
        rw [if_neg hnot, if_pos hempty]
      · rw [if_neg hempty] at hstep
        by_cases hpass : isDirectoryName e.name = true ∨ ¬ needle <:+: e.name
        · have hcontinue : zipParseFileIterateStep data (zipFileDecompressed unpack) w.state
              w.userdata = some (1, { w.state with
                directory := w.state.directory + (recordAt data w.state.directory).payback },
                { needle := needle, buf := none, size := 0, found := false }) := by
            rw [hw.userdata, hstep]
            rcases hpass with hdirectory | hneedle
            · simp [hdirectory]
            · simp [hneedle]
          have hpasses : passes needle e = true := passes_iff.mpr ⟨hshort, hempty, hpass⟩
          obtain ⟨rounds, hrounds⟩ := ih hstop hinside
            (fun e' he' => hnames e' (List.mem_cons_of_mem e he'))
            (w := { w with
              state := { w.state with
                directory := w.state.directory + (recordAt data w.state.directory).payback }
              userdata := { needle := needle, buf := none, size := 0, found := false } })
            ⟨hw.type, rfl, hw.returnerr, rfl⟩
          refine ⟨rounds + 1, ?_⟩
          have houtcome : outcome unpack needle (e :: es) = outcome unpack needle es := by
            unfold outcome firstHit
            rw [List.find?_cons, hpasses]
            rfl
          rw [loop_step hw.type hw.returnerr rfl hcontinue, houtcome]
          exact hrounds
        · rw [not_or, not_not] at hpass
          have hpasses : passes needle e = false := by
            rw [Bool.eq_false_iff]
            intro hyes
            exact (passes_iff.mp hyes).2.2.elim hpass.1 fun hnot => hnot hpass.2
          have hhit : firstHit needle (e :: es) = some e := by
            unfold firstHit
            rw [List.find?_cons, hpasses]
            rfl
          refine ⟨1, ?_⟩
          rw [if_neg hpass.1, if_pos hpass.2] at hstep
          rw [outcome, hhit]
          simp only [hnot, if_false, hempty]
          cases hunpack : unpack e.cdata e.content.length with
          | none =>
            rw [hunpack] at hstep
            rw [loop_lost hw.type (by rw [hw.userdata]; exact hstep)]
          | some b =>
            rw [hunpack] at hstep
            simp only [Option.map_some, if_true] at hstep
            rw [loop_found hw.type rfl (by rw [hw.userdata]; exact hstep)]
    · have hlong : pathMaxLength ≤ e.name.length := Nat.not_lt.mp hshort
      have hstep : zipParseFileIterateStep data (zipFileDecompressed unpack) w.state w.userdata =
          some (-1, w.state, w.userdata) :=
        step_error (by have hrange := hentry.record; omega) hrecord (by rw [hlength]; exact hlong)
      have hhit : firstHit needle (e :: es) = some e := by
        simp [firstHit, passes, hshort]
      refine ⟨2, ?_⟩
      rw [loop_step hw.type hw.returnerr (by rw [hw.userdata]) hstep,
        loop_closed (Or.inr rfl) (by rw [hw.userdata]), outcome, hhit]
      simp [hlong, hw.userdata]

end Outcome

section Result

variable {es : List Entry} {r r' : ReadEnd}

theorem loop_mono {w : Walk DecompState} (h : zipFileReadLoop unpack data rounds w = some r) :
    zipFileReadLoop unpack data (rounds + 1) w = some r := by
  induction rounds generalizing w with
  | zero => exact nomatch h
  | succ rounds ih =>
    rw [zipFileReadLoop] at h ⊢
    cases hiterate : fileArchiveParseFileIterate data (zipFileDecompressed unpack) w with
    | none =>
      rw [hiterate] at h
      exact h
    | some answer =>
      rw [hiterate] at h
      obtain ⟨ret, w'⟩ := answer
      dsimp only at h ⊢
      split_ifs at h ⊢ with hdone
      · exact h
      · exact ih h

theorem read_unique (h : zipFileRead unpack data needle rounds = some r) {rounds' : ℕ}
    (h' : zipFileRead unpack data needle rounds' = some r') : r = r' := by
  have hmore : ∀ {n r} k, zipFileRead unpack data needle n = some r →
      zipFileRead unpack data needle (n + k) = some r := by
    intro n r k hn
    induction k with
    | zero => exact hn
    | succ k ih => exact loop_mono ih
  have hsame := (hmore rounds' h).symm.trans (Nat.add_comm rounds rounds' ▸ hmore rounds h')
  exact Option.some.inj hsame

theorem archiveSize_of_lt (h : data.length < 2 ^ 31) : archiveSize data = data.length := by
  unfold archiveSize asInt32
  omega

theorem archiveSize_of_ge (hge : 2 ^ 31 ≤ data.length) (hlt : data.length < 2 ^ 32) :
    archiveSize data = 0 := by
  unfold archiveSize asInt32
  omega

variable {f : ℕ}

/-- What the lookup starts from. -/
def searchStart (needle : Str) : DecompState :=
  { needle := needle, buf := none, size := 0, found := false }

/-- Where the walk over a well-formed archive starts: at its directory, or nowhere, as it does from
two gigabytes on. -/
theorem WellFormed.opens (h : WellFormed data es) :
    (data.length < 2 ^ 31 ∧ ∃ f stop, EndRecord data f ∧
      Directory data (field data (f + 16) 4) es stop ∧ ¬ isRecord data stop ∧
        stop + 4 ≤ data.length) ∨
    ((∀ f, ¬ IsEndRecord data f) ∧ (data.length < 2 ^ 31 → es = [])) := by
  obtain ⟨f, stop, hend, hlast, hdir, hstop, hno⟩ := h.directory
  have hrange := hend.2
  rcases Nat.lt_or_ge data.length (2 ^ 31) with hsmall | hlarge
  · have hsize := archiveSize_of_lt hsmall
    by_cases hfront : 22 < f
    · left
      refine ⟨hsmall, f, stop, ⟨⟨hfront, hend.1, by rw [hsize]; exact hrange⟩, ?_⟩, hdir, hno,
        by omega⟩
      intro f' hlt hrecord'
      exact hlast f' hlt ⟨hrecord'.signature, by rw [← hsize]; exact hrecord'.comment⟩
    · right
      constructor
      · intro f' hrecord'
        have hfront' := hrecord'.front
        exact hlast f' (by omega)
          ⟨hrecord'.signature, by rw [← hsize]; exact hrecord'.comment⟩
      · intro _
        by_contra hne
        have hge := hdir.stop_ge hne
        omega
  · have hsize := archiveSize_of_ge hlarge h.fits
    right
    constructor
    · intro f' hrecord'
      have hcomment := hrecord'.comment
      omega
    · intro hsmall
      omega

theorem iterate_missing {σ : Type} (h : ∀ f, ¬ IsEndRecord data f) (cb : Callback σ)
    (userdata : σ) :
    ∃ w : Walk σ, w.returnerr = true ∧ w.userdata = userdata ∧
      fileArchiveParseFileIterate data cb (walkStart userdata) = some (-1, w) := by
  obtain ⟨state', hinit⟩ := init_missing h (walkStart userdata).state
  refine ⟨{ walkStart userdata with state := { state' with type := .deinitError } }, rfl, rfl, ?_⟩
  unfold fileArchiveParseFileIterate
  change Option.bind (fileArchiveParseFileInit data (walkStart userdata).state) _ = _
  rw [hinit]
  rfl

theorem read_missing (h : ∀ f, ¬ IsEndRecord data f) :
    zipFileRead unpack data needle 1 = some (.returned (-1) none) := by
  obtain ⟨w, -, huser, hiterate⟩ :=
    iterate_missing h (zipFileDecompressed unpack) (searchStart needle)
  have hstart : zipFileRead unpack data needle 1 =
      zipFileReadLoop unpack data 1 (walkStart (searchStart needle)) := rfl
  rw [hstart, zipFileReadLoop, hiterate]
  simp [zipFileReadResult, huser, searchStart]

theorem read_found (h : EndRecord data f) :
    zipFileRead unpack data needle (rounds + 1) =
      zipFileReadLoop unpack data rounds (opened data f (searchStart needle)) := by
  have hstart : zipFileRead unpack data needle (rounds + 1) =
      zipFileReadLoop unpack data (rounds + 1) (walkStart (searchStart needle)) := rfl
  rw [hstart, zipFileReadLoop, iterate_found h]
  rfl

/-- The result for a well-formed archive: from two gigabytes on nothing is found in it. -/
def zipResult (unpack : Unpack) (data : List UInt8) (needle : Str) (es : List Entry) : ReadEnd :=
  if data.length < 2 ^ 31 then outcome unpack needle es else .returned (-1) none

theorem zipFileRead_eq (h : WellFormed data es) (unpack : Unpack) (needle : Str) :
    ∃ rounds, zipFileRead unpack data needle rounds = some (zipResult unpack data needle es) := by
  rw [zipResult]
  rcases h.opens with ⟨hsmall, f, stop, hrecord, hdir, hno, hinside⟩ | ⟨hmissing, hempty⟩
  · have hloop : ∃ rounds, zipFileReadLoop unpack data rounds
        (opened data f (searchStart needle)) = some (outcome unpack needle es) :=
      loop_directory hdir hno hinside h.names ⟨rfl, rfl, rfl, rfl⟩
    obtain ⟨rounds, hrounds⟩ := hloop
    exact ⟨rounds + 1, by rw [read_found hrecord, hrounds, if_pos hsmall]⟩
  · refine ⟨1, ?_⟩
    rw [read_missing hmissing]
    split_ifs with hsmall
    · rw [hempty hsmall]
      rfl
    · rfl

theorem read_iff (h : WellFormed data es) (unpack : Unpack) (needle : Str) (r : ReadEnd) :
    (∃ rounds, zipFileRead unpack data needle rounds = some r) ↔
      zipResult unpack data needle es = r := by
  obtain ⟨rounds, hrounds⟩ := zipFileRead_eq h unpack needle
  constructor
  · rintro ⟨rounds', hr⟩
    exact read_unique hrounds hr
  · rintro rfl
    exact ⟨rounds, hrounds⟩

end Result

section Lookup

variable {es : List Entry}

/-- Reading at this entry delivers the content of that one. -/
def SameContent (unpack : Unpack) (h e : Entry) : Prop :=
  h.content.length = e.content.length ∧ e.content.length < 2 ^ 31 ∧
    if h.deflated then h.content = e.content
    else unpack h.content h.content.length = some e.content

theorem asInt32_eq_iff (m n : ℕ) (hm : m < 2 ^ 32) :
    asInt32 m = (n : Int) ↔ m = n ∧ n < 2 ^ 31 := by
  unfold asInt32
  omega

theorem outcome_content_iff (hwf : WellFormed data es) (hinv : Inverts unpack es) (e : Entry) :
    outcome unpack needle es = .returned e.content.length (some e.content) ↔
      ∃ h, firstHit needle es = some h ∧ h.name.length < pathMaxLength ∧ h.name ≠ [] ∧
        SameContent unpack h e := by
  unfold outcome
  cases hhit : firstHit needle es with
  | none =>
    simp
  | some h =>
    have hmem : h ∈ es := List.mem_of_find?_eq_some hhit
    have hsize := hwf.sizes h hmem
    simp only [Option.some.injEq, exists_eq_left']
    by_cases hlong : pathMaxLength ≤ h.name.length
    · simp only [if_pos hlong, Nat.not_lt.mpr hlong, false_and, ReadEnd.returned.injEq,
        reduceCtorEq, and_false]
    · rw [if_neg hlong]
      by_cases hempty : h.name = []
      · rw [if_pos hempty]
        simp [hempty]
      · rw [if_neg hempty]
        have hrange := asInt32_eq_iff h.content.length e.content.length (by omega)
        cases hmode : h.deflated with
        | true =>
          rw [hinv h hmem hmode]
          simp only [ReadEnd.returned.injEq, hrange, Option.some.injEq, SameContent, hmode,
            if_true, Nat.not_le.mp hlong, hempty, ne_eq, not_false_eq_true, true_and, and_assoc]
        | false =>
          rw [hwf.stored h hmem hmode]
          cases hunpack : unpack h.content h.content.length with
          | none =>
            simp [SameContent, hmode, hunpack]
          | some b =>
            simp only [ReadEnd.returned.injEq, hrange, Option.some.injEq, SameContent, hmode,
              Bool.false_eq_true, if_false, hunpack, Nat.not_le.mp hlong, hempty, ne_eq,
              not_false_eq_true, true_and, and_assoc]

theorem outcome_failure_iff (unpack : Unpack) (hwf : WellFormed data es) :
    (∃ buf, outcome unpack needle es = .returned (-1) buf) ↔
      ∀ h, firstHit needle es = some h → pathMaxLength ≤ h.name.length := by
  unfold outcome
  cases hhit : firstHit needle es with
  | none => simp
  | some h =>
    have hmem : h ∈ es := List.mem_of_find?_eq_some hhit
    have hsize := hwf.sizes h hmem
    simp only [Option.some.injEq, forall_eq']
    by_cases hlong : pathMaxLength ≤ h.name.length
    · simp only [hlong, iff_true]
      exact ⟨none, rfl⟩
    · simp only [hlong, iff_false]
      rintro ⟨buf, heq⟩
      by_cases hempty : h.name = []
      · rw [if_pos hempty] at heq
        exact nomatch heq
      rw [if_neg hempty] at heq
      cases hunpack : unpack h.cdata h.content.length with
      | none =>
        rw [hunpack] at heq
        exact nomatch heq
      | some b =>
        rw [hunpack] at heq
        have hvalue : asInt32 h.content.length = -1 := (ReadEnd.returned.inj heq).1
        unfold asInt32 at hvalue
        omega

/-- A lookup by name delivers that entry's content exactly when the first entry it does not pass
by, a file whose name contains the needle, has it; and it fails for a name that is not there
exactly when it passes by all entries, or gives up at a name that is too long. -/
theorem zipFileRead_iff (hwf : WellFormed data es) (hinv : Inverts unpack es) (needle : Str) :
    (∀ e ∈ es, e.name = needle → isDirectoryName needle = false →
      ((∃ rounds, zipFileRead unpack data needle rounds =
          some (.returned e.content.length (some e.content))) ↔
        data.length < 2 ^ 31 ∧ ∃ h, firstHit needle es = some h ∧
          h.name.length < pathMaxLength ∧ h.name ≠ [] ∧ SameContent unpack h e)) ∧
      ((∀ e ∈ es, e.name ≠ needle) →
        ((∃ rounds buf, zipFileRead unpack data needle rounds = some (.returned (-1) buf)) ↔
          (data.length < 2 ^ 31 →
            ∀ h, firstHit needle es = some h → pathMaxLength ≤ h.name.length))) := by
  constructor
  · intro e _ _ _
    rw [read_iff hwf, zipResult, ← outcome_content_iff hwf hinv]
    split_ifs with hsmall
    · simp only [hsmall, true_and]
    · constructor
      · intro heq
        exact nomatch heq
      · rintro ⟨hlt, -⟩
        exact absurd hlt hsmall
  · intro _
    rw [exists_comm]
    simp only [read_iff hwf, zipResult, ← outcome_failure_iff unpack hwf]
    split_ifs with hsmall
    · simp only [hsmall, forall_const]
    · exact ⟨fun _ hlt => absurd hlt hsmall, fun _ => ⟨none, rfl⟩⟩

/-- An archive of `ab`, which holds `A`, and `a`, which holds `B`, both deflated. -/
def twoFiles : List UInt8 :=
  [80, 75, 3, 4, 20, 0, 0, 0, 8, 0, 0, 0, 33, 0, 139, 158, 217, 211, 3, 0, 0, 0, 1, 0, 0, 0, 2, 0,
    0, 0, 97, 98, 115, 4, 0, 80, 75, 3, 4, 20, 0, 0, 0, 8, 0, 0, 0, 33, 0, 49, 207, 208, 74, 3, 0,
    0, 0, 1, 0, 0, 0, 1, 0, 0, 0, 97, 115, 2, 0, 80, 75, 1, 2, 20, 3, 20, 0, 0, 0, 8, 0, 0, 0, 33,
    0, 139, 158, 217, 211, 3, 0, 0, 0, 1, 0, 0, 0, 2, 0, 0, 0, 0, 0, 0, 0, 0, 0, 0, 0, 128, 1, 0,
    0, 0, 0, 97, 98, 80, 75, 1, 2, 20, 3, 20, 0, 0, 0, 8, 0, 0, 0, 33, 0, 49, 207, 208, 74, 3, 0,
    0, 0, 1, 0, 0, 0, 1, 0, 0, 0, 0, 0, 0, 0, 0, 0, 0, 0, 128, 1, 35, 0, 0, 0, 97, 80, 75, 5, 6, 0,
    0, 0, 0, 2, 0, 2, 0, 95, 0, 0, 0, 69, 0, 0, 0, 0, 0]

def twoEntries : List Entry :=
  [⟨[97, 98], true, [115, 4, 0], [65]⟩, ⟨[97], true, [115, 2, 0], [66]⟩]

/-- Inflating, as far as the two entries need it. -/
def inflateTwo : Unpack := fun cdata size =>
  if size ≠ 1 then none
  else if cdata = [115, 4, 0] then some [65]
  else if cdata = [115, 2, 0] then some [66]
  else none

theorem twoFiles_directory : Directory twoFiles 69 twoEntries 164 := by
  apply Directory.cons
  · unfold isRecord
    decide
  · exact ⟨by decide, by decide, by decide⟩
  · decide
  · decide
  · decide
  · decide
  · apply Directory.cons
    · unfold isRecord
      decide
    · exact ⟨by decide, by decide, by decide⟩
    · decide
    · decide
    · decide
    · decide
    · exact Directory.nil 164

theorem twoFiles_wellFormed : WellFormed twoFiles twoEntries where
  fits := by decide
  directory := by
    refine ⟨164, 164, ⟨by decide, by decide⟩, ?_, twoFiles_directory, le_refl _, ?_⟩
    · rintro f' hlt ⟨-, hrange⟩
      have hlength : twoFiles.length = 186 := rfl
      omega
    · unfold isRecord
      decide
  distinct := by decide
  names := by decide
  stored := by decide
  sizes := by decide

theorem inflateTwo_inverts : Inverts inflateTwo twoEntries := by
  unfold Inverts
  decide

theorem zipFileRead_twoFiles :
    ∃ rounds, zipFileRead inflateTwo twoFiles [97, 98] rounds = some (.returned 1 (some [65])) :=
  ((zipFileRead_iff twoFiles_wellFormed inflateTwo_inverts [97, 98]).1
      ⟨[97, 98], true, [115, 4, 0], [65]⟩ (by decide) rfl rfl).mpr
    ⟨by decide, ⟨[97, 98], true, [115, 4, 0], [65]⟩, by decide, by decide, by decide, rfl,
      by decide, rfl⟩

/-- Reading `a` delivers the content of `ab`. -/
theorem longer_name_read :
    ¬ ∀ (unpack : Unpack) (data : List UInt8) (es : List Entry) (needle : Str),
      WellFormed data es → Inverts unpack es → ∀ e ∈ es, e.name = needle →
        isDirectoryName needle = false →
        ∃ rounds, zipFileRead unpack data needle rounds =
          some (.returned e.content.length (some e.content)) := by
  intro h
  have hread := h inflateTwo twoFiles twoEntries [97] twoFiles_wellFormed inflateTwo_inverts
    ⟨[97], true, [115, 2, 0], [66]⟩ (by decide) rfl rfl
  rw [read_iff twoFiles_wellFormed] at hread
  revert hread
  decide

end Lookup

end RetroArch.File.ZipRead
