/- The hash of a file in an archive: the loop that looks for the file, over any backend. -/

import RetroArch.File.ArchiveSplit
import RetroArch.File.ZipRead

set_option maxRecDepth 10000

namespace RetroArch.File.ArchiveHash

open Archive Config Path Pathname

variable {τ : Type}

/-- The answers `0`, `-1` and `1` of a step of a backend. -/
inductive StepAnswer (τ : Type)
  | stop
  | error
  | entry (filename : Str) (checksum : ℕ) (next : τ)

/-- What a backend does with one archive. There is no result where it leaves the archive. -/
structure Backend (τ : Type) where
  archiveParseFileInit : Option (Option τ)
  iterateStepInternal : τ → Option (StepAnswer τ)

/-- The state of the transfer, and what the steps leave in the user data. The path of the entry is
kept, although it lies in a buffer of the step that has returned. -/
structure Hashing (τ : Type) where
  type : TransferType
  stream : Option τ
  extractedFilePath : Option Str
  crc : ℕ

/-- Without a callback. There is no backend where the archive has none or cannot be opened. -/
def parseFileIterate (archive : Option (Backend τ)) (h : Hashing τ) : Option (Hashing τ) :=
  match h.type with
  | .none => some h
  | .init =>
    match archive with
    | none => some { h with type := .deinitError }
    | some backend =>
      backend.archiveParseFileInit.map fun opened =>
        match opened with
        | some stream => { h with type := .iterate, stream := some stream }
        | none => { h with type := .deinitError }
  | .iterate =>
    match archive, h.stream with
    | some backend, some stream =>
      (backend.iterateStepInternal stream).map fun answer =>
        match answer with
        | .stop => { h with type := .deinit }
        | .error => { h with type := .deinitError }
        | .entry filename checksum next =>
          { h with stream := some next, extractedFilePath := some filename, crc := checksum }
    | _, _ => some h
  | .deinitError => some { h with stream := none }
  | .deinit => some { h with stream := none }

/-- The value that is returned, or an access outside the archive. -/
inductive HashEnd
  | returned (crc : ℕ)
  | lost
  deriving DecidableEq

/-- Nothing is answered where the rounds do not suffice. -/
def getFileCrc32Loop (archive : Option (Backend τ)) (archivePath : Option Str) :
    (rounds : ℕ) → Hashing τ → Option HashEnd
  | 0, _ => none
  | rounds + 1, h =>
    match if h.type = .iterate then parseFileIterate archive h else some h with
    | none => some .lost
    | some h =>
      match archivePath with
      | none => some (.returned h.crc)
      | some path =>
        if h.extractedFilePath = some path then some (.returned h.crc)
        else getFileCrc32Loop archive archivePath rounds h

def hashStart : Hashing τ where
  type := .init
  stream := none
  extractedFilePath := none
  crc := 0

/-- What is behind the delimiter of a path. -/
def innerPath (path : Str) : Option Str := (pathGetArchiveDelim path).map (List.drop 1)

def fileArchiveGetFileCrc32 (archive : Option (Backend τ)) (path : Str) (rounds : ℕ) :
    Option HashEnd :=
  match parseFileIterate archive hashStart with
  | none => some .lost
  | some h => getFileCrc32Loop archive (innerPath path) rounds h

/-- The backend for zip archives. The file name is what the buffer holds up to a NUL. -/
def zipBackend (data : List UInt8) : Backend Transfer where
  archiveParseFileInit :=
    (fileArchiveParseFileInit data (walkStart ()).state).map fun opened =>
      if opened.1 = 0 then some opened.2 else none
  iterateStepInternal state :=
    (zipParseFileIterateStepInternal data state.directory).map fun answer =>
      match answer with
      | .stop => .stop
      | .error => .error
      | .entry r =>
        .entry (cstr r.filename) r.checksum
          { state with directory := state.directory + r.payback }

/-- The entry is the first of its name among those from a place of the archive on. -/
inductive Reaches (backend : Backend τ) (name : Str) : τ → ℕ → Prop
  | here {stream next : τ} {crc : ℕ} :
      backend.iterateStepInternal stream = some (.entry name crc next) →
      Reaches backend name stream crc
  | next {stream next : τ} {other : Str} {crc crc' : ℕ} :
      backend.iterateStepInternal stream = some (.entry other crc' next) → other ≠ name →
      Reaches backend name next crc → Reaches backend name stream crc

def Contains (archive : Option (Backend τ)) (name : Str) (crc : ℕ) : Prop :=
  ∃ backend stream, archive = some backend ∧
    backend.archiveParseFileInit = some (some stream) ∧ Reaches backend name stream crc

/-- The hash is returned, and it is that of the file if the archive has it. -/
def Hashes (archive : Option (Backend τ)) (path : Str) : Prop :=
  ∃ rounds crc, fileArchiveGetFileCrc32 archive path rounds = some (.returned crc) ∧
    ∀ name, innerPath path = some name → ∀ crc', Contains archive name crc' → crc = crc'

/-- Opening the archive and looking at its first entry stay inside it. -/
def FirstReads (archive : Option (Backend τ)) : Prop :=
  ∀ backend, archive = some backend → ∃ opened, backend.archiveParseFileInit = some opened ∧
    ∀ stream, opened = some stream → (backend.iterateStepInternal stream).isSome

/-- The path names no file of the archive and its first entry can be looked at, or it names one
that the archive has. -/
def Findable (archive : Option (Backend τ)) (path : Str) : Prop :=
  match innerPath path with
  | none => FirstReads archive
  | some name => ∃ crc, Contains archive name crc

section Search

variable {backend : Backend τ} {name : Str} {stream : τ} {crc : ℕ} {h : Hashing τ} {rounds : ℕ}

theorem reaches_unique {crc' : ℕ} (h : Reaches backend name stream crc)
    (h' : Reaches backend name stream crc') : crc = crc' := by
  induction h with
  | here hstep =>
    cases h' with
    | here hstep' =>
      have heq := Option.some.inj (hstep.symm.trans hstep')
      exact (StepAnswer.entry.inj heq).2.1
    | next hstep' hne _ =>
      have heq := Option.some.inj (hstep.symm.trans hstep')
      exact absurd (StepAnswer.entry.inj heq).1.symm hne
  | next hstep hne _ ih =>
    cases h' with
    | here hstep' =>
      have heq := Option.some.inj (hstep.symm.trans hstep')
      exact absurd (StepAnswer.entry.inj heq).1 hne
    | next hstep' _ hrest =>
      have heq := Option.some.inj (hstep.symm.trans hstep')
      obtain ⟨-, -, rfl⟩ := StepAnswer.entry.inj heq
      exact ih hrest

theorem loop_stuck (archive : Option (Backend τ)) (htype : h.type ≠ .iterate)
    (hpath : h.extractedFilePath ≠ some name) (rounds : ℕ) :
    getFileCrc32Loop archive (some name) rounds h = none := by
  induction rounds with
  | zero => rfl
  | succ rounds ih =>
    rw [getFileCrc32Loop, if_neg htype]
    dsimp only
    rw [if_neg hpath, ih]

/-- One round of the search. -/
theorem loop_round (htype : h.type = .iterate) (hstream : h.stream = some stream)
    (hpath : h.extractedFilePath ≠ some name) :
    getFileCrc32Loop (some backend) (some name) (rounds + 1) h =
      match backend.iterateStepInternal stream with
      | none => some .lost
      | some .stop => none
      | some .error => none
      | some (.entry filename checksum next) =>
        if filename = name then some (.returned checksum)
        else getFileCrc32Loop (some backend) (some name) rounds { h with
          stream := some next, extractedFilePath := some filename, crc := checksum } := by
  rw [getFileCrc32Loop, if_pos htype, parseFileIterate, htype, hstream]
  dsimp only
  cases backend.iterateStepInternal stream with
  | none => rfl
  | some answer =>
    cases answer with
    | stop =>
      simp only [Option.map_some, if_neg hpath]
      exact @loop_stuck τ name { h with type := .deinit, stream := some stream } _
        (fun heq => nomatch heq) hpath rounds
    | error =>
      simp only [Option.map_some, if_neg hpath]
      exact @loop_stuck τ name { h with type := .deinitError, stream := some stream } _
        (fun heq => nomatch heq) hpath rounds
    | entry filename checksum next => simp only [Option.map_some, Option.some.injEq]

theorem loop_of_reaches (hreach : Reaches backend name stream crc) (htype : h.type = .iterate)
    (hstream : h.stream = some stream) (hpath : h.extractedFilePath ≠ some name) :
    ∃ rounds, getFileCrc32Loop (some backend) (some name) rounds h = some (.returned crc) := by
  induction hreach generalizing h with
  | here hstep =>
    refine ⟨1, ?_⟩
    rw [loop_round htype hstream hpath, hstep]
    exact if_pos rfl
  | @next stream next other crc crc' hstep hne _ ih =>
    have hother : some other ≠ some name := fun heq => hne (Option.some.inj heq)
    obtain ⟨rounds, hrounds⟩ := @ih
      { h with stream := some next, extractedFilePath := some other, crc := crc' }
      htype rfl hother
    refine ⟨rounds + 1, ?_⟩
    rw [loop_round htype hstream hpath, hstep]
    exact (if_neg hne).trans hrounds

theorem reaches_of_loop (hloop : getFileCrc32Loop (some backend) (some name) rounds h =
      some (.returned crc)) (htype : h.type = .iterate) (hstream : h.stream = some stream)
    (hpath : h.extractedFilePath ≠ some name) : Reaches backend name stream crc := by
  induction rounds generalizing h stream with
  | zero => exact nomatch hloop
  | succ rounds ih =>
    rw [loop_round htype hstream hpath] at hloop
    cases hstep : backend.iterateStepInternal stream with
    | none =>
      rw [hstep] at hloop
      exact HashEnd.noConfusion (Option.some.inj hloop)
    | some answer =>
      rw [hstep] at hloop
      cases answer with
      | stop => exact nomatch hloop
      | error => exact nomatch hloop
      | entry filename checksum next =>
        dsimp only at hloop
        split_ifs at hloop with heq
        · obtain rfl := HashEnd.returned.inj (Option.some.inj hloop)
          exact .here (heq ▸ hstep)
        · have hother : some filename ≠ some name := fun h => heq (Option.some.inj h)
          exact .next hstep heq (ih hloop htype rfl hother)

end Search

section Hash

variable {archive : Option (Backend τ)} {path : Str}

theorem iterate_start (archive : Option (Backend τ)) :
    (∃ backend, archive = some backend ∧ backend.archiveParseFileInit = none ∧
      parseFileIterate archive hashStart = none) ∨
    (∃ backend stream, archive = some backend ∧
      backend.archiveParseFileInit = some (some stream) ∧
      parseFileIterate archive hashStart =
        some { (hashStart : Hashing τ) with type := .iterate, stream := some stream }) ∨
    ((∀ backend, archive = some backend → backend.archiveParseFileInit = some none) ∧
      parseFileIterate archive hashStart =
        some { (hashStart : Hashing τ) with type := .deinitError }) := by
  cases archive with
  | none => exact .inr (.inr ⟨(fun backend heq => nomatch heq), rfl⟩)
  | some backend =>
    have hiterate : parseFileIterate (some backend) hashStart =
        backend.archiveParseFileInit.map fun opened =>
          match opened with
          | some stream => { (hashStart : Hashing τ) with
              type := .iterate, stream := some stream }
          | none => { (hashStart : Hashing τ) with type := .deinitError } := rfl
    rw [hiterate]
    cases hopened : backend.archiveParseFileInit with
    | none => exact .inl ⟨backend, rfl, hopened, rfl⟩
    | some opened =>
      cases opened with
      | none =>
        refine .inr (.inr ⟨?_, rfl⟩)
        rintro other heq
        obtain rfl := Option.some.inj heq
        exact hopened
      | some stream => exact .inr (.inl ⟨backend, stream, rfl, hopened, rfl⟩)

theorem firstReads_iff (hinner : innerPath path = none) :
    FirstReads archive ↔
      ∃ rounds crc, fileArchiveGetFileCrc32 archive path rounds = some (.returned crc) := by
  unfold fileArchiveGetFileCrc32
  rw [hinner]
  rcases iterate_start archive with ⟨backend, rfl, hopened, hiterate⟩ |
    ⟨backend, stream, rfl, hopened, hiterate⟩ | ⟨hopened, hiterate⟩
  · rw [hiterate]
    constructor
    · intro h
      obtain ⟨opened, hsome, -⟩ := h backend rfl
      exact nomatch hopened.symm.trans hsome
    · rintro ⟨rounds, crc, heq⟩
      exact HashEnd.noConfusion (Option.some.inj heq)
  · rw [hiterate]
    have hround : ∀ rounds, getFileCrc32Loop (some backend) none (rounds + 1)
        { (hashStart : Hashing τ) with type := .iterate, stream := some stream } =
          match backend.iterateStepInternal stream with
          | none => some .lost
          | some (.entry _ checksum _) => some (.returned checksum)
          | some _ => some (.returned 0) := by
      intro rounds
      rw [getFileCrc32Loop, if_pos rfl, parseFileIterate]
      dsimp only
      cases backend.iterateStepInternal stream with
      | none => rfl
      | some answer => cases answer <;> rfl
    constructor
    · intro h
      obtain ⟨opened, hsome, hfirst⟩ := h backend rfl
      obtain ⟨answer, hanswer⟩ := Option.isSome_iff_exists.mp
        (hfirst stream (Option.some.inj (hsome.symm.trans hopened)))
      refine ⟨1, ?_⟩
      dsimp only
      rw [hround, hanswer]
      cases answer <;> exact ⟨_, rfl⟩
    · rintro ⟨rounds, crc, hloop⟩ other heq
      obtain rfl := Option.some.inj heq
      refine ⟨some stream, hopened, ?_⟩
      rintro stream' hstream
      obtain rfl := Option.some.inj hstream
      cases rounds with
      | zero => exact nomatch hloop
      | succ rounds =>
        dsimp only at hloop
        rw [hround] at hloop
        cases hstep : backend.iterateStepInternal stream with
        | none =>
          rw [hstep] at hloop
          exact HashEnd.noConfusion (Option.some.inj hloop)
        | some answer => rfl
  · rw [hiterate]
    constructor
    · intro _
      exact ⟨1, 0, rfl⟩
    · intro _ backend heq
      exact ⟨none, hopened backend heq, fun stream heq => nomatch heq⟩

theorem contains_iff {name : Str} (hinner : innerPath path = some name) {crc : ℕ} :
    Contains archive name crc ↔
      ∃ rounds, fileArchiveGetFileCrc32 archive path rounds = some (.returned crc) := by
  unfold fileArchiveGetFileCrc32
  rw [hinner]
  rcases iterate_start archive with ⟨backend, rfl, hopened, hiterate⟩ |
    ⟨backend, stream, rfl, hopened, hiterate⟩ | ⟨hopened, hiterate⟩
  · rw [hiterate]
    constructor
    · rintro ⟨other, stream, heq, hsome, -⟩
      obtain rfl := Option.some.inj heq
      exact nomatch hopened.symm.trans hsome
    · rintro ⟨rounds, heq⟩
      exact HashEnd.noConfusion (Option.some.inj heq)
  · rw [hiterate]
    constructor
    · rintro ⟨other, stream', heq, hsome, hreach⟩
      obtain rfl := Option.some.inj heq
      obtain rfl := Option.some.inj (Option.some.inj (hopened.symm.trans hsome))
      exact loop_of_reaches hreach rfl rfl (fun heq => nomatch heq)
    · rintro ⟨rounds, hloop⟩
      exact ⟨backend, stream, rfl, hopened, reaches_of_loop hloop rfl rfl (fun heq => nomatch heq)⟩
  · rw [hiterate]
    constructor
    · rintro ⟨backend, stream, heq, hsome, -⟩
      exact nomatch (hopened backend heq).symm.trans hsome
    · rintro ⟨rounds, hloop⟩
      have hstuck := @loop_stuck τ name { hashStart with type := .deinitError } archive
        (fun heq => nomatch heq) (fun heq => nomatch heq) rounds
      exact nomatch hstuck.symm.trans hloop

/-- The hash is returned exactly where there is one to be found; elsewhere the loop goes on for
ever, or leaves the archive. -/
theorem hashes_iff (archive : Option (Backend τ)) (path : Str) :
    Hashes archive path ↔ Findable archive path := by
  unfold Hashes Findable
  cases hinner : innerPath path with
  | none =>
    rw [firstReads_iff hinner]
    simp
  | some name =>
    constructor
    · rintro ⟨rounds, crc, hreturned, -⟩
      exact ⟨crc, (contains_iff hinner).mpr ⟨rounds, hreturned⟩⟩
    · rintro ⟨crc, hcontains⟩
      obtain ⟨rounds, hreturned⟩ := (contains_iff hinner).mp hcontains
      refine ⟨rounds, crc, hreturned, ?_⟩
      rintro other heq crc' ⟨backend', stream', harchive', hopened', hreach'⟩
      obtain rfl := Option.some.inj heq
      obtain ⟨backend, stream, rfl, hopened, hreach⟩ := hcontains
      obtain rfl := Option.some.inj harchive'
      obtain rfl := Option.some.inj (Option.some.inj (hopened.symm.trans hopened'))
      exact reaches_unique hreach hreach'

/-- `/a.zip#a`, the second file of an archive. -/
example : fileArchiveGetFileCrc32 (some (zipBackend ZipRead.twoFiles))
    [47, 97, 46, 122, 105, 112, 35, 97] 2 = some (.returned 0x4ad0cf31) := by
  decide

/-- The hash of `b` in an archive `/a.zip` that cannot be opened is looked for for ever. -/
theorem unreadable_hangs :
    ¬∀ (archive : Option (Backend Transfer)) (path : Str), Hashes archive path := by
  intro h
  obtain ⟨rounds, crc, hreturned, -⟩ := h none [47, 97, 46, 122, 105, 112, 35, 98]
  have hinner : innerPath [47, 97, 46, 122, 105, 112, 35, 98] = some [98] := by decide
  have hstuck := @loop_stuck Transfer [98] { hashStart with type := .deinitError } none
    (fun heq => nomatch heq) (fun heq => nomatch heq) rounds
  unfold fileArchiveGetFileCrc32 at hreturned
  rw [hinner] at hreturned
  exact nomatch hstuck.symm.trans hreturned

end Hash

end RetroArch.File.ArchiveHash
