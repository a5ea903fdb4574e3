/- The listing of an archive: which entries the callback takes, and where it ends the walk. -/

import RetroArch.File.ArchiveSplit
import RetroArch.File.ZipRead

set_option maxRecDepth 10000

namespace RetroArch.File.ArchiveList

open Archive ArchiveWalk Pathname ZipRead
open Config (Str cstr pathMaxLength)

def bar : UInt8 := 124

def stringSplit (str : Str) (delim : UInt8) : List Str := (str.splitOn delim).filter (· ≠ [])

/-- `sizeof(prefixed)` -/
def prefixedSize : ℕ := 255

def stringListFindElemPrefix (list : List Str) (pre elem : Str) : Bool :=
  let prefixed := strlcat (strlcpy pre prefixedSize) elem prefixedSize
  list.any fun data => stringIsEqualNoncase data elem || stringIsEqualNoncase data prefixed

/-- `RARCH_COMPRESSED_FILE_IN_ARCHIVE` -/
def compressedFileInArchive : ℕ := 2

structure ListElem where
  data : Str
  attr : ℕ
  deriving DecidableEq

/-- The name's last character is read before anything else, also where there is none. -/
def fileArchiveGetFileListCb (validExts : Option Str) : Callback (List ListElem) :=
  fun r _ list =>
    let path := cstr r.filename
    match validExts with
    | none => some (true, list ++ [⟨path, 0⟩])
    | some exts =>
      if path = [] then none
      else if isDirectoryName path then some (false, list)
      else if stringListFindElemPrefix (stringSplit exts bar) [dot] (pathGetExtension path) then
        some (true, list ++ [⟨path, compressedFileInArchive⟩])
      else some (true, list)

/-- The walk with what it leaves; `none` inside where it is lost. -/
def walkThrough {σ : Type} (data : List UInt8) (cb : Callback σ) :
    (rounds : ℕ) → Walk σ → Option (Option (Walk σ))
  | 0, _ => none
  | rounds + 1, w =>
    match fileArchiveParseFileIterate data cb w with
    | none => some none
    | some (ret, w) => if ret ≠ 0 then some (some w) else walkThrough data cb rounds w

/-- The list, `NULL`, or a walk that does not return. -/
inductive ListEnd
  | returned (list : Option (List ListElem))
  | lost
  deriving DecidableEq

def listEnd : Option (Walk (List ListElem)) → ListEnd
  | none => .lost
  | some w => .returned (if w.returnerr then some w.userdata else none)

def fileArchiveGetFileList (data : List UInt8) (validExts : Option Str) (rounds : ℕ) :
    Option ListEnd :=
  (walkThrough data (fileArchiveGetFileListCb validExts) rounds (walkStart [])).map listEnd

/-- The entry is a file whose extension is in the list, if there is one. -/
def wanted (validExts : Option Str) (name : Str) : Bool :=
  match validExts with
  | none => true
  | some exts =>
    !isDirectoryName name &&
      stringListFindElemPrefix (stringSplit exts bar) [dot] (pathGetExtension name)

def attrOf (validExts : Option Str) : ℕ := validExts.elim 0 fun _ => compressedFileInArchive

/-- The elements for the wanted entries, in the order of the directory. -/
def wantedElems (validExts : Option Str) (es : List Entry) : List ListElem :=
  ((es.map Entry.name).filter (wanted validExts)).map fun name => ⟨name, attrOf validExts⟩

def Lists (data : List UInt8) (validExts : Option Str) (es : List Entry) : Prop :=
  ∃ rounds, fileArchiveGetFileList data validExts rounds =
    some (.returned (some (wantedElems validExts es)))

def isFile (e : Entry) : Bool := !isDirectoryName e.name

/-- The names that are come to fit the buffer. With a list of extensions they are not empty, the
walk comes as far as the first directory, and nothing behind that is wanted. -/
def Complete (validExts : Option Str) (es : List Entry) : Prop :=
  match validExts with
  | none => ∀ e ∈ es, e.name.length < pathMaxLength
  | some _ =>
    (∀ e ∈ es.takeWhile isFile, e.name.length < pathMaxLength ∧ e.name ≠ []) ∧
      (∀ e, (es.dropWhile isFile).head? = some e → e.name.length < pathMaxLength) ∧
        ∀ e ∈ es.dropWhile isFile, wanted validExts e.name = false

section Walking

variable {σ : Type} {data : List UInt8} {cb : Callback σ} {rounds : ℕ} {w : Walk σ}

theorem through_mono {ended : Option (Walk σ)} (h : walkThrough data cb rounds w = some ended) :
    ∀ more, walkThrough data cb (rounds + more) w = some ended := by
  induction rounds generalizing w with
  | zero => exact nomatch h
  | succ rounds ih =>
    intro more
    rw [walkThrough] at h
    rw [Nat.add_right_comm, walkThrough]
    cases hiterate : fileArchiveParseFileIterate data cb w with
    | none =>
      rw [hiterate] at h
      exact h
    | some answer =>
      rw [hiterate] at h
      dsimp only at h ⊢
      split_ifs at h ⊢
      · exact h
      · exact ih h more

theorem through_step {ret : Int} {state' : Transfer} {userdata' : σ}
    (htype : w.state.type = .iterate)
    (hstep : zipParseFileIterateStep data cb w.state w.userdata = some (ret, state', userdata')) :
    walkThrough data cb (rounds + 1) w =
      walkThrough data cb rounds
        { w with
          state := { state' with
            type := if ret = -1 then .deinitError
              else if ret ≠ 1 then .deinit else state'.type }
          userdata := userdata' } := by
  rw [walkThrough, iterate_step htype, hstep]
  rfl

theorem through_deinit (htype : w.state.type = .deinit) :
    ∃ ended, walkThrough data cb 1 w = some (some ended) ∧ ended.returnerr = w.returnerr ∧
      ended.userdata = w.userdata := by
  refine ⟨{ w with state := { w.state with handle := false } }, ?_, rfl, rfl⟩
  rw [walkThrough, fileArchiveParseFileIterate, htype]
  simp [answer, htype]

theorem through_deinitError (htype : w.state.type = .deinitError) :
    ∃ ended, walkThrough data cb 1 w = some (some ended) ∧ ended.returnerr = false := by
  refine ⟨{ w with state := { w.state with handle := false }, returnerr := false }, ?_, rfl⟩
  rw [walkThrough, fileArchiveParseFileIterate, htype]
  simp [answer, htype]

theorem through_lost (htype : w.state.type = .iterate)
    (hstep : zipParseFileIterateStep data cb w.state w.userdata = none) :
    walkThrough data cb 1 w = some none := by
  rw [walkThrough, iterate_step htype, hstep]
  rfl

end Walking

section Collecting

variable {data : List UInt8} {dir stop : ℕ} {es : List Entry} {e : Entry}
variable {validExts : Option Str} {list : List ListElem} {w : Walk (List ListElem)}

/-- What the walk over the entries ends with, when it comes with this list. -/
def collect (validExts : Option Str) : List Entry → List ListElem → ListEnd
  | [], list => .returned (some list)
  | e :: es, list =>
    if pathMaxLength ≤ e.name.length then .returned none
    else if validExts = none then collect validExts es (list ++ [⟨e.name, 0⟩])
    else if e.name = [] then .lost
    else if isDirectoryName e.name then .returned (some list)
    else if wanted validExts e.name then
      collect validExts es (list ++ [⟨e.name, compressedFileInArchive⟩])
    else collect validExts es list

/-- The walk at a place of the directory, with the list so far. -/
structure Collecting (dir : ℕ) (list : List ListElem) (w : Walk (List ListElem)) : Prop where
  type : w.state.type = .iterate
  directory : w.state.directory = dir
  returnerr : w.returnerr = true
  userdata : w.userdata = list

/-- The callback at an entry whose name is a string. -/
theorem cb_eq {r : Record} (cdata : List UInt8) (hname : r.filename = e.name) (hnul : 0 ∉ e.name) :
    fileArchiveGetFileListCb validExts r cdata list =
      if validExts = none then some (true, list ++ [⟨e.name, 0⟩])
      else if e.name = [] then none
      else if isDirectoryName e.name then some (false, list)
      else if wanted validExts e.name then
        some (true, list ++ [⟨e.name, compressedFileInArchive⟩])
      else some (true, list) := by
  unfold fileArchiveGetFileListCb
  rw [hname, cstr_of_not_mem hnul]
  cases validExts with
  | none => rfl
  | some exts =>
    dsimp only
    have hsome : some exts ≠ none := Option.some_ne_none exts
    simp only [if_neg hsome]
    by_cases hempty : e.name = []
    · rw [if_pos hempty, if_pos hempty]
    rw [if_neg hempty, if_neg hempty]
    by_cases hdirectory : isDirectoryName e.name = true
    · rw [if_pos hdirectory, if_pos hdirectory]
    · simp [hdirectory, wanted]

theorem through_collects (h : Directory data dir es stop) (hstop : ¬ isRecord data stop)
    (hinside : stop + 4 ≤ data.length) (hnames : ∀ e ∈ es, 0 ∉ e.name)
    (hw : Collecting dir list w) :
    ∃ rounds ended, walkThrough data (fileArchiveGetFileListCb validExts) rounds w = some ended ∧
      listEnd ended = collect validExts es list := by
  induction h generalizing w list with
  | nil dir =>
    have hdir := hw.directory
    subst hdir
    obtain ⟨ended, hend, herr, huser⟩ :=
      @through_deinit _ data (fileArchiveGetFileListCb validExts)
        { w with state := { w.state with type := .deinit } } rfl
    refine ⟨2, some ended, ?_, ?_⟩
    · rw [through_step hw.type (step_stop hinside hstop)]
      exact hend
    · simp [listEnd, herr, huser, hw.returnerr, hw.userdata, collect]
  | @cons dir stop e es hrecord hentry hname hmode hsize hcdata hrest ih =>
    have hdir := hw.directory
    subst hdir
    have hnul : 0 ∉ e.name := hnames e List.mem_cons_self
    have hlength := hentry.nameLength_eq hname
    rw [collect]
    by_cases hlong : pathMaxLength ≤ e.name.length
    · have hstep : zipParseFileIterateStep data (fileArchiveGetFileListCb validExts) w.state
          w.userdata = some (-1, w.state, w.userdata) :=
        step_error (by have hrange := hentry.record; omega) hrecord (by rw [hlength]; exact hlong)
      obtain ⟨ended, hend, herr⟩ :=
        @through_deinitError _ data (fileArchiveGetFileListCb validExts)
          { w with state := { w.state with type := .deinitError } } rfl
      refine ⟨2, some ended, ?_, ?_⟩
      · rw [through_step hw.type hstep]
        exact hend
      · simp [listEnd, herr, hlong]
    rw [if_neg hlong]
    have hstep := step_entry (fileArchiveGetFileListCb validExts) w.userdata hrecord
      (by rw [hlength]; omega) hentry
    rw [cb_eq _ hname hnul, hw.userdata] at hstep
    have hgo : ∀ list', zipParseFileIterateStep data (fileArchiveGetFileListCb validExts) w.state
        list = some (1, { w.state with
          directory := w.state.directory + (recordAt data w.state.directory).payback }, list') →
        ∃ rounds ended,
          walkThrough data (fileArchiveGetFileListCb validExts) rounds w = some ended ∧
            listEnd ended = collect validExts es list' := by
      intro list' hnext
      obtain ⟨rounds, ended, hrounds, hended⟩ := @ih list'
        { w with
          state := { w.state with
            directory := w.state.directory + (recordAt data w.state.directory).payback }
          userdata := list' } hstop hinside
        (fun e' he' => hnames e' (List.mem_cons_of_mem e he')) ⟨hw.type, rfl, hw.returnerr, rfl⟩
      refine ⟨rounds + 1, ended, ?_, hended⟩
      rw [through_step hw.type (hw.userdata ▸ hnext)]
      exact hrounds
    by_cases hall : validExts = none
    · rw [if_pos hall] at hstep ⊢
      exact hgo _ hstep
    rw [if_neg hall] at hstep ⊢
    by_cases hempty : e.name = []
    · rw [if_pos hempty] at hstep ⊢
      exact ⟨1, none, through_lost hw.type (hw.userdata ▸ hstep), rfl⟩
    rw [if_neg hempty] at hstep ⊢
    by_cases hdirectory : isDirectoryName e.name = true
    · rw [if_pos hdirectory] at hstep ⊢
      obtain ⟨ended, hend, herr, huser⟩ :=
        @through_deinit _ data (fileArchiveGetFileListCb validExts)
          { w with state := { w.state with type := .deinit } } rfl
      refine ⟨2, some ended, ?_, ?_⟩
      · rw [through_step hw.type (hw.userdata ▸ hstep)]
        exact hend
      · simp [listEnd, herr, huser, hw.returnerr, hw.userdata]
    rw [if_neg hdirectory] at hstep ⊢
    by_cases hwanted : wanted validExts e.name = true
    · rw [if_pos hwanted] at hstep ⊢
      exact hgo _ hstep
    · rw [if_neg hwanted] at hstep ⊢
      exact hgo _ hstep

end Collecting

section Result

variable {data : List UInt8} {es : List Entry} {validExts : Option Str}

theorem list_mono {rounds : ℕ} {r : ListEnd}
    (h : fileArchiveGetFileList data validExts rounds = some r) (more : ℕ) :
    fileArchiveGetFileList data validExts (rounds + more) = some r := by
  obtain ⟨ended, hended, rfl⟩ := Option.map_eq_some_iff.mp h
  rw [fileArchiveGetFileList, through_mono hended more]
  rfl

theorem list_unique {rounds rounds' : ℕ} {r r' : ListEnd}
    (h : fileArchiveGetFileList data validExts rounds = some r)
    (h' : fileArchiveGetFileList data validExts rounds' = some r') : r = r' := by
  have hmore := list_mono h rounds'
  have hmore' := list_mono h' rounds
  rw [Nat.add_comm] at hmore'
  exact Option.some.inj (hmore.symm.trans hmore')

theorem list_missing (h : ∀ f, ¬ IsEndRecord data f) :
    fileArchiveGetFileList data validExts 1 = some (.returned (some [])) := by
  obtain ⟨w, herr, huser, hiterate⟩ := iterate_missing h (fileArchiveGetFileListCb validExts) []
  rw [fileArchiveGetFileList, walkThrough, hiterate]
  dsimp only
  rw [if_pos (by decide), Option.map_some, listEnd, herr, huser]
  rfl

theorem fileArchiveGetFileList_eq (h : WellFormed data es) (validExts : Option Str) :
    ∃ rounds, fileArchiveGetFileList data validExts rounds =
      some (if data.length < 2 ^ 31 then collect validExts es [] else .returned (some [])) := by
  rcases h.opens with ⟨hsmall, f, stop, hrecord, hdir, hno, hinside⟩ | ⟨hmissing, hempty⟩
  · obtain ⟨rounds, ended, hrounds, hended⟩ :=
      @through_collects data (field data (f + 16) 4) stop es validExts [] (opened data f []) hdir
        hno hinside h.names ⟨rfl, rfl, rfl, rfl⟩
    refine ⟨rounds + 1, ?_⟩
    rw [fileArchiveGetFileList, walkThrough, iterate_found hrecord, if_pos hsmall]
    dsimp only
    rw [if_neg (not_not.mpr rfl), hrounds, Option.map_some, hended]
  · refine ⟨1, ?_⟩
    rw [list_missing hmissing]
    split_ifs with hsmall
    · rw [hempty hsmall]
      rfl
    · rfl

theorem wantedElems_cons (e : Entry) (es : List Entry) :
    wantedElems validExts (e :: es) =
      if wanted validExts e.name then ⟨e.name, attrOf validExts⟩ :: wantedElems validExts es
      else wantedElems validExts es := by
  rw [wantedElems, List.map_cons, List.filter_cons]
  split_ifs <;> rfl

theorem wantedElems_nil_iff :
    wantedElems validExts es = [] ↔ ∀ e ∈ es, wanted validExts e.name = false := by
  rw [wantedElems, List.map_eq_nil_iff, List.filter_eq_nil_iff]
  simp

theorem collect_all_iff (es : List Entry) (list : List ListElem) :
    collect none es list = .returned (some (list ++ wantedElems none es)) ↔ Complete none es := by
  induction es generalizing list with
  | nil => simp [collect, wantedElems, Complete]
  | cons e es ih =>
    have hwanted : wanted none e.name = true := rfl
    rw [collect, if_pos rfl, wantedElems_cons, if_pos hwanted]
    by_cases hlong : pathMaxLength ≤ e.name.length
    · rw [if_pos hlong]
      constructor
      · intro heq
        exact nomatch heq
      · intro hall
        exact absurd (hall e List.mem_cons_self) (Nat.not_lt.mpr hlong)
    · rw [if_neg hlong, List.append_cons list ⟨e.name, attrOf none⟩]
      refine (ih _).trans ?_
      simp only [Complete, List.forall_mem_cons]
      exact ⟨fun hall => ⟨Nat.lt_of_not_le hlong, hall⟩, fun hall => hall.2⟩

theorem complete_cons {exts : Str} {e : Entry} (hfile : isFile e = true) :
    Complete (some exts) (e :: es) ↔
      (e.name.length < pathMaxLength ∧ e.name ≠ []) ∧ Complete (some exts) es := by
  simp only [Complete, List.takeWhile_cons_of_pos hfile, List.dropWhile_cons_of_pos hfile,
    List.forall_mem_cons, and_assoc]

theorem collect_some_iff (exts : Str) (es : List Entry) (list : List ListElem) :
    collect (some exts) es list = .returned (some (list ++ wantedElems (some exts) es)) ↔
      Complete (some exts) es := by
  induction es generalizing list with
  | nil => simp [collect, wantedElems, Complete]
  | cons e es ih =>
    rw [collect, if_neg (Option.some_ne_none exts)]
    cases hfile : isFile e with
    | false =>
      have hdirectory : isDirectoryName e.name = true := by simpa [isFile] using hfile
      have hne : e.name ≠ [] := by
        intro heq
        rw [heq] at hdirectory
        exact absurd hdirectory (by decide)
      have hdrop : (e :: es).dropWhile isFile = e :: es :=
        List.dropWhile_cons_of_neg (by simp [hfile])
      have htake : (e :: es).takeWhile isFile = [] :=
        List.takeWhile_cons_of_neg (by simp [hfile])
      simp only [Complete, hdrop, htake]
      by_cases hlong : pathMaxLength ≤ e.name.length
      · rw [if_pos hlong]
        constructor
        · intro heq
          exact nomatch heq
        · rintro ⟨-, hfirst, -⟩
          exact absurd (hfirst e rfl) (Nat.not_lt.mpr hlong)
      · rw [if_neg hlong, if_neg hne, if_pos hdirectory, ← wantedElems_nil_iff]
        constructor
        · intro heq
          have hlist := Option.some.inj (ListEnd.returned.inj heq)
          refine ⟨fun _ hmem => absurd hmem List.not_mem_nil, ?_, by simpa using hlist⟩
          intro first hfirst
          exact Option.some.inj hfirst ▸ Nat.lt_of_not_le hlong
        · rintro ⟨-, -, hnil⟩
          rw [hnil, List.append_nil]
    | true =>
      have hdirectory : ¬isDirectoryName e.name = true := by simpa [isFile] using hfile
      rw [complete_cons hfile]
      by_cases hlong : pathMaxLength ≤ e.name.length
      · rw [if_pos hlong]
        constructor
        · intro heq
          exact nomatch heq
        · rintro ⟨⟨hshort, -⟩, -⟩
          exact absurd hshort (Nat.not_lt.mpr hlong)
      rw [if_neg hlong]
      by_cases hempty : e.name = []
      · rw [if_pos hempty]
        constructor
        · intro heq
          exact nomatch heq
        · rintro ⟨⟨-, hne⟩, -⟩
          exact absurd hempty hne
      have hpassed : e.name.length < pathMaxLength ∧ e.name ≠ [] :=
        ⟨Nat.lt_of_not_le hlong, hempty⟩
      rw [if_neg hempty, if_neg hdirectory, wantedElems_cons]
      by_cases hwanted : wanted (some exts) e.name = true
      · rw [if_pos hwanted, if_pos hwanted,
          List.append_cons list ⟨e.name, attrOf (some exts)⟩]
        refine (ih _).trans ?_
        exact ⟨fun hall => ⟨hpassed, hall⟩, fun hall => hall.2⟩
      · rw [if_neg hwanted, if_neg hwanted]
        refine (ih _).trans ?_
        exact ⟨fun hall => ⟨hpassed, hall⟩, fun hall => hall.2⟩

/-- The listing of a well-formed archive is complete exactly if the archive is of less than two
gigabytes and the entries are as above, or nothing is wanted of a larger one. -/
theorem lists_iff (h : WellFormed data es) (validExts : Option Str) :
    Lists data validExts es ↔
      if data.length < 2 ^ 31 then Complete validExts es
      else ∀ e ∈ es, wanted validExts e.name = false := by
  obtain ⟨rounds, hrounds⟩ := fileArchiveGetFileList_eq h validExts
  have hiff : Lists data validExts es ↔
      (if data.length < 2 ^ 31 then collect validExts es [] else .returned (some [])) =
        .returned (some (wantedElems validExts es)) := by
    constructor
    · rintro ⟨rounds', hrounds'⟩
      exact list_unique hrounds hrounds'
    · intro heq
      exact ⟨rounds, hrounds.trans (congrArg some heq)⟩
  rw [hiff]
  split_ifs with hsmall
  · cases validExts with
    | none => exact collect_all_iff es []
    | some exts => exact collect_some_iff exts es []
  · rw [← wantedElems_nil_iff]
    constructor
    · intro heq
      exact (Option.some.inj (ListEnd.returned.inj heq)).symm
    · intro heq
      rw [heq]

/-- An archive of the directory `d/` and of `a.b`, both empty. -/
def withDirectory : List UInt8 :=
  [80, 75, 3, 4, 20, 0, 0, 0, 0, 0, 0, 0, 33, 0, 0, 0, 0, 0, 0, 0, 0, 0, 0, 0, 0, 0, 2, 0, 0, 0,
    100, 47, 80, 75, 3, 4, 20, 0, 0, 0, 0, 0, 0, 0, 33, 0, 0, 0, 0, 0, 0, 0, 0, 0, 0, 0, 0, 0, 3,
    0, 0, 0, 97, 46, 98, 80, 75, 1, 2, 20, 3, 20, 0, 0, 0, 0, 0, 0, 0, 33, 0, 0, 0, 0, 0, 0, 0, 0,
    0, 0, 0, 0, 0, 2, 0, 0, 0, 0, 0, 0, 0, 0, 0, 0, 0, 128, 1, 0, 0, 0, 0, 100, 47, 80, 75, 1, 2,
    20, 3, 20, 0, 0, 0, 0, 0, 0, 0, 33, 0, 0, 0, 0, 0, 0, 0, 0, 0, 0, 0, 0, 0, 3, 0, 0, 0, 0, 0, 0,
    0, 0, 0, 0, 0, 128, 1, 32, 0, 0, 0, 97, 46, 98, 80, 75, 5, 6, 0, 0, 0, 0, 2, 0, 2, 0, 97, 0, 0,
    0, 65, 0, 0, 0, 0, 0]

def directoryEntries : List Entry :=
  [⟨[100, 47], false, [], []⟩, ⟨[97, 46, 98], false, [], []⟩]

theorem withDirectory_directory : Directory withDirectory 65 directoryEntries 162 := by
  apply Directory.cons
  · unfold isRecord
    decide
  · exact ⟨by decide, by decide, by decide⟩
  · decide
  · decide
  · decide
  · decide
  · apply Directory.cons
    · unfold isRecord
      decide
    · exact ⟨by decide, by decide, by decide⟩
    · decide
    · decide
    · decide
    · decide
    · exact Directory.nil 162

theorem withDirectory_wellFormed : WellFormed withDirectory directoryEntries where
  fits := by decide
  directory := by
    refine ⟨162, 162, ⟨by decide, by decide⟩, ?_, withDirectory_directory,
      le_refl _, ?_⟩
    · rintro f' hlt ⟨-, hrange⟩
      have hlength : withDirectory.length = 184 := rfl
      omega
    · unfold isRecord
      decide
  distinct := by decide
  names := by decide
  stored := by decide
  sizes := by decide

theorem lists_withDirectory : Lists withDirectory none directoryEntries := by
  refine (lists_iff withDirectory_wellFormed none).mpr ?_
  rw [if_pos (by decide)]
  show ∀ e ∈ directoryEntries, e.name.length < pathMaxLength
  decide

/-- With the extension `b`, the directory ends the walk before `a.b`. -/
theorem directory_ends_listing :
    ¬∀ (data : List UInt8) (es : List Entry) (validExts : Option Str), WellFormed data es →
      Lists data validExts es := by
  intro h
  obtain ⟨rounds, hrounds⟩ :=
    h withDirectory directoryEntries (some [98]) withDirectory_wellFormed
  obtain ⟨rounds', hrounds'⟩ := fileArchiveGetFileList_eq withDirectory_wellFormed (some [98])
  have heq := list_unique hrounds hrounds'
  revert heq
  decide

end Result

end RetroArch.File.ArchiveList
