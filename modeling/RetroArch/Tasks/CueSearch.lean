/- What the search of a cue sheet finds: the tracks as they are closed, and the tracks of a sheet
   whose commands come in order. -/

import Mathlib.Data.List.Find
import RetroArch.Tasks.CueTrack

namespace RetroArch.Tasks.Cue

open File.Pathname (strlcpy)
open Library.Memory

/-- A data track from where it starts in its file to where it stops. -/
structure Extent where
  file : Str
  start : ℤ
  stop : ℤ

/-- A track with its first index and its later ones. -/
structure Track where
  isData : Bool
  first : ℕ
  later : List ℕ

structure SheetFile where
  name : Str
  tracks : List Track

def Track.indices (track : Track) : List ℕ := track.first :: track.later

def indexEvent (index : ℕ) : Event := .index (some index)

def Track.events (track : Track) : List Event :=
  .track track.isData :: track.indices.map indexEvent

def SheetFile.events (file : SheetFile) : List Event :=
  .newFile :: .file file.name :: file.tracks.flatMap Track.events

/-- The first index of the next track, or the end of the file. -/
def nextStart (size : ℤ) : List Track → ℤ
  | [] => size
  | track :: _ => track.first

def dataTracksOf (file : Str) (size : ℤ) : List Track → List Extent
  | [] => []
  | track :: later =>
    (if track.isData then [⟨file, track.first, nextStart size later⟩] else []) ++
      dataTracksOf file size later

def SheetFile.size (given : Given) (file : SheetFile) : ℤ :=
  given.fileSize (lastFileOf given file.name)

def dataTracks (given : Given) (sheet : List SheetFile) : List Extent :=
  sheet.flatMap fun file =>
    dataTracksOf (lastFileOf given file.name) (file.size given) file.tracks

/-- The commands of the sheet are those of the files in their order, with other words between them,
and the indices of a file do not decrease and are below its size. -/
structure WellFormed (given : Given) (sheet : List SheetFile) : Prop where
  commands : ∃ content token read, given.sheet = some content ∧ poke given.block 0 0 = some token ∧
    events (content, token) = (read, true) ∧
      read.filter (· ≠ .other) = sheet.flatMap SheetFile.events
  sorted : ∀ file ∈ sheet, (file.tracks.flatMap Track.indices).Pairwise (· ≤ ·)
  inside : ∀ file ∈ sheet, ∀ index ∈ file.tracks.flatMap Track.indices,
    (index : ℤ) < file.size given

/-- The answer is `0`, and the triple is that of the track. -/
def Reports (given : Given) (result : Result) (track : Extent) : Prop :=
  result.ret = 0 ∧ ∃ found, result.found = some found ∧
    found.trackPath = strlcpy track.file given.maxLen ∧ (found.offset : ℤ) = track.start ∧
      (found.size : ℤ) = track.stop - track.start

structure Finds (given : Given) : Prop where
  written : ∀ first result, cueFindTrack given first = some result → result.ret = 0 →
    result.found ≠ none
  largest : ∀ sheet, WellFormed given sheet → ∃ result, ∃ track ∈ dataTracks given sheet,
    cueFindTrack given false = some result ∧ Reports given result track ∧
      ∀ other ∈ dataTracks given sheet, other.stop - other.start ≤ track.stop - track.start
  first : ∀ sheet, WellFormed given sheet → ∃ result track,
    (dataTracks given sheet).find? (fun track => track.start < track.stop) = some track ∧
      cueFindTrack given true = some result ∧ Reports given result track

/-- The size as the code compares it. -/
def Extent.size (extent : Extent) : ℕ := unsigned (extent.stop - extent.start)

/-- The candidate that an update compares. -/
def closing (cursor : Cursor) : List Extent :=
  if cursor.candIndex ≠ -1 then [⟨cursor.lastFile, cursor.candIndex, cursor.lastIndex⟩] else []

def isOtherTrack (cursor : Cursor) : Bool :=
  cursor.candTrack ≠ -1 && cursor.track ≠ cursor.candTrack

/-- The candidate that is compared at a command. -/
def closed (cursor : Cursor) : Event → List Extent
  | .newFile => closing (atFileEnd cursor)
  | .index (some index) =>
    if isOtherTrack cursor then closing { cursor with lastIndex := index } else []
  | _ => []

def advance (given : Given) (cursor : Cursor) : Event → Cursor
  | .newFile => { atFileEnd cursor with candIndex := -1 }
  | .file name =>
    { cursor with
      lastFile := lastFileOf given name
      fileSize := given.fileSize (lastFileOf given name) }
  | .track isData => { cursor with isData := isData, track := cursor.track + 1 }
  | .index (some index) =>
    openCand (if isOtherTrack cursor then { cursor with lastIndex := index, candIndex := -1 }
      else { cursor with lastIndex := index })
  | _ => cursor

/-- The candidates that are compared at the commands, in their order. -/
def extents (given : Given) : Cursor → List Event → List Extent
  | _, [] => []
  | cursor, event :: later =>
    closed cursor event ++ extents given (advance given cursor event) later

/-- And those that are compared up to the end of the sheet. -/
def allExtents (given : Given) (cursor : Cursor) (read : List Event) : List Extent :=
  extents given cursor read ++ closing (atFileEnd (read.foldl (advance given) cursor))

theorem extents_cons (given : Given) (cursor : Cursor) (event : Event) (later : List Event) :
    extents given cursor (event :: later) =
      closed cursor event ++ extents given (advance given cursor event) later := rfl

theorem allExtents_cons (given : Given) (cursor : Cursor) (event : Event) (later : List Event) :
    allExtents given cursor (event :: later) =
      closed cursor event ++ allExtents given (advance given cursor event) later :=
  List.append_assoc _ _ _

/-- The sheet cannot be opened, or has a time stamp that cannot be read before any track is closed
that is not empty. -/
def EndsBare (given : Given) : Prop :=
  ∀ content, given.sheet = some content → ∃ token before after, poke given.block 0 0 = some token ∧
    (events (content, token)).1 = before ++ .index none :: after ∧ .index none ∉ before ∧
      ∀ extent ∈ extents given (start given) before, extent.size = 0

structure Answerable (given : Given) : Prop where
  errno : given.errno = 0 → ¬EndsBare given
  track : ∀ sheet, WellFormed given sheet → ∃ track ∈ dataTracks given sheet,
    track.start < track.stop

section Taking

variable {maxLen : ℕ} {tracks : List Extent}

def Extent.found (maxLen : ℕ) (extent : Extent) : Found :=
  ⟨strlcpy extent.file maxLen, unsigned extent.start, extent.size⟩

/-- One comparison. -/
def take (maxLen : ℕ) (best : Best) (extent : Extent) : Best :=
  if extent.size > best.largest then ⟨extent.size, some (extent.found maxLen), 0⟩ else best

theorem take_bare {extent : Extent} (h : extent.size = 0) (best : Best) :
    take maxLen best extent = best := by
  rw [take, h, if_neg (Nat.not_lt_zero _)]

theorem foldl_bare (h : ∀ extent ∈ tracks, extent.size = 0) (best : Best) :
    tracks.foldl (take maxLen) best = best := by
  induction tracks with
  | nil => rfl
  | cons extent tracks ih =>
    rw [List.foldl_cons, take_bare (h extent List.mem_cons_self)]
    exact ih fun other hother => h other (List.mem_cons_of_mem extent hother)

theorem foldl_largest (h : ∃ extent ∈ tracks, 0 < extent.size) :
    ∃ track ∈ tracks, (∀ other ∈ tracks, other.size ≤ track.size) ∧ 0 < track.size ∧
      tracks.foldl (take maxLen) nothing = ⟨track.size, some (track.found maxLen), 0⟩ := by
  induction tracks using List.reverseRecOn with
  | nil => simp at h
  | append_singleton tracks last ih =>
    rw [List.foldl_append, List.foldl_cons, List.foldl_nil]
    by_cases hbefore : ∃ extent ∈ tracks, 0 < extent.size
    · obtain ⟨track, hmem, hlargest, hpos, hfold⟩ := ih hbefore
      rw [hfold, take]
      by_cases hlarger : last.size > track.size
      · rw [if_pos hlarger]
        refine ⟨last, List.mem_append_right _ List.mem_cons_self, ?_, by omega, rfl⟩
        intro other hother
        rcases List.mem_append.mp hother with hold | hnew
        · exact Nat.le_trans (hlargest other hold) (Nat.le_of_lt hlarger)
        · exact Nat.le_of_eq (congrArg Extent.size (List.mem_singleton.mp hnew))
      · rw [if_neg hlarger]
        refine ⟨track, List.mem_append_left _ hmem, ?_, hpos, rfl⟩
        intro other hother
        rcases List.mem_append.mp hother with hold | hnew
        · exact hlargest other hold
        · rw [List.mem_singleton.mp hnew]
          exact Nat.le_of_not_lt hlarger
    · have hbare : ∀ extent ∈ tracks, extent.size = 0 := fun extent hmem =>
        Nat.eq_zero_of_not_pos fun hpos => hbefore ⟨extent, hmem, hpos⟩
      obtain ⟨extent, hmem, hpos⟩ := h
      have hlast : 0 < last.size := by
        rcases List.mem_append.mp hmem with hold | hnew
        · exact absurd (hbare extent hold) (Nat.ne_of_gt hpos)
        · rw [← List.mem_singleton.mp hnew]
          exact hpos
      rw [foldl_bare hbare, take, if_pos (show last.size > nothing.largest from hlast)]
      refine ⟨last, List.mem_append_right _ List.mem_cons_self, ?_, hlast, rfl⟩
      intro other hother
      rcases List.mem_append.mp hother with hold | hnew
      · rw [hbare other hold]
        exact Nat.zero_le _
      · exact Nat.le_of_eq (congrArg Extent.size (List.mem_singleton.mp hnew))

end Taking

section Running

variable {given : Given} {cursor : Cursor} {best : Best} {event : Event} {read : List Event}
  {ended : Bool}

theorem updateCand_eq (maxLen : ℕ) (cursor : Cursor) (best : Best) :
    updateCand maxLen cursor best =
      (((closing cursor).any fun extent => best.largest < extent.size),
        { cursor with candIndex := -1 },
        { (closing cursor).foldl (take maxLen) best with rv := best.rv }) := by
  rw [updateCand, closing]
  by_cases hnone : cursor.candIndex = -1
  · rw [if_neg (not_not.mpr hnone), if_neg (not_not.mpr hnone)]
    simp [← hnone]
  · rw [if_pos hnone, if_pos hnone]
    by_cases hlarger : unsigned (cursor.lastIndex - cursor.candIndex) > best.largest
    · simp [take, Extent.size, Extent.found, hlarger]
    · simp [take, Extent.size, hlarger]

theorem foldl_rv (maxLen : ℕ) (cursor : Cursor) (best : Best) :
    ((closing cursor).foldl (take maxLen) best).rv =
      if (closing cursor).any fun extent => best.largest < extent.size then 0 else best.rv := by
  rw [closing]
  split_ifs with hsome hany hany
  · simp at hany
    simp [take, hany]
  · simp at hany
    simp [take, Nat.not_lt.mpr hany]
  · simp at hany
  · rfl

theorem settle_false (maxLen : ℕ) (cursor : Cursor) (best : Best) :
    settle maxLen false cursor best = .goOn { cursor with candIndex := -1 }
      ((closing cursor).foldl (take maxLen) best) := by
  have hrv := foldl_rv maxLen cursor best
  rw [settle, updateCand_eq]
  generalize (closing cursor).foldl (take maxLen) best = after at hrv ⊢
  obtain ⟨largest, found, rv⟩ := after
  dsimp only at hrv ⊢
  by_cases hany : ((closing cursor).any fun extent => best.largest < extent.size) = true
  · rw [if_pos hany] at hrv ⊢
    rw [hrv, if_neg Bool.false_ne_true]
  · rw [if_neg hany] at hrv ⊢
    rw [hrv]

/-- While nothing is found, an update ends the search for the first track at one that is not
empty. -/
theorem settle_true (maxLen : ℕ) (cursor : Cursor) :
    settle maxLen true cursor nothing =
      match (closing cursor).find? (0 < ·.size) with
      | some extent => .clean ⟨extent.size, some (extent.found maxLen), 0⟩
      | none => .goOn { cursor with candIndex := -1 } nothing := by
  rw [settle, updateCand_eq, closing]
  by_cases hnone : cursor.candIndex = -1
  · rw [if_neg (not_not.mpr hnone)]
    rfl
  · rw [if_pos hnone]
    by_cases hpos : 0 < (Extent.mk cursor.lastFile cursor.candIndex cursor.lastIndex).size
    · simp [nothing, take, hpos]
    · simp [nothing, take, hpos]

theorem handle_false (hread : event ≠ .index none) :
    handle given false cursor best event =
      .goOn (advance given cursor event)
        ((closed cursor event).foldl (take given.maxLen) best) := by
  cases event with
  | newFile => exact settle_false given.maxLen (atFileEnd cursor) best
  | file name => rfl
  | track isData => rfl
  | other => rfl
  | index stamp =>
    cases stamp with
    | none => exact absurd rfl hread
    | some index =>
      rw [handle, advance, closed, isOtherTrack]
      dsimp only
      by_cases hother : cursor.candTrack ≠ -1 ∧ cursor.track ≠ cursor.candTrack
      · rw [if_pos hother, settle_false, if_pos (by simpa using hother),
          if_pos (by simpa using hother)]
      · rw [if_neg hother, if_neg (by simpa using hother), if_neg (by simpa using hother)]
        rfl

theorem handle_true (hread : event ≠ .index none) :
    handle given true cursor nothing event =
      match (closed cursor event).find? (0 < ·.size) with
      | some extent => .clean ⟨extent.size, some (extent.found given.maxLen), 0⟩
      | none => .goOn (advance given cursor event) nothing := by
  cases event with
  | newFile => exact settle_true given.maxLen (atFileEnd cursor)
  | file name => rfl
  | track isData => rfl
  | other => rfl
  | index stamp =>
    cases stamp with
    | none => exact absurd rfl hread
    | some index =>
      rw [handle, advance, closed, isOtherTrack]
      dsimp only
      by_cases hother : cursor.candTrack ≠ -1 ∧ cursor.track ≠ cursor.candTrack
      · rw [if_pos hother, settle_true, if_pos (by simpa using hother),
          if_pos (by simpa using hother)]
        cases (closing { cursor with lastIndex := index }).find? (0 < ·.size) with
        | none => rfl
        | some extent => rfl
      · rw [if_neg hother, if_neg (by simpa using hother), if_neg (by simpa using hother)]
        rfl

theorem run_cons (first : Bool) :
    run given first cursor best (event :: read) ended =
      match handle given first cursor best event with
      | .goOn cursor best => run given first cursor best read ended
      | .clean best => some ⟨best.rv, best.found⟩
      | .error => some ⟨-given.errno, best.found⟩ := rfl

theorem run_false (hread : .index none ∉ read) :
    run given false cursor best read ended =
      if ended then
        let after := (allExtents given cursor read).foldl (take given.maxLen) best
        some ⟨after.rv, after.found⟩
      else none := by
  induction read generalizing cursor best with
  | nil =>
    change (if ended then _ else none) = _
    rw [updateCand_eq, show allExtents given cursor [] = closing (atFileEnd cursor) from rfl]
    dsimp only
    rw [foldl_rv]
  | cons event read ih =>
    rw [List.mem_cons, not_or] at hread
    rw [run_cons, handle_false (Ne.symm hread.1)]
    dsimp only
    rw [ih hread.2, allExtents_cons, List.foldl_append]

theorem run_false_bad {before after : List Event} (hread : .index none ∉ before) :
    run given false cursor best (before ++ .index none :: after) ended =
      some ⟨-given.errno,
        ((extents given cursor before).foldl (take given.maxLen) best).found⟩ := by
  induction before generalizing cursor best with
  | nil => rfl
  | cons event before ih =>
    rw [List.mem_cons, not_or] at hread
    rw [List.cons_append, run_cons, handle_false (Ne.symm hread.1)]
    dsimp only
    rw [ih hread.2, extents_cons, List.foldl_append]

/-- The search for the first track. -/
theorem run_true (hread : .index none ∉ read) :
    run given true cursor nothing read ended =
      match (extents given cursor read).find? (0 < ·.size) with
      | some extent => some ⟨0, some (extent.found given.maxLen)⟩
      | none =>
        if ended then
          match (closing (atFileEnd (read.foldl (advance given) cursor))).find? (0 < ·.size) with
          | some extent => some ⟨0, some (extent.found given.maxLen)⟩
          | none => some ⟨-einval, none⟩
        else none := by
  induction read generalizing cursor with
  | nil =>
    change (if ended then _ else none) = if ended then _ else none
    rw [updateCand_eq]
    dsimp only [List.foldl_nil]
    generalize atFileEnd cursor = last
    rw [closing]
    by_cases hnone : last.candIndex = -1
    · rw [if_neg (not_not.mpr hnone)]
      rfl
    · rw [if_pos hnone]
      by_cases hpos : 0 < (Extent.mk last.lastFile last.candIndex last.lastIndex).size
      · simp [nothing, take, hpos]
      · simp [nothing, take, hpos]
  | cons event read ih =>
    rw [List.mem_cons, not_or] at hread
    rw [run_cons, handle_true (Ne.symm hread.1), extents_cons, List.find?_append,
      List.foldl_cons]
    cases (closed cursor event).find? (0 < ·.size) with
    | none =>
      dsimp only
      rw [ih hread.2, Option.none_or]
    | some extent => rfl

theorem run_true_bad {before after : List Event} (hread : .index none ∉ before) :
    run given true cursor nothing (before ++ .index none :: after) ended =
      match (extents given cursor before).find? (0 < ·.size) with
      | some extent => some ⟨0, some (extent.found given.maxLen)⟩
      | none => some ⟨-given.errno, none⟩ := by
  induction before generalizing cursor with
  | nil => rfl
  | cons event before ih =>
    rw [List.mem_cons, not_or] at hread
    rw [List.cons_append, run_cons, handle_true (Ne.symm hread.1), extents_cons,
      List.find?_append]
    cases (closed cursor event).find? (0 < ·.size) with
    | none =>
      dsimp only
      rw [ih hread.2, Option.none_or]
    | some extent => rfl

end Running

section Sheets

variable {given : Given} {cursor : Cursor} {read : List Event}

theorem extents_filter (cursor : Cursor) (read : List Event) :
    allExtents given cursor (read.filter (· ≠ .other)) = allExtents given cursor read := by
  induction read generalizing cursor with
  | nil => rfl
  | cons event read ih =>
    by_cases hother : event = .other
    · rw [List.filter_cons_of_neg (by simpa using hother), ih, hother]
      rfl
    · rw [List.filter_cons_of_pos (by simpa using hother)]
      rw [allExtents_cons, allExtents_cons, ih]

/-- A candidate belongs to a track that has begun, in a file with a size. -/
structure Ready (cursor : Cursor) : Prop where
  track : cursor.candTrack ≤ cursor.track
  counted : 0 ≤ cursor.track
  candidate : cursor.candIndex ≠ -1 → cursor.candTrack ≠ -1 ∧ cursor.fileSize ≠ -1

theorem Ready.none (h : Ready cursor) (hbegun : cursor.candTrack = -1) :
    cursor.candIndex = -1 := by
  by_contra hsome
  exact (h.candidate hsome).1 hbegun

/-- The candidate up to where it stops. -/
def pending (cursor : Cursor) (stop : ℤ) : List Extent :=
  if cursor.candIndex ≠ -1 then [⟨cursor.lastFile, cursor.candIndex, stop⟩] else []

theorem extents_later (later : List ℕ)
    (hcand : cursor.isData = true → cursor.candTrack = cursor.track ∧ cursor.candIndex ≠ -1)
    (hnone : cursor.isData = false → cursor.candIndex = -1) :
    ∃ last, allExtents given cursor (later.map indexEvent ++ read) =
      allExtents given { cursor with lastIndex := last } read := by
  induction later generalizing cursor with
  | nil => exact ⟨cursor.lastIndex, rfl⟩
  | cons index later ih =>
    have hclosed : closed cursor (indexEvent index) = [] := by
      rw [indexEvent, closed, isOtherTrack]
      split_ifs with hother
      · cases hdata : cursor.isData with
        | true => simp [(hcand hdata).1] at hother
        | false => simp [closing, hnone hdata]
      · rfl
    have hadvance : advance given cursor (indexEvent index) =
        { cursor with lastIndex := (index : ℤ) } := by
      rw [indexEvent, advance, openCand]
      cases hdata : cursor.isData with
      | true =>
        obtain ⟨htrack, hindex⟩ := hcand hdata
        simp [isOtherTrack, htrack, hindex]
      | false =>
        have hindex := hnone hdata
        split_ifs <;> simp_all
    rw [List.map_cons, List.cons_append, allExtents_cons, hclosed, hadvance, List.nil_append]
    exact @ih { cursor with lastIndex := (index : ℤ) } hcand hnone

/-- The first index of a track closes the candidate. -/
theorem extents_first (hready : Ready cursor) (hsize : cursor.fileSize ≠ -1) (isData : Bool)
    (first : ℕ) :
    ∃ cursor' : Cursor, Ready cursor' ∧ cursor'.lastFile = cursor.lastFile ∧
      cursor'.fileSize = cursor.fileSize ∧ cursor'.isData = isData ∧
      (isData = true → cursor'.candTrack = cursor'.track ∧ cursor'.candIndex = first) ∧
      (isData = false → cursor'.candIndex = -1) ∧
      ∀ read, allExtents given cursor (.track isData :: indexEvent first :: read) =
        pending cursor first ++ allExtents given cursor' read := by
  have htrack := hready.track
  have hcounted := hready.counted
  have hclosed : closed (advance given cursor (.track isData)) (indexEvent first) =
      pending cursor first := by
    rw [advance, indexEvent, closed, isOtherTrack]
    by_cases hbegun : cursor.candTrack = -1
    · simp [hbegun, pending, hready.none hbegun]
    · have hother : cursor.track + 1 ≠ cursor.candTrack := by omega
      simp [hbegun, hother, closing, pending]
  have hadvance : advance given (advance given cursor (.track isData)) (indexEvent first) =
      openCand { cursor with
        isData := isData
        track := cursor.track + 1
        lastIndex := first
        candIndex := -1 } := by
    rw [advance, indexEvent, advance, isOtherTrack]
    by_cases hbegun : cursor.candTrack = -1
    · simp [hbegun, hready.none hbegun]
    · have hother : cursor.track + 1 ≠ cursor.candTrack := by omega
      simp [hbegun, hother]
  refine ⟨_, ?_, ?_, ?_, ?_, ?_, ?_, fun read => by
    rw [allExtents_cons, allExtents_cons, hclosed, hadvance]
    rfl⟩
  · cases isData with
    | true =>
      change Ready (Cursor.mk first first (cursor.track + 1) (cursor.track + 1) cursor.fileSize
        true cursor.lastFile)
      refine ⟨Int.le_refl _, ?_, fun _ => ⟨?_, hsize⟩⟩
      · change 0 ≤ cursor.track + 1
        omega
      · change cursor.track + 1 ≠ -1
        omega
    | false =>
      change Ready (Cursor.mk first (-1) cursor.candTrack (cursor.track + 1) cursor.fileSize
        false cursor.lastFile)
      refine ⟨?_, ?_, fun hsome => absurd rfl hsome⟩
      · change cursor.candTrack ≤ cursor.track + 1
        omega
      · change 0 ≤ cursor.track + 1
        omega
  · cases isData <;> rfl
  · cases isData <;> rfl
  · cases isData <;> rfl
  · rintro rfl
    exact ⟨rfl, rfl⟩
  · rintro rfl
    rfl

/-- The tracks of a file, when what comes behind them closes the last candidate at its end. -/
theorem extents_tracks {size : ℤ} {tracks : List Track} {later : List Extent}
    (hready : Ready cursor) (hsize : cursor.fileSize = size) (hpositive : tracks ≠ [] → 0 < size)
    (hread : ∀ cursor' : Cursor, Ready cursor' → cursor'.fileSize = size →
      allExtents given cursor' read = pending cursor' size ++ later) :
    allExtents given cursor (tracks.flatMap Track.events ++ read) =
      pending cursor (nextStart size tracks) ++ dataTracksOf cursor.lastFile size tracks ++
        later := by
  induction tracks generalizing cursor with
  | nil =>
    rw [List.flatMap_nil, List.nil_append, hread cursor hready hsize, dataTracksOf,
      List.append_nil]
    rfl
  | cons track tracks ih =>
    have hpos := hpositive (List.cons_ne_nil track tracks)
    obtain ⟨cursor', hready', hfile, hsize', hdata, hyes, hno, hfirst⟩ :=
      @extents_first given cursor hready (by omega) track.isData track.first
    rw [List.flatMap_cons, Track.events, Track.indices, List.map_cons, List.cons_append,
      List.cons_append, List.cons_append, List.cons_append, List.append_assoc, hfirst]
    obtain ⟨last, hlater⟩ := @extents_later given cursor'
      (tracks.flatMap Track.events ++ read) track.later
      (fun h => by
        rw [hdata] at h
        obtain ⟨htrack, hindex⟩ := hyes h
        exact ⟨htrack, by omega⟩)
      (fun h => by
        rw [hdata] at h
        exact hno h)
    rw [hlater, @ih { cursor' with lastIndex := last }
      ⟨hready'.track, hready'.counted, hready'.candidate⟩ (hsize'.trans hsize) (fun _ => hpos)]
    have hpending : pending { cursor' with lastIndex := last } (nextStart size tracks) =
        if track.isData then [⟨cursor.lastFile, track.first, nextStart size tracks⟩] else [] := by
      rw [pending]
      dsimp only
      cases hkind : track.isData with
      | true =>
        have hsome : cursor'.candIndex ≠ -1 := by
          rw [(hyes hkind).2]
          omega
        rw [if_pos hsome, if_pos rfl, hfile, (hyes hkind).2]
      | false => rw [if_neg (not_not.mpr (hno hkind)), if_neg Bool.false_ne_true]
    rw [dataTracksOf, nextStart, hpending, List.append_assoc, List.append_assoc,
      List.append_assoc]
    dsimp only
    rw [hfile]

theorem closing_end (hready : Ready cursor) :
    closing (atFileEnd cursor) = pending cursor cursor.fileSize := by
  rw [closing, atFileEnd, pending]
  by_cases hsize : cursor.fileSize = -1
  · have hnone : cursor.candIndex = -1 := by
      by_contra hsome
      exact (hready.candidate hsome).2 hsize
    simp [hsize, hnone]
  · simp [hsize]

theorem extents_files {sheet : List SheetFile} (hready : Ready cursor)
    (hsize : ∀ file ∈ sheet, file.tracks ≠ [] → 0 < file.size given) :
    allExtents given cursor (sheet.flatMap SheetFile.events) =
      pending cursor cursor.fileSize ++ dataTracks given sheet := by
  induction sheet generalizing cursor with
  | nil =>
    rw [List.flatMap_nil, allExtents, extents, List.foldl_nil, closing_end hready]
    exact (List.append_nil _).symm
  | cons file sheet ih =>
    have hhere := hsize file List.mem_cons_self
    have hlater := fun other hother => hsize other (List.mem_cons_of_mem file hother)
    have htrack : (atFileEnd cursor).candTrack = cursor.candTrack ∧
        (atFileEnd cursor).track = cursor.track := by
      rw [atFileEnd]
      split_ifs <;> exact ⟨rfl, rfl⟩
    have hfresh : Ready (advance given (advance given cursor .newFile) (.file file.name)) := by
      refine ⟨?_, ?_, fun hsome => absurd rfl hsome⟩
      · change (atFileEnd cursor).candTrack ≤ (atFileEnd cursor).track
        rw [htrack.1, htrack.2]
        exact hready.track
      · change 0 ≤ (atFileEnd cursor).track
        rw [htrack.2]
        exact hready.counted
    rw [List.flatMap_cons, SheetFile.events, List.cons_append, List.cons_append, allExtents_cons,
      allExtents_cons, closed, closing_end hready,
      extents_tracks hfresh rfl hhere (fun cursor' hready' hsize' => by
        rw [ih hready' hlater, hsize'])]
    rfl

end Sheets

section Sizes

variable {given : Given} {sheet : List SheetFile} {track : Extent}

theorem dataTracksOf_inside {file : Str} {size : ℤ} {tracks : List Track}
    (hsorted : (tracks.flatMap Track.indices).Pairwise (· ≤ ·))
    (hinside : ∀ index ∈ tracks.flatMap Track.indices, (index : ℤ) < size) :
    ∀ extent ∈ dataTracksOf file size tracks,
      0 ≤ extent.start ∧ extent.start ≤ extent.stop ∧ extent.stop ≤ size := by
  induction tracks with
  | nil => exact fun extent hnone => nomatch hnone
  | cons track tracks ih =>
    rw [List.flatMap_cons] at hsorted hinside
    obtain ⟨-, hlater, hacross⟩ := List.pairwise_append.mp hsorted
    intro extent hextent
    rw [dataTracksOf] at hextent
    rcases List.mem_append.mp hextent with hhead | htail
    · split_ifs at hhead with hdata
      · rw [List.mem_singleton.mp hhead]
        have hfirst : track.first ∈ track.indices := List.mem_cons_self
        refine ⟨Int.natCast_nonneg _, ?_⟩
        cases tracks with
        | nil =>
          exact ⟨Int.le_of_lt (hinside _ (List.mem_append_left _ hfirst)), Int.le_refl _⟩
        | cons next tracks =>
          have hnext : next.first ∈ (next :: tracks).flatMap Track.indices := by
            rw [List.flatMap_cons]
            exact List.mem_append_left _ List.mem_cons_self
          exact ⟨Int.ofNat_le.mpr (hacross _ hfirst _ hnext),
            Int.le_of_lt (hinside _ (List.mem_append_right _ hnext))⟩
      · exact nomatch hhead
    · exact ih hlater (fun index hindex => hinside index (List.mem_append_right _ hindex))
        extent htail

theorem unsigned_eq {value : ℤ} (hpos : 0 ≤ value) (hlt : value < 2 ^ 63) :
    (unsigned value : ℤ) = value := by
  rw [unsigned, Int.emod_eq_of_lt hpos (by omega), Int.toNat_of_nonneg hpos]

theorem dataTracks_sizes (h : WellFormed given sheet) (htrack : track ∈ dataTracks given sheet) :
    (track.size : ℤ) = track.stop - track.start ∧ (unsigned track.start : ℤ) = track.start := by
  obtain ⟨file, hfile, hextent⟩ := List.mem_flatMap.mp htrack
  obtain ⟨hstart, hstop, hend⟩ :=
    dataTracksOf_inside (h.sorted file hfile) (h.inside file hfile) track hextent
  have hlt := given.fileSize_lt (lastFileOf given file.name)
  rw [SheetFile.size] at hend
  exact ⟨unsigned_eq (by omega) (by omega), unsigned_eq hstart (by omega)⟩

theorem reports_found (h : WellFormed given sheet) (htrack : track ∈ dataTracks given sheet) :
    Reports given ⟨0, some (track.found given.maxLen)⟩ track := by
  obtain ⟨hsize, hstart⟩ := dataTracks_sizes h htrack
  exact ⟨rfl, _, rfl, rfl, hstart, hsize⟩

end Sizes

section Results

variable {given : Given} {sheet : List SheetFile}

theorem sheet_readable (sheet : List SheetFile) :
    .index none ∉ sheet.flatMap SheetFile.events := by
  intro hmem
  obtain ⟨file, -, hfile⟩ := List.mem_flatMap.mp hmem
  rw [SheetFile.events, List.mem_cons, List.mem_cons] at hfile
  rcases hfile with hnew | hname | htracks
  · exact nomatch hnew
  · exact nomatch hname
  · obtain ⟨track, -, htrack⟩ := List.mem_flatMap.mp htracks
    rcases List.mem_cons.mp htrack with hkind | hindices
    · exact nomatch hkind
    · obtain ⟨index, -, hindex⟩ := List.mem_map.mp hindices
      exact nomatch hindex

theorem wellFormed_run (h : WellFormed given sheet) (first : Bool) :
    ∃ read, cueFindTrack given first = run given first (start given) nothing read true ∧
      .index none ∉ read ∧ allExtents given (start given) read = dataTracks given sheet := by
  obtain ⟨content, token, read, hsheet, htoken, hread, hcommands⟩ := h.commands
  refine ⟨read, ?_, ?_, ?_⟩
  · rw [cueFindTrack, hsheet]
    dsimp only
    rw [htoken, Option.bind_some, hread]
  · intro hmem
    apply sheet_readable sheet
    rw [← hcommands]
    exact List.mem_filter.mpr ⟨hmem, rfl⟩
  · have hready : Ready (start given) :=
      ⟨Int.negSucc_le_zero 0, Int.le_refl _, fun hsome => absurd rfl hsome⟩
    rw [← extents_filter, hcommands, extents_files hready]
    · rfl
    · intro file hfile hsome
      obtain ⟨track, tracks, htracks⟩ := List.exists_cons_of_ne_nil hsome
      have hinside := h.inside file hfile track.first (by
        rw [htracks, List.flatMap_cons]
        exact List.mem_append_left _ List.mem_cons_self)
      omega

theorem run_true_ended {cursor : Cursor} {read : List Event} (hread : .index none ∉ read) :
    run given true cursor nothing read true =
      match (allExtents given cursor read).find? (0 < ·.size) with
      | some extent => some ⟨0, some (extent.found given.maxLen)⟩
      | none => some ⟨-einval, none⟩ := by
  rw [run_true hread, allExtents, List.find?_append]
  cases (extents given cursor read).find? (0 < ·.size) with
  | none => rfl
  | some extent => rfl

theorem finds_largest (h : WellFormed given sheet)
    (hsome : ∃ track ∈ dataTracks given sheet, track.start < track.stop) :
    ∃ result, ∃ track ∈ dataTracks given sheet,
      cueFindTrack given false = some result ∧ Reports given result track ∧
        ∀ other ∈ dataTracks given sheet, other.stop - other.start ≤ track.stop - track.start := by
  obtain ⟨read, hfind, hread, hextents⟩ := wellFormed_run h false
  obtain ⟨some', hsome', hlt⟩ := hsome
  obtain ⟨track, htrack, hlargest, -, hfold⟩ := @foldl_largest given.maxLen _
    ⟨some', hsome', by have hsize := (dataTracks_sizes h hsome').1; omega⟩
  refine ⟨_, track, htrack, ?_, reports_found h htrack, ?_⟩
  · rw [hfind, run_false hread, if_pos rfl, hextents, hfold]
  · intro other hother
    have hle := hlargest other hother
    have hsize := (dataTracks_sizes h htrack).1
    have hsize' := (dataTracks_sizes h hother).1
    omega

theorem finds_first (h : WellFormed given sheet)
    (hsome : ∃ track ∈ dataTracks given sheet, track.start < track.stop) :
    ∃ result track,
      (dataTracks given sheet).find? (fun track => track.start < track.stop) = some track ∧
        cueFindTrack given true = some result ∧ Reports given result track := by
  obtain ⟨read, hfind, hread, hextents⟩ := wellFormed_run h true
  have hsame : (dataTracks given sheet).find? (0 < ·.size) =
      (dataTracks given sheet).find? (fun track => track.start < track.stop) := by
    apply List.find?_congr
    intro track htrack
    have hsize := (dataTracks_sizes h htrack).1
    apply decide_eq_decide.mpr
    omega
  obtain ⟨some', hsome', hlt⟩ := hsome
  cases hfirst : (dataTracks given sheet).find? (fun track => track.start < track.stop) with
  | none =>
    have hnone := List.find?_eq_none.mp hfirst some' hsome'
    exact absurd (decide_eq_true hlt) hnone
  | some track =>
    refine ⟨_, track, rfl, ?_, reports_found h (List.mem_of_find?_eq_some hfirst)⟩
    rw [hfind, run_true_ended hread, hextents, hsame, hfirst]

theorem foldl_found (tracks : List Extent) :
    (∀ extent ∈ tracks, extent.size = 0) ∨
      ∃ found, (tracks.foldl (take given.maxLen) nothing).found = some found := by
  by_cases hsome : ∃ extent ∈ tracks, 0 < extent.size
  · obtain ⟨track, -, -, -, hfold⟩ := @foldl_largest given.maxLen _ hsome
    exact Or.inr ⟨_, congrArg Best.found hfold⟩
  · refine Or.inl fun extent hmem => Nat.eq_zero_of_not_pos fun hpos => ?_
    exact hsome ⟨extent, hmem, hpos⟩

theorem find?_bare {tracks : List Extent} (h : tracks.find? (0 < ·.size) = none) :
    ∀ extent ∈ tracks, extent.size = 0 := by
  intro extent hmem
  have hnone := List.find?_eq_none.mp h extent hmem
  exact Nat.eq_zero_of_not_pos fun hpos => hnone (decide_eq_true hpos)

theorem run_written {first ended : Bool} {read : List Event} {result : Result}
    (hread : .index none ∉ read)
    (h : run given first (start given) nothing read ended = some result) (hret : result.ret = 0) :
    result.found ≠ none := by
  have hinvalid : -einval ≠ 0 := by decide
  cases first with
  | false =>
    rw [run_false hread] at h
    split_ifs at h
    obtain rfl := Option.some.inj h
    rcases @foldl_found given (allExtents given (start given) read) with hbare | hfound
    · rw [foldl_bare hbare] at hret
      exact absurd hret hinvalid
    · obtain ⟨found, hfound⟩ := hfound
      dsimp only
      rw [hfound]
      exact Option.some_ne_none found
  | true =>
    rw [run_true hread] at h
    split at h
    · obtain rfl := Option.some.inj h
      exact Option.some_ne_none _
    · split_ifs at h
      split at h
      · obtain rfl := Option.some.inj h
        exact Option.some_ne_none _
      · obtain rfl := Option.some.inj h
        exact absurd hret hinvalid

/-- And one that stops at a time stamp, unless nothing was found and `errno` is `0`. -/
theorem run_bad_written {first ended : Bool} {before after : List Event} {result : Result}
    (hbefore : .index none ∉ before)
    (herrno : given.errno = 0 → ∃ extent ∈ extents given (start given) before, extent.size ≠ 0)
    (h : run given first (start given) nothing (before ++ .index none :: after) ended =
      some result) (hret : result.ret = 0) : result.found ≠ none := by
  cases first with
  | false =>
    rw [run_false_bad hbefore] at h
    obtain rfl := Option.some.inj h
    obtain ⟨extent, hmem, hsize⟩ := herrno (by dsimp only at hret; omega)
    rcases @foldl_found given (extents given (start given) before) with hbare | hfound
    · exact absurd (hbare extent hmem) hsize
    · obtain ⟨found, hfound⟩ := hfound
      dsimp only
      rw [hfound]
      exact Option.some_ne_none found
  | true =>
    rw [run_true_bad hbefore] at h
    split at h
    · obtain rfl := Option.some.inj h
      exact Option.some_ne_none _
    · next hnone =>
        obtain rfl := Option.some.inj h
        obtain ⟨extent, hmem, hsize⟩ := herrno (by dsimp only at hret; omega)
        exact absurd (find?_bare hnone extent hmem) hsize

theorem finds_of_answerable (h : Answerable given) : Finds given where
  written first result hfind hret := by
    rw [cueFindTrack] at hfind
    split at hfind
    · next hsheet =>
        obtain rfl := Option.some.inj hfind
        have hbare : EndsBare given := fun content hcontent => by
          rw [hsheet] at hcontent
          exact nomatch hcontent
        exact absurd hbare (h.errno (by dsimp only at hret; omega))
    · next content hsheet =>
        obtain ⟨token, htoken, hrun⟩ := Option.bind_eq_some_iff.mp hfind
        change run given first (start given) nothing (events (content, token)).1
          (events (content, token)).2 = some result at hrun
        by_cases hbad : .index none ∈ (events (content, token)).1
        · obtain ⟨before, after, hsplit, hbefore⟩ := List.eq_append_cons_of_mem hbad
          rw [hsplit] at hrun
          refine run_bad_written hbefore (fun herrno => ?_) hrun hret
          by_contra hnone
          push Not at hnone
          apply h.errno herrno
          intro content' hcontent'
          rw [hsheet] at hcontent'
          obtain rfl := Option.some.inj hcontent'
          exact ⟨token, before, after, htoken, hsplit, hbefore, hnone⟩
        · exact run_written hbad hrun hret
  largest sheet hsheet := finds_largest hsheet (h.track sheet hsheet)
  first sheet hsheet := finds_first hsheet (h.track sheet hsheet)

theorem answerable_of_finds (h : Finds given) : Answerable given where
  errno herrno hbare := by
    cases hsheet : given.sheet with
    | none =>
      apply h.written false ⟨-given.errno, none⟩ _ _ rfl
      · rw [cueFindTrack, hsheet]
      · rw [herrno]
        rfl
    | some content =>
      obtain ⟨token, before, after, htoken, hread, hbefore, hempty⟩ := hbare content hsheet
      apply h.written false ⟨-given.errno, none⟩ _ _ rfl
      · rw [cueFindTrack, hsheet]
        dsimp only
        rw [htoken, Option.bind_some, hread, run_false_bad hbefore, foldl_bare hempty]
        rfl
      · rw [herrno]
        rfl
  track sheet hsheet := by
    obtain ⟨result, track, hfirst, -⟩ := h.first sheet hsheet
    exact ⟨track, List.mem_of_find?_eq_some hfirst, by simpa using List.find?_some hfirst⟩

theorem finds_iff (given : Given) : Finds given ↔ Answerable given := by
  constructor
  · exact answerable_of_finds
  · exact finds_of_answerable

end Results

end RetroArch.Tasks.Cue
