/- Pushing an entry to the top of a playlist. -/

import RetroArch.File.Pathname
import RetroArch.Playlist.Entry

namespace RetroArch.Playlist.Push

open File.Config (pathMaxLength)
open File.Pathname

/-- An entry with the texts its strings have. -/
structure Record where
  path : Option Text
  label : Option Text
  corePath : Option Text
  coreName : Option Text
  dbName : Option Text
  crc32 : Option Text
  subsystemIdent : Option Text
  subsystemName : Option Text
  subsystemRoms : Option (List Text)
  runtime : Runtime
  deriving DecidableEq

/-- What resolving a path in a buffer does: doing it again changes nothing, and the buffer holds a
path afterwards. -/
structure Resolver where
  resolve : Text → Text
  idempotent : ∀ p, resolve (resolve p) = resolve p
  nonempty : ∀ p, p ≠ [] → resolve p ≠ []
  fits : ∀ p, (resolve p).length < pathMaxLength

section Paths

/-- `DETECT` -/
def detect : Text := [68, 69, 84, 69, 67, 84]

variable (resolver : Resolver)

/-- A path copied to a buffer and resolved. -/
def Resolver.realPath (path : Text) : Text := resolver.resolve (strlcpy path pathMaxLength)

def Resolver.realCorePath (corePath : Text) : Text :=
  let copy := strlcpy corePath pathMaxLength
  if copy = detect then copy else resolver.resolve copy

/-- A path is only resolved where there is one. -/
def Resolver.realOf (path : Option Text) : Text :=
  if isEmpty path then [] else resolver.realPath (path.getD [])

/-- With fuzzy matching of archives off. -/
def playlistPathEqual (realPath : Text) (entryPath : Option Text) : Bool :=
  if realPath = [] || isEmpty entryPath then false
  else
    let entryRealPath := resolver.realPath (entryPath.getD [])
    if entryRealPath = [] then false else decide (realPath = entryRealPath)

def playlistCorePathEqual (realCorePath : Text) (entryCorePath : Option Text) : Bool :=
  if realCorePath = [] || isEmpty entryCorePath then false
  else
    let entryRealCorePath := resolver.realCorePath (entryCorePath.getD [])
    if entryRealCorePath = [] then false else decide (realCorePath = entryRealCorePath)

def pathRemoveExtension (path : Text) : Text :=
  if path = [] then path
  else
    match strrchr dot (pathBasename path) with
    | some last => path.take (path.length - last.length)
    | none => path

def fillPathnameBaseNoext (inPath : Text) (size : ℕ) : Text :=
  pathRemoveExtension (strlcpy (pathBasename inPath) size)

end Paths

section Push

variable (resolver : Resolver)

/-- The three tests on a field that must be empty in both or the same in both. -/
def fieldDiffers (mine other : Option Text) : Bool :=
  (!isEmpty mine && !isEmpty other && mine ≠ other) || (isEmpty mine && !isEmpty other) ||
    (!isEmpty mine && isEmpty other)

/-- There is no result where the entry of the list has no list of ROMs to compare with. -/
def romsEqual (entry other : Record) : Option Bool :=
  match entry.subsystemRoms with
  | none => some true
  | some mine =>
    other.subsystemRoms.map fun roms =>
      if mine.length ≠ roms.length then false
      else (mine.zip roms).all fun (rom, otherRom) =>
        playlistPathEqual resolver (resolver.realOf (some rom)) (some otherRom)

/-- The tests before the lists of ROMs. -/
def agrees (realPath realCorePath : Text) (entry other : Record) : Bool :=
  ((realPath = [] && isEmpty other.path) || playlistPathEqual resolver realPath other.path) &&
    playlistCorePathEqual resolver realCorePath other.corePath &&
    !fieldDiffers entry.subsystemIdent other.subsystemIdent &&
    !fieldDiffers entry.subsystemName other.subsystemName

/-- The loop over the list: the index of the entry that is seen again. -/
def findSeen (realPath realCorePath : Text) (entry : Record) :
    List Record → Option (Option ℕ)
  | [] => some none
  | other :: rest =>
    if agrees resolver realPath realCorePath entry other then
      (romsEqual resolver entry other).bind fun equal =>
        if equal then some (some 0)
        else (findSeen realPath realCorePath entry rest).map (Option.map (· + 1))
    else (findSeen realPath realCorePath entry rest).map (Option.map (· + 1))

/-- A blank of an entry that the pushed one fills. -/
def fills (mine other : Option Text) : Bool := other = none && !isEmpty mine

def fillBlank (mine other : Option Text) : Option Text := if fills mine other then mine else other

def entryUpdated (entry other : Record) : Bool :=
  fills entry.label other.label || fills entry.crc32 other.crc32 ||
    fills entry.dbName other.dbName

def fillBlanks (entry other : Record) : Record :=
  { other with
    label := fillBlank entry.label other.label
    crc32 := fillBlank entry.crc32 other.crc32
    dbName := fillBlank entry.dbName other.dbName }

/-- `memmove(entries + 1, entries, n * sizeof(struct playlist_entry))`; there is no result where it
leaves the array. -/
def moveUp (slots : List Record) (n : ℕ) : Option (List Record) :=
  if n + 1 ≤ slots.length then
    some (slots.take 1 ++ (slots.take n ++ slots.drop (n + 1)))
  else none

/-- A string that is copied where it is not empty. -/
def copied (text : Option Text) : Option Text := if isEmpty text then none else text

def newEntry (entry : Record) (realPath realCorePath coreName : Text) : Record where
  path := copied (some realPath)
  label := copied entry.label
  corePath := copied (some realCorePath)
  coreName := copied (some coreName)
  dbName := copied entry.dbName
  crc32 := copied entry.crc32
  subsystemIdent := copied entry.subsystemIdent
  subsystemName := copied entry.subsystemName
  subsystemRoms := entry.subsystemRoms
  runtime := .zero

def coreNameOf (entry : Record) (realCorePath : Text) : Text :=
  if isEmpty entry.coreName then fillPathnameBaseNoext realCorePath 255
  else entry.coreName.getD []

def blank : Record := ⟨none, none, none, none, none, none, none, none, none, .zero⟩

/-- The part behind the loop: the last entry makes room, and the new one is put to the top. -/
def insertEntry (slots : List Record) (size : ℕ) (new : Record) : Option (List Record × ℕ) :=
  let full := size = slots.length
  let slots := if full then slots.set (slots.length - 1) blank else slots
  let size := if full then size - 1 else size
  (moveUp slots (slots.length - 1)).map fun slots => (slots.set 0 new, size + 1)

/-- What the function returns, the slots of the playlist and their number. There is no result where
a NULL pointer is read or the array is left. -/
def playlistPush (slots : List Record) (size : ℕ) (entry : Record) :
    Option (Bool × List Record × ℕ) :=
  if isEmpty entry.corePath then some (false, slots, size)
  else
    let realPath := resolver.realOf entry.path
    let realCorePath := resolver.realCorePath (entry.corePath.getD [])
    if realCorePath = [] then some (false, slots, size)
    else
      let coreName := coreNameOf entry realCorePath
      if coreName = [] then some (false, slots, size)
      else
        (findSeen resolver realPath realCorePath entry (slots.take size)).bind fun seen =>
          match seen with
          | some i =>
            slots[i]?.bind fun other =>
              let filled := fillBlanks entry other
              let slots := slots.set i filled
              if i = 0 then some (entryUpdated entry other, slots, size)
              else (moveUp slots i).map fun slots => (true, slots.set 0 filled, size)
          | none =>
            (insertEntry slots size (newEntry entry realPath realCorePath coreName)).map
              fun (slots, size) => (true, slots, size)

end Push

section Statement

variable (resolver : Resolver)

/-- A playlist: its slots, of which the first so many are in use. -/
structure ContentPlaylist where
  slots : List Record
  size : ℕ
  bounded : size ≤ slots.length
  room : 0 < slots.length

def ContentPlaylist.entries (p : ContentPlaylist) : List Record := p.slots.take p.size

/-- What makes an entry the same as another one. An absent text is the same as an empty one. -/
structure Key where
  realPath : Text
  realCorePath : Text
  subsystemIdent : Text
  subsystemName : Text
  subsystemRoms : List Text
  deriving DecidableEq

def Resolver.realCoreOf (corePath : Option Text) : Text :=
  if isEmpty corePath then [] else resolver.realCorePath (corePath.getD [])

def realRoms (roms : Option (List Text)) : List Text :=
  (roms.getD []).map fun rom => resolver.realOf (some rom)

def keyOf (e : Record) : Key :=
  ⟨resolver.realOf e.path, resolver.realCoreOf e.corePath, e.subsystemIdent.getD [],
    e.subsystemName.getD [], realRoms resolver e.subsystemRoms⟩

/-- There is no path or no name of a core to push. -/
def Rejected (entry : Record) : Prop :=
  isEmpty entry.corePath ∨ coreNameOf entry (resolver.realCoreOf entry.corePath) = []

instance (entry : Record) : Decidable (Rejected resolver entry) := instDecidableOr

/-- The record that is inserted for an entry. -/
def pushed (entry : Record) : Record :=
  newEntry entry (resolver.realOf entry.path) (resolver.realCoreOf entry.corePath)
    (coreNameOf entry (resolver.realCoreOf entry.corePath))

/-- One that is the same comes to the top, with its blanks filled, and the others keep their
order. -/
def Bumped (entry : Record) (before after : List Record) : Prop :=
  ∃ front e rest, before = front ++ e :: rest ∧ keyOf resolver e = keyOf resolver entry ∧
    after = fillBlanks entry e :: (front ++ rest)

/-- The new entry comes to the top, and the last one is dropped where the playlist was full. -/
def Inserted (p : ContentPlaylist) (entry : Record) (after : List Record) : Prop :=
  after = pushed resolver entry :: if p.size = p.slots.length then p.entries.dropLast else p.entries

def NoTwins (list : List Record) : Prop := (list.map (keyOf resolver)).Nodup

/-- A push reads no NULL pointer and is a bounded move to the front. -/
def MovesToFront (p : ContentPlaylist) (entry : Record) : Prop :=
  ∃ returned slots size, playlistPush resolver p.slots p.size entry = some (returned, slots, size) ∧
    slots.length = p.slots.length ∧ size ≤ slots.length ∧
    (returned = false → slots.take size = p.entries) ∧
    (¬ Rejected resolver entry →
      ((∃ e ∈ p.entries, keyOf resolver e = keyOf resolver entry) →
        Bumped resolver entry p.entries (slots.take size)) ∧
      ((¬ ∃ e ∈ p.entries, keyOf resolver e = keyOf resolver entry) →
        Inserted resolver p entry (slots.take size))) ∧
    (NoTwins resolver p.entries → NoTwins resolver (slots.take size))

/-- The loop stops at an entry: all fields agree, and the list of ROMs is not found to differ. -/
def stopsAt (entry other : Record) : Bool :=
  agrees resolver (resolver.realOf entry.path) (resolver.realCoreOf entry.corePath) entry other &&
    romsEqual resolver entry other ≠ some false

/-- The playlist is full, and its last entry is text for text what takes its place. -/
def Replaced (p : ContentPlaylist) (entry : Record) : Prop :=
  p.size = p.slots.length ∧ ∃ e, p.entries.getLast? = some e ∧
    keyOf resolver e = keyOf resolver entry ∧ fillBlanks entry e = pushed resolver entry

/-- Both have a list of ROMs, or the one that is pushed has none and the other none in it. -/
def RomsAlike (entry other : Record) : Prop :=
  match entry.subsystemRoms with
  | none => other.subsystemRoms.getD [] = []
  | some _ => other.subsystemRoms ≠ none

/-- The entry that the loop stops at is like the pushed one in having ROMs; where it stops at none,
no entry is the same as the pushed one. -/
def Distinguished (p : ContentPlaylist) (entry : Record) : Prop :=
  match p.entries.find? (stopsAt resolver entry) with
  | some e => RomsAlike entry e
  | none =>
    (∀ e ∈ p.entries, keyOf resolver e ≠ keyOf resolver entry) ∨ Replaced resolver p entry

end Statement

section Equality

variable {resolver : Resolver} {entry other : Record}

theorem isEmpty_iff (text : Option Text) : isEmpty text ↔ text.getD [] = [] := by
  cases text with
  | none => simp [isEmpty]
  | some text => simp [isEmpty]

theorem Resolver.realPath_ne_nil (resolver : Resolver) {path : Text} (h : path ≠ []) :
    resolver.realPath path ≠ [] := by
  apply resolver.nonempty
  obtain ⟨c, cs, rfl⟩ := List.exists_cons_of_ne_nil h
  exact List.cons_ne_nil c _

theorem Resolver.realOf_eq_nil (resolver : Resolver) (path : Option Text) :
    resolver.realOf path = [] ↔ isEmpty path := by
  rw [Resolver.realOf]
  split_ifs with h
  · exact iff_of_true rfl h
  · rw [isEmpty_iff] at h ⊢
    exact iff_of_false (resolver.realPath_ne_nil h) h

theorem pathEqual_iff (realPath : Text) (path : Option Text) :
    playlistPathEqual resolver realPath path ↔ realPath ≠ [] ∧ resolver.realOf path = realPath := by
  rw [playlistPathEqual]
  by_cases hreal : realPath = []
  · simp [hreal]
  · by_cases hempty : isEmpty path
    · have hnil := (resolver.realOf_eq_nil path).mpr hempty
      simp only [hempty, Bool.or_true, if_true, Bool.false_eq_true, false_iff, hnil]
      rintro ⟨-, heq⟩
      exact hreal heq.symm
    · have hne : resolver.realPath (path.getD []) ≠ [] :=
        resolver.realPath_ne_nil fun h => hempty ((isEmpty_iff path).mpr h)
      simp [hreal, hempty, hne, Resolver.realOf, eq_comm]

theorem corePathEqual_iff (realCorePath : Text) (corePath : Option Text) :
    playlistCorePathEqual resolver realCorePath corePath ↔
      realCorePath ≠ [] ∧ resolver.realCoreOf corePath = realCorePath := by
  rw [playlistCorePathEqual, Resolver.realCoreOf]
  by_cases hreal : realCorePath = []
  · simp [hreal]
  · by_cases hempty : isEmpty corePath
    · simp [hreal, hempty, Ne.symm hreal]
    · by_cases hnil : resolver.realCorePath (corePath.getD []) = []
      · simp [hreal, hempty, hnil, Ne.symm hreal]
      · simp [hreal, hempty, hnil, eq_comm]

theorem fieldDiffers_iff (mine other : Option Text) :
    fieldDiffers mine other = false ↔ other.getD [] = mine.getD [] := by
  by_cases hmine : mine.getD [] = []
  · by_cases hother : other.getD [] = []
    · simp [fieldDiffers, (isEmpty_iff mine).mpr hmine, (isEmpty_iff other).mpr hother, hmine,
        hother]
    · have hfull : isEmpty other = false := by
        rw [← Bool.not_eq_true, isEmpty_iff]
        exact hother
      simp [fieldDiffers, (isEmpty_iff mine).mpr hmine, hfull, hmine, hother]
  · have hfull : isEmpty mine = false := by
      rw [← Bool.not_eq_true, isEmpty_iff]
      exact hmine
    by_cases hother : other.getD [] = []
    · simp [fieldDiffers, hfull, (isEmpty_iff other).mpr hother, hother, Ne.symm hmine]
    · cases mine with
      | none => exact absurd rfl hmine
      | some mine =>
        cases other with
        | none => exact absurd rfl hother
        | some other =>
          have hfull' : isEmpty (some other) = false := by
            rw [← Bool.not_eq_true, isEmpty_iff]
            exact hother
          simp only [fieldDiffers, hfull, hfull', Bool.not_false, Bool.true_and, Bool.and_true,
            Bool.and_false, Bool.or_false, ne_eq, decide_eq_false_iff_not,
            not_not, Option.some.injEq, Option.getD_some]
          exact eq_comm

/-- All of the key but the ROMs. -/
theorem agrees_iff (hcore : resolver.realCoreOf entry.corePath ≠ []) :
    agrees resolver (resolver.realOf entry.path) (resolver.realCoreOf entry.corePath) entry other ↔
      resolver.realOf other.path = resolver.realOf entry.path ∧
        resolver.realCoreOf other.corePath = resolver.realCoreOf entry.corePath ∧
        other.subsystemIdent.getD [] = entry.subsystemIdent.getD [] ∧
        other.subsystemName.getD [] = entry.subsystemName.getD [] := by
  have hpath : ((resolver.realOf entry.path = [] ∧ isEmpty other.path) ∨
      playlistPathEqual resolver (resolver.realOf entry.path) other.path) ↔
        resolver.realOf other.path = resolver.realOf entry.path := by
    rw [pathEqual_iff, ← resolver.realOf_eq_nil]
    by_cases hnil : resolver.realOf entry.path = []
    · simp [hnil]
    · simp [hnil]
  rw [agrees]
  simp only [Bool.and_eq_true, Bool.or_eq_true, decide_eq_true_eq, Bool.not_eq_true',
    fieldDiffers_iff, corePathEqual_iff, hpath, and_assoc, hcore, ne_eq, not_false_eq_true,
    true_and]

theorem same_iff (hcore : resolver.realCoreOf entry.corePath ≠ []) :
    keyOf resolver other = keyOf resolver entry ↔
      agrees resolver (resolver.realOf entry.path) (resolver.realCoreOf entry.corePath) entry
          other ∧
        realRoms resolver other.subsystemRoms = realRoms resolver entry.subsystemRoms := by
  rw [agrees_iff hcore, keyOf, keyOf, Key.mk.injEq]
  tauto

theorem realRoms_of_equal {mine : List Text} (hmine : entry.subsystemRoms = some mine)
    (h : romsEqual resolver entry other = some true) :
    realRoms resolver other.subsystemRoms = realRoms resolver entry.subsystemRoms := by
  rw [romsEqual, hmine] at h
  obtain ⟨roms, hroms, h⟩ := Option.map_eq_some_iff.mp h
  rw [hroms, hmine, realRoms, realRoms, Option.getD_some, Option.getD_some]
  split_ifs at h with hlength
  push Not at hlength
  clear hmine hroms
  clear * - h hlength
  induction mine generalizing roms with
  | nil => rw [List.length_eq_zero_iff.mp hlength.symm]
  | cons rom mine ih =>
    cases roms with
    | nil => simp at hlength
    | cons otherRom roms =>
      rw [List.zip_cons_cons, List.all_cons, Bool.and_eq_true, pathEqual_iff] at h
      rw [List.map_cons, List.map_cons, h.1.2, ih roms h.2 (Nat.succ.inj hlength)]

end Equality

end RetroArch.Playlist.Push
