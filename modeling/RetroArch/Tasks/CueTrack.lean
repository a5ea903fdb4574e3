/- The search of a cue sheet for its largest data track, or for its first one. -/

import RetroArch.File.RelativePath
import RetroArch.Tasks.CueToken

namespace RetroArch.Tasks.Cue

open File.Config (pathMaxLength)
open File.Path (slash)
open File.Pathname (findLastSlash strlcpy strlcat)
open File.RelativePath (fillPathnameBasedir)
open Library.Memory

def maxTokenLen : ℕ := 255

/-- What a string function sees of a block, which has to be terminated. -/
def tokenString (token : List UInt8) : Option Str :=
  if 0 ∈ token then some (token.takeWhile (· ≠ 0)) else none

def isSpace (c : UInt8) : Bool := c = 32 || (9 ≤ c && c ≤ 13)

def isDigit (c : UInt8) : Bool := 48 ≤ c && c ≤ 57

def digit (c : UInt8) : ℤ := c.toNat - 48

/-- `%02d` of `sscanf`: a sign counts for the width. -/
def scanTwo (str : Str) : Option (ℤ × Str) :=
  match str.dropWhile isSpace with
  | [] => none
  | c :: rest =>
    if c = 45 ∨ c = 43 then
      match rest with
      | [] => none
      | d :: rest =>
        if isDigit d then some (if c = 45 then -digit d else digit d, rest) else none
    else if isDigit c then
      match rest with
      | [] => some (digit c, [])
      | d :: more =>
        if isDigit d then some (10 * digit c + digit d, more) else some (digit c, rest)
    else none

def scanColon : Str → Option Str
  | [] => none
  | c :: rest => if c = 58 then some rest else none

/-- The index of a time stamp, in bytes. -/
def scanStamp (str : Str) : Option ℤ :=
  (scanTwo str).bind fun (m, str) => (scanColon str).bind fun str =>
    (scanTwo str).bind fun (s, str) => (scanColon str).bind fun str =>
      (scanTwo str).map fun (f, _) => ((m * 60 + s) * 75 + f) * 2352

/-- What the loop reads does not depend on what it has found. `newFile` is the word before the
name, `other` a word that is no command. -/
inductive Event
  | newFile
  | file (name : Str)
  | track (isData : Bool)
  | index (stamp : Option ℤ)
  | other
  deriving DecidableEq

/-- What is left of the sheet, and the block of the token. -/
abbrev Reader := Str × List UInt8

def skipToken (reader : Reader) : Option Reader :=
  (getToken reader.1 reader.2 maxTokenLen).map fun read => (read.rest, read.token)

/-- Whatever the call returns. -/
def nextString (reader : Reader) : Option (Str × Reader) :=
  (skipToken reader).bind fun reader => (tokenString reader.2).map fun word => (word, reader)

/-- `FILE` -/
def fileWord : Str := [70, 73, 76, 69]

/-- `TRACK` -/
def trackWord : Str := [84, 82, 65, 67, 75]

/-- `INDEX` -/
def indexWord : Str := [73, 78, 68, 69, 88]

/-- `AUDIO` -/
def audioWord : Str := [65, 85, 68, 73, 79]

/-- What one round reads, and from where the next one reads: no `next` where memory is left, and
none inside of it at the end of the sheet. -/
structure Reading where
  events : List Event
  next : Option (Option Reader)

def Reading.ofOption (before : List Event) (read : Option (Event × Reader)) : Reading :=
  match read with
  | none => ⟨before, none⟩
  | some (event, reader) => ⟨before ++ [event], some (some reader)⟩

def readCommand (reader : Reader) : Reading :=
  match getToken reader.1 reader.2 maxTokenLen with
  | none => ⟨[], none⟩
  | some read =>
    if read.len = 0 then ⟨[], some none⟩
    else
      match tokenString read.token with
      | none => ⟨[], none⟩
      | some word =>
        let reader := (read.rest, read.token)
        if word = fileWord then
          .ofOption [.newFile] ((nextString reader).bind fun (name, reader) =>
            (skipToken reader).map fun reader => (.file name, reader))
        else if word = trackWord then
          .ofOption [] ((skipToken reader).bind fun reader =>
            (nextString reader).map fun (mode, reader) => (.track (mode ≠ audioWord), reader))
        else if word = indexWord then
          .ofOption [] ((skipToken reader).bind fun reader =>
            (nextString reader).map fun (stamp, reader) => (.index (scanStamp stamp), reader))
        else ⟨[.other], some (some reader)⟩

theorem getTokenLoop_shorter {maxLen len : ℕ} {content : Str} {token : List UInt8}
    {inString : Bool} {read : TokenRead}
    (h : getTokenLoop maxLen content token len inString = some read) :
    read.rest.length ≤ content.length ∧ (read.len ≠ 0 → read.rest.length < content.length) := by
  induction content generalizing token len inString with
  | nil =>
    rw [getTokenLoop] at h
    obtain rfl := Option.some.inj h
    exact ⟨Nat.le_refl _, fun hlen => absurd rfl hlen⟩
  | cons b content ih =>
    rw [getTokenLoop] at h
    obtain ⟨token', -, h⟩ := Option.bind_eq_some_iff.mp h
    dsimp only at h
    suffices hle : read.rest.length ≤ content.length by
      rw [List.length_cons]
      omega
    have hstop : ∀ n place, ((poke token' place 0).map fun token =>
        (⟨n, content, token⟩ : TokenRead)) = some read →
        read.rest.length ≤ content.length := by
      intro n place hstop
      obtain ⟨token'', -, rfl⟩ := Option.map_eq_some_iff.mp hstop
      exact Nat.le_refl _
    have hstore : (if len + 1 = maxLen then
        (poke token' (len + 1) 0).map fun token => (⟨len + 1, content, token⟩ : TokenRead)
        else getTokenLoop maxLen content token' (len + 1) inString) = some read →
        read.rest.length ≤ content.length := by
      intro hstore
      by_cases hfull : len + 1 = maxLen
      · rw [if_pos hfull] at hstore
        exact hstop _ _ hstore
      · rw [if_neg hfull] at hstore
        exact (ih hstore).1
    by_cases hblank : isBlank b
    · rw [if_pos hblank] at h
      by_cases hzero : len = 0
      · rw [if_pos hzero] at h
        exact (ih h).1
      · rw [if_neg hzero] at h
        cases inString
        · exact hstop _ _ h
        · exact hstore h
    · rw [if_neg hblank] at h
      by_cases hquote : b = quote
      · rw [if_pos hquote] at h
        by_cases hzero : len = 0
        · rw [if_pos hzero] at h
          exact (ih h).1
        · rw [if_neg hzero] at h
          exact hstop _ _ h
      · rw [if_neg hquote] at h
        exact hstore h

theorem skipToken_le {reader reader' : Reader} (h : skipToken reader = some reader') :
    reader'.1.length ≤ reader.1.length := by
  obtain ⟨read, hread, rfl⟩ := Option.map_eq_some_iff.mp h
  exact (getTokenLoop_shorter hread).1

theorem nextString_le {reader reader' : Reader} {word : Str}
    (h : nextString reader = some (word, reader')) : reader'.1.length ≤ reader.1.length := by
  obtain ⟨middle, hskip, hword⟩ := Option.bind_eq_some_iff.mp h
  obtain ⟨word', -, hpair⟩ := Option.map_eq_some_iff.mp hword
  rw [← (Prod.mk.inj hpair).2]
  exact skipToken_le hskip

theorem ofOption_next {before : List Event} {read : Option (Event × Reader)} {reader : Reader}
    (h : (Reading.ofOption before read).next = some (some reader)) :
    ∃ event, read = some (event, reader) := by
  cases read with
  | none => exact nomatch h
  | some read => exact ⟨read.1, by rw [← Option.some.inj (Option.some.inj h)]⟩

theorem readCommand_shorter {reader reader' : Reader}
    (h : (readCommand reader).next = some (some reader')) :
    reader'.1.length < reader.1.length := by
  rw [readCommand] at h
  split at h
  · exact nomatch h
  · next read hread =>
      by_cases hlen : read.len = 0
      · rw [if_pos hlen] at h
        exact nomatch h
      · have hless := (getTokenLoop_shorter hread).2 hlen
        rw [if_neg hlen] at h
        split at h
        · exact nomatch h
        · next word hword =>
            dsimp only at h
            split_ifs at h
            · obtain ⟨event, hargs⟩ := ofOption_next h
              obtain ⟨⟨name, middle⟩, hname, hskip⟩ := Option.bind_eq_some_iff.mp hargs
              obtain ⟨last, hlast, hpair⟩ := Option.map_eq_some_iff.mp hskip
              rw [← (Prod.mk.inj hpair).2]
              exact Nat.lt_of_le_of_lt
                (Nat.le_trans (skipToken_le hlast) (nextString_le hname)) hless
            · obtain ⟨event, hargs⟩ := ofOption_next h
              obtain ⟨middle, hskip, hstring⟩ := Option.bind_eq_some_iff.mp hargs
              obtain ⟨⟨mode, last⟩, hlast, hpair⟩ := Option.map_eq_some_iff.mp hstring
              rw [← (Prod.mk.inj hpair).2]
              exact Nat.lt_of_le_of_lt
                (Nat.le_trans (nextString_le hlast) (skipToken_le hskip)) hless
            · obtain ⟨event, hargs⟩ := ofOption_next h
              obtain ⟨middle, hskip, hstring⟩ := Option.bind_eq_some_iff.mp hargs
              obtain ⟨⟨stamp, last⟩, hlast, hpair⟩ := Option.map_eq_some_iff.mp hstring
              rw [← (Prod.mk.inj hpair).2]
              exact Nat.lt_of_le_of_lt
                (Nat.le_trans (nextString_le hlast) (skipToken_le hskip)) hless
            · rw [← Option.some.inj (Option.some.inj h)]
              exact hless

/-- The rounds of the loop; `false` where memory is left before the end of the sheet. -/
def events (reader : Reader) : List Event × Bool :=
  match _h : (readCommand reader).next with
  | none => ((readCommand reader).events, false)
  | some none => ((readCommand reader).events, true)
  | some (some later) =>
    ((readCommand reader).events ++ (events later).1, (events later).2)
termination_by reader.1.length
decreasing_by
  all_goals exact readCommand_shorter _h

def fillPathnameSlash (path : Str) (size : ℕ) : Str :=
  match findLastSlash path with
  | none => strlcat path [slash] size
  | some last => if last.length ≠ 1 then strlcat path (strlcpy last 2) size else path

def fillPathnameJoin (dir path : Str) (size : ℕ) : Str :=
  let outPath := strlcpy dir size
  let outPath := if outPath ≠ [] then fillPathnameSlash outPath size else outPath
  strlcat outPath path size

/-- What the search is given: the sheet and what there is of it, unless it cannot be opened, the
sizes of the files, `-1` for one that cannot be opened, `errno` where it is read at the end, and
what `malloc` left in the blocks of the token and of the path. -/
structure Given where
  cuePath : Str
  sheet : Option Str
  fileSize : Str → ℤ
  fileSize_lt : ∀ path, fileSize path < 2 ^ 63
  errno : ℕ
  maxLen : ℕ
  block : List UInt8
  lastFile : Str

def einval : ℤ := 22

structure Found where
  trackPath : Str
  offset : ℕ
  size : ℕ
  deriving DecidableEq

/-- Where the search is in the sheet. -/
structure Cursor where
  lastIndex : ℤ
  candIndex : ℤ
  candTrack : ℤ
  track : ℤ
  fileSize : ℤ
  isData : Bool
  lastFile : Str

/-- What it has found. -/
structure Best where
  largest : ℕ
  found : Option Found
  rv : ℤ

structure Result where
  ret : ℤ
  found : Option Found
  deriving DecidableEq

/-- `uint64_t` of a value -/
def unsigned (value : ℤ) : ℕ := (value % 2 ^ 64).toNat

def updateCand (maxLen : ℕ) (cursor : Cursor) (best : Best) : Bool × Cursor × Best :=
  if cursor.candIndex ≠ -1 then
    let size := unsigned (cursor.lastIndex - cursor.candIndex)
    if size > best.largest then
      (true, { cursor with candIndex := -1 },
        { best with
          largest := size
          found := some ⟨strlcpy cursor.lastFile maxLen, unsigned cursor.candIndex, size⟩ })
    else (false, { cursor with candIndex := -1 }, best)
  else (false, cursor, best)

/-- `goto clean` and `goto error` leave the loop. -/
inductive Outcome
  | goOn (cursor : Cursor) (best : Best)
  | clean (best : Best)
  | error

/-- The update, and what comes after it unless the first track is looked for and found. -/
def settle (maxLen : ℕ) (first : Bool) (cursor : Cursor) (best : Best) : Outcome :=
  let (updated, cursor, best) := updateCand maxLen cursor best
  if updated then
    let best := { best with rv := 0 }
    if first then .clean best else .goOn cursor best
  else .goOn cursor best

/-- The end of the branch for `INDEX`. -/
def openCand (cursor : Cursor) : Cursor :=
  if !cursor.isData then cursor
  else if cursor.candIndex = -1 then
    { cursor with candIndex := cursor.lastIndex, candTrack := cursor.track }
  else cursor

/-- `last_index` at the last end of a file. -/
def atFileEnd (cursor : Cursor) : Cursor :=
  if cursor.fileSize ≠ -1 then { cursor with lastIndex := cursor.fileSize } else cursor

/-- The path of a file that the sheet names. -/
def lastFileOf (given : Given) (name : Str) : Str :=
  fillPathnameJoin (fillPathnameBasedir given.cuePath pathMaxLength) name pathMaxLength

def handle (given : Given) (first : Bool) (cursor : Cursor) (best : Best) : Event → Outcome
  | .newFile => settle given.maxLen first (atFileEnd cursor) best
  | .file name =>
    let lastFile := lastFileOf given name
    .goOn { cursor with lastFile := lastFile, fileSize := given.fileSize lastFile } best
  | .track isData => .goOn { cursor with isData := isData, track := cursor.track + 1 } best
  | .index none => .error
  | .index (some index) =>
    let cursor := { cursor with lastIndex := index }
    if cursor.candTrack ≠ -1 ∧ cursor.track ≠ cursor.candTrack then
      match settle given.maxLen first cursor best with
      | .goOn cursor best => .goOn (openCand cursor) best
      | outcome => outcome
    else .goOn (openCand cursor) best
  | .other => .goOn cursor best

/-- The loop, and what comes after it; no result where memory is left. -/
def run (given : Given) (first : Bool) : Cursor → Best → List Event → Bool → Option Result
  | cursor, best, [], ended =>
    if ended then
      let (updated, _, best) := updateCand given.maxLen (atFileEnd cursor) best
      some ⟨if updated then 0 else best.rv, best.found⟩
    else none
  | cursor, best, event :: later, ended =>
    match handle given first cursor best event with
    | .goOn cursor best => run given first cursor best later ended
    | .clean best => some ⟨best.rv, best.found⟩
    | .error => some ⟨-given.errno, best.found⟩

def start (given : Given) : Cursor := ⟨-1, -1, -1, 0, -1, false, given.lastFile⟩

def nothing : Best := ⟨0, none, -einval⟩

def cueFindTrack (given : Given) (first : Bool) : Option Result :=
  match given.sheet with
  | none => some ⟨-given.errno, none⟩
  | some content =>
    (poke given.block 0 0).bind fun token =>
      let (read, ended) := events (content, token)
      run given first (start given) nothing read ended

end RetroArch.Tasks.Cue
