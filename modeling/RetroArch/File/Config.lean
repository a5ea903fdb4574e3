/- Configuration files: parsing with includes, appending, and the list of entries behind them. -/

import Mathlib.Data.List.Basic
import Mathlib.Data.List.TakeDrop

namespace RetroArch.File.Config

/-- The bytes of a string before its terminator. -/
abbrev Str := List UInt8

/-- An unset entry stays in the list with neither key nor value. -/
structure Entry where
  readonly : Bool
  key : Option Str
  value : Option Str
  deriving DecidableEq, Repr

/-- `tail` and `last` are the list positions of the nodes they point at; `tail` is only read while
the file is parsed. -/
structure ConfigFile where
  path : Option Str
  entries : List Entry
  tail : Option ℕ
  last : Option ℕ
  includeDepth : ℕ
  guaranteedNoDuplicates : Bool
  includes : List Str
  deriving DecidableEq, Repr

def maxIncludeDepth : ℕ := 16

def pathMaxLength : ℕ := 4096

def configFileNewAlloc : ConfigFile where
  path := none
  entries := []
  tail := none
  last := none
  includeDepth := 0
  guaranteedNoDuplicates := false
  includes := []

/-- `node->next = chain`; without a node the chain is the whole list. -/
def linkAfter (entries : List Entry) (node : Option ℕ) (chain : List Entry) : List Entry :=
  match node with
  | some i => entries.take (i + 1) ++ chain
  | none => chain

/-- The position of the first entry of the key. -/
def configGetEntry (conf : ConfigFile) (key : Str) : Option ℕ :=
  conf.entries.findIdx? fun e => e.key = some key

/-- What the search leaves in its `prev` argument: it is written only when nothing was found. -/
def configGetEntryPrev (conf : ConfigFile) (key : Str) (prev : Option ℕ) : Option ℕ :=
  match configGetEntry conf key with
  | some _ => prev
  | none => if conf.entries = [] then prev else some (conf.entries.length - 1)

def configGetString (conf : ConfigFile) (key : Str) : Option Str :=
  (configGetEntry conf key).bind fun i => conf.entries[i]?.bind Entry.value

/-- The list head, where there is one. -/
def ConfigFile.head (conf : ConfigFile) : Option ℕ :=
  if conf.entries = [] then none else some 0

def configSetString (conf : ConfigFile) (key val : Str) : ConfigFile :=
  let last := if conf.guaranteedNoDuplicates && conf.last.isSome then conf.last else conf.head
  let found := if conf.guaranteedNoDuplicates then none else configGetEntry conf key
  let last := if conf.guaranteedNoDuplicates then last else configGetEntryPrev conf key last
  match found.filter fun i => conf.entries[i]?.any fun e => !e.readonly with
  | some i =>
    { conf with entries := conf.entries.modify i fun e => { e with value := some val } }
  | none =>
    { conf with
      entries := linkAfter conf.entries last [⟨false, some key, some val⟩]
      last := some (last.elim 0 (· + 1)) }

def configUnset (conf : ConfigFile) (key : Str) : ConfigFile :=
  match configGetEntry conf key with
  | some i =>
    { conf with
      entries := conf.entries.modify i fun e => { e with key := none, value := none } }
  | none => conf

section Parsing

def isspace (b : UInt8) : Bool := b = 32 || (9 ≤ b && b ≤ 13)

def isgraph (b : UInt8) : Bool := 33 ≤ b && b ≤ 126

def quote : UInt8 := 34

def hash : UInt8 := 35

def equals : UInt8 := 61

def tilde : UInt8 := 126

/-- `include `, as it follows the mark. -/
def includeWord : Str := [105, 110, 99, 108, 117, 100, 101, 32]

/-- What is left of the line before a `#` outside quotes. -/
def stripComment : (cutComment : Bool) → Str → Str
  | _, [] => []
  | cutComment, b :: rest =>
    if b = quote then b :: stripComment (!cutComment) rest
    else if cutComment && b = hash then []
    else b :: stripComment cutComment rest

/-- `strtok_r` gives no token where it would be empty. -/
def token (s : Str) : Option Str := if s = [] then none else some s

def extractQuoted (line : Str) : Option Str :=
  match line with
  | [] => none
  | b :: rest => if b = quote then none else token ((b :: rest).takeWhile (· ≠ quote))

def extractToken (line : Str) : Option Str :=
  match line.dropWhile isspace with
  | [] => none
  | b :: rest => if b = quote then extractQuoted rest else token ((b :: rest).takeWhile (!isspace ·))

def extractValue (line : Str) (isValue : Bool) : Option Str :=
  if isValue then
    match line.dropWhile isspace with
    | [] => none
    | b :: rest => if b = equals then extractToken rest else none
  else extractToken line

/-- The key and the value of a line that has both. -/
def parseEntry (line : Str) : Option Entry :=
  let line := (stripComment true line).dropWhile isspace
  (extractValue (line.dropWhile isgraph) true).map fun value =>
    ⟨false, some (line.takeWhile isgraph), some value⟩

/-- What the program sees of the machine: files by path, the home directory, and the path of an
include as `fill_pathname_resolve_relative` makes it from the including file's path. -/
structure Disk where
  content : Str → Option (List UInt8)
  home : Option Str
  resolve : Str → Str → Str

variable (disk : Disk)

def addChildList (parent child : ConfigFile) : ConfigFile :=
  let entries := parent.entries ++ child.entries.map fun e => { e with readonly := true }
  { parent with
    entries := entries
    tail := if entries = [] then none else some (entries.length - 1) }

/-- The path an include is opened under. -/
def realPath (conf : ConfigFile) (path : Str) : Str :=
  if path.head? = some tilde then
    (disk.home.getD [] ++ path.tail).take (pathMaxLength - 1)
  else
    match conf.path with
    | none | some [] => []
    | some own => disk.resolve own path

/-- `open` loads a file one level further down. -/
def addSubConf (openAt : Str → Option ConfigFile) (conf : ConfigFile) (path : Str) : ConfigFile :=
  let conf := { conf with includes := conf.includes ++ [path] }
  match openAt (realPath disk conf path) with
  | some sub => addChildList conf sub
  | none => conf

/-- The path an include line names. -/
def includePath (line : Str) : Option Str :=
  match line with
  | [] => none
  | b :: rest =>
    if b = hash && includeWord.isPrefixOf rest then
      extractValue (rest.drop includeWord.length) false
    else none

def parseInclude (openAt : Str → Option ConfigFile) (conf : ConfigFile) (line : Str) :
    ConfigFile :=
  match includePath line with
  | some path =>
    if conf.includeDepth ≥ maxIncludeDepth then conf else addSubConf disk openAt conf path
  | none => conf

def appendEntry (conf : ConfigFile) (e : Entry) : ConfigFile :=
  match conf.entries with
  | [] => { conf with entries := [e], tail := some 0 }
  | entries =>
    { conf with
      entries := linkAfter entries conf.tail [e]
      tail := conf.tail.map (· + 1) }

/-- An include line leaves no key, its mark being overwritten by the terminator. -/
def parseLine (openAt : Str → Option ConfigFile) (conf : ConfigFile) (line : Str) : ConfigFile :=
  let conf := parseInclude disk openAt conf line
  match parseEntry line with
  | some e => appendEntry conf e
  | none => conf

/-- A line as a string ends at its first NUL. -/
def cstr (bytes : List UInt8) : Str := bytes.takeWhile (· ≠ 0)

def newline : UInt8 := 10

/-- `room` is how many more levels of includes the depth of this file allows. -/
def configFileNewInternal : (room : ℕ) → (path : Str) → Option ConfigFile
  | _, [] => some configFileNewAlloc
  | room, path@(_ :: _) =>
    (disk.content path).map fun bytes =>
      let conf :=
        { configFileNewAlloc with path := some path, includeDepth := maxIncludeDepth - room }
      let openAt := match room with
        | 0 => fun _ => none
        | room + 1 => configFileNewInternal room
      ((bytes.splitOn newline).map cstr).foldl (parseLine disk openAt) conf

def configFileNew (path : Str) : Option ConfigFile :=
  configFileNewInternal disk maxIncludeDepth path

def configFileNewFromString (fromString : Str) (path : Str) : ConfigFile :=
  let conf := { configFileNewAlloc with path := if path = [] then none else some path }
  (fromString.splitOn newline).foldl
    (parseLine disk (configFileNewInternal disk (maxIncludeDepth - 1))) conf

def configFileNewFromPathToString (path : Str) : Option ConfigFile :=
  (disk.content path).map fun bytes => configFileNewFromString disk (cstr bytes) path

/-- The entries of the appended file come first; `tail` still points at the old list's node. -/
def configAppendFile (conf : ConfigFile) (path : Str) : Option ConfigFile :=
  (configFileNewFromPathToString disk path).map fun new =>
    match new.tail with
    | some i =>
      { conf with
        entries := linkAfter new.entries (some i) conf.entries
        tail := conf.tail.map (· + (i + 1))
        last := conf.last.map (· + (i + 1)) }
    | none => conf

end Parsing

end RetroArch.File.Config
