/- Playlist entries: their strings, their lists of ROMs and their runtime. -/

import RetroArch.Library.Memory

namespace RetroArch.Playlist

open Library.Memory

/-- The bytes of a C string. -/
abbrev Text := List UInt8

/-- An allocated string. -/
structure Str where
  id : ℕ
  text : Text
  deriving DecidableEq

/-- An allocated `string_list` with its strings. -/
structure Roms where
  id : ℕ
  elems : List Text
  deriving DecidableEq

/-- `string_is_empty` -/
def isEmpty : Option Text → Bool
  | none => true
  | some text => text = []

structure Runtime where
  runtimeStatus : ℕ
  runtimeHours : ℕ
  runtimeMinutes : ℕ
  runtimeSeconds : ℕ
  lastPlayedYear : ℕ
  lastPlayedMonth : ℕ
  lastPlayedDay : ℕ
  lastPlayedHour : ℕ
  lastPlayedMinute : ℕ
  lastPlayedSecond : ℕ
  deriving DecidableEq

def Runtime.zero : Runtime := ⟨0, 0, 0, 0, 0, 0, 0, 0, 0, 0⟩

structure PlaylistEntry where
  path : Option Str
  label : Option Str
  corePath : Option Str
  coreName : Option Str
  dbName : Option Str
  crc32 : Option Str
  subsystemIdent : Option Str
  subsystemName : Option Str
  subsystemRoms : Option Roms
  runtime : Runtime
  deriving DecidableEq

/-- A slot of `calloc`, or one that was freed. -/
def PlaylistEntry.empty : PlaylistEntry :=
  ⟨none, none, none, none, none, none, none, none, none, .zero⟩

end RetroArch.Playlist
