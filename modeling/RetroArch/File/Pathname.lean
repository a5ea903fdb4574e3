/- The parts of a path. -/

import RetroArch.File.Path
import RetroArch.Library.Casing

namespace RetroArch.File.Pathname

open Config Path Library.Casing

def dot : UInt8 := 46

/-- The string from the last such character on. -/
def strrchr (b : UInt8) : Str → Option Str
  | [] => none
  | c :: cs =>
    match strrchr b cs with
    | some rest => some rest
    | none => if c = b then some (c :: cs) else none

def findLastSlash (str : Str) : Option Str := strrchr slash str

/-- `.zip#` -/
def zipDelim : Str := [46, 122, 105, 112, 35]

/-- `.apk#` -/
def apkDelim : Str := [46, 97, 112, 107, 35]

/-- `.7z#` -/
def sevenZipDelim : Str := [46, 55, 122, 35]

/-- The path from the mark between an archive and a file in it on. -/
def pathGetArchiveDelim (path : Str) : Option Str :=
  (findLastSlash path).bind fun last =>
    match (strcasestr last zipDelim).or (strcasestr last apkDelim) with
    | some delim => some (delim.drop 4)
    | none => (strcasestr last sevenZipDelim).map fun delim => delim.drop 3

def pathBasename (path : Str) : Str :=
  match pathGetArchiveDelim path with
  | some delim => delim.drop 1
  | none =>
    match findLastSlash path with
    | some last => last.drop 1
    | none => path

/-- `strlcpy` to a buffer of `size` bytes. -/
def strlcpy (src : Str) (size : ℕ) : Str := src.take (size - 1)

def strlcat (dst src : Str) (size : ℕ) : Str := dst ++ src.take (size - 1 - dst.length)

def fillPathnameNoext (inPath replace : Str) (size : ℕ) : Str :=
  strlcat (strlcpy inPath size) replace size

def fillPathname (inPath replace : Str) (size : ℕ) : Str :=
  let tmpPath := strlcpy inPath pathMaxLength
  let tmpPath := match strrchr dot (pathBasename tmpPath) with
    | some tok => tmpPath.take (tmpPath.length - tok.length)
    | none => tmpPath
  fillPathnameNoext tmpPath replace size

def fillShortPathnameRepresentation (inPath : Str) (size : ℕ) : Str :=
  strlcpy (fillPathname (pathBasename inPath) [] pathMaxLength) size

end RetroArch.File.Pathname
