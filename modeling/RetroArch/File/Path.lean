/- Paths with the home or the application directory abbreviated, as they are kept in configurations. -/

import Mathlib.Data.List.Infix
import RetroArch.File.ConfigKeys

namespace RetroArch.File.Path

open Config ConfigKeys

def slash : UInt8 := 47

def colon : UInt8 := 58

/-- What `fill_pathname_application_dir` and `fill_pathname_home_dir` give. -/
structure Dirs where
  applicationDir : Str
  homeDir : Str
  deriving DecidableEq, Repr

/-- An output buffer: what was written to it and the room behind that. -/
structure Out where
  written : Str
  size : ℕ
  deriving DecidableEq, Repr

/-- `strlcpy` at the end of the output; the assertion behind it aborts on a copy that is cut. -/
def Out.copy (out : Out) (src : Str) : Option Out :=
  if src.length < out.size then some ⟨out.written ++ src, out.size - src.length⟩ else none

def Out.copySlash (out : Out) : Option Out := out.copy [slash]

/-- The directory stands for the mark and the slash at the front of the path. -/
def expandDir (dir inPath : Str) (size : ℕ) : Option Out :=
  if dir = [] then Out.copy ⟨[], size⟩ inPath
  else
    (Out.copy ⟨[], size⟩ dir).bind fun out =>
      (if dir.getLast? = some slash then some out else out.copySlash).bind fun out =>
        out.copy (inPath.drop 2)

def fillPathnameExpandSpecial (dirs : Dirs) (inPath : Str) (size : ℕ) : Option Str :=
  Option.map Out.written <|
    if inPath.head? = some tilde then expandDir dirs.homeDir inPath size
    else if inPath.head? = some colon then expandDir dirs.applicationDir inPath size
    else Out.copy ⟨[], size⟩ inPath

/-- The application directory is tried before the home directory. -/
def candidates (dirs : Dirs) : List (Str × UInt8) :=
  [(dirs.applicationDir, colon), (dirs.homeDir, tilde)]

/-- The directory that is abbreviated, found as a text at the start of the path. -/
def chosen (dirs : Dirs) (inPath : Str) : Option (Str × UInt8) :=
  (candidates dirs).find? fun c => c.1 ≠ [] && c.1.isPrefixOf inPath

def fillPathnameAbbreviateSpecial (dirs : Dirs) (inPath : Str) (size : ℕ) : Option Str :=
  Option.map Out.written <|
    match chosen dirs inPath with
    | none => Out.copy ⟨[], size⟩ inPath
    | some (dir, mark) =>
      let rest := inPath.drop dir.length
      (Out.copy ⟨[], size⟩ [mark]).bind fun out =>
        (if rest.head? = some slash then some out else out.copySlash).bind fun out =>
          out.copy rest

def configSetPath (dirs : Dirs) (conf : ConfigFile) (entry val : Str) : Option ConfigFile :=
  (fillPathnameAbbreviateSpecial dirs val pathMaxLength).map (configSetString conf entry)

/-- The inner `none` is the answer that there is no such key. -/
def configGetPath (dirs : Dirs) (conf : ConfigFile) (key : Str) (size : ℕ) : Option (Option Str) :=
  match configGetString conf key with
  | some val => (fillPathnameExpandSpecial dirs val size).map some
  | none => some none

section Lossless

variable {dirs : Dirs} {p dir rest : Str} {mark : UInt8} {size : ℕ}

/-- Between the abbreviated directory and what follows there is one slash, the directory's own or
the first of the rest. -/
def JoinedOnce (dirs : Dirs) (p : Str) : Prop :=
  ∀ c ∈ chosen dirs p, c.1.getLast? = some slash ↔ (p.drop c.1.length).head? ≠ some slash

instance (dirs : Dirs) (p : Str) : Decidable (JoinedOnce dirs p) := by
  unfold JoinedOnce
  infer_instance

theorem copy_of_lt {out : Out} {src : Str} (h : src.length < out.size) :
    out.copy src = some ⟨out.written ++ src, out.size - src.length⟩ := if_pos h

theorem chosen_spec (h : chosen dirs p = some (dir, mark)) :
    dir ≠ [] ∧ (∃ rest, p = dir ++ rest) ∧
      (dir = dirs.applicationDir ∧ mark = colon ∨ dir = dirs.homeDir ∧ mark = tilde) := by
  have hcond := List.find?_some h
  have hmem := List.mem_of_find?_eq_some h
  rw [Bool.and_eq_true] at hcond
  refine ⟨of_decide_eq_true hcond.1, ?_, ?_⟩
  · obtain ⟨rest, hrest⟩ := List.isPrefixOf_iff_prefix.mp hcond.2
    exact ⟨rest, hrest.symm⟩
  · simpa [candidates] using hmem

/-- The rest with the slash that the abbreviation puts in front where there is none. -/
def slashed (rest : Str) : Str := if rest.head? = some slash then rest else slash :: rest

theorem abbreviate_chosen (h : chosen dirs (dir ++ rest) = some (dir, mark))
    (hsize : rest.length + 2 < size) :
    fillPathnameAbbreviateSpecial dirs (dir ++ rest) size = some (mark :: slashed rest) := by
  have hmark : Out.copy ⟨[], size⟩ [mark] = some ⟨[mark], size - 1⟩ :=
    copy_of_lt (by simp only [List.length_singleton]; omega)
  unfold fillPathnameAbbreviateSpecial slashed
  rw [h]
  simp only [List.drop_left, hmark, Option.bind_some]
  split_ifs with hhead
  · rw [Option.bind_some, copy_of_lt (by dsimp only; omega)]
    rfl
  · have hslash : Out.copySlash ⟨[mark], size - 1⟩ = some ⟨[mark, slash], size - 1 - 1⟩ :=
      copy_of_lt (by simp only [List.length_singleton]; omega)
    rw [hslash, Option.bind_some, copy_of_lt (by dsimp only; omega)]
    rfl

theorem expandDir_eq (hdir : dir ≠ []) (hsize : dir.length + rest.length + 1 < size) :
    (expandDir dir (mark :: slash :: rest) size).map Out.written =
      some (dir ++ (if dir.getLast? = some slash then rest else slash :: rest)) := by
  have hcopy : Out.copy ⟨[], size⟩ dir = some ⟨dir, size - dir.length⟩ :=
    copy_of_lt (by dsimp only; omega)
  have hdrop : (mark :: slash :: rest).drop 2 = rest := rfl
  rw [expandDir, if_neg hdir, hcopy, Option.bind_some, hdrop]
  split_ifs with hlast
  · rw [Option.bind_some, copy_of_lt (by dsimp only; omega)]
    rfl
  · have hslash : Out.copySlash ⟨dir, size - dir.length⟩
        = some ⟨dir ++ [slash], size - dir.length - 1⟩ :=
      copy_of_lt (by simp only [List.length_singleton]; omega)
    rw [hslash, Option.bind_some, copy_of_lt (by dsimp only; omega)]
    simp

theorem expand_mark (hdir : dir ≠ [])
    (hmark : dir = dirs.applicationDir ∧ mark = colon ∨ dir = dirs.homeDir ∧ mark = tilde)
    (hsize : dir.length + rest.length + 1 < size) :
    fillPathnameExpandSpecial dirs (mark :: slash :: rest) size =
      some (dir ++ (if dir.getLast? = some slash then rest else slash :: rest)) := by
  unfold fillPathnameExpandSpecial
  rw [List.head?_cons]
  rcases hmark with ⟨rfl, rfl⟩ | ⟨rfl, rfl⟩
  · rw [if_neg (by decide), if_pos rfl]
    exact expandDir_eq hdir hsize
  · rw [if_pos rfl]
    exact expandDir_eq hdir hsize

theorem slashed_eq (rest : Str) :
    slashed rest = slash :: (if rest.head? = some slash then rest.tail else rest) := by
  unfold slashed
  cases rest with
  | nil => rfl
  | cons b rest =>
    split_ifs with h
    · rw [List.head?_cons] at h
      rw [Option.some.inj h]
      rfl
    · rfl

theorem rejoined_iff (dir rest : Str) :
    dir ++ (if dir.getLast? = some slash then
        (if rest.head? = some slash then rest.tail else rest)
      else slash :: (if rest.head? = some slash then rest.tail else rest)) = dir ++ rest ↔
      (dir.getLast? = some slash ↔ rest.head? ≠ some slash) := by
  rw [List.append_cancel_left_eq]
  cases rest with
  | nil => split_ifs <;> simp_all
  | cons b rest =>
    by_cases hlast : dir.getLast? = some slash
    · by_cases hhead : b = slash
      · simp [hlast, hhead]
      · simp [hlast, hhead]
    · by_cases hhead : b = slash
      · simp [hlast, hhead]
      · simp [hlast, hhead]

/-- An absolute path comes back from its abbreviation exactly when it is joined once. -/
theorem expand_abbreviate_iff (habs : p.head? = some slash)
    (hfits : dirs.applicationDir.length + dirs.homeDir.length + p.length < size) :
    (fillPathnameAbbreviateSpecial dirs p size).bind
        (fun s => fillPathnameExpandSpecial dirs s size) = some p ↔ JoinedOnce dirs p := by
  cases hchosen : chosen dirs p with
  | none =>
    have hcopy : Out.copy ⟨[], size⟩ p = some ⟨p, size - p.length⟩ :=
      copy_of_lt (by dsimp only; omega)
    have habbreviate : fillPathnameAbbreviateSpecial dirs p size = some p := by
      unfold fillPathnameAbbreviateSpecial
      rw [hchosen, hcopy]
      rfl
    have hexpand : fillPathnameExpandSpecial dirs p size = some p := by
      unfold fillPathnameExpandSpecial
      rw [habs, if_neg (by decide), if_neg (by decide), hcopy]
      rfl
    have hjoined : JoinedOnce dirs p := by
      intro c hc
      rw [hchosen] at hc
      exact absurd hc (Option.not_mem_none c)
    rw [habbreviate, Option.bind_some, hexpand]
    exact ⟨fun _ => hjoined, fun _ => rfl⟩
  | some c =>
    obtain ⟨dir, mark⟩ := c
    obtain ⟨hdir, ⟨rest, rfl⟩, hmark⟩ := chosen_spec hchosen
    have hpos : 0 < dir.length := List.length_pos_iff.mpr hdir
    have hle : dir.length ≤ dirs.applicationDir.length + dirs.homeDir.length := by
      rcases hmark with ⟨rfl, -⟩ | ⟨rfl, -⟩
      · exact Nat.le_add_right _ _
      · exact Nat.le_add_left _ _
    rw [List.length_append] at hfits
    have hcut : (if rest.head? = some slash then rest.tail else rest).length ≤ rest.length := by
      split_ifs
      · rw [List.length_tail]
        exact Nat.sub_le _ _
      · exact le_refl _
    rw [abbreviate_chosen hchosen (by omega), Option.bind_some, slashed_eq,
      expand_mark hdir hmark (by omega), Option.some_inj, rejoined_iff]
    simp only [JoinedOnce, hchosen, Option.mem_some_iff, forall_eq', List.drop_left]

theorem getPath_setPath {conf : ConfigFile} {k : Str} (hconf : Reachable conf)
    (hro : isReadonly conf k = false) (dirs : Dirs) (p : Str) :
    (configSetPath dirs conf k p).bind (fun conf => configGetPath dirs conf k pathMaxLength) =
      ((fillPathnameAbbreviateSpecial dirs p pathMaxLength).bind
        fun s => fillPathnameExpandSpecial dirs s pathMaxLength).map some := by
  rw [configSetPath]
  cases fillPathnameAbbreviateSpecial dirs p pathMaxLength with
  | none => rfl
  | some s =>
    have hread := (setKeeps_of_writable hconf.flag hro s).sets
    rw [hro] at hread
    have hget : configGetString (configSetString conf k s) k = some s := hread
    rw [Option.map_some, Option.bind_some, Option.bind_some, configGetPath, hget]

/-- An absolute path comes back from its abbreviation, and from a writable configuration key,
exactly when it is joined once. -/
theorem path_restored_iff (dirs : Dirs) {p : Str} (habs : p.head? = some slash)
    (hfits : dirs.applicationDir.length + dirs.homeDir.length + p.length < pathMaxLength) :
    ((fillPathnameAbbreviateSpecial dirs p pathMaxLength).bind
        (fun s => fillPathnameExpandSpecial dirs s pathMaxLength) = some p ↔ JoinedOnce dirs p) ∧
      ∀ conf k, Reachable conf → isReadonly conf k = false →
        ((configSetPath dirs conf k p).bind
            (fun conf => configGetPath dirs conf k pathMaxLength) = some (some p) ↔
          JoinedOnce dirs p) := by
  have hiff := expand_abbreviate_iff habs hfits
  refine ⟨hiff, ?_⟩
  intro conf k hconf hro
  rw [getPath_setPath hconf hro, ← hiff, Option.map_eq_some_iff]
  constructor
  · rintro ⟨q, hq, hp⟩
    rw [hq, Option.some.inj hp]
  · intro h
    exact ⟨p, h, rfl⟩

/-- `/usr/bin/` and `/home/u`. -/
def userDirs : Dirs := ⟨[47, 117, 115, 114, 47, 98, 105, 110, 47], [47, 104, 111, 109, 101, 47, 117]⟩

theorem path_restored_home :
    (fillPathnameAbbreviateSpecial userDirs [47, 104, 111, 109, 101, 47, 117, 47, 120]
        pathMaxLength).bind (fun s => fillPathnameExpandSpecial userDirs s pathMaxLength) =
      some [47, 104, 111, 109, 101, 47, 117, 47, 120] :=
  (path_restored_iff userDirs (by decide) (by decide)).1.mpr (by decide)

/-- `/home/user` comes back as `/home/u/ser`. -/
theorem sibling_path_split :
    ¬ ∀ (dirs : Dirs) (p : Str), dirs.applicationDir ≠ [] → dirs.homeDir ≠ [] →
      p.head? = some slash →
      dirs.applicationDir.length + dirs.homeDir.length + p.length < pathMaxLength →
      (fillPathnameAbbreviateSpecial dirs p pathMaxLength).bind
        (fun s => fillPathnameExpandSpecial dirs s pathMaxLength) = some p := by
  intro h
  have hback := h userDirs [47, 104, 111, 109, 101, 47, 117, 115, 101, 114] (by decide) (by decide)
    (by decide) (by decide)
  revert hback
  decide

end Lossless

end RetroArch.File.Path
