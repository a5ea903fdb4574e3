/- Paths of files in archives: where the archive's path ends, and what reads it. -/

import RetroArch.File.Pathname

set_option maxRecDepth 10000

namespace RetroArch.File.Pathname

open Config Path Library.Casing

/-- `string_list_append_n`: the copy of a length that has no successor is not written. -/
def stringListAppendN (elem : Str) (length : ℕ) : Option Str :=
  if length + 1 < 2 ^ 32 then some (elem.take length) else none

/-- The strings of the list. There is no result where one of them is not written. -/
def fileArchiveFilenameSplit (path : Str) : Option (List Str) :=
  match pathGetArchiveDelim path with
  | some delim =>
    (stringListAppendN path ((path.length - delim.length) % 2 ^ 32)).map fun archive =>
      let inner := delim.drop 1
      if inner = [] then [archive] else [archive, inner]
  | none => some [path]

/-- The backends that a build with zlib and 7-Zip has. -/
inductive ArchiveBackend
  | zlib
  | sevenzip
  deriving DecidableEq, Repr

def pathGetExtension (path : Str) : Str :=
  if path = [] then []
  else
    match strrchr dot (pathBasename path) with
    | some ext => ext.drop 1
    | none => []

def stringIsEqualNoncase (a b : Str) : Bool := a.map tolower = b.map tolower

/-- `zip` -/
def zipExtension : Str := [122, 105, 112]

/-- `apk` -/
def apkExtension : Str := [97, 112, 107]

/-- `7z` -/
def sevenZipExtension : Str := [55, 122]

/-- The path ended at its mark, where it has one. -/
def endAtDelim (newpath : Str) : Str :=
  match pathGetArchiveDelim newpath with
  | some last => newpath.take (newpath.length - last.length)
  | none => newpath

def fileArchiveGetFileBackend (path : Str) : Option ArchiveBackend :=
  let fileExt := pathGetExtension (endAtDelim (strlcpy path pathMaxLength))
  if stringIsEqualNoncase fileExt sevenZipExtension then some .sevenzip
  else if stringIsEqualNoncase fileExt zipExtension ||
      stringIsEqualNoncase fileExt apkExtension then
    some .zlib
  else none

/-- The extensions of archives, in the order in which they are looked for. -/
inductive Extension
  | zip
  | apk
  | sevenZip
  deriving DecidableEq, Repr

def Extension.text : Extension → Str
  | .zip => dot :: zipExtension
  | .apk => dot :: apkExtension
  | .sevenZip => dot :: sevenZipExtension

/-- The path of an archive: a directory, and a file name with the extension in any case. -/
structure ArchivePath (ext : Extension) where
  dir : Str
  name : Str
  unslashed : slash ∉ name
  ends : ext.text.map tolower <:+ name.map tolower
  unmarked : hash ∉ dir ++ slash :: name

def ArchivePath.text {ext : Extension} (a : ArchivePath ext) : Str := a.dir ++ slash :: a.name

/-- The path of a file in the archive is taken apart into the archive's and the file's. -/
structure SplitsBack {ext : Extension} (a : ArchivePath ext) (inner : Str) : Prop where
  delim : pathGetArchiveDelim (a.text ++ hash :: inner) = some (hash :: inner)
  split : fileArchiveFilenameSplit (a.text ++ hash :: inner) = some [a.text, inner]
  backend : fileArchiveGetFileBackend (a.text ++ hash :: inner) = fileArchiveGetFileBackend a.text

/-- Somewhere in the text, in any case. -/
def Mentions (inner delim : Str) : Prop := delim.map tolower <:+: inner.map tolower

/-- The inner path has no slash, and no mark behind an extension that is looked for before that of
the archive. -/
structure Plain (ext : Extension) (inner : Str) : Prop where
  flat : slash ∉ inner
  zip : ext ≠ .zip → ¬Mentions inner zipDelim
  apk : ext = .sevenZip → ¬Mentions inner apkDelim

section Searching

variable {ext : Extension} {inner front rest : Str} {b : UInt8}

theorem strrchr_none_iff {text : Str} : strrchr b text = none ↔ b ∉ text := by
  induction text with
  | nil => simp [strrchr]
  | cons c text ih =>
    rw [strrchr, List.mem_cons, not_or]
    cases hrest : strrchr b text with
    | none =>
      rw [hrest] at ih
      have hmem := ih.mp rfl
      by_cases hc : c = b
      · simp [hc]
      · simp [hc, hmem, Ne.symm hc]
    | some found =>
      rw [hrest] at ih
      have hmem : b ∈ text := by
        by_contra hnot
        exact nomatch ih.mpr hnot
      simp [hmem]

theorem strrchr_last (before : Str) {after : Str} (h : b ∉ after) :
    strrchr b (before ++ b :: after) = some (b :: after) := by
  induction before with
  | nil => rw [List.nil_append, strrchr, strrchr_none_iff.mpr h]; exact if_pos rfl
  | cons c before ih => rw [List.cons_append, strrchr, ih]

theorem strrchr_suffix {text found : Str} (h : strrchr b text = some found) : found <:+ text := by
  induction text with
  | nil => exact nomatch h
  | cons c text ih =>
    rw [strrchr] at h
    cases hrest : strrchr b text with
    | none =>
      rw [hrest] at h
      dsimp only at h
      split_ifs at h
      exact Option.some.inj h ▸ List.suffix_refl _
    | some last =>
      rw [hrest] at h
      exact (ih (hrest.trans h)).trans (List.suffix_cons c text)

theorem strrchr_append {text tail found : Str} (h : strrchr b tail = some found) :
    strrchr b (text ++ tail) = some found := by
  induction text with
  | nil => exact h
  | cons c text ih => rw [List.cons_append, strrchr, ih]

theorem tolower_hash (c : UInt8) : tolower c = tolower hash ↔ c = hash := by
  have hall : ∀ n < 256, tolower (UInt8.ofNat n) = tolower hash ↔ UInt8.ofNat n = hash := by
    decide
  have hc := hall c.toNat c.toNat_lt
  rwa [UInt8.ofNat_toNat] at hc

theorem hash_not_mem_map {text : Str} (h : hash ∉ text) : tolower hash ∉ text.map tolower := by
  intro hmem
  obtain ⟨c, hc, heq⟩ := List.mem_map.mp hmem
  exact h ((tolower_hash c).mp heq ▸ hc)

end Searching

section Finding

variable {ext e : Extension} {inner : Str}

def Extension.delim (ext : Extension) : Str := ext.text ++ [hash]

theorem ends_once {text : Str} (h : ext.text.map tolower <:+ text.map tolower)
    (h' : e.text.map tolower <:+ text.map tolower) : e = ext := by
  have hall : ∀ e ext : Extension,
      e.text.map tolower <:+ ext.text.map tolower → e = ext := by
    intro e ext
    cases e <;> cases ext <;> decide
  rcases Nat.le_total (e.text.map tolower).length (ext.text.map tolower).length with hle | hle
  · exact hall e ext (List.suffix_of_suffix_length_le h' h hle)
  · exact (hall ext e (List.suffix_of_suffix_length_le h h' hle)).symm

theorem strcasestr_archive (a : ArchivePath ext) (e : Extension) (inner : Str) :
    strcasestr (slash :: a.name ++ hash :: inner) e.delim =
      if e = ext then
        some ((slash :: a.name).drop ((slash :: a.name).length - ext.text.length) ++ hash :: inner)
      else strcasestr inner e.delim := by
  have hfront : hash ∉ slash :: a.name := fun h => a.unmarked (List.mem_append_right _ h)
  have hname : tolower hash ∉ e.text.map tolower := by cases e <;> decide
  have hends : ext.text.map tolower <:+ (slash :: a.name).map tolower :=
    a.ends.trans (List.suffix_cons _ _)
  rw [Extension.delim, strcasestr_mark inner (hash_not_mem_map hfront) hname]
  by_cases heq : e = ext
  · subst heq
    rw [if_pos hends, if_pos rfl]
  · rw [if_neg heq, if_neg fun h => heq (ends_once hends h)]

theorem drop_archive (a : ArchivePath ext) (inner : Str) :
    ((slash :: a.name).drop ((slash :: a.name).length - ext.text.length) ++ hash :: inner).drop
      ext.text.length = hash :: inner := by
  have hle : ext.text.length ≤ (slash :: a.name).length := by
    have hends := (a.ends.trans (List.suffix_cons (tolower slash) _)).length_le
    rw [← List.map_cons, List.length_map, List.length_map] at hends
    exact hends
  apply List.drop_left'
  rw [List.length_drop]
  omega

theorem findLastSlash_flat (a : ArchivePath ext) (h : slash ∉ inner) :
    findLastSlash (a.text ++ hash :: inner) = some (slash :: a.name ++ hash :: inner) := by
  have hafter : slash ∉ a.name ++ hash :: inner := by
    rw [List.mem_append, List.mem_cons]
    rintro (hmem | hmem | hmem)
    · exact a.unslashed hmem
    · exact absurd hmem (by decide)
    · exact h hmem
  have hlast := strrchr_last a.dir hafter
  rw [findLastSlash, ArchivePath.text, List.append_assoc]
  exact hlast

theorem delim_of_plain (a : ArchivePath ext) (h : Plain ext inner) :
    pathGetArchiveDelim (a.text ++ hash :: inner) = some (hash :: inner) := by
  have hdrop := drop_archive a inner
  have hzip := strcasestr_archive a .zip inner
  have hapk := strcasestr_archive a .apk inner
  have hseven := strcasestr_archive a .sevenZip inner
  change strcasestr _ zipDelim = _ at hzip
  change strcasestr _ apkDelim = _ at hapk
  change strcasestr _ sevenZipDelim = _ at hseven
  rw [pathGetArchiveDelim, findLastSlash_flat a h.flat, Option.bind_some]
  cases ext with
  | zip =>
    rw [if_pos rfl] at hzip
    rw [hzip, Option.some_or]
    exact congrArg some hdrop
  | apk =>
    have hnone := strcasestr_none_iff.mpr (h.zip (by decide))
    rw [if_neg (by decide)] at hzip
    rw [if_pos rfl] at hapk
    rw [hzip, hapk, show strcasestr inner Extension.zip.delim = none from hnone, Option.none_or]
    exact congrArg some hdrop
  | sevenZip =>
    have hnone := strcasestr_none_iff.mpr (h.zip (by decide))
    have hnone' := strcasestr_none_iff.mpr (h.apk rfl)
    rw [if_neg (by decide)] at hzip hapk
    rw [if_pos rfl] at hseven
    rw [hzip, hapk, hseven, show strcasestr inner Extension.zip.delim = none from hnone,
      show strcasestr inner Extension.apk.delim = none from hnone', Option.none_or]
    exact congrArg some hdrop

theorem not_in_inner {found : Str} (h : found <:+ inner) (n : ℕ) :
    found.drop n ≠ hash :: inner := by
  intro heq
  have hlen := congrArg List.length heq
  rw [List.length_drop, List.length_cons] at hlen
  have hle := h.length_le
  omega

theorem plain_of_delim (a : ArchivePath ext)
    (h : pathGetArchiveDelim (a.text ++ hash :: inner) = some (hash :: inner)) :
    Plain ext inner := by
  have hflat : slash ∉ inner := by
    intro hmem
    cases hlast : strrchr slash inner with
    | none => exact strrchr_none_iff.mp hlast hmem
    | some last =>
      have hfound : findLastSlash (a.text ++ hash :: inner) = some last := by
        have happend := @strrchr_append slash (a.text ++ [hash]) inner last hlast
        rwa [List.append_assoc] at happend
      have hsuffix : last <:+ inner := strrchr_suffix hlast
      rw [pathGetArchiveDelim, hfound, Option.bind_some] at h
      cases hfirst : (strcasestr last zipDelim).or (strcasestr last apkDelim) with
      | none =>
        rw [hfirst] at h
        obtain ⟨found, hseven, heq⟩ := Option.map_eq_some_iff.mp h
        exact not_in_inner ((strcasestr_suffix hseven).trans hsuffix) 3 heq
      | some found =>
        rw [hfirst] at h
        have hin : found <:+ last := by
          rcases Option.or_eq_some_iff.mp hfirst with hzip | ⟨-, hapk⟩
          · exact strcasestr_suffix hzip
          · exact strcasestr_suffix hapk
        exact not_in_inner (hin.trans hsuffix) 4 (Option.some.inj h)
  have hzip := strcasestr_archive a .zip inner
  have hapk := strcasestr_archive a .apk inner
  change strcasestr _ zipDelim = _ at hzip
  change strcasestr _ apkDelim = _ at hapk
  rw [pathGetArchiveDelim, findLastSlash_flat a hflat, Option.bind_some] at h
  have hno : ext ≠ .zip → ¬Mentions inner zipDelim := by
    intro hne hmentions
    rw [if_neg hne.symm] at hzip
    cases hfound : strcasestr inner Extension.zip.delim with
    | none => exact strcasestr_none_iff.mp hfound hmentions
    | some found =>
      rw [hzip, hfound, Option.some_or] at h
      exact not_in_inner (strcasestr_suffix hfound) 4 (Option.some.inj h)
  refine ⟨hflat, hno, ?_⟩
  rintro rfl hmentions
  have hnone := strcasestr_none_iff.mpr (hno (by decide))
  rw [if_neg (by decide)] at hzip hapk
  cases hfound : strcasestr inner Extension.apk.delim with
  | none => exact strcasestr_none_iff.mp hfound hmentions
  | some found =>
    rw [hzip, show strcasestr inner Extension.zip.delim = none from hnone, hapk, hfound,
      Option.none_or] at h
    exact not_in_inner (strcasestr_suffix hfound) 4 (Option.some.inj h)

theorem delim_unmarked {path : Str} (h : hash ∉ path) : pathGetArchiveDelim path = none := by
  have hnone : ∀ {last} (e : Extension), last <:+ path → strcasestr last e.delim = none := by
    intro last e hlast
    apply strcasestr_none_iff.mpr
    intro hin
    have hmark : tolower hash ∈ last.map tolower := by
      apply hin.subset
      rw [Extension.delim, List.map_append]
      exact List.mem_append_right _ List.mem_cons_self
    exact hash_not_mem_map (fun hmem => h (hlast.subset hmem)) hmark
  rw [pathGetArchiveDelim]
  cases hlast : findLastSlash path with
  | none => rfl
  | some last =>
    have hsuffix := strrchr_suffix hlast
    have hzip := hnone .zip hsuffix
    have hapk := hnone .apk hsuffix
    have hseven := hnone .sevenZip hsuffix
    rw [Option.bind_some, show strcasestr last zipDelim = none from hzip,
      show strcasestr last apkDelim = none from hapk,
      show strcasestr last sevenZipDelim = none from hseven]
    rfl

end Finding

section Splits

variable {ext : Extension} {inner : Str}

theorem Plain.take (h : Plain ext inner) (n : ℕ) : Plain ext (inner.take n) := by
  have hin : ∀ delim, Mentions (inner.take n) delim → Mentions inner delim := by
    intro delim hdelim
    apply hdelim.trans
    exact ((List.take_prefix n inner).map tolower).isInfix
  exact ⟨fun hmem => h.flat (List.mem_of_mem_take hmem),
    fun hne hmentions => h.zip hne (hin _ hmentions),
    fun heq hmentions => h.apk heq (hin _ hmentions)⟩

theorem endAtDelim_plain (a : ArchivePath ext) (h : Plain ext inner) :
    endAtDelim (a.text ++ hash :: inner) = a.text := by
  rw [endAtDelim, delim_of_plain a h]
  dsimp only
  rw [List.length_append, Nat.add_sub_cancel, List.take_left]

theorem endAtDelim_unmarked {path : Str} (h : hash ∉ path) : endAtDelim path = path := by
  rw [endAtDelim, delim_unmarked h]

theorem backend_of_plain (a : ArchivePath ext) (h : Plain ext inner) :
    fileArchiveGetFileBackend (a.text ++ hash :: inner) = fileArchiveGetFileBackend a.text := by
  unfold fileArchiveGetFileBackend
  by_cases hlong : pathMaxLength - 1 ≤ a.text.length
  · rw [strlcpy, List.take_append_of_le_length hlong, strlcpy]
  · have hshort : a.text.length < pathMaxLength - 1 := Nat.lt_of_not_le hlong
    obtain ⟨k, hk⟩ : ∃ k, pathMaxLength - 1 = a.text.length + (k + 1) :=
      ⟨pathMaxLength - 1 - a.text.length - 1, by omega⟩
    have hcut : strlcpy (a.text ++ hash :: inner) pathMaxLength =
        a.text ++ hash :: inner.take k := by
      rw [strlcpy, hk, List.take_length_add_append, List.take_succ_cons]
    have hwhole : strlcpy a.text pathMaxLength = a.text :=
      List.take_of_length_le (Nat.le_of_lt hshort)
    have hunmarked : endAtDelim a.text = a.text := endAtDelim_unmarked a.unmarked
    rw [hcut, hwhole, endAtDelim_plain a (h.take k), hunmarked]

theorem split_of_plain (a : ArchivePath ext) (h : Plain ext inner) (hne : inner ≠ []) :
    fileArchiveFilenameSplit (a.text ++ hash :: inner) = some [a.text, inner] ↔
      a.text.length + 1 < 2 ^ 32 := by
  have hlen : (a.text ++ hash :: inner).length - (hash :: inner).length = a.text.length := by
    rw [List.length_append, Nat.add_sub_cancel]
  unfold fileArchiveFilenameSplit stringListAppendN
  rw [delim_of_plain a h]
  dsimp only
  rw [hlen, List.drop_succ_cons, List.drop_zero]
  simp only [if_neg hne]
  constructor
  · intro heq
    obtain ⟨archive, hwritten, hlist⟩ := Option.map_eq_some_iff.mp heq
    split_ifs at hwritten with hfits
    have htake := (Option.some.inj hwritten).trans (List.cons.inj hlist).1
    have hwhole := congrArg List.length htake
    rw [List.length_take, List.length_append] at hwhole
    omega
  · intro hfits
    have hmod : a.text.length % 2 ^ 32 = a.text.length := Nat.mod_eq_of_lt (by omega)
    rw [hmod, if_pos hfits, List.take_left]
    rfl

/-- A path into an archive is taken apart where it was joined exactly if the inner path is plain
and the length of the archive's path fits. -/
theorem splits_back_iff (a : ArchivePath ext) (inner : Str) (hne : inner ≠ []) :
    SplitsBack a inner ↔ Plain ext inner ∧ a.text.length + 1 < 2 ^ 32 := by
  constructor
  · intro h
    have hplain := plain_of_delim a h.delim
    exact ⟨hplain, (split_of_plain a hplain hne).mp h.split⟩
  · rintro ⟨hplain, hfits⟩
    exact ⟨delim_of_plain a hplain, (split_of_plain a hplain hne).mpr hfits,
      backend_of_plain a hplain⟩

/-- `/a.zip` -/
def zipPath : ArchivePath .zip :=
  ⟨[], [97, 46, 122, 105, 112], by decide, by decide, by decide⟩

theorem splits_back_zip : SplitsBack zipPath [98] := by
  have hplain : Plain .zip [98] :=
    ⟨by decide, fun hne => absurd rfl hne, fun heq => nomatch heq⟩
  exact (splits_back_iff zipPath [98] (by decide)).mpr ⟨hplain, by decide⟩

/-- `/a.zip#b/c` is not seen as the path of a file in an archive. -/
theorem inner_slash_unsplit :
    ¬∀ (ext : Extension) (a : ArchivePath ext) (inner : Str), inner ≠ [] → SplitsBack a inner := by
  intro h
  have hdelim := (h .zip zipPath [98, 47, 99] (by decide)).delim
  exact absurd hdelim (by decide)

end Splits

end RetroArch.File.Pathname
