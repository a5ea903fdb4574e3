/- The achievement list: counted in a first pass over its JSON text, and read in a second one. -/

import RetroArch.Formats.Jsonsax

namespace RetroArch.Cheevos.Parser

open Formats.Jsonsax
open Library.CString (strtol)

/-- `rcheevos_djb2` -/
def rcheevosDjb2 (str : List UInt8) : UInt32 :=
  str.foldl (fun hash c => (hash <<< 5) + hash + c.toUInt32) 5381

def ACHIEVEMENTS : UInt32 := 0x69749ae1
def LEADERBOARDS : UInt32 := 0xf1247d2d
def CONSOLE_ID : UInt32 := 0x071656e5
def ID : UInt32 := 0x005973f2
def MEMADDR : UInt32 := 0x1e76b53f
def MEM : UInt32 := 0x0b8807e4
def TITLE : UInt32 := 0x0e2a9a07
def DESCRIPTION : UInt32 := 0xe61a1f69
def POINTS : UInt32 := 0xca8fce22
def AUTHOR : UInt32 := 0xa804edb8
def MODIFIED : UInt32 := 0xdcea4fe6
def CREATED : UInt32 := 0x3a84721d
def BADGENAME : UInt32 := 0x887685d9
def FLAGS : UInt32 := 0x0d2e96b2
def FORMAT : UInt32 := 0xb341208e

/-- `strtol` of a string or a number of the text; no digit stands right behind either. -/
def strtolText (text : List UInt8) : ℤ := (strtol 10 (text ++ [0])).getD 0

/-- The cast of a `long` to an `unsigned`. -/
def toUnsigned (n : ℤ) : ℕ := (n % 2 ^ 32).toNat

/-- `in_cheevos` and `in_lboards`, which both passes keep alike. -/
structure Lists where
  inCheevos : Bool
  inLboards : Bool
  deriving DecidableEq

def Lists.none : Lists := ⟨false, false⟩

def Lists.key (lists : Lists) (hash : UInt32) : Lists :=
  if hash = ACHIEVEMENTS then { lists with inCheevos := true }
  else if hash = LEADERBOARDS then { lists with inLboards := true }
  else lists

/-- `rcheevos_countud_t` -/
structure CountUd where
  lists : Lists
  fieldHash : Option UInt32
  coreCount : ℕ
  unofficialCount : ℕ
  lboardCount : ℕ

def CountUd.start : CountUd := ⟨.none, none, 0, 0, 0⟩

/-- `rcheevos_count_number` -/
def countNumber (ud : CountUd) (number : List UInt8) : CountUd :=
  if ud.lists.inCheevos ∧ ud.fieldHash = some FLAGS then
    let flags := strtolText number
    if flags = 3 then { ud with coreCount := (ud.coreCount + 1) % 2 ^ 32 }
    else if flags = 5 then { ud with unofficialCount := (ud.unofficialCount + 1) % 2 ^ 32 }
    else ud
  else if ud.lists.inLboards ∧ ud.fieldHash = some ID then
    { ud with lboardCount := (ud.lboardCount + 1) % 2 ^ 32 }
  else ud

/-- The handlers of `rcheevos_count_cheevos`. -/
def countEvent (ud : CountUd) : Event → CountUd
  | .endArray => { ud with lists := .none }
  | .key name =>
    { ud with
      lists := ud.lists.key (rcheevosDjb2 name)
      fieldHash := some (rcheevosDjb2 name) }
  | .number number => countNumber ud number
  | _ => ud

/-- The fields that a key can point at. -/
inductive Field
  | id
  | memaddr
  | title
  | desc
  | points
  | author
  | modified
  | created
  | badge
  | flags
  | format
  deriving DecidableEq

/-- `rcheevos_racheevo_t` -/
structure RaCheevo where
  title : List UInt8
  description : List UInt8
  badge : List UInt8
  memaddr : List UInt8
  points : ℕ
  id : ℕ

/-- `rcheevos_ralboard_t` -/
structure RaLboard where
  title : List UInt8
  description : List UInt8
  format : List UInt8
  mem : List UInt8
  id : ℕ

/-- `rcheevos_rapatchdata_t`; a slot that has not been filled holds nothing. -/
structure RaPatchdata where
  consoleId : ℕ
  core : List (Option RaCheevo)
  unofficial : List (Option RaCheevo)
  lboards : List (Option RaLboard)

/-- A slot behind its array is written, or a field is read that the object at hand has not set. -/
inductive Fault
  | outside
  | unset
  deriving DecidableEq

/-- `rcheevos_readud_t`. With each field stands the object its text was found in, and the objects
that are open are kept by where they begin, the innermost first. -/
structure ReadUd where
  lists : Lists
  isConsoleId : Bool
  coreCount : ℕ
  unofficialCount : ℕ
  lboardCount : ℕ
  field : Option Field
  fields : Field → Option (List UInt8 × Option ℕ)
  patchdata : RaPatchdata
  objects : List ℕ
  place : ℕ

def ReadUd.start (patchdata : RaPatchdata) : ReadUd where
  lists := .none
  isConsoleId := false
  coreCount := 0
  unofficialCount := 0
  lboardCount := 0
  field := none
  fields := fun _ => none
  patchdata := patchdata
  objects := []
  place := 0

/-- A field of the object at hand. -/
def ReadUd.get (ud : ReadUd) (field : Field) : Except Fault (List UInt8) :=
  match ud.fields field with
  | some (text, object) => if object = ud.objects.head? then .ok text else .error .unset
  | none => .error .unset

def store {α : Type} (slots : List (Option α)) (index : ℕ) (entry : α) :
    Except Fault (List (Option α)) :=
  if index < slots.length then .ok (slots.set index (some entry)) else .error .outside

/-- What `rcheevos_new_cheevo` fills a slot with. -/
def ReadUd.cheevo (ud : ReadUd) : Except Fault RaCheevo := do
  let title ← ud.get .title
  let description ← ud.get .desc
  let badge ← ud.get .badge
  let memaddr ← ud.get .memaddr
  let points ← ud.get .points
  let id ← ud.get .id
  return ⟨title, description, badge, memaddr, toUnsigned (strtolText points),
    toUnsigned (strtolText id)⟩

/-- `rcheevos_new_cheevo` -/
def newCheevo (ud : ReadUd) : Except Fault ReadUd := do
  let text ← ud.get .flags
  let flags := toUnsigned (strtolText text)
  if flags = 3 then
    let core ← store ud.patchdata.core ud.coreCount (← ud.cheevo)
    return { ud with
      coreCount := (ud.coreCount + 1) % 2 ^ 32, patchdata := { ud.patchdata with core } }
  else if flags = 5 then
    let unofficial ← store ud.patchdata.unofficial ud.unofficialCount (← ud.cheevo)
    return { ud with
      unofficialCount := (ud.unofficialCount + 1) % 2 ^ 32
      patchdata := { ud.patchdata with unofficial } }
  else return ud

/-- What `rcheevos_new_lboard` fills a slot with. -/
def ReadUd.lboard (ud : ReadUd) : Except Fault RaLboard := do
  let title ← ud.get .title
  let description ← ud.get .desc
  let format ← ud.get .format
  let mem ← ud.get .memaddr
  let id ← ud.get .id
  return ⟨title, description, format, mem, toUnsigned (strtolText id)⟩

/-- `rcheevos_new_lboard` -/
def newLboard (ud : ReadUd) : Except Fault ReadUd := do
  let lboards ← store ud.patchdata.lboards ud.lboardCount (← ud.lboard)
  return { ud with
    lboardCount := (ud.lboardCount + 1) % 2 ^ 32, patchdata := { ud.patchdata with lboards } }

/-- `rcheevos_read_end_object` -/
def readEndObject (ud : ReadUd) : Except Fault ReadUd :=
  if ud.lists.inCheevos then newCheevo ud
  else if ud.lists.inLboards then newLboard ud
  else .ok ud

/-- The field that `rcheevos_read_key` points at. -/
def keyField (lists : Lists) (hash : UInt32) : Option Field :=
  let common := lists.inCheevos || lists.inLboards
  if hash = ID then if common then some .id else none
  else if hash = MEMADDR then if lists.inCheevos then some .memaddr else none
  else if hash = MEM then if lists.inLboards then some .memaddr else none
  else if hash = TITLE then if common then some .title else none
  else if hash = DESCRIPTION then if common then some .desc else none
  else if hash = POINTS then if lists.inCheevos then some .points else none
  else if hash = AUTHOR then if lists.inCheevos then some .author else none
  else if hash = MODIFIED then if lists.inCheevos then some .modified else none
  else if hash = CREATED then if lists.inCheevos then some .created else none
  else if hash = BADGENAME then if lists.inCheevos then some .badge else none
  else if hash = FLAGS then if lists.inCheevos then some .flags else none
  else if hash = FORMAT then if lists.inLboards then some .format else none
  else none

/-- `rcheevos_read_key` -/
def readKey (ud : ReadUd) (name : List UInt8) : ReadUd :=
  let hash := rcheevosDjb2 name
  { ud with
    field := keyField ud.lists hash
    lists := ud.lists.key hash
    isConsoleId := ud.isConsoleId || hash = CONSOLE_ID }

/-- The field gets the text. -/
def ReadUd.set (ud : ReadUd) (field : Field) (text : List UInt8) : ReadUd :=
  { ud with fields := Function.update ud.fields field (some (text, ud.objects.head?)) }

/-- `rcheevos_read_string` -/
def readString (ud : ReadUd) (string : List UInt8) : ReadUd :=
  match ud.field with
  | some field => ud.set field string
  | none => ud

/-- `rcheevos_read_number` -/
def readNumber (ud : ReadUd) (number : List UInt8) : ReadUd :=
  match ud.field with
  | some field => ud.set field number
  | none =>
    if ud.isConsoleId then
      { ud with
        patchdata := { ud.patchdata with consoleId := toUnsigned (strtolText number) }
        isConsoleId := false }
    else ud

/-- The handlers of `rcheevos_get_patchdata`, and the objects that are open. -/
def readHandler (ud : ReadUd) : Event → Except Fault ReadUd
  | .startObject => .ok { ud with objects := ud.place :: ud.objects }
  | .endObject => (readEndObject ud).map fun ud => { ud with objects := ud.objects.tail }
  | .endArray => .ok { ud with lists := .none }
  | .key name => .ok (readKey ud name)
  | .string string => .ok (readString ud string)
  | .number number => .ok (readNumber ud number)
  | _ => .ok ud

def readEvent (ud : ReadUd) (e : Event) : Except Fault ReadUd :=
  (readHandler ud e).map fun ud => { ud with place := ud.place + 1 }

/-- `rcheevos_get_patchdata`, with memory to be had: nothing if the text is not parsed. -/
def rcheevosGetPatchdata (json : Memory) (consoleId : ℕ) : Except Fault (Option RaPatchdata) :=
  match jsonsaxParse (fun ud e => (countEvent ud e, false)) json CountUd.start with
  | .error _ => .ok none
  | .ok counts =>
    let patchdata : RaPatchdata :=
      ⟨consoleId, .replicate counts.coreCount none, .replicate counts.unofficialCount none,
        .replicate counts.lboardCount none⟩
    match jsonsaxParse (fun ud e => (ud.bind fun ud => readEvent ud e, false)) json
        (Except.ok (ReadUd.start patchdata)) with
    | .error _ => .ok none
    | .ok ud => ud.map fun ud => some ud.patchdata

end RetroArch.Cheevos.Parser
