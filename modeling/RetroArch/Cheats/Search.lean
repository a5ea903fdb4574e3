/- Searching the memory of a core for the address of a value. -/

import RetroArch.Library.Memory

namespace RetroArch.Cheats

open Library.Memory

/-- A pointer into the core's memory with the number of bytes that lie there. -/
structure Region where
  ptr : ℕ
  len : ℕ
  deriving DecidableEq, Repr

/-- What is in memory at a time, byte by byte from every pointer on. -/
abbrev Snapshot : Type := ℕ → ℕ → UInt8

def Region.bytes (m : Snapshot) (r : Region) : List UInt8 :=
  (List.range r.len).map (m r.ptr)

/-- What is read of `rarch_memory_descriptor_t`; `region` is `none` where `core.ptr` is NULL. -/
structure MemoryDescriptor where
  systemRam : Bool
  region : Option Region
  deriving DecidableEq, Repr

def MemoryDescriptor.accepted (d : MemoryDescriptor) : Option Region :=
  if d.systemRam then d.region.filter fun r => decide (0 < r.len) else none

/-- The fields of `cheat_manager_t` that a search reads and writes. A region keeps its real length
beside the `unsigned` one of `memory_size_list`. -/
structure CheatManager where
  totalMemorySize : ℕ
  currMemoryBuf : Option Region
  prevMemoryBuf : Option (List UInt8)
  matchBuf : Option (List UInt8)
  memoryBufList : List Region
  memorySizeList : List ℕ
  searchBitSize : ℕ
  searchExactValue : UInt32
  searchEqplusValue : UInt32
  searchEqminusValue : UInt32
  numMatches : ℕ
  bigEndian : Bool
  memoryInitialized : Bool
  memorySearchInitialized : Bool

inductive CheatSearchType
  | exact
  | lt
  | lte
  | gt
  | gte
  | eq
  | neq
  | eqplus
  | eqminus
  deriving DecidableEq, Repr

inductive CheatMatchAction
  | view
  | delete
  | copy
  | browse
  deriving DecidableEq, Repr

/-- `memcpy` of every region after another, starting at `offset`. -/
def copyRegions (m : Snapshot) : List Region → List ℕ → ℕ → List UInt8 → Option (List UInt8)
  | r :: rs, size :: sizes, offset, buf =>
    (peeks (r.bytes m) 0 size).bind fun bytes =>
      (pokes buf offset bytes).bind (copyRegions m rs sizes ((offset + size) % 2 ^ 32))
  | _, _, _, buf => some buf

def addRegion (s : CheatManager) (r : Region) : CheatManager :=
  { s with
    memoryBufList := s.memoryBufList ++ [r]
    memorySizeList := s.memorySizeList ++ [r.len % 2 ^ 32]
    totalMemorySize := (s.totalMemorySize + r.len) % 2 ^ 32
    currMemoryBuf := s.currMemoryBuf.or (some r) }

/-- The buffers of a new search. -/
def initializeSearch (m : Snapshot) (s : CheatManager) : Option CheatManager :=
  (copyRegions m s.memoryBufList s.memorySizeList 0 (List.replicate s.totalMemorySize 0)).map
    fun prev => { s with
      prevMemoryBuf := some prev
      matchBuf := some (List.replicate s.totalMemorySize 0xFF)
      memorySearchInitialized := true }

/-- `cheat_manager_initialize_memory`, with the descriptors of the core, its system RAM, and
whether a new search is wanted. No result is an access outside of a buffer. -/
def cheatManagerInitializeMemory (descriptors : List MemoryDescriptor) (systemRam : Region)
    (isSearchInitialization : Bool) (m : Snapshot) (s : CheatManager) : Option CheatManager :=
  let s := { s with
    totalMemorySize := 0
    currMemoryBuf := none
    memoryBufList := []
    memorySizeList := [] }
  let s := (descriptors.filterMap MemoryDescriptor.accepted).foldl addRegion s
  if s.memoryBufList = [] ∧ systemRam.len = 0 then some s
  else
    let s := if s.memoryBufList = [] then addRegion s systemRam else s
    let s := { s with numMatches := s.totalMemorySize * 8 % 2 ^ 32 / 2 ^ s.searchBitSize }
    let s := if isSearchInitialization then initializeSearch m s else some s
    s.map fun s => { s with memoryInitialized := true }

/-- The region that `address` lies in and the place where it starts; `curr` stays where there is
none. -/
def translateAddress (s : CheatManager) (address : ℕ) (curr : Option Region) :
    ℕ × Option Region :=
  go (s.memoryBufList.zip s.memorySizeList) 0
where
  go : List (Region × ℕ) → ℕ → ℕ × Option Region
    | [], offset => (offset, curr)
    | (r, size) :: rest, offset =>
      if offset ≤ address ∧ address < (offset + size) % 2 ^ 32 then (offset, some r)
      else go rest ((offset + size) % 2 ^ 32)

/-- How the items of a search lie in memory. -/
structure SearchMeta where
  bytesPerItem : ℕ
  mask : UInt32
  bits : ℕ
  deriving DecidableEq, Repr

def cheatManagerSetupSearchMeta : ℕ → SearchMeta
  | 0 => ⟨1, 0x01, 1⟩
  | 1 => ⟨1, 0x03, 2⟩
  | 2 => ⟨1, 0x0F, 4⟩
  | 3 => ⟨1, 0xFF, 8⟩
  | 4 => ⟨2, 0xFFFF, 8⟩
  | 5 => ⟨4, 0xFFFFFFFF, 8⟩
  | _ => ⟨1, 0, 8⟩

/-- The value of one, two or four bytes. -/
def itemValue (bigEndian : Bool) : List UInt8 → UInt32
  | [a] => a.toUInt32
  | [a, b] =>
    if bigEndian then a.toUInt32 * 256 + b.toUInt32 else a.toUInt32 + b.toUInt32 * 256
  | [a, b, c, d] =>
    if bigEndian then
      a.toUInt32 * 256 * 256 * 256 + b.toUInt32 * 256 * 256 + c.toUInt32 * 256 + d.toUInt32
    else a.toUInt32 + b.toUInt32 * 256 + c.toUInt32 * 256 * 256 + d.toUInt32 * 256 * 256 * 256
  | _ => 0

/-- The value at `idx` in the regions. -/
def currValue (s : CheatManager) (m : Snapshot) (bytesPerItem idx offset : ℕ)
    (curr : Option Region) : Option UInt32 :=
  match curr with
  | none => none
  | some r =>
    if idx < offset then none
    else (peeks (r.bytes m) (idx - offset) bytesPerItem).map (itemValue s.bigEndian)

/-- The value at `idx` at the previous search. -/
def prevValue (s : CheatManager) (bytesPerItem idx : ℕ) : Option UInt32 :=
  s.prevMemoryBuf.bind fun prev =>
    (peeks prev idx bytesPerItem).map (itemValue s.bigEndian)

/-- The part of a value that lies in group `bytePart`. -/
def SearchMeta.subval (k : SearchMeta) (value : UInt32) (bytePart : ℕ) : UInt32 :=
  (value >>> (bytePart * k.bits).toUInt32) &&& k.mask

/-- The bits of `matches` that stand for group `bytePart`. -/
def SearchMeta.group (k : SearchMeta) (bytePart : ℕ) : UInt8 :=
  if k.bits < 8 then (k.mask <<< (bytePart * k.bits).toUInt32).toUInt8 else 0xFF

/-- Takes the group out of `matches`. -/
def SearchMeta.unmark (k : SearchMeta) (buf : List UInt8) (idx bytePart : ℕ) :
    Option (List UInt8) :=
  if k.bits < 8 then
    (buf[idx]?).bind fun byte => poke buf idx (byte &&& ~~~ k.group bytePart)
  else pokes buf idx (List.replicate k.bytesPerItem 0)

def isMatch (s : CheatManager) (searchType : CheatSearchType) (curr prev : UInt32) : Bool :=
  match searchType with
  | .exact => curr == s.searchExactValue
  | .lt => decide (curr < prev)
  | .gt => decide (prev < curr)
  | .lte => decide (curr ≤ prev)
  | .gte => decide (prev ≤ curr)
  | .eq => curr == prev
  | .neq => curr != prev
  | .eqplus => curr == prev + s.searchEqplusValue
  | .eqminus => curr == prev - s.searchEqminusValue

/-- What the loop of a search changes. -/
structure Sweep where
  buf : List UInt8
  numMatches : ℕ
  curr : Option Region

/-- One group of the item at `idx`. -/
def searchPart (s : CheatManager) (k : SearchMeta) (searchType : CheatSearchType) (idx : ℕ)
    (currVal prevVal : UInt32) (w : Sweep) (bytePart : ℕ) : Option Sweep :=
  (w.buf[idx]?).bind fun byte =>
    if 0 < byte &&& k.group bytePart then
      if isMatch s searchType (k.subval currVal bytePart) (k.subval prevVal bytePart) then some w
      else
        (k.unmark w.buf idx bytePart).map fun buf =>
          { w with buf := buf, numMatches := w.numMatches - 1 }
    else some w

def searchItem (s : CheatManager) (k : SearchMeta) (searchType : CheatSearchType) (m : Snapshot)
    (w : Sweep) (idx : ℕ) : Option Sweep :=
  let (offset, curr) := translateAddress s idx w.curr
  (currValue s m k.bytesPerItem idx offset curr).bind fun currVal =>
    (prevValue s k.bytesPerItem idx).bind fun prevVal =>
      (List.range (8 / k.bits)).foldlM (searchPart s k searchType idx currVal prevVal)
        { w with curr := curr }

/-- The addresses from `start` on at which items lie. -/
def addresses (s : CheatManager) (k : SearchMeta) (start : ℕ) : List ℕ :=
  List.range' start ((s.totalMemorySize - start + k.bytesPerItem - 1) / k.bytesPerItem)
    k.bytesPerItem

def cheatManagerSearch (searchType : CheatSearchType) (m : Snapshot) (s : CheatManager) :
    Option CheatManager :=
  if s.memoryBufList = [] then some s
  else
    let k := cheatManagerSetupSearchMeta s.searchBitSize
    s.matchBuf.bind fun buf =>
      ((addresses s k 0).foldlM (searchItem s k searchType m)
        ⟨buf, s.numMatches, s.currMemoryBuf⟩).bind fun w =>
          s.prevMemoryBuf.bind fun prev =>
            (copyRegions m s.memoryBufList s.memorySizeList 0 prev).map fun prev =>
              { s with
                prevMemoryBuf := some prev
                matchBuf := some w.buf
                numMatches := w.numMatches }

/-- What is reported about a match. -/
structure Found where
  address : ℕ
  addressMask : UInt32
  currValue : UInt32
  prevValue : UInt32

/-- How looking through the groups of an item ends: with the number of matches seen so far, or
with the match that was looked for. -/
inductive Looked
  | on (currMatchIdx : ℕ)
  | here (bytePart : ℕ)

def lookParts (k : SearchMeta) (byte : UInt8) (target : ℕ) : List ℕ → ℕ → Looked
  | [], seen => .on seen
  | bytePart :: rest, seen =>
    if 0 < byte &&& k.group bytePart then
      if target = seen then .here bytePart else lookParts k byte target rest (seen + 1)
    else lookParts k byte target rest seen

/-- What is done with the match once it is found. -/
def actOn (action : CheatMatchAction) (k : SearchMeta) (idx bytePart : ℕ)
    (currVal prevVal : UInt32) (buf : List UInt8) (s : CheatManager) :
    Option (Option Found × CheatManager) :=
  match action with
  | .browse => some (none, s)
  | .view | .copy =>
    let mask := if k.bits < 8 then k.mask <<< (bytePart * k.bits).toUInt32 else 0xFF
    some (some ⟨idx, mask, currVal, prevVal⟩, s)
  | .delete =>
    (k.unmark buf idx bytePart).map fun buf =>
      (none, { s with matchBuf := some buf, numMatches := s.numMatches - 1 })

def matchLoop (action : CheatMatchAction) (k : SearchMeta) (target : ℕ) (m : Snapshot)
    (s : CheatManager) : List ℕ → Option Region → ℕ → Option (Option Found × CheatManager)
  | [], _, _ => some (none, s)
  | idx :: rest, curr, seen =>
    let (offset, curr) := translateAddress s idx curr
    (currValue s m k.bytesPerItem idx offset curr).bind fun currVal =>
      match s.prevMemoryBuf with
      | none =>
        some (if action = .browse then some ⟨idx, 0, currVal, 0⟩ else none, s)
      | some _ =>
        (prevValue s k.bytesPerItem idx).bind fun prevVal =>
          if action = .browse then some (some ⟨idx, 0, currVal, prevVal⟩, s)
          else
            s.matchBuf.bind fun buf =>
              (buf[idx]?).bind fun byte =>
                match lookParts k byte target (List.range (8 / k.bits)) seen with
                | .here bytePart => actOn action k idx bytePart currVal prevVal buf s
                | .on seen => matchLoop action k target m s rest curr seen

/-- `cheat_manager_match_action`; a match that is copied is reported as one that is viewed. -/
def cheatManagerMatchAction (action : CheatMatchAction) (target address : ℕ) (m : Snapshot)
    (s : CheatManager) : Option (Option Found × CheatManager) :=
  if (s.numMatches + (2 ^ 32 - 1)) % 2 ^ 32 < target then some (none, s)
  else if s.memoryBufList = [] then some (none, s)
  else
    let k := cheatManagerSetupSearchMeta s.searchBitSize
    let start := if action = .browse then address else 0
    matchLoop action k target m s (addresses s k start) s.currMemoryBuf 0

end RetroArch.Cheats
