/- Applying cheats to the memory of a core. -/

import RetroArch.Cheats.Candidates

namespace RetroArch.Cheats

open Library.Memory

inductive CheatHandlerType
  | emu
  | retro
  deriving DecidableEq, Repr

inductive CheatType
  | disabled
  | setToValue
  | increaseValue
  | decreaseValue
  | runNextIfEq
  | runNextIfNeq
  | runNextIfLt
  | runNextIfGt
  deriving DecidableEq, Repr

/-- What is read of `item_cheat` while cheats are applied. -/
structure ItemCheat where
  state : Bool
  handler : CheatHandlerType
  memorySearchSize : ℕ
  cheatType : CheatType
  value : UInt32
  address : UInt32
  addressMask : UInt32
  bigEndian : Bool
  repeatCount : UInt32
  repeatAddToValue : UInt32
  repeatAddToAddress : UInt32
  deriving DecidableEq, Repr

def ItemCheat.enabled (cheat : ItemCheat) : Bool :=
  cheat.handler == .retro && cheat.state

/-- The value that the first item is set to, where the cheat sets one. -/
def ItemCheat.valueToSet (cheat : ItemCheat) (currVal : UInt32) : Option UInt32 :=
  match cheat.cheatType with
  | .setToValue => some cheat.value
  | .increaseValue => some (currVal + cheat.value)
  | .decreaseValue => some (currVal - cheat.value)
  | _ => none

/-- Whether the next cheat is run. -/
def ItemCheat.runNext (cheat : ItemCheat) (currVal : UInt32) : Bool :=
  match cheat.cheatType with
  | .runNextIfEq => currVal == cheat.value
  | .runNextIfNeq => currVal != cheat.value
  | .runNextIfLt => decide (cheat.value < currVal)
  | .runNextIfGt => decide (currVal < cheat.value)
  | _ => true

def overwrite (m : Snapshot) (ptr pos : ℕ) (bytes : List UInt8) : Snapshot := fun p j =>
  if p = ptr ∧ pos ≤ j then (bytes[j - pos]?).getD (m p j) else m p j

/-- Stores at `curr + idx - offset`. -/
def storeAt (m : Snapshot) (idx offset : ℕ) (curr : Option Region) (bytes : List UInt8) :
    Option Snapshot :=
  curr.bind fun r =>
    if offset ≤ idx ∧ idx - offset + bytes.length ≤ r.len then
      some (overwrite m r.ptr (idx - offset) bytes)
    else none

def byteAt (m : Snapshot) (idx offset : ℕ) (curr : Option Region) : Option UInt8 :=
  curr.bind fun r =>
    if offset ≤ idx ∧ idx - offset < r.len then some (m r.ptr (idx - offset)) else none

/-- The bytes of `value_to_set` in the order in which they are stored. -/
def storedBytes (bigEndian : Bool) (value : ℕ) : ℕ → List UInt8
  | 2 =>
    if bigEndian then [(value >>> 8 &&& 0xFF).toUInt8, (value &&& 0xFF).toUInt8]
    else [(value &&& 0xFF).toUInt8, (value >>> 8 &&& 0xFF).toUInt8]
  | 4 =>
    if bigEndian then
      [(value >>> 24 &&& 0xFF).toUInt8, (value >>> 16 &&& 0xFF).toUInt8,
        (value >>> 8 &&& 0xFF).toUInt8, (value &&& 0xFF).toUInt8]
    else
      [(value &&& 0xFF).toUInt8, (value >>> 8 &&& 0xFF).toUInt8,
        (value >>> 16 &&& 0xFF).toUInt8, (value >>> 24 &&& 0xFF).toUInt8]
  | _ => [(value &&& 0xFF).toUInt8]

/-- The mask that clears one bit of a byte. -/
def clearing (bitpos : ℕ) : ℕ := 0xFF ^^^ 1 <<< bitpos

/-- Clears a bit of a byte and injects that of the value, where the address mask has it; the mask
of the last such bit stays behind. -/
def injectBit (addressMask value : ℕ) (w : UInt8 × ℕ) (bitpos : ℕ) : UInt8 × ℕ :=
  if addressMask.testBit bitpos then
    ((w.1.toNat &&& clearing bitpos ||| (value >>> bitpos &&& 1) <<< bitpos).toUInt8,
      clearing bitpos)
  else w

/-- The variables of the loop over the repetitions. -/
structure Repetition where
  memory : Snapshot
  valueToSet : ℕ
  addressMask : ℕ
  mask : ℕ
  idx : ℕ
  offset : ℕ
  curr : Option Region

def storeItem (cheat : ItemCheat) (k : SearchMeta) (t : Repetition) : Option Repetition :=
  if k.bytesPerItem = 1 ∧ k.bits < 8 then
    (byteAt t.memory t.idx t.offset t.curr).bind fun val =>
      let w := (List.range 8).foldl (injectBit t.addressMask t.valueToSet) (val, t.mask)
      (storeAt t.memory t.idx t.offset t.curr [w.1]).map fun memory =>
        { t with memory := memory, mask := w.2 }
  else
    (storeAt t.memory t.idx t.offset t.curr
      (storedBytes cheat.bigEndian t.valueToSet k.bytesPerItem)).map fun memory =>
        { t with memory := memory }

/-- The address mask and the address one small item further. A shift by more bits than an
`unsigned` has no result. -/
def nextGroup (mask : ℕ) (g : ℕ × ℕ) (_bitIter : ℕ) : Option (ℕ × ℕ) :=
  if 32 ≤ mask then none
  else if g.1 <<< mask &&& 0xFF = 0 then some (mask, (g.2 + 1) % 2 ^ 32)
  else some (g.1 <<< mask &&& 0xFF, g.2)

/-- What a repetition does after its store. -/
def moveOn (s : CheatManager) (cheat : ItemCheat) (k : SearchMeta) (t : Repetition) :
    Option Repetition :=
  let value := (t.valueToSet + cheat.repeatAddToValue.toNat) % 2 ^ 32
  let value := if t.mask ≠ 0 then value % t.mask else value
  let moved :=
    if k.bits < 8 then
      (List.range cheat.repeatAddToAddress.toNat).foldlM (nextGroup t.mask) (t.addressMask, t.idx)
    else
      some (t.addressMask,
        (t.idx + cheat.repeatAddToAddress.toNat * k.bytesPerItem) % 2 ^ 32)
  moved.bind fun g =>
    if s.totalMemorySize = 0 then none
    else
      let idx := g.2 % s.totalMemorySize
      let (offset, curr) := translateAddress s idx t.curr
      some { t with
        valueToSet := value
        addressMask := g.1
        idx := idx
        offset := offset
        curr := curr }

/-- The loop over the repetitions. Its counter never gets past the greatest count. -/
def repeatStores (s : CheatManager) (cheat : ItemCheat) (k : SearchMeta) (t : Repetition) :
    Option Repetition :=
  if cheat.repeatCount.toNat = 2 ^ 32 - 1 then none
  else
    (List.range cheat.repeatCount.toNat).foldlM
      (fun t _ => (storeItem cheat k t).bind (moveOn s cheat k)) t

section Applying

/-- What the loop over the cheats changes. -/
structure Applying where
  manager : CheatManager
  memory : Snapshot
  runCheat : Bool
  searchMeta : SearchMeta

/-- `cheat_manager_setup_search_meta`, which leaves everything as it is at an unknown size. -/
def nextSearchMeta (size : ℕ) (k : SearchMeta) : SearchMeta :=
  if size ≤ 5 then cheatManagerSetupSearchMeta size else k

/-- A cheat that is run. -/
def applyCheat (s : CheatManager) (cheat : ItemCheat) (t : Applying) : Option Applying :=
  let k := nextSearchMeta cheat.memorySearchSize t.searchMeta
  let idx := cheat.address.toNat
  let (offset, curr) := translateAddress s idx s.currMemoryBuf
  (currValue s t.memory k.bytesPerItem idx offset curr).bind fun currVal =>
    match cheat.valueToSet currVal with
    | none => some ⟨s, t.memory, cheat.runNext currVal, k⟩
    | some value =>
      (repeatStores s cheat k
        ⟨t.memory, value.toNat, cheat.addressMask.toNat, k.mask.toNat, idx, offset, curr⟩).map
        fun r => ⟨s, r.memory, true, { k with mask := r.mask.toUInt32 }⟩

variable (descriptors : List MemoryDescriptor) (systemRam : Region)

/-- The manager once its memory is set up, where it is not yet. -/
def withMemory (m : Snapshot) (s : CheatManager) : Option CheatManager :=
  if s.memoryInitialized then some s
  else cheatManagerInitializeMemory descriptors systemRam false m s

def applyCheats : List ItemCheat → Applying → Option Applying
  | [], t => some t
  | cheat :: cheats, t =>
    if cheat.enabled then
      (withMemory descriptors systemRam t.memory t.manager).bind fun s =>
        if s.memoryInitialized then
          if t.runCheat then (applyCheat s cheat t).bind (applyCheats cheats)
          else applyCheats cheats { t with manager := s, runCheat := true }
        else some { t with manager := s }
    else applyCheats cheats t

/-- The memory after `cheat_manager_apply_retro_cheats`. No result is an access outside of the
regions, a shift by too many bits, or a call that does not return. -/
def cheatManagerApplyRetroCheats (s : CheatManager) (cheats : List ItemCheat) (m : Snapshot) :
    Option Snapshot :=
  (applyCheats descriptors systemRam cheats ⟨s, m, true, ⟨1, 0, 8⟩⟩).map Applying.memory

end Applying

/-- Where a byte of the memory lies. -/
def place : List Region → ℕ → Option (Region × ℕ)
  | [], _ => none
  | r :: rs, address => if address < r.len then some (r, address) else place rs (address - r.len)

/-- Where an item of some bytes lies. -/
def itemPlace (regions : List Region) (bytesPerItem address : ℕ) : Option (Region × ℕ) :=
  (place regions address).filter fun p => decide (p.2 + bytesPerItem ≤ p.1.len)

/-- The number of bits of an item. -/
def SearchMeta.width (k : SearchMeta) : ℕ := k.bits * k.bytesPerItem

/-- Where in its byte the item of an address mask begins. -/
def SearchMeta.shift (k : SearchMeta) (addressMask : UInt32) : Option ℕ :=
  if k.bits < 8 then
    ((List.range (8 / k.bits)).map (· * k.bits)).find? fun σ =>
      addressMask.toNat == k.mask.toNat <<< σ
  else some 0

/-- The address and the beginning in its byte of the item that is reached by the `n`-th
repetition, from one that begins at `σ`. -/
def ItemCheat.item (cheat : ItemCheat) (k : SearchMeta) (size σ n : ℕ) : ℕ × ℕ :=
  let groups := 8 / k.bits
  let i := cheat.address.toNat * groups + σ / k.bits +
    n * cheat.repeatAddToAddress.toNat * k.bytesPerItem
  (i / groups % size, i % groups * k.bits)

def bytesAt (m : Snapshot) (p : Region × ℕ) (n : ℕ) : List UInt8 :=
  ((p.1.bytes m).drop p.2).take n

/-- The value of an item. -/
def oldItem (m : Snapshot) (k : SearchMeta) (bigEndian : Bool) (p : Region × ℕ) (σ : ℕ) :
    UInt32 :=
  if k.bits < 8 then ((m p.1.ptr p.2).toNat >>> σ % 2 ^ k.bits).toUInt32
  else itemValue bigEndian (bytesAt m p k.bytesPerItem)

def setBit (byte : UInt8) (i : ℕ) (b : Bool) : UInt8 :=
  if b then (byte.toNat ||| 1 <<< i).toUInt8 else (byte.toNat &&& clearing i).toUInt8

/-- A byte whose bits from `σ` on are those of a value. -/
def setBits (σ bits value : ℕ) (byte : UInt8) : UInt8 :=
  (List.range bits).foldl (fun byte j => setBit byte (σ + j) (value.testBit j)) byte

def itemBytes (bigEndian : Bool) (bytesPerItem value : ℕ) : List UInt8 :=
  let bytes := (List.range bytesPerItem).map fun i => (value / 256 ^ i % 256).toUInt8
  if bigEndian then bytes.reverse else bytes

/-- Memory in which an item has a value, and nothing else is changed. -/
def writtenItem (m : Snapshot) (k : SearchMeta) (bigEndian : Bool) (p : Region × ℕ)
    (σ value : ℕ) : Snapshot :=
  if k.bits < 8 then overwrite m p.1.ptr p.2 [setBits σ k.bits value (m p.1.ptr p.2)]
  else overwrite m p.1.ptr p.2 (itemBytes bigEndian k.bytesPerItem value)

/-- What a cheat is to do to the memory. -/
def intended (regions : List Region) (cheat : ItemCheat) (m : Snapshot) : Option Snapshot :=
  let k := cheatManagerSetupSearchMeta cheat.memorySearchSize
  (k.shift cheat.addressMask).bind fun σ =>
    (itemPlace regions k.bytesPerItem (cheat.address.toNat % totalLength regions)).bind fun p =>
      (cheat.valueToSet (oldItem m k cheat.bigEndian p σ)).bind fun value =>
        (List.range cheat.repeatCount.toNat).foldlM (fun m n =>
          let (address, σ) := cheat.item k (totalLength regions) σ n
          (itemPlace regions k.bytesPerItem address).map fun p =>
            writtenItem m k cheat.bigEndian p σ
              ((value.toNat + n * cheat.repeatAddToValue.toNat) % 2 ^ k.width)) m

/-- The value that a cheat is looked at with. -/
def ItemCheat.lookedAt (cheat : ItemCheat) (s : CheatManager) (m : Snapshot) : Option UInt32 :=
  let (offset, curr) := translateAddress s cheat.address.toNat s.currMemoryBuf
  currValue s m (cheatManagerSetupSearchMeta cheat.memorySearchSize).bytesPerItem
    cheat.address.toNat offset curr

def ItemCheat.sets (cheat : ItemCheat) : Bool := (cheat.valueToSet 0).isSome

/-- What the cheats are to do to the memory, from whether the next of them is run. -/
def intendedRun (s : CheatManager) (regions : List Region) :
    List ItemCheat → Bool → Snapshot → Option Snapshot
  | [], _, m => some m
  | cheat :: cheats, run, m =>
    if cheat.enabled then
      if run then
        if cheat.sets then (intended regions cheat m).bind (intendedRun s regions cheats true)
        else
          (cheat.lookedAt s m).bind fun currVal =>
            intendedRun s regions cheats (cheat.runNext currVal) m
      else intendedRun s regions cheats true m
    else intendedRun s regions cheats run m

/-- Applying the cheats does to the memory what they are to do, and nothing else. -/
def AppliedAsIntended (descriptors : List MemoryDescriptor) (systemRam : Region)
    (s : CheatManager) (regions : List Region) (cheats : List ItemCheat) (m : Snapshot) : Prop :=
  ∃ m', cheatManagerApplyRetroCheats descriptors systemRam s cheats m = some m' ∧
    (withMemory descriptors systemRam m s).bind
      (fun s => intendedRun s regions cheats true m) = some m'

end RetroArch.Cheats
