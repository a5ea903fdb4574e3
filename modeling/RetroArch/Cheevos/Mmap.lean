/- Memory maps of a core: how their descriptors are prepared, and how an address is looked up. -/

import Mathlib.Data.BitVec
import RetroArch.Library.BitPicking

namespace RetroArch.Cheevos.Mmap

open Library.BitPicking

abbrev SizeT := BitVec 64

def mmapAddBitsDown (n : SizeT) : SizeT :=
  let n := n ||| n >>> 1
  let n := n ||| n >>> 2
  let n := n ||| n >>> 4
  let n := n ||| n >>> 8
  let n := n ||| n >>> 16
  n ||| n >>> 16 >>> 16

/-- Each round clears the lowest bit of `mask`, so that 64 rounds are enough. -/
def mmapInflateLoop : ℕ → SizeT → SizeT → SizeT
  | 0, addr, _ => addr
  | fuel + 1, addr, mask =>
    if mask = 0 then addr
    else
      let tmp := (mask - 1) &&& ~~~mask
      mmapInflateLoop fuel (((addr &&& ~~~tmp) <<< 1) ||| (addr &&& tmp)) (mask &&& (mask - 1))

def mmapInflate (addr mask : SizeT) : SizeT := mmapInflateLoop 64 addr mask

def mmapReduceLoop : ℕ → SizeT → SizeT → SizeT
  | 0, addr, _ => addr
  | fuel + 1, addr, mask =>
    if mask = 0 then addr
    else
      let tmp := (mask - 1) &&& ~~~mask
      mmapReduceLoop fuel ((addr &&& tmp) ||| ((addr >>> 1) &&& ~~~tmp))
        ((mask &&& (mask - 1)) >>> 1)

def mmapReduce (addr mask : SizeT) : SizeT := mmapReduceLoop 64 addr mask

def mmapHighestBit (n : SizeT) : SizeT :=
  let n := mmapAddBitsDown n
  n ^^^ (n >>> 1)

structure RetroMemoryDescriptor where
  ptr : SizeT
  offset : SizeT
  start : SizeT
  select : SizeT
  disconnect : SizeT
  len : SizeT
  deriving DecidableEq, Repr

structure RarchMemoryDescriptor where
  core : RetroMemoryDescriptor
  disconnectMask : SizeT
  deriving DecidableEq, Repr

def topAddr (descs : List RetroMemoryDescriptor) : SizeT :=
  mmapAddBitsDown (descs.foldl (fun top desc =>
    if desc.select ≠ 0 then top ||| desc.select else top ||| (desc.start + desc.len - 1)) 1)

/-- Disconnect the highest connected bits until twice the length covers what is left. -/
def disconnectLoop (free len : SizeT) : ℕ → SizeT → SizeT
  | 0, disconnect => disconnect
  | fuel + 1, disconnect =>
    if mmapReduce free disconnect >>> 1 > len - 1 then
      disconnectLoop free len fuel (disconnect ||| mmapHighestBit (free &&& ~~~disconnect))
    else disconnect

/-- Shorten the mask while its highest bit is disconnected. -/
def maskLoop : ℕ → SizeT → SizeT → SizeT × SizeT
  | 0, mask, disconnect => (mask, disconnect)
  | fuel + 1, mask, disconnect =>
    if (~~~mask) >>> 1 &&& disconnect ≠ 0 then
      maskLoop fuel (mask >>> 1) (disconnect &&& mask >>> 1)
    else (mask, disconnect)

/-- The `select` of a descriptor, which is made up for one without. -/
def preparedSelect (top : SizeT) (desc : RetroMemoryDescriptor) : Option SizeT :=
  if desc.select = 0 then
    if desc.len = 0 then none
    else if desc.len &&& (desc.len - 1) ≠ 0 then none
    else some (top &&& ~~~mmapInflate (mmapAddBitsDown (desc.len - 1)) desc.disconnect)
  else some desc.select

def preparedLen (top select : SizeT) (desc : RetroMemoryDescriptor) : SizeT :=
  if desc.len = 0 then mmapAddBitsDown (mmapReduce (top &&& ~~~select) desc.disconnect) + 1
  else desc.len

def preprocessDescriptor (top : SizeT) (desc : RetroMemoryDescriptor) :
    Option RarchMemoryDescriptor :=
  (preparedSelect top desc).bind fun select =>
    let len := preparedLen top select desc
    if desc.start &&& ~~~select ≠ 0 then none
    else
      let disconnect := disconnectLoop (top &&& ~~~select) len 64 desc.disconnect
      let mask := mmapAddBitsDown (len - 1)
      let (mask, disconnect) := maskLoop 64 mask (disconnect &&& mask)
      some ⟨{ desc with select := select, len := len, disconnect := disconnect }, mask⟩

def mmapPreprocessDescriptors (descs : List RetroMemoryDescriptor) :
    Option (List RarchMemoryDescriptor) :=
  descs.mapM (preprocessDescriptor (topAddr descs))

inductive Console
  | nintendo
  | gameboyColor
  | gameboyAdvance
  | pcEngine
  | superNintendo
  | other
  deriving DecidableEq, Repr

def rcheevosVarReduce (addr mask : SizeT) : SizeT := mmapReduceLoop 64 addr mask

/-- Without the last shift of `mmapHighestBit`: the addresses have 32 bits. -/
def rcheevosVarHighestBit (n : SizeT) : SizeT :=
  let n := n ||| n >>> 1
  let n := n ||| n >>> 2
  let n := n ||| n >>> 4
  let n := n ||| n >>> 8
  let n := n ||| n >>> 16
  n ^^^ (n >>> 1)

def mirroredAddress (console : Console) (address : BitVec 32) : BitVec 32 :=
  match console with
  | .nintendo =>
    if 0x0800#32 ≤ address ∧ address < 0x2000#32 then address &&& 0x07ff#32 else address
  | .gameboyColor =>
    if 0xe000#32 ≤ address ∧ address ≤ 0xfdff#32 then address - 0x2000#32 else address
  | _ => address

def mappedAddress (console : Console) (address : BitVec 32) : BitVec 32 :=
  match console with
  | .gameboyAdvance =>
    if address < 0x8000#32 then address + 0x3000000#32 else address + 0x2000000#32 - 0x8000#32
  | .pcEngine => address + 0x1f0000#32
  | .superNintendo =>
    if address < 0x020000#32 then address + 0x7e0000#32
    else address + (0x006000#32 - 0x020000#32)
  | _ => address

/-- Both adjustments, where the core has a memory map. -/
def adjustedAddress (console : Console) (address : BitVec 32) : BitVec 32 :=
  mappedAddress console (mirroredAddress console address)

def Selects (desc : RarchMemoryDescriptor) (address : BitVec 32) : Prop :=
  (desc.core.start ^^^ address.setWidth 64) &&& desc.core.select = 0

instance (desc : RarchMemoryDescriptor) (address : BitVec 32) :
    Decidable (Selects desc address) :=
  inferInstanceAs (Decidable (_ = _))

/-- Where a descriptor that selects the address puts it, from its pointer on. -/
def descriptorAddress (desc : RarchMemoryDescriptor) (addr : BitVec 32) : BitVec 32 :=
  let address : BitVec 32 := (rcheevosVarReduce
    ((addr.setWidth 64 - desc.core.start) &&& desc.disconnectMask) desc.core.disconnect).setWidth 32
  let address := if address.setWidth 64 ≥ desc.core.len then
      (address.setWidth 64 - rcheevosVarHighestBit (address.setWidth 64)).setWidth 32
    else address
  (address.setWidth 64 + desc.core.offset).setWidth 32

def pointerAt (pointer : SizeT) (address : BitVec 32) : Option SizeT :=
  if pointer = 0 then none else some (pointer + address.setWidth 64)

/-- One of the four memories that are tried in turn where the core has no memory map. -/
structure RetroCtxMemoryInfo where
  data : SizeT
  size : SizeT
  deriving DecidableEq, Repr

/-- The save RAM is found behind `0x6000` bytes, whatever size a core gives its RAM. -/
def memoryPointer (console : Console) : ℕ → List RetroCtxMemoryInfo → BitVec 32 → Option SizeT
  | _, [], _ => none
  | i, meminfo :: rest, address =>
    if address.setWidth 64 < meminfo.size then pointerAt meminfo.data address
    else if i = 0 ∧ console = .nintendo then
      memoryPointer console (i + 1) rest (address - 0x6000#32)
    else memoryPointer console (i + 1) rest ((address.setWidth 64 - meminfo.size).setWidth 32)

def rcheevosPatchAddress (memory : List RetroCtxMemoryInfo) (descs : List RarchMemoryDescriptor)
    (address : BitVec 32) (console : Console) : Option SizeT :=
  if descs = [] then memoryPointer console 0 memory (mirroredAddress console address)
  else
    let address := adjustedAddress console address
    match descs.find? fun desc => Selects desc address with
    | none => none
    | some desc => pointerAt desc.core.ptr (descriptorAddress desc address)

/-- Subtract `start`, pick off `disconnect`, apply `len`. -/
def documentedOffset (desc : RetroMemoryDescriptor) (address : BitVec 32) : ℕ :=
  let physical := pick 64 desc.disconnect.toNat (address.setWidth 64 - desc.start).toNat
  if desc.len = 0 then physical else clearHigh 64 desc.len.toNat physical

/-- The first descriptor whose selected bits match, as the core gave it. -/
def claiming (descs : List RetroMemoryDescriptor) (prepared : List RarchMemoryDescriptor)
    (address : BitVec 32) : Option RetroMemoryDescriptor :=
  ((descs.zip prepared).find? fun pair => Selects pair.2 address).map Prod.fst

def documentedPointer (descs : List RetroMemoryDescriptor)
    (prepared : List RarchMemoryDescriptor) (address : BitVec 32) : Option SizeT :=
  match claiming descs prepared address with
  | none => none
  | some desc =>
    if desc.ptr = 0 then none
    else some (desc.ptr + (desc.offset + BitVec.ofNat 64 (documentedOffset desc address)))

end RetroArch.Cheevos.Mmap
