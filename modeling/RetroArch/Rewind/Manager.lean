/- The rewind buffer: a ring of patches chained both ways, with the newest state kept outside. -/

import RetroArch.Library.Bytes
import RetroArch.Library.Region
import RetroArch.Rewind.Patch

namespace RetroArch.Rewind.Manager

open Library.Bytes Library.Region Patch

/-- `struct state_manager`, with the pointers into the ring as offsets from `data`. -/
structure StateManager where
  data : List UInt8
  capacity : ℕ
  head : ℕ
  tail : ℕ
  thisblock : List UInt16
  nextblock : List UInt16
  blocksize : ℕ
  maxcompsize : ℕ
  entries : UInt32
  thisblockValid : Bool

/-- `write_size_t`; a `size_t` has eight bytes. An access outside the allocation has no
result. -/
def writeSizeT (data : List UInt8) (pos v : ℕ) : Option (List UInt8) :=
  if pos + 8 ≤ data.length then some (blit data pos (toLE 8 v)) else none

def readSizeT (data : List UInt8) (pos : ℕ) : Option ℕ :=
  if pos + 8 ≤ data.length then some (ofLE (slice data pos (pos + 8))) else none

/-- What the compressor writes, at a position of the ring. -/
def writePatch (data : List UInt8) (pos : ℕ) (patch : List UInt16) : Option (List UInt8) :=
  if pos + 2 * patch.length ≤ data.length then some (blit data pos (bytes patch)) else none

/-- `state_manager_new`; `fresh` is what `malloc` returns for the ring. -/
def stateManagerNew (stateSize : ℕ) (fresh : List UInt8) : StateManager where
  data := fresh
  capacity := fresh.length
  head := 8
  tail := 8
  thisblock := stateManagerRawAlloc stateSize 0
  nextblock := stateManagerRawAlloc stateSize 1
  blocksize := (stateSize + 1) / 2 * 2
  maxcompsize := stateManagerRawMaxsize stateSize + 8 * 2
  entries := 0
  thisblockValid := false

/-- `state_manager_pop`. In every case `*data` is left pointing at `thisblock`. -/
def stateManagerPop (state : StateManager) : Option (Bool × StateManager) :=
  if state.thisblockValid then
    some (true, { state with thisblockValid := false, entries := state.entries - 1 })
  else if state.head = state.tail then some (false, state)
  else
    (readSizeT state.data (state.head - 8)).bind fun start =>
      (stateManagerRawDecompress (words (state.data.drop (start + 8)))
        state.thisblock).map fun out =>
          (true, { state with head := start, thisblock := out, entries := state.entries - 1 })

/-- `state_manager_push_where`. `*data` is left pointing at `nextblock`. -/
def stateManagerPushWhere (state : StateManager) : Option StateManager :=
  if state.thisblockValid then some state
  else
    (stateManagerPop state).map fun
      | (true, state) => { state with thisblockValid := true, entries := state.entries + 1 }
      | (false, state) => state

/-- The core serializes `s` into the block it was given. -/
def serializeInto (block : List UInt16) (s : List UInt8) : List UInt16 :=
  words (s ++ (bytes block).drop s.length)

/-- The loop at `recheckcapacity`. `fuel` bounds the frames it can discard. -/
def recheckcapacity : ℕ → StateManager → Option StateManager
  | fuel, state =>
    let remaining :=
      (state.tail + state.capacity - 8 - state.head - 1) % state.capacity + 1
    if remaining ≤ state.maxcompsize then
      match fuel with
      | 0 => none
      | fuel + 1 =>
        (readSizeT state.data state.tail).bind fun tail =>
          recheckcapacity fuel { state with tail := tail, entries := state.entries - 1 }
    else some state

/-- `state_manager_push_do` from the compression to the new head. -/
def pushPatch (state : StateManager) : Option StateManager :=
  (stateManagerRawCompress state.thisblock state.nextblock state.blocksize).bind fun patch =>
    (writePatch state.data (state.head + 8) patch).bind fun data =>
      let compressed := state.head + 8 + 2 * patch.length
      let wraps := state.capacity < compressed + state.maxcompsize
      let compressed := if wraps then 0 else compressed
      (if wraps ∧ state.tail = 8 then readSizeT data state.tail
        else some state.tail).bind fun tail =>
          (writeSizeT data compressed state.head).bind fun data =>
            (writeSizeT data state.head (compressed + 8)).map fun data =>
              { state with data := data, tail := tail, head := compressed + 8 }

/-- The exchange of the two blocks that ends `state_manager_push_do`. -/
def swapBlocks (state : StateManager) : StateManager :=
  { state with
    thisblock := state.nextblock, nextblock := state.thisblock, entries := state.entries + 1 }

def stateManagerPushDo (state : StateManager) : Option StateManager :=
  if state.thisblockValid then
    if state.capacity < 8 + state.maxcompsize then some state
    else ((recheckcapacity state.capacity state).bind pushPatch).map swapBlocks
  else some (swapBlocks { state with thisblockValid := true })

/-- The core's way to push a state. -/
def push (state : StateManager) (s : List UInt8) : Option StateManager :=
  (stateManagerPushWhere state).bind fun state =>
    stateManagerPushDo { state with nextblock := serializeInto state.nextblock s }

end RetroArch.Rewind.Manager
