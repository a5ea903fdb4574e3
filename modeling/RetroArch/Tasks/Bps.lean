/- `bps_apply_patch` and the readers and writers under it. An access outside what it may touch ends
the run. -/

import RetroArch.Encodings.Crc32
import RetroArch.Library.Bytes
import RetroArch.Tasks.Patch

namespace RetroArch.Tasks

open Encodings Library.Bytes

/-- The access that was outside. -/
inductive BpsFault
  | modifyRead
  | sourceRead
  | targetRead
  | targetWrite
  deriving DecidableEq, Repr

/-- `struct bps_data`; each length is that of its bytes. -/
structure BpsData where
  modifyData : List UInt8
  sourceData : List UInt8
  targetData : List UInt8
  modifyOffset : ℕ
  sourceOffset : ℕ
  targetOffset : ℕ
  outputOffset : ℕ
  modifyChecksum : UInt32
  targetChecksum : UInt32

/-- A byte and the state its read leaves. -/
abbrev BpsFetch := BpsData → Except BpsFault (UInt8 × BpsData)

def bpsRead : BpsFetch := fun bps =>
  match bps.modifyData[bps.modifyOffset]? with
  | none => .error .modifyRead
  | some data =>
    .ok (data, { bps with
      modifyOffset := bps.modifyOffset + 1
      modifyChecksum := ~~~(encodingCrc32 (~~~bps.modifyChecksum) [data]) })

/-- With no byte left the next read is the one past the end. -/
def bpsDecodeLoop : ℕ → UInt64 → UInt64 → BpsData → Except BpsFault (UInt64 × BpsData)
  | 0, _, _, _ => .error .modifyRead
  | left + 1, data, shift, bps => do
    let (x, bps) ← bpsRead bps
    let data := data + (x &&& 0x7f).toUInt64 * shift
    if x &&& 0x80 ≠ 0 then
      .ok (data, bps)
    else
      let shift := shift <<< 7
      bpsDecodeLoop left (data + shift) shift bps

def bpsDecode (bps : BpsData) : Except BpsFault (UInt64 × BpsData) :=
  bpsDecodeLoop (bps.modifyData.length - bps.modifyOffset) 0 1 bps

def bpsWrite (bps : BpsData) (data : UInt8) : Except BpsFault BpsData :=
  if bps.outputOffset < bps.targetData.length then
    .ok { bps with
      targetData := bps.targetData.set bps.outputOffset data
      outputOffset := bps.outputOffset + 1
      targetChecksum := ~~~(encodingCrc32 (~~~bps.targetChecksum) [data]) }
  else
    .error .targetWrite

/-- The loops of the four modes: as many bytes, each fetched and written. -/
def bpsSend (fetch : BpsFetch) : ℕ → BpsData → Except BpsFault BpsData
  | 0, bps => .ok bps
  | length + 1, bps => do
    let (data, bps) ← fetch bps
    let bps ← bpsWrite bps data
    bpsSend fetch length bps

/-- `source_data[output_offset]` -/
def bpsSourceByte : BpsFetch := fun bps =>
  match bps.sourceData[bps.outputOffset]? with
  | none => .error .sourceRead
  | some data => .ok (data, bps)

/-- `source_data[source_offset++]` -/
def bpsSourceCopyByte : BpsFetch := fun bps =>
  match bps.sourceData[bps.sourceOffset]? with
  | none => .error .sourceRead
  | some data => .ok (data, { bps with sourceOffset := bps.sourceOffset + 1 })

/-- `target_data[target_offset++]`, of which only what was written is there to be read. -/
def bpsTargetCopyByte : BpsFetch := fun bps =>
  match (bps.targetData.take bps.outputOffset)[bps.targetOffset]? with
  | none => .error .targetRead
  | some data => .ok (data, { bps with targetOffset := bps.targetOffset + 1 })

/-- The jump of a copy: an `int`, its sign in the low bit. -/
def bpsOffset (data : UInt64) : Int32 :=
  let offset := data.toUInt32.toInt32
  let negative := offset &&& 1
  let offset := offset >>> 1
  if negative ≠ 0 then -offset else offset

/-- `offset` is added to a `size_t`. -/
def bpsJump (base : ℕ) (offset : Int32) : ℕ := (((base : ℤ) + offset.toInt) % 2 ^ 64).toNat

def bpsAction (bps : BpsData) : Except BpsFault BpsData := do
  let (length, bps) ← bpsDecode bps
  let mode := length.toNat % 4
  let length := length.toNat / 4 + 1
  match mode with
  | 0 => bpsSend bpsSourceByte length bps
  | 1 => bpsSend bpsRead length bps
  | 2 => do
    let (data, bps) ← bpsDecode bps
    bpsSend bpsSourceCopyByte length
      { bps with sourceOffset := bpsJump bps.sourceOffset (bpsOffset data) }
  | _ => do
    let (data, bps) ← bpsDecode bps
    bpsSend bpsTargetCopyByte length
      { bps with targetOffset := bpsJump bps.targetOffset (bpsOffset data) }

/-- The actions, each of which reads at least one byte of the patch, so that there are no more of
them than bytes before the checksums. -/
def bpsActions : ℕ → BpsData → Except BpsFault BpsData
  | 0, bps => .ok bps
  | left + 1, bps =>
    if bps.modifyOffset < bps.modifyData.length - 12 then do
      let bps ← bpsAction bps
      bpsActions left bps
    else
      .ok bps

/-- The reads of the header stop at the first that differs. -/
def bpsExpect : List UInt8 → BpsData → Except BpsFault (Bool × BpsData)
  | [], bps => .ok (true, bps)
  | c :: cs, bps => do
    let (data, bps) ← bpsRead bps
    if data ≠ c then
      .ok (false, bps)
    else
      bpsExpect cs bps

/-- `"BPS1"` -/
def bpsMagic : List UInt8 := [0x42, 0x50, 0x53, 0x31]

/-- The metadata is read and dropped. -/
def bpsSkip : ℕ → BpsData → Except BpsFault BpsData
  | 0, bps => .ok bps
  | left + 1, bps => do
    let (_, bps) ← bpsRead bps
    bpsSkip left bps

def bpsReadChecksum (bps : BpsData) : Except BpsFault (UInt32 × BpsData) := do
  let (b0, bps) ← bpsRead bps
  let (b1, bps) ← bpsRead bps
  let (b2, bps) ← bpsRead bps
  let (b3, bps) ← bpsRead bps
  .ok (UInt32.ofNat (ofLE [b0, b1, b2, b3]), bps)

/-- The error, the buffer and the length it is left with. -/
structure BpsResult where
  err : PatchError
  targetData : List UInt8
  targetLength : ℕ
  deriving DecidableEq

/-- The part after the actions. -/
def bpsVerdict (bps : BpsData) (modifyTargetSize : ℕ) : Except BpsFault BpsResult := do
  let (modifySourceChecksum, bps) ← bpsReadChecksum bps
  let (modifyTargetChecksum, bps) ← bpsReadChecksum bps
  let checksum := ~~~bps.modifyChecksum
  let (modifyModifyChecksum, bps) ← bpsReadChecksum bps
  let sourceChecksum := encodingCrc32 0 bps.sourceData
  let targetChecksum := ~~~bps.targetChecksum
  let targetLength := bps.targetData.length
  if sourceChecksum ≠ modifySourceChecksum then
    .ok ⟨.sourceChecksumInvalid, bps.targetData, targetLength⟩
  else if targetChecksum ≠ modifyTargetChecksum then
    .ok ⟨.targetChecksumInvalid, bps.targetData, targetLength⟩
  else if checksum ≠ modifyModifyChecksum then
    .ok ⟨.patchChecksumInvalid, bps.targetData, targetLength⟩
  else
    .ok ⟨.success, bps.targetData, modifyTargetSize⟩

/-- The part after the header is known. -/
def bpsApplySized (bps : BpsData) : Except BpsFault BpsResult := do
  let (modifySourceSize, bps) ← bpsDecode bps
  let (modifyTargetSize, bps) ← bpsDecode bps
  let (modifyMarkupSize, bps) ← bpsDecode bps
  let bps ← bpsSkip modifyMarkupSize.toNat bps
  if modifySourceSize.toNat > bps.sourceData.length then
    .ok ⟨.sourceTooSmall, bps.targetData, bps.targetData.length⟩
  else if modifyTargetSize.toNat > bps.targetData.length then
    .ok ⟨.targetTooSmall, bps.targetData, bps.targetData.length⟩
  else do
    let bps ← bpsActions (bps.modifyData.length - 12 - bps.modifyOffset) bps
    bpsVerdict bps modifyTargetSize.toNat

/-- `targetData` is the whole output buffer, so that `*target_length` is its length. -/
def bpsApplyPatch (modifyData sourceData targetData : List UInt8) : Except BpsFault BpsResult :=
  if modifyData.length < 19 then
    .ok ⟨.patchTooSmall, targetData, targetData.length⟩
  else do
    let bps : BpsData :=
      { modifyData := modifyData
        sourceData := sourceData
        targetData := targetData
        modifyOffset := 0
        sourceOffset := 0
        targetOffset := 0
        outputOffset := 0
        modifyChecksum := ~~~0
        targetChecksum := ~~~0 }
    let (known, bps) ← bpsExpect bpsMagic bps
    if known = false then
      .ok ⟨.patchInvalidHeader, targetData, targetData.length⟩
    else
      bpsApplySized bps

end RetroArch.Tasks
