/- `ups_apply_patch` and the readers and writers under it. -/

import RetroArch.Encodings.Crc32
import RetroArch.Library.Bytes
import RetroArch.Tasks.Patch

namespace RetroArch.Tasks

open Encodings Library.Bytes

/-- `struct ups_data`; lengths and offsets are `unsigned`. -/
structure UpsData where
  patchData : List UInt8
  sourceData : List UInt8
  targetData : List UInt8
  patchLength : ℕ
  sourceLength : ℕ
  targetLength : ℕ
  patchOffset : ℕ
  sourceOffset : ℕ
  targetOffset : ℕ
  patchChecksum : UInt32
  sourceChecksum : UInt32
  targetChecksum : UInt32

/-- Past the end of the patch every byte reads as zero. -/
def upsPatchRead (data : UpsData) : UInt8 × UpsData :=
  if data.patchOffset < data.patchLength then
    let n := data.patchData.getD data.patchOffset 0
    (n, { data with
      patchOffset := data.patchOffset + 1
      patchChecksum := ~~~(encodingCrc32 (~~~data.patchChecksum) [n]) })
  else
    (0, data)

def upsSourceRead (data : UpsData) : UInt8 × UpsData :=
  if data.sourceOffset < data.sourceLength then
    let n := data.sourceData.getD data.sourceOffset 0
    (n, { data with
      sourceOffset := data.sourceOffset + 1
      sourceChecksum := ~~~(encodingCrc32 (~~~data.sourceChecksum) [n]) })
  else
    (0, data)

/-- Past the end of the target nothing is stored; the offset moves on, and wraps. -/
def upsTargetWrite (data : UpsData) (n : UInt8) : UpsData :=
  let data :=
    if data.targetOffset < data.targetLength then
      { data with
        targetData := data.targetData.set data.targetOffset n
        targetChecksum := ~~~(encodingCrc32 (~~~data.targetChecksum) [n]) }
    else
      data
  { data with targetOffset := (data.targetOffset + 1) % 2 ^ 32 }

/-- With no byte of the patch left the zeros read go on for ever. -/
def upsDecodeLoop : ℕ → UInt64 → UInt64 → UpsData → Option (UInt64 × UpsData)
  | 0, _, _, _ => none
  | left + 1, offset, shift, data =>
    let (x, data) := upsPatchRead data
    let offset := offset + (x &&& 0x7f).toUInt64 * shift
    if x &&& 0x80 ≠ 0 then
      some (offset, data)
    else
      let shift := shift <<< 7
      upsDecodeLoop left (offset + shift) shift data

def upsDecode (data : UpsData) : Option (UInt64 × UpsData) :=
  upsDecodeLoop (data.patchLength - data.patchOffset) 0 1 data

/-- A source byte goes to the target through a byte of the patch; a copy goes through zero. -/
def upsXor (patchXor : UInt8) (data : UpsData) : UpsData :=
  let (n, data) := upsSourceRead data
  upsTargetWrite data (patchXor ^^^ n)

def upsCopy (length : ℕ) (data : UpsData) : UpsData := (upsXor 0)^[length] data

/-- The run of a hunk; past the end of the patch the zero read ends it. -/
def upsXorLoop : ℕ → UpsData → UpsData
  | 0, data => data
  | left + 1, data =>
    let (patchXor, data) := upsPatchRead data
    let data := upsXor patchXor data
    if patchXor = 0 then data else upsXorLoop left data

def upsHunk (data : UpsData) : Option UpsData :=
  (upsDecode data).map fun (offset, data) =>
    let length := offset.toNat % 2 ^ 32
    let data := upsCopy length data
    upsXorLoop (data.patchLength - data.patchOffset + 1) data

/-- The hunks, each of which reads at least one byte of the patch. -/
def upsHunks : ℕ → UpsData → Option UpsData
  | 0, _ => none
  | left + 1, data =>
    if data.patchOffset < data.patchLength - 12 then
      (upsHunk data).bind (upsHunks left)
    else
      some data

/-- What the hunks leave is copied: each round moves the offset its loop compares. -/
def upsRest (data : UpsData) : UpsData :=
  let data := upsCopy (data.sourceLength - data.sourceOffset) data
  upsCopy (data.targetLength - data.targetOffset) data

def upsReadChecksum (data : UpsData) : UInt32 × UpsData :=
  let (b0, data) := upsPatchRead data
  let (b1, data) := upsPatchRead data
  let (b2, data) := upsPatchRead data
  let (b3, data) := upsPatchRead data
  (UInt32.ofNat (ofLE [b0, b1, b2, b3]), data)

def upsVerdict (data : UpsData) (sourceReadLength targetReadLength : ℕ) : PatchError × UpsData :=
  let (sourceReadChecksum, data) := upsReadChecksum data
  let (targetReadChecksum, data) := upsReadChecksum data
  let patchResultChecksum := ~~~data.patchChecksum
  let sourceChecksum := ~~~data.sourceChecksum
  let targetChecksum := ~~~data.targetChecksum
  let (patchReadChecksum, data) := upsReadChecksum data
  if patchResultChecksum ≠ patchReadChecksum then
    (.patchInvalid, data)
  else if sourceChecksum = sourceReadChecksum ∧ data.sourceLength = sourceReadLength then
    if targetChecksum = targetReadChecksum ∧ data.targetLength = targetReadLength then
      (.success, data)
    else
      (.targetInvalid, data)
  else if sourceChecksum = targetReadChecksum ∧ data.sourceLength = targetReadLength then
    if targetChecksum = sourceReadChecksum ∧ data.targetLength = sourceReadLength then
      (.success, data)
    else
      (.targetInvalid, data)
  else
    (.sourceInvalid, data)

def upsMagic (data : UpsData) : Bool × UpsData :=
  let (u, data) := upsPatchRead data
  let (p, data) := upsPatchRead data
  let (s, data) := upsPatchRead data
  let (one, data) := upsPatchRead data
  ([u, p, s, one] = [0x55, 0x50, 0x53, 0x31], data)

/-- The error, the buffer and the length it is left with. -/
structure UpsResult where
  err : PatchError
  targetdata : List UInt8
  targetlength : ℕ
  deriving DecidableEq

/-- The part after the two lengths are read. -/
def upsApplySized (data : UpsData) (targetlength sourceReadLength targetReadLength : ℕ) :
    Option UpsResult :=
  if data.sourceLength ≠ sourceReadLength ∧ data.sourceLength ≠ targetReadLength then
    some ⟨.sourceInvalid, data.targetData, targetlength⟩
  else
    let targetlength :=
      if data.sourceLength = sourceReadLength then targetReadLength else sourceReadLength
    if data.targetLength < targetlength then
      some ⟨.targetTooSmall, data.targetData, targetlength⟩
    else
      (upsHunks data.patchLength { data with targetLength := targetlength }).map fun data =>
        let (err, data) := upsVerdict (upsRest data) sourceReadLength targetReadLength
        ⟨err, data.targetData, targetlength⟩

/-- `targetdata` is the whole output buffer, so that `*targetlength` is its length. -/
def upsApplyPatch (patchdata sourcedata targetdata : List UInt8) : Option UpsResult :=
  let data : UpsData :=
    { patchData := patchdata
      sourceData := sourcedata
      targetData := targetdata
      patchLength := patchdata.length % 2 ^ 32
      sourceLength := sourcedata.length % 2 ^ 32
      targetLength := targetdata.length % 2 ^ 32
      patchOffset := 0
      sourceOffset := 0
      targetOffset := 0
      patchChecksum := ~~~0
      sourceChecksum := ~~~0
      targetChecksum := ~~~0 }
  if data.patchLength < 18 then
    some ⟨.patchInvalid, targetdata, targetdata.length⟩
  else
    let (magic, data) := upsMagic data
    if magic = false then
      some ⟨.patchInvalid, targetdata, targetdata.length⟩
    else
      (upsDecode data).bind fun (source, data) => (upsDecode data).bind fun (target, data) =>
        upsApplySized data targetdata.length (source.toNat % 2 ^ 32) (target.toNat % 2 ^ 32)

end RetroArch.Tasks
