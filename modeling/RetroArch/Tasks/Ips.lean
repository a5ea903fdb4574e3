/- `ips_apply_patch`, round by round. An access outside the patch or the target ends the run. -/

import Mathlib.Data.List.Basic
import RetroArch.Tasks.Patch

namespace RetroArch.Tasks.Ips

/-- The access that was outside. -/
inductive IpsFault
  | patchRead
  | targetWrite
  deriving DecidableEq, Repr

/-- The offset is a `uint32_t`; the target is the memory from `targetdata` on. -/
structure IpsData where
  offset : ℕ
  target : ℕ → UInt8
  targetlength : ℕ

/-- What a round of the loop leaves: an end with an error, or the next round. -/
inductive IpsRound
  | done (err : PatchError) (data : IpsData)
  | next (data : IpsData)

variable (patchdata : List UInt8) (capacity : ℕ)

/-- `patchdata[offset++]` -/
def ipsRead (offset : ℕ) : Except IpsFault (UInt8 × ℕ) :=
  match patchdata[offset]? with
  | none => .error .patchRead
  | some b => .ok (b, (offset + 1) % 2 ^ 32)

/-- A number of two or three bytes, the high one first. -/
def ipsNumber : ℕ → ℕ → ℕ → Except IpsFault (ℕ × ℕ)
  | 0, acc, offset => .ok (acc, offset)
  | count + 1, acc, offset => do
    let (b, offset) ← ipsRead patchdata offset
    ipsNumber count (acc * 256 + b.toNat) offset

/-- `targetdata[address++] = ...` -/
def ipsWrite (target : ℕ → UInt8) (address : ℕ) (b : UInt8) : Except IpsFault (ℕ → UInt8) :=
  if address < capacity then .ok (Function.update target address b) else .error .targetWrite

/-- The loop of a copy: the target, and the two positions. -/
def ipsCopy : ℕ → ℕ → ℕ → (ℕ → UInt8) → Except IpsFault ((ℕ → UInt8) × ℕ × ℕ)
  | 0, address, offset, target => .ok (target, address, offset)
  | length + 1, address, offset, target => do
    let (b, offset) ← ipsRead patchdata offset
    let target ← ipsWrite capacity target address b
    ipsCopy length (address + 1) offset target

/-- The loop of a run, which reads the same byte in each round. -/
def ipsFill (offset : ℕ) : ℕ → ℕ → (ℕ → UInt8) → Except IpsFault ((ℕ → UInt8) × ℕ)
  | 0, address, target => .ok (target, address)
  | length + 1, address, target => do
    let (b, _) ← ipsRead patchdata offset
    let target ← ipsWrite capacity target address b
    ipsFill offset length (address + 1) target

/-- `patchlen - n`, in 64 bits. -/
def patchlenMinus (n : ℕ) : ℕ :=
  if n ≤ patchdata.length then patchdata.length - n else 2 ^ 64 + patchdata.length - n

/-- `"EOF"` -/
def ipsEof : ℕ := 0x454f46

/-- `if (address > *targetlength) *targetlength = address;` -/
def IpsData.wrote (data : IpsData) (target : ℕ → UInt8) (address offset : ℕ) : IpsData :=
  ⟨offset, target, if data.targetlength < address then address else data.targetlength⟩

/-- The part of a round behind the address. -/
def ipsRecord (data : IpsData) (address offset : ℕ) : Except IpsFault IpsRound :=
  if patchlenMinus patchdata 2 < offset then .ok (.done .patchInvalid data)
  else do
    let (length, offset) ← ipsNumber patchdata 2 0 offset
    if length ≠ 0 then
      if patchlenMinus patchdata length < offset then .ok (.done .patchInvalid data)
      else do
        let (target, address, offset) ← ipsCopy patchdata capacity length address offset data.target
        .ok (.next (data.wrote target address offset))
    else if patchlenMinus patchdata 3 < offset then .ok (.done .patchInvalid data)
    else do
      let (length, offset) ← ipsNumber patchdata 2 0 offset
      if length = 0 then .ok (.done .patchInvalid data)
      else do
        let (target, address) ← ipsFill patchdata capacity offset length address data.target
        .ok (.next (data.wrote target address ((offset + 1) % 2 ^ 32)))

/-- A round of the loop. -/
def ipsRound (data : IpsData) : Except IpsFault IpsRound :=
  if patchlenMinus patchdata 3 < data.offset then .ok (.done .patchInvalid data)
  else do
    let (address, offset) ← ipsNumber patchdata 3 0 data.offset
    if address = ipsEof ∧ offset = patchdata.length then .ok (.done .success data)
    else if address = ipsEof ∧ offset = patchlenMinus patchdata 3 then do
      let (size, offset) ← ipsNumber patchdata 3 0 offset
      .ok (.done .success { data with offset := offset, targetlength := size })
    else ipsRecord patchdata capacity data address offset

/-- The loop in so many rounds; none is a loop that goes on. -/
def ipsLoop : ℕ → IpsData → Except IpsFault (Option (PatchError × IpsData))
  | 0, _ => .ok none
  | rounds + 1, data => do
    match ← ipsRound patchdata capacity data with
    | .done err data => .ok (some (err, data))
    | .next data => ipsLoop rounds data

/-- `"PATCH"` -/
def ipsMagic : List UInt8 := [0x50, 0x41, 0x54, 0x43, 0x48]

/-- `memcpy` of the source to the target. -/
def ipsStart (sourcedata : List UInt8) (target : ℕ → UInt8) : IpsData :=
  ⟨5, fun i => sourcedata.getD i (target i), sourcedata.length⟩

/-- `ips_apply_patch` -/
def ipsApplyPatch (rounds : ℕ) (sourcedata : List UInt8) (targetdata : ℕ → UInt8) :
    Except IpsFault (Option (PatchError × IpsData)) :=
  if patchdata.length < 8 ∨ patchdata.take 5 ≠ ipsMagic then
    .ok (some (.patchInvalid, ⟨5, targetdata, capacity⟩))
  else if capacity < sourcedata.length then .error .targetWrite
  else
    ipsLoop patchdata capacity rounds (ipsStart sourcedata targetdata)

end RetroArch.Tasks.Ips
