/- What a patch asks for: its sizes, its actions, and whether they stay within the two files. -/

import RetroArch.Library.Varint
import RetroArch.Tasks.Bps

namespace RetroArch.Tasks

open Library

/-- One action with the number of bytes it gives; a copy has a jump. -/
inductive BpsAction
  | sourceRead (length : ℕ)
  | targetRead (length : ℕ)
  | sourceCopy (length : ℕ) (offset : Int32)
  | targetCopy (length : ℕ) (offset : Int32)

/-- A number is kept in 64 bits. -/
def bpsNumberAt (bs : List UInt8) : Option (UInt64 × List UInt8) :=
  (Varint.decode bs).map fun (v, rest) => (UInt64.ofNat v, rest)

/-- The action at the start of some bytes and the bytes after it. -/
def bpsActionAt (bs : List UInt8) : Option (BpsAction × List UInt8) :=
  (bpsNumberAt bs).bind fun (n, rest) =>
    let length := n.toNat / 4 + 1
    match n.toNat % 4 with
    | 0 => some (.sourceRead length, rest)
    | 1 => if length ≤ rest.length then some (.targetRead length, rest.drop length) else none
    | 2 => (bpsNumberAt rest).map fun (v, rest) => (.sourceCopy length (bpsOffset v), rest)
    | _ => (bpsNumberAt rest).map fun (v, rest) => (.targetCopy length (bpsOffset v), rest)

/-- Bytes that are these actions and then the three checksums. -/
inductive BpsScript : List UInt8 → List BpsAction → Prop
  | done {bs : List UInt8} (trailer : bs.length = 12) : BpsScript bs []
  | action {bs rest : List UInt8} {a : BpsAction} {actions : List BpsAction}
      (long : 12 < bs.length) (first : bpsActionAt bs = some (a, rest))
      (more : BpsScript rest actions) : BpsScript bs (a :: actions)

/-- The two sizes of a patch and the bytes after its metadata. -/
def bpsSizesAt (patch : List UInt8) : Option (ℕ × ℕ × List UInt8) :=
  (bpsNumberAt (patch.drop 4)).bind fun (sourceSize, rest) =>
    (bpsNumberAt rest).bind fun (targetSize, rest) =>
      (bpsNumberAt rest).bind fun (markupSize, rest) =>
        if markupSize.toNat ≤ rest.length then
          some (sourceSize.toNat, targetSize.toNat, rest.drop markupSize.toNat)
        else
          none

theorem bpsNumberAt_length {bs rest : List UInt8} {n : UInt64}
    (h : bpsNumberAt bs = some (n, rest)) : rest.length < bs.length := by
  obtain ⟨⟨v, rest'⟩, hdecode, hv⟩ := Option.map_eq_some_iff.mp h
  obtain ⟨-, rfl⟩ := Prod.mk.inj hv
  exact Varint.decode_length hdecode

theorem bpsActionAt_length {bs rest : List UInt8} {a : BpsAction}
    (h : bpsActionAt bs = some (a, rest)) : rest.length < bs.length := by
  obtain ⟨⟨n, rest₁⟩, hnumber, haction⟩ := Option.bind_eq_some_iff.mp h
  have hlt := bpsNumberAt_length hnumber
  simp only at haction
  split at haction
  · obtain ⟨-, rfl⟩ := Prod.mk.inj (Option.some.inj haction)
    exact hlt
  · split_ifs at haction
    obtain ⟨-, rfl⟩ := Prod.mk.inj (Option.some.inj haction)
    rw [List.length_drop]
    omega
  · obtain ⟨⟨v, rest₂⟩, hoffset, hv⟩ := Option.map_eq_some_iff.mp haction
    obtain ⟨-, rfl⟩ := Prod.mk.inj hv
    exact lt_trans (bpsNumberAt_length hoffset) hlt
  · obtain ⟨⟨v, rest₂⟩, hoffset, hv⟩ := Option.map_eq_some_iff.mp haction
    obtain ⟨-, rfl⟩ := Prod.mk.inj hv
    exact lt_trans (bpsNumberAt_length hoffset) hlt

/-- Where the output and the two copies have come to. -/
structure BpsOffsets where
  output : ℕ
  source : ℕ
  target : ℕ

/-- An action that reads nothing outside the source, nothing of the target before it is written,
and writes nothing outside the target. -/
def BpsAction.Fits (sourceLength targetLength : ℕ) (o : BpsOffsets) : BpsAction → Prop
  | .sourceRead length =>
    o.output + length ≤ sourceLength ∧ o.output + length ≤ targetLength
  | .targetRead length => o.output + length ≤ targetLength
  | .sourceCopy length offset =>
    bpsJump o.source offset + length ≤ sourceLength ∧ o.output + length ≤ targetLength
  | .targetCopy length offset =>
    bpsJump o.target offset < o.output ∧ o.output + length ≤ targetLength

def BpsAction.advance (o : BpsOffsets) : BpsAction → BpsOffsets
  | .sourceRead length => { o with output := o.output + length }
  | .targetRead length => { o with output := o.output + length }
  | .sourceCopy length offset =>
    { o with output := o.output + length, source := bpsJump o.source offset + length }
  | .targetCopy length offset =>
    { o with output := o.output + length, target := bpsJump o.target offset + length }

def FitAll (sourceLength targetLength : ℕ) : BpsOffsets → List BpsAction → Prop
  | _, [] => True
  | o, a :: actions =>
    a.Fits sourceLength targetLength o ∧ FitAll sourceLength targetLength (a.advance o) actions

/-- A patch that one of the checks turns away, with all that is read before the check there. -/
def BpsRefused (patch : List UInt8) (sourceLength targetLength : ℕ) : Prop :=
  patch.length < 19 ∨ patch.take 4 ≠ bpsMagic ∨
    ∃ sourceSize targetSize body, bpsSizesAt patch = some (sourceSize, targetSize, body) ∧
      (sourceLength < sourceSize ∨ targetLength < targetSize)

/-- A patch that asks for nothing outside the files. -/
def BpsWithin (patch : List UInt8) (sourceLength targetLength : ℕ) : Prop :=
  19 ≤ patch.length ∧ patch.take 4 = bpsMagic ∧
    ∃ sourceSize targetSize body, bpsSizesAt patch = some (sourceSize, targetSize, body) ∧
      sourceSize ≤ sourceLength ∧ targetSize ≤ targetLength ∧
      ∃ actions, BpsScript body actions ∧ FitAll sourceLength targetLength ⟨0, 0, 0⟩ actions

end RetroArch.Tasks
