/- A file opened through `file_stream.c` over the buffered stdio calls, as its bytes and a position. -/

import Mathlib.Data.List.Basic
import Mathlib.Tactic.Ring

namespace RetroArch.Streams

structure RFile where
  content : List UInt8
  pos : ℕ

namespace RFile

/-- What is still to be read. -/
def rest (fd : RFile) : List UInt8 := fd.content.drop fd.pos

def advance (fd : RFile) (n : ℕ) : RFile := { fd with pos := fd.pos + n }

@[simp] theorem advance_content (fd : RFile) (n : ℕ) : (fd.advance n).content = fd.content := rfl

@[simp] theorem advance_pos (fd : RFile) (n : ℕ) : (fd.advance n).pos = fd.pos + n := rfl

@[simp] theorem advance_zero (fd : RFile) : fd.advance 0 = fd := rfl

@[simp] theorem advance_advance (fd : RFile) (m n : ℕ) :
    (fd.advance m).advance n = fd.advance (m + n) := by
  rw [advance, advance, advance, Nat.add_assoc]

theorem rest_advance (fd : RFile) (n : ℕ) : (fd.advance n).rest = fd.rest.drop n := by
  rw [rest, rest, advance_content, advance_pos, List.drop_drop]

theorem rest_advance_append {fd : RFile} {bs tail : List UInt8} (h : fd.rest = bs ++ tail) :
    (fd.advance bs.length).rest = tail := by
  rw [rest_advance, h, List.drop_left]

end RFile

inductive Whence
  | start
  | current
  | «end»
  deriving DecidableEq, Repr

def filestreamOpen (content : List UInt8) : RFile := ⟨content, 0⟩

def filestreamTell (fd : RFile) : ℕ := fd.pos

/-- What `fread` stores; a file that ends early stores less. -/
def filestreamRead (len : ℕ) (fd : RFile) : List UInt8 × RFile :=
  (fd.rest.take len, fd.advance (fd.rest.take len).length)

/-- The bytes before the position, the gap filled with zeros where the file is shorter. -/
def RFile.before (fd : RFile) : List UInt8 :=
  (fd.content ++ List.replicate (fd.pos - fd.content.length) 0).take fd.pos

def filestreamWrite (bs : List UInt8) (fd : RFile) : RFile where
  content := fd.before ++ bs ++ fd.content.drop (fd.pos + bs.length)
  pos := fd.pos + bs.length

/-- The value is that of `fseeko`: zero, and not the new position, where it succeeds. -/
def filestreamSeek (offset : Int) (whence : Whence) (fd : RFile) : Int × RFile :=
  let base := match whence with
    | .start => 0
    | .current => fd.pos
    | .end => fd.content.length
  let target : Int := base + offset
  if target < 0 then (-1, fd) else (0, { fd with pos := target.toNat })

theorem filestreamRead_append {fd : RFile} {bs tail : List UInt8} (h : fd.rest = bs ++ tail) :
    filestreamRead bs.length fd = (bs, fd.advance bs.length) := by
  rw [filestreamRead, h, List.take_left]

@[simp] theorem RFile.length_before (fd : RFile) : fd.before.length = fd.pos := by
  simp only [RFile.before, List.length_take, List.length_append, List.length_replicate]
  omega

theorem before_filestreamWrite (bs : List UInt8) (fd : RFile) :
    (filestreamWrite bs fd).before = fd.before ++ bs := by
  have hlen : (fd.before ++ bs).length = fd.pos + bs.length := by
    rw [List.length_append, RFile.length_before]
  rw [RFile.before, filestreamWrite]
  simp only
  rw [List.append_assoc, List.take_left' hlen]

theorem filestreamWrite_filestreamWrite (bs cs : List UInt8) (fd : RFile) :
    filestreamWrite cs (filestreamWrite bs fd) = filestreamWrite (bs ++ cs) fd := by
  have hlen : (fd.before ++ bs).length = fd.pos + bs.length := by
    rw [List.length_append, RFile.length_before]
  have hpos : (filestreamWrite bs fd).pos = fd.pos + bs.length := rfl
  have hcontent : (filestreamWrite bs fd).content =
      fd.before ++ bs ++ fd.content.drop (fd.pos + bs.length) := rfl
  rw [filestreamWrite, before_filestreamWrite, hpos, hcontent, ← hlen, ← List.drop_drop,
    List.drop_left, hlen, List.drop_drop, filestreamWrite, List.length_append, Nat.add_assoc,
    List.append_assoc fd.before]

end RetroArch.Streams
