/- The queue of bytes in a ring with one byte kept free. -/

import RetroArch.Library.Ring
import RetroArch.Library.Run

namespace RetroArch.Queues.Fifo

open Library.Memory Library.Ring Library.Run

/-- `size_t` -/
def sizeT (n : ℕ) : ℕ := n % 2 ^ 64

structure FifoBuffer where
  buffer : List UInt8
  size : ℕ
  first : ℕ
  end_ : ℕ
  deriving DecidableEq

/-- `sizeof(fifo_buffer_t)` -/
def fifoBufferSize : ℕ := 32

/-- `calloc` says whether a request of a size is met. -/
def fifoNew (calloc : ℕ → Bool) (size : ℕ) : Option FifoBuffer :=
  if calloc fifoBufferSize && calloc (sizeT (size + 1)) then
    some ⟨List.replicate (sizeT (size + 1)) 0, sizeT (size + 1), 0, 0⟩
  else none

/-- The length of the first of the two copies. -/
def firstCopy (size pos n : ℕ) : ℕ :=
  if sizeT (pos + n) > size then sizeT (size + 2 ^ 64 - pos) else n

/-- A position behind the end of the buffer starts over; there is no result where its size is
zero. -/
def advance (size pos n : ℕ) : Option ℕ :=
  if size = 0 then none else some (sizeT (pos + n) % size)

def fifoWrite (buf : FifoBuffer) (inBuf : List UInt8) : Option FifoBuffer :=
  let firstWrite := firstCopy buf.size buf.end_ inBuf.length
  let restWrite := sizeT (inBuf.length + 2 ^ 64 - firstWrite)
  (peeks inBuf 0 firstWrite).bind fun piece =>
  (pokes buf.buffer buf.end_ piece).bind fun mem =>
  (peeks inBuf firstWrite restWrite).bind fun piece =>
  (pokes mem 0 piece).bind fun mem =>
  (advance buf.size buf.end_ inBuf.length).map fun e => { buf with buffer := mem, end_ := e }

/-- The bytes that are copied come with the buffer. -/
def fifoRead (buf : FifoBuffer) (size : ℕ) : Option (FifoBuffer × List UInt8) :=
  let firstRead := firstCopy buf.size buf.first size
  let restRead := sizeT (size + 2 ^ 64 - firstRead)
  (peeks buf.buffer buf.first firstRead).bind fun front =>
  (peeks buf.buffer 0 restRead).bind fun rest =>
  (advance buf.size buf.first size).map fun f => ({ buf with first := f }, front ++ rest)

def fifoClear (buf : FifoBuffer) : FifoBuffer := { buf with first := 0, end_ := 0 }

def fifoReadAvail (buf : FifoBuffer) : ℕ :=
  sizeT (sizeT (buf.end_ + if buf.end_ < buf.first then buf.size else 0) + 2 ^ 64 - buf.first)

def fifoWriteAvail (buf : FifoBuffer) : ℕ :=
  sizeT (sizeT (buf.size + 2 ^ 64 - 1) + 2 ^ 64 - fifoReadAvail buf)

inductive Call
  | write (bytes : List UInt8)
  | read (size : ℕ)
  | clear

/-- The queue with the bytes written to it and read from it since it was cleared. -/
structure Session where
  buf : FifoBuffer
  written : List UInt8
  read : List UInt8

def Session.start (buf : FifoBuffer) : Session := ⟨buf, [], []⟩

def call (s : Session) : Call → Option Session
  | .write bytes =>
    (fifoWrite s.buf bytes).map fun buf =>
      { s with buf := buf, written := s.written ++ bytes }
  | .read size =>
    (fifoRead s.buf size).map fun (buf, bytes) =>
      { s with buf := buf, read := s.read ++ bytes }
  | .clear => some (.start (fifoClear s.buf))

def Permitted (s : Session) : Call → Prop
  | .write bytes => bytes.length ≤ fifoWriteAvail s.buf
  | .read size => size ≤ fifoReadAvail s.buf
  | .clear => True

/-- What has been read is the front of what has been written, the rest is there to be read, and no
call that is permitted leaves the buffer. -/
structure Queued (n : ℕ) (s : Session) : Prop where
  order : ∃ rest, s.written = s.read ++ rest ∧ fifoReadAvail s.buf = rest.length
  bounded : fifoReadAvail s.buf + fifoWriteAvail s.buf = n
  inside : ∀ c, Permitted s c → (call s c).isSome

/-- The property of every queue that is made. -/
def IsQueue (calloc : ℕ → Bool) (n : ℕ) : Prop :=
  ∀ buf, fifoNew calloc n = some buf → ∀ calls s,
    RunsWithin call Permitted (.start buf) calls s → Queued n s

section Invariant

variable {n : ℕ} {buf : FifoBuffer} {pending : List UInt8}

/-- From the first cursor on the ring holds the pending bytes, and at least one more. -/
structure Holds (n : ℕ) (buf : FifoBuffer) (pending : List UInt8) : Prop where
  size : buf.size = n + 1
  length : buf.buffer.length = n + 1
  first : buf.first < n + 1
  end_ : buf.end_ = (buf.first + pending.length) % (n + 1)
  turned : ∃ free, free ≠ [] ∧ buf.buffer.rotate buf.first = pending ++ free

theorem Holds.pending_le (h : Holds n buf pending) : pending.length ≤ n := by
  obtain ⟨free, hfree, hturned⟩ := h.turned
  have hlen := congrArg List.length hturned
  have hpos := List.length_pos_iff.mpr hfree
  rw [List.length_rotate, h.length, List.length_append] at hlen
  omega

theorem Holds.end_lt (h : Holds n buf pending) : buf.end_ < n + 1 := by
  rw [h.end_]
  exact Nat.mod_lt _ (Nat.succ_pos n)

theorem sizeT_of_lt {k : ℕ} (h : k < 2 ^ 64) : sizeT k = k := Nat.mod_eq_of_lt h

theorem sizeT_sub {a b : ℕ} (hle : b ≤ a) (ha : a < 2 ^ 64) : sizeT (a + 2 ^ 64 - b) = a - b := by
  unfold sizeT
  omega

theorem Holds.readAvail (h : Holds n buf pending) (hn : n + 1 < 2 ^ 63) :
    fifoReadAvail buf = pending.length := by
  have hfirst := h.first
  have hpending := h.pending_le
  have hend := h.end_
  have hsum : sizeT (buf.end_ + if buf.end_ < buf.first then buf.size else 0) =
      buf.first + pending.length := by
    by_cases hwraps : buf.first + pending.length < n + 1
    · rw [Nat.mod_eq_of_lt hwraps] at hend
      rw [hend, if_neg (by omega), Nat.add_zero, sizeT_of_lt (by omega)]
    · rw [Nat.mod_eq_sub_mod (Nat.not_lt.mp hwraps), Nat.mod_eq_of_lt (by omega)] at hend
      rw [hend, h.size, if_pos (by omega), sizeT_of_lt (by omega)]
      omega
  rw [fifoReadAvail, hsum, sizeT_sub (Nat.le_add_right _ _) (by omega), Nat.add_sub_cancel_left]

theorem Holds.writeAvail (h : Holds n buf pending) (hn : n + 1 < 2 ^ 63) :
    fifoWriteAvail buf = n - pending.length := by
  have hpending := h.pending_le
  rw [fifoWriteAvail, h.readAvail hn, h.size, sizeT_sub (Nat.le_add_left 1 n) (by omega),
    Nat.add_sub_cancel, sizeT_sub hpending (by omega)]

theorem firstCopy_eq {pos k : ℕ} (hpos : pos < n + 1) (hk : k ≤ n) (hn : n + 1 < 2 ^ 63) :
    firstCopy (n + 1) pos k = beforeEnd (n + 1) pos k := by
  unfold firstCopy beforeEnd
  rw [sizeT_of_lt (by omega), sizeT_sub (by omega) (by omega)]

theorem restCopy_eq {pos k : ℕ} (hk : k ≤ n) (hn : n + 1 < 2 ^ 63) :
    sizeT (k + 2 ^ 64 - beforeEnd (n + 1) pos k) = k - beforeEnd (n + 1) pos k :=
  sizeT_sub beforeEnd_le (by omega)

theorem advance_eq {pos k : ℕ} (hpos : pos < n + 1) (hk : k ≤ n) (hn : n + 1 < 2 ^ 63) :
    advance (n + 1) pos k = some ((pos + k) % (n + 1)) := by
  rw [advance, if_neg (Nat.succ_ne_zero n), sizeT_of_lt (by omega)]

theorem Holds.write (h : Holds n buf pending) (hn : n + 1 < 2 ^ 63) {bytes : List UInt8}
    (hfits : bytes.length ≤ n - pending.length) :
    ∃ buf', fifoWrite buf bytes = some buf' ∧ Holds n buf' (pending ++ bytes) := by
  have hpending := h.pending_le
  have hend := h.end_lt
  have hlen := h.length
  have hbytes : bytes.length ≤ n := Nat.le_trans hfits (Nat.sub_le _ _)
  obtain ⟨mem₁, mem₂, hfirst, hrest, hsame, hstored⟩ :=
    @pokes_around _ buf.buffer bytes buf.end_ (by omega) (by omega)
  rw [hlen] at hfirst hrest
  set k := beforeEnd (n + 1) buf.end_ bytes.length with hk
  have hkle : k ≤ bytes.length := beforeEnd_le
  have hfront : peeks bytes 0 k = some (bytes.take k) := peeks_of_le (by omega)
  have hback : peeks bytes k (bytes.length - k) = some (bytes.drop k) := by
    rw [peeks_of_le (by omega), List.take_of_length_le (by rw [List.length_drop])]
  refine ⟨⟨mem₂, n + 1, buf.first, (buf.end_ + bytes.length) % (n + 1)⟩, ?_, ?_⟩
  · rw [fifoWrite, h.size, firstCopy_eq hend hbytes hn, ← hk]
    rw [hk, restCopy_eq hbytes hn, ← hk, hfront, Option.bind_some, hfirst, Option.bind_some, hback,
      Option.bind_some, hrest, Option.bind_some, advance_eq hend hbytes hn, Option.map_some]
  · obtain ⟨free, hfree, hturned⟩ := h.turned
    have hroom := congrArg List.length hturned
    rw [List.length_rotate, hlen, List.length_append] at hroom
    refine ⟨rfl, hsame.trans hlen, h.first, ?_, free.drop bytes.length, ?_, ?_⟩
    · change (buf.end_ + bytes.length) % (n + 1) = (buf.first + (pending ++ bytes).length) % (n + 1)
      rw [h.end_, Nat.mod_add_mod, List.length_append, Nat.add_assoc]
    · rw [← List.length_pos_iff, List.length_drop]
      omega
    · -- seen from the end cursor, the free bytes stand in front of the pending ones
      have hfromEnd : ∀ mem : List UInt8, mem.length = n + 1 →
          mem.rotate buf.end_ = (mem.rotate buf.first).rotate pending.length := by
        intro mem hmem
        rw [List.rotate_rotate, h.end_, ← hmem, List.rotate_mod]
      rw [hfromEnd _ (hsame.trans hlen), hfromEnd _ hlen, hturned,
        List.rotate_append_length_eq, List.drop_append_of_le_length (by omega),
        ← List.append_assoc, ← List.rotate_append_length_eq, List.rotate_eq_rotate] at hstored
      rw [List.append_assoc]
      exact hstored

theorem Holds.read (h : Holds n buf pending) (hn : n + 1 < 2 ^ 63) {size : ℕ}
    (hsize : size ≤ pending.length) :
    ∃ buf', fifoRead buf size = some (buf', pending.take size) ∧
      Holds n buf' (pending.drop size) := by
  have hpending := h.pending_le
  have hfirst := h.first
  have hlen := h.length
  obtain ⟨front, rest, hfront, hrest, hboth⟩ :=
    @peeks_around _ buf.buffer buf.first size (by omega) (by omega)
  obtain ⟨free, hfree, hturned⟩ := h.turned
  rw [hturned, List.take_append_of_le_length hsize] at hboth
  rw [hlen] at hfront hrest
  refine ⟨{ buf with first := (buf.first + size) % (n + 1) }, ?_, ?_⟩
  · rw [fifoRead, h.size, firstCopy_eq hfirst (by omega) hn]
    rw [restCopy_eq (by omega) hn, hfront, Option.bind_some, hrest, Option.bind_some,
      advance_eq hfirst (by omega) hn, Option.map_some, hboth]
  · refine ⟨h.size, hlen, Nat.mod_lt _ (Nat.succ_pos n), ?_, free ++ pending.take size, ?_, ?_⟩
    · change buf.end_ = ((buf.first + size) % (n + 1) + (pending.drop size).length) % (n + 1)
      rw [Nat.mod_add_mod, List.length_drop, Nat.add_assoc, Nat.add_sub_cancel' hsize]
      exact h.end_
    · exact List.append_ne_nil_of_left_ne_nil hfree _
    · change buf.buffer.rotate ((buf.first + size) % (n + 1)) = _
      rw [← hlen, List.rotate_mod, ← List.rotate_rotate, hturned,
        List.rotate_eq_drop_append_take (by rw [List.length_append]; omega),
        List.drop_append_of_le_length hsize, List.take_append_of_le_length hsize, List.append_assoc]

theorem Holds.clear (h : Holds n buf pending) : Holds n (fifoClear buf) [] := by
  refine ⟨h.size, h.length, Nat.succ_pos n, (Nat.zero_mod _).symm, buf.buffer, ?_, ?_⟩
  · rw [← List.length_pos_iff, h.length]
    exact Nat.succ_pos n
  · exact List.rotate_zero _

end Invariant

section Runs

variable {n : ℕ} {s : Session}

/-- The pending bytes are what has been written and not been read. -/
def Books (n : ℕ) (s : Session) : Prop :=
  ∃ pending, Holds n s.buf pending ∧ s.written = s.read ++ pending

theorem Books.start {buf : FifoBuffer} (h : Holds n buf []) : Books n (.start buf) := ⟨[], h, rfl⟩

theorem Books.call (h : Books n s) (hn : n + 1 < 2 ^ 63) (c : Call) (hc : Permitted s c) :
    ∃ t, Fifo.call s c = some t ∧ Books n t := by
  obtain ⟨pending, hholds, hwritten⟩ := h
  cases c with
  | write bytes =>
    have hfits : bytes.length ≤ n - pending.length := by
      rw [← hholds.writeAvail hn]
      exact hc
    obtain ⟨buf, hwrite, hbuf⟩ := hholds.write hn hfits
    refine ⟨_, congrArg (Option.map _) hwrite, pending ++ bytes, hbuf, ?_⟩
    change s.written ++ bytes = s.read ++ (pending ++ bytes)
    rw [hwritten, List.append_assoc]
  | read size =>
    have hsize : size ≤ pending.length := by
      rw [← hholds.readAvail hn]
      exact hc
    obtain ⟨buf, hread, hbuf⟩ := hholds.read hn hsize
    refine ⟨_, congrArg (Option.map _) hread, pending.drop size, hbuf, ?_⟩
    change s.written = s.read ++ pending.take size ++ pending.drop size
    rw [List.append_assoc, List.take_append_drop]
    exact hwritten
  | clear => exact ⟨_, rfl, .start hholds.clear⟩

theorem Books.queued (h : Books n s) (hn : n + 1 < 2 ^ 63) : Queued n s := by
  have hcalls := fun c hc => h.call hn c hc
  obtain ⟨pending, hholds, hwritten⟩ := h
  refine ⟨⟨pending, hwritten, hholds.readAvail hn⟩, ?_, ?_⟩
  · rw [hholds.writeAvail hn, hholds.readAvail hn]
    exact Nat.add_sub_cancel' hholds.pending_le
  · intro c hc
    obtain ⟨t, ht, -⟩ := hcalls c hc
    rw [ht]
    rfl

theorem new_holds (hn : n + 1 < 2 ^ 64) {calloc : ℕ → Bool} {buf : FifoBuffer}
    (h : fifoNew calloc n = some buf) : Holds n buf [] := by
  rw [fifoNew, sizeT_of_lt hn] at h
  split_ifs at h
  obtain rfl := Option.some.inj h
  refine ⟨rfl, List.length_replicate, Nat.succ_pos n, (Nat.zero_mod _).symm,
    List.replicate (n + 1) 0, ?_, List.rotate_zero _⟩
  exact List.cons_ne_nil _ _

theorem empty_buffer_left (h : Queued n (.start ⟨[], 0, 0, 0⟩)) : False := by
  have hroom : [(0 : UInt8)].length ≤ fifoWriteAvail ⟨[], 0, 0, 0⟩ := by decide
  exact absurd (h.inside (.write [0]) hroom) (by decide)

/-- For a `calloc` that makes no object of more than `PTRDIFF_MAX` bytes. -/
theorem isQueue_iff (calloc : ℕ → Bool) (hcalloc : ∀ size, calloc size = true → size < 2 ^ 63)
    (n : ℕ) (hn : n < 2 ^ 64) :
    IsQueue calloc n ↔ ¬(n = 2 ^ 64 - 1 ∧ calloc fifoBufferSize = true ∧ calloc 0 = true) := by
  constructor
  · rintro h ⟨rfl, hstructure, hnothing⟩
    have hnew : fifoNew calloc (2 ^ 64 - 1) = some ⟨[], 0, 0, 0⟩ :=
      if_pos (by rw [hstructure]; exact hnothing)
    exact empty_buffer_left (h _ hnew [] _ (.nil _))
  · intro hmade buf hnew calls s hruns
    have hwhole : n + 1 < 2 ^ 64 := by
      by_contra hwraps
      have hmax : n = 2 ^ 64 - 1 := by omega
      rw [fifoNew] at hnew
      split_ifs at hnew with hboth
      rw [hmax, Bool.and_eq_true] at hboth
      exact hmade ⟨hmax, hboth⟩
    have hsmall : n + 1 < 2 ^ 63 := by
      rw [fifoNew, sizeT_of_lt hwhole] at hnew
      split_ifs at hnew with hboth
      rw [Bool.and_eq_true] at hboth
      exact hcalloc _ hboth.2
    have hbooks : Books n s := by
      apply hruns.invariant _ (Books.start (new_holds hwhole hnew))
      intro s c t hs hc hcall
      obtain ⟨t', ht', hbooks⟩ := hs.call hsmall c hc
      rw [hcall] at ht'
      exact Option.some.inj ht' ▸ hbooks
    exact hbooks.queued hsmall

theorem isQueue_three : IsQueue (fun size => decide (size < 2 ^ 63)) 3 := by
  apply (isQueue_iff (fun size => decide (size < 2 ^ 63)) (fun size => of_decide_eq_true) 3
    (by decide)).mpr
  decide

/-- The size of the buffer becomes zero, and all positions are free. -/
theorem whole_size_not_queue : ¬IsQueue (fun size => decide (size < 2 ^ 63)) (2 ^ 64 - 1) := by
  intro h
  exact empty_buffer_left (h ⟨[], 0, 0, 0⟩ (by decide) [] _ (.nil _))

end Runs

end RetroArch.Queues.Fifo
