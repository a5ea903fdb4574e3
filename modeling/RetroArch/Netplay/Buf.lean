/- The ring buffers of `netplay_buf.c`: layout, sizes, and the two directions of traffic. -/

import RetroArch.Library.Region
import RetroArch.Net.Socket

namespace RetroArch.Netplay.Buf

open Library.Region Net.Socket

/-- `struct socket_buffer`; `data` is the allocation of `bufsz` bytes. -/
structure SocketBuffer where
  data : List UInt8
  bufsz : ℕ
  start : ℕ
  end_ : ℕ
  read : ℕ
  deriving DecidableEq

/-- `while (newend < from) newend += bufsz`, with `from` turns as fuel. -/
def advanceEnd (bufsz cursor : ℕ) : ℕ → ℕ → ℕ
  | 0, newend => newend
  | fuel + 1, newend =>
    if newend < cursor then advanceEnd bufsz cursor fuel (newend + bufsz) else newend

def bufUsed (sbuf : SocketBuffer) : ℕ :=
  if sbuf.end_ < sbuf.start then
    advanceEnd sbuf.bufsz sbuf.start sbuf.start sbuf.end_ - sbuf.start
  else sbuf.end_ - sbuf.start

def bufUnread (sbuf : SocketBuffer) : ℕ :=
  if sbuf.end_ < sbuf.read then
    advanceEnd sbuf.bufsz sbuf.read sbuf.read sbuf.end_ - sbuf.read
  else sbuf.end_ - sbuf.read

def bufRemaining (sbuf : SocketBuffer) : ℕ := sbuf.bufsz - bufUsed sbuf - 1

/-- Allocation succeeds; its contents are arbitrary. -/
def netplayInitSocketBuffer (fresh : List UInt8) : SocketBuffer :=
  ⟨fresh, fresh.length, 0, 0, 0⟩

/-- The old data goes to the front of the new allocation. -/
def netplayResizeSocketBuffer (sbuf : SocketBuffer) (fresh : List UInt8) : SocketBuffer :=
  let newdata :=
    if sbuf.end_ < sbuf.start then
      blit (blit fresh 0 (slice sbuf.data sbuf.start sbuf.bufsz))
        (sbuf.bufsz - sbuf.start) (slice sbuf.data 0 sbuf.end_)
    else if sbuf.start < sbuf.end_ then
      blit fresh 0 (slice sbuf.data sbuf.start sbuf.end_)
    else fresh
  let read :=
    if sbuf.read < sbuf.start then sbuf.read + (sbuf.bufsz - sbuf.start)
    else sbuf.read - sbuf.start
  ⟨newdata, fresh.length, 0, bufUsed sbuf, read⟩

def netplayClearSocketBuffer (sbuf : SocketBuffer) : SocketBuffer :=
  { sbuf with start := 0, end_ := 0, read := 0 }

/-- `netplay_send_flush`. The recursive call of the source is only reached with the ring
unwrapped, so two levels are all there are; `depth` counts them down. -/
def sendFlushAt : ℕ → SocketBuffer → SendEnd → Bool → Bool × SocketBuffer × SendEnd
  | depth, sbuf, fd, block =>
    if bufUsed sbuf = 0 then (true, sbuf, fd)
    else if sbuf.start < sbuf.end_ then
      if block then
        match socketSendAllBlocking fd
            (slice sbuf.data sbuf.start (sbuf.start + bufUsed sbuf)) with
        | (false, fd) => (false, sbuf, fd)
        | (true, fd) => (true, { sbuf with start := 0, end_ := 0 }, fd)
      else
        match socketSendAllNonblocking fd
            (slice sbuf.data sbuf.start (sbuf.start + bufUsed sbuf)) with
        | (none, fd) => (false, sbuf, fd)
        | (some sent, fd) =>
          let sbuf := { sbuf with start := sbuf.start + sent }
          if sbuf.start = sbuf.end_ then (true, { sbuf with start := 0, end_ := 0 }, fd)
          else (true, sbuf, fd)
    else
      if block then
        match socketSendAllBlocking fd (slice sbuf.data sbuf.start sbuf.bufsz) with
        | (false, fd) => (false, sbuf, fd)
        | (true, fd) =>
          match depth with
          | 0 => (true, { sbuf with start := 0 }, fd)
          | depth + 1 => sendFlushAt depth { sbuf with start := 0 } fd true
      else
        match socketSendAllNonblocking fd (slice sbuf.data sbuf.start sbuf.bufsz) with
        | (none, fd) => (false, sbuf, fd)
        | (some sent, fd) =>
          let sbuf := { sbuf with start := sbuf.start + sent }
          if sbuf.bufsz ≤ sbuf.start then
            match depth with
            | 0 => (true, { sbuf with start := 0 }, fd)
            | depth + 1 => sendFlushAt depth { sbuf with start := 0 } fd false
          else (true, sbuf, fd)

def netplaySendFlush (sbuf : SocketBuffer) (fd : SendEnd) (block : Bool) :
    Bool × SocketBuffer × SendEnd :=
  sendFlushAt 1 sbuf fd block

/-- The last part of `netplay_send`: the message fits and is copied in, "half at a time" when
it runs over the end of the allocation. -/
def copyIn (sbuf : SocketBuffer) (buf : List UInt8) : SocketBuffer :=
  if sbuf.bufsz - sbuf.end_ < buf.length then
    let chunka := sbuf.bufsz - sbuf.end_
    let chunkb := buf.length - chunka
    { sbuf with
      data := blit (blit sbuf.data sbuf.end_ (buf.take chunka)) 0 (buf.drop chunka)
      end_ := chunkb }
  else
    { sbuf with data := blit sbuf.data sbuf.end_ buf, end_ := sbuf.end_ + buf.length }

/-- `netplay_send` after the forced flush, if there was one. -/
def sendFlushed (sbuf : SocketBuffer) (fd : SendEnd) (buf : List UInt8) :
    Bool × SocketBuffer × SendEnd :=
  if bufRemaining sbuf < buf.length then
    match socketSendAllBlocking fd buf with
    | (ok, fd) => (ok, sbuf, fd)
  else (true, copyIn sbuf buf, fd)

def netplaySend (sbuf : SocketBuffer) (fd : SendEnd) (buf : List UInt8) :
    Bool × SocketBuffer × SendEnd :=
  if bufRemaining sbuf < buf.length then
    match netplaySendFlush sbuf fd true with
    | (false, sbuf, fd) => (false, sbuf, fd)
    | (true, sbuf, fd) => sendFlushed sbuf fd buf
  else sendFlushed sbuf fd buf

/-- "Receive whatever we can into the buffer": `false` is the early `return -1`. -/
def recvFill (sbuf : SocketBuffer) (fd : RecvEnd) : Bool × SocketBuffer × RecvEnd :=
  if sbuf.start ≤ sbuf.end_ then
    match socketReceiveAllNonblocking fd
        (sbuf.bufsz - sbuf.end_ - if sbuf.start = 0 then 1 else 0) with
    | (none, fd) => (false, sbuf, fd)
    | (some recvd, fd) =>
      let sbuf := { sbuf with
        data := blit sbuf.data sbuf.end_ recvd, end_ := sbuf.end_ + recvd.length }
      if sbuf.bufsz ≤ sbuf.end_ then
        let sbuf := { sbuf with end_ := 0 }
        match socketReceiveAllNonblocking fd (sbuf.start - 1) with
        | (none, fd) => (false, sbuf, fd)
        | (some recvd, fd) =>
          (true, { sbuf with data := blit sbuf.data 0 recvd, end_ := recvd.length }, fd)
      else (true, sbuf, fd)
  else
    match socketReceiveAllNonblocking fd (sbuf.start - sbuf.end_ - 1) with
    | (none, fd) => (false, sbuf, fd)
    | (some recvd, fd) =>
      (true, { sbuf with
        data := blit sbuf.data sbuf.end_ recvd, end_ := sbuf.end_ + recvd.length }, fd)

/-- "Now copy it into the reader". -/
def copyOut (sbuf : SocketBuffer) (len : ℕ) : List UInt8 × SocketBuffer :=
  if sbuf.read ≤ sbuf.end_ ∨ len ≤ sbuf.bufsz - sbuf.read then
    let unread := bufUnread sbuf
    let recvd := if len ≤ unread then len else unread
    let read := sbuf.read + recvd
    (slice sbuf.data sbuf.read (sbuf.read + recvd),
      { sbuf with read := if sbuf.bufsz ≤ read then 0 else read })
  else
    let chunka := sbuf.bufsz - sbuf.read
    let pchunklen := len - chunka
    let chunkb := if sbuf.end_ ≤ pchunklen then sbuf.end_ else pchunklen
    (slice sbuf.data sbuf.read sbuf.bufsz ++ slice sbuf.data 0 chunkb,
      { sbuf with read := chunkb })

/-- `netplay_recv`: the bytes put into `buf`, or `none` for -1. -/
def netplayRecv (sbuf : SocketBuffer) (fd : RecvEnd) (len : ℕ) (block : Bool) :
    Option (List UInt8) × SocketBuffer × RecvEnd :=
  match recvFill sbuf fd with
  | (false, sbuf, fd) => (none, sbuf, fd)
  | (true, sbuf, fd) =>
    let (recvd, sbuf) := copyOut sbuf len
    if block then
      let sbuf := { sbuf with start := sbuf.read }
      if recvd.length < len then
        match socketReceiveAllBlocking fd (len - recvd.length) with
        | (none, fd) => (none, sbuf, fd)
        | (some rest, fd) => (some (recvd ++ rest), sbuf, fd)
      else (some recvd, sbuf, fd)
    else (some recvd, sbuf, fd)

def netplayRecvReset (sbuf : SocketBuffer) : SocketBuffer := { sbuf with read := sbuf.start }

def netplayRecvFlush (sbuf : SocketBuffer) : SocketBuffer := { sbuf with start := sbuf.read }

theorem advanceEnd_once {bufsz cursor fuel newend : ℕ} (hlow : newend < cursor)
    (hhigh : cursor ≤ newend + bufsz) (hfuel : 0 < fuel) :
    advanceEnd bufsz cursor fuel newend = newend + bufsz := by
  obtain ⟨fuel, rfl⟩ := Nat.exists_eq_add_of_lt hfuel
  rw [Nat.zero_add, advanceEnd, if_pos hlow]
  cases fuel with
  | zero => rfl
  | succ fuel => rw [advanceEnd, if_neg (by omega)]

theorem bufUsed_straight {sbuf : SocketBuffer} (h : sbuf.start ≤ sbuf.end_) :
    bufUsed sbuf = sbuf.end_ - sbuf.start :=
  if_neg (by omega)

theorem bufUsed_wrapped {sbuf : SocketBuffer} (h : sbuf.end_ < sbuf.start)
    (hs : sbuf.start ≤ sbuf.bufsz) : bufUsed sbuf = sbuf.end_ + sbuf.bufsz - sbuf.start := by
  rw [bufUsed, if_pos h, advanceEnd_once h (by omega) (by omega)]

theorem bufUnread_straight {sbuf : SocketBuffer} (h : sbuf.read ≤ sbuf.end_) :
    bufUnread sbuf = sbuf.end_ - sbuf.read :=
  if_neg (by omega)

theorem bufUnread_wrapped {sbuf : SocketBuffer} (h : sbuf.end_ < sbuf.read)
    (hr : sbuf.read ≤ sbuf.bufsz) : bufUnread sbuf = sbuf.end_ + sbuf.bufsz - sbuf.read := by
  rw [bufUnread, if_pos h, advanceEnd_once h (by omega) (by omega)]

theorem length_ring_bufUsed {sbuf : SocketBuffer} (hsize : sbuf.data.length = sbuf.bufsz)
    (hs : sbuf.start ≤ sbuf.bufsz) (he : sbuf.end_ ≤ sbuf.bufsz) :
    (ring sbuf.data sbuf.start sbuf.end_).length = bufUsed sbuf := by
  rcases Nat.lt_or_ge sbuf.end_ sbuf.start with hlt | hge
  · rw [length_ring_wrapped _ hlt (by omega), bufUsed_wrapped hlt hs, hsize]
  · rw [length_ring_straight _ hge (by omega), bufUsed_straight hge]

theorem resize_ring {sbuf : SocketBuffer} {fresh : List UInt8}
    (hsize : sbuf.data.length = sbuf.bufsz) (hs : sbuf.start ≤ sbuf.bufsz)
    (he : sbuf.end_ ≤ sbuf.bufsz) (hroom : bufUsed sbuf < fresh.length) :
    (netplayResizeSocketBuffer sbuf fresh).data.length = fresh.length ∧
      slice (netplayResizeSocketBuffer sbuf fresh).data 0 (bufUsed sbuf) =
        ring sbuf.data sbuf.start sbuf.end_ := by
  rcases Nat.lt_trichotomy sbuf.end_ sbuf.start with hlt | heq | hgt
  · have hused := bufUsed_wrapped hlt hs
    have hfront : (slice sbuf.data sbuf.start sbuf.bufsz).length = sbuf.bufsz - sbuf.start := by
      rw [length_slice]
      omega
    have hback : (slice sbuf.data 0 sbuf.end_).length = sbuf.end_ := by
      rw [length_slice]
      omega
    have hdata : (netplayResizeSocketBuffer sbuf fresh).data =
        blit (blit fresh 0 (slice sbuf.data sbuf.start sbuf.bufsz))
          (sbuf.bufsz - sbuf.start) (slice sbuf.data 0 sbuf.end_) := if_pos hlt
    have hfirst := length_blit fresh (slice sbuf.data sbuf.start sbuf.bufsz) 0 (by omega)
    have hend : bufUsed sbuf =
        sbuf.bufsz - sbuf.start + (slice sbuf.data 0 sbuf.end_).length := by omega
    have hstart : slice (blit fresh 0 (slice sbuf.data sbuf.start sbuf.bufsz)) 0
        (sbuf.bufsz - sbuf.start) = slice sbuf.data sbuf.start sbuf.bufsz := by
      have hsame := slice_blit_same fresh (slice sbuf.data sbuf.start sbuf.bufsz) 0
        (Nat.zero_le _)
      rwa [Nat.zero_add, hfront] at hsame
    rw [hdata]
    refine ⟨by rw [length_blit _ _ _ (by omega), hfirst], ?_⟩
    rw [hend, ← slice_append _ (Nat.zero_le (sbuf.bufsz - sbuf.start)) (by omega),
      slice_blit_before _ _ le_rfl (by omega), slice_blit_same _ _ _ (by omega), hstart,
      ring_wrapped _ hlt, hsize]
  · have hdata : (netplayResizeSocketBuffer sbuf fresh).data = fresh := by
      rw [netplayResizeSocketBuffer, if_neg (by omega), if_neg (by omega)]
    rw [hdata, bufUsed_straight heq.ge, heq]
    simp
  · have hused := bufUsed_straight hgt.le
    have hlen : (slice sbuf.data sbuf.start sbuf.end_).length = sbuf.end_ - sbuf.start := by
      rw [length_slice]
      omega
    have hdata : (netplayResizeSocketBuffer sbuf fresh).data =
        blit fresh 0 (slice sbuf.data sbuf.start sbuf.end_) := by
      rw [netplayResizeSocketBuffer, if_neg (by omega), if_pos hgt]
    have hsame := slice_blit_same fresh (slice sbuf.data sbuf.start sbuf.end_) 0
      (Nat.zero_le _)
    rw [Nat.zero_add, hlen] at hsame
    rw [hdata, hused, ring_straight _ hgt.le]
    exact ⟨length_blit _ _ _ (by omega), hsame⟩

end RetroArch.Netplay.Buf
