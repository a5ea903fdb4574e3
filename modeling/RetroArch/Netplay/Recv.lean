/- Receiving: the buffer is a rewindable stretch of the peer's stream. -/

import Mathlib.Data.List.Infix
import RetroArch.Library.Rewinding
import RetroArch.Netplay.Send

namespace RetroArch.Netplay.Recv

open Library.Region Library.Rewinding Library.Run Net.Socket Buf

/-- Everything received since the last flush. -/
def window (sbuf : SocketBuffer) : List UInt8 := ring sbuf.data sbuf.start sbuf.end_

/-- What has been handed out since the last flush. -/
def handed (sbuf : SocketBuffer) : List UInt8 := ring sbuf.data sbuf.start sbuf.read

/-- What is buffered and still to be handed out. -/
def unread (sbuf : SocketBuffer) : List UInt8 := ring sbuf.data sbuf.read sbuf.end_

/-- The three cursors of a receive buffer: all inside the allocation, the read cursor on the
way from `start` to `end_`, one cell kept free. -/
structure RecvInv (sbuf : SocketBuffer) : Prop where
  size : sbuf.data.length = sbuf.bufsz
  start_lt : sbuf.start < sbuf.bufsz
  end_lt : sbuf.end_ < sbuf.bufsz
  between : Between sbuf.start sbuf.read sbuf.end_
  read_lt : sbuf.read < sbuf.bufsz

theorem window_split {sbuf : SocketBuffer} (h : RecvInv sbuf) :
    handed sbuf ++ unread sbuf = window sbuf :=
  ring_append sbuf.data h.between (by have := h.size; have := h.read_lt; omega)

/-- The buffer as a rewindable input. -/
def tapeOf (sbuf : SocketBuffer) (h : RecvInv sbuf) : Tape UInt8 :=
  ⟨window sbuf, (handed sbuf).length, by
    rw [← window_split h, List.length_append]
    omega⟩

theorem length_unread {sbuf : SocketBuffer} (h : RecvInv sbuf) :
    (unread sbuf).length = bufUnread sbuf := by
  have hsize := h.size
  have hread := h.read_lt
  have hend := h.end_lt
  rcases Nat.lt_or_ge sbuf.end_ sbuf.read with hlt | hge
  · rw [unread, length_ring_wrapped _ hlt (by omega), bufUnread_wrapped hlt (by omega), hsize]
  · rw [unread, length_ring_straight _ hge (by omega), bufUnread_straight hge]

theorem length_window {sbuf : SocketBuffer} (h : RecvInv sbuf) :
    (window sbuf).length = bufUsed sbuf :=
  length_ring_bufUsed h.size h.start_lt.le h.end_lt.le

theorem recvInv_init (fresh : List UInt8) (h : 0 < fresh.length) :
    RecvInv (netplayInitSocketBuffer fresh) :=
  ⟨rfl, h, h, .inl ⟨le_rfl, le_rfl⟩, h⟩

theorem recvInv_reset {sbuf : SocketBuffer} (h : RecvInv sbuf) :
    RecvInv (netplayRecvReset sbuf) where
  size := h.size
  start_lt := h.start_lt
  end_lt := h.end_lt
  between := by
    rcases h.between with ⟨hsr, hre⟩ | ⟨hes, hsr⟩ | ⟨hre, hes⟩
    · exact .inl ⟨le_rfl, hsr.trans hre⟩
    · exact .inr (.inl ⟨hes, le_rfl⟩)
    · exact .inr (.inl ⟨hes, le_rfl⟩)
  read_lt := h.start_lt

theorem recvInv_flush {sbuf : SocketBuffer} (h : RecvInv sbuf) :
    RecvInv (netplayRecvFlush sbuf) where
  size := h.size
  start_lt := h.read_lt
  end_lt := h.end_lt
  between := by
    rcases Nat.lt_or_ge sbuf.end_ sbuf.read with hlt | hge
    · exact .inr (.inl ⟨hlt, le_rfl⟩)
    · exact .inl ⟨le_rfl, hge⟩
  read_lt := h.read_lt

/-- `sbuf'` is `sbuf` with `new` behind what it held; nothing else has moved. -/
structure Received (sbuf sbuf' : SocketBuffer) (new : List UInt8) : Prop where
  inv : RecvInv sbuf'
  bufsz : sbuf'.bufsz = sbuf.bufsz
  start : sbuf'.start = sbuf.start
  read : sbuf'.read = sbuf.read
  window : window sbuf' = window sbuf ++ new
  handed : handed sbuf' = handed sbuf

theorem Received.unread {sbuf sbuf' : SocketBuffer} {new : List UInt8} (hinv : RecvInv sbuf)
    (h : Received sbuf sbuf' new) : unread sbuf' = unread sbuf ++ new := by
  have hsplit := h.window
  rw [← window_split h.inv, ← window_split hinv, h.handed, List.append_assoc] at hsplit
  exact List.append_cancel_left hsplit

private theorem received_straight {sbuf : SocketBuffer} (new : List UInt8) (h : RecvInv sbuf)
    (hse : sbuf.start ≤ sbuf.end_) (hfit : sbuf.end_ + new.length < sbuf.bufsz) :
    Received sbuf { sbuf with
      data := blit sbuf.data sbuf.end_ new, end_ := sbuf.end_ + new.length } new := by
  have hsize := h.size
  have hread : sbuf.start ≤ sbuf.read ∧ sbuf.read ≤ sbuf.end_ := by
    rcases h.between with hb | ⟨hes, -⟩ | ⟨-, hes⟩
    · exact hb
    · omega
    · omega
  have hdata : sbuf.end_ + new.length ≤ sbuf.data.length := by omega
  exact {
    inv := ⟨by rw [length_blit _ _ _ hdata, hsize], h.start_lt, hfit,
      .inl ⟨hread.1, by simp only; omega⟩, h.read_lt⟩
    bufsz := rfl
    start := rfl
    read := rfl
    window := ring_blit_straight _ _ hse hdata
    handed := ring_blit_of_disjoint _ _ hdata (.inl ⟨hread.1, .inl hread.2⟩) }

private theorem received_full {sbuf : SocketBuffer} (new : List UInt8) (h : RecvInv sbuf)
    (hs : 0 < sbuf.start) (hse : sbuf.start ≤ sbuf.end_)
    (hfit : sbuf.end_ + new.length = sbuf.bufsz) :
    Received sbuf { sbuf with data := blit sbuf.data sbuf.end_ new, end_ := 0 } new := by
  have hsize := h.size
  have hread : sbuf.start ≤ sbuf.read ∧ sbuf.read ≤ sbuf.end_ := by
    rcases h.between with hb | ⟨hes, -⟩ | ⟨-, hes⟩
    · exact hb
    · omega
    · omega
  have hdata : sbuf.end_ + new.length ≤ sbuf.data.length := by omega
  exact {
    inv := ⟨by rw [length_blit _ _ _ hdata, hsize], h.start_lt, by have := h.end_lt; simp only; omega,
      .inr (.inl ⟨hs, hread.1⟩), h.read_lt⟩
    bufsz := rfl
    start := rfl
    read := rfl
    window := ring_blit_full _ _ hs hse (by omega)
    handed := ring_blit_of_disjoint _ _ hdata (.inl ⟨hread.1, .inl hread.2⟩) }

private theorem received_wrapped {sbuf : SocketBuffer} (new : List UInt8) (h : RecvInv sbuf)
    (hfit : sbuf.end_ + new.length < sbuf.start) :
    Received sbuf { sbuf with
      data := blit sbuf.data sbuf.end_ new, end_ := sbuf.end_ + new.length } new := by
  have hsize := h.size
  have hstart := h.start_lt
  have hdata : sbuf.end_ + new.length ≤ sbuf.data.length := by omega
  have hread : sbuf.start ≤ sbuf.read ∨ sbuf.read ≤ sbuf.end_ := by
    rcases h.between with hb | hb | hb
    · exact .inl hb.1
    · exact .inl hb.2
    · exact .inr hb.1
  refine {
    inv := ⟨by rw [length_blit _ _ _ hdata, hsize], h.start_lt, hfit.trans hstart, ?_, h.read_lt⟩
    bufsz := rfl
    start := rfl
    read := rfl
    window := ring_blit_wrapped _ _ hfit (by have := h.size; exact hsize ▸ hstart.le)
    handed := ring_blit_of_disjoint _ _ hdata ?_ }
  · rcases hread with hr | hr
    · exact .inr (.inl ⟨hfit, hr⟩)
    · exact .inr (.inr ⟨Nat.le_add_right_of_le hr, hfit⟩)
  · rcases hread with hr | hr
    · exact .inl ⟨hr, .inr hfit.le⟩
    · exact .inr ⟨lt_of_le_of_lt (Nat.le_add_right_of_le hr) hfit, hr, hfit.le⟩

theorem Received.trans {sbuf₁ sbuf₂ sbuf₃ : SocketBuffer} {new₁ new₂ : List UInt8}
    (h₁ : Received sbuf₁ sbuf₂ new₁) (h₂ : Received sbuf₂ sbuf₃ new₂) :
    Received sbuf₁ sbuf₃ (new₁ ++ new₂) where
  inv := h₂.inv
  bufsz := h₂.bufsz.trans h₁.bufsz
  start := h₂.start.trans h₁.start
  read := h₂.read.trans h₁.read
  window := by rw [h₂.window, h₁.window, List.append_assoc]
  handed := h₂.handed.trans h₁.handed

theorem recvFill_spec {sbuf sbuf' : SocketBuffer} {fd fd' : RecvEnd} (hinv : RecvInv sbuf)
    (h : recvFill sbuf fd = (true, sbuf', fd')) :
    ∃ new, fd.stream = new ++ fd'.stream ∧ Received sbuf sbuf' new := by
  have hend := hinv.end_lt
  have hstart := hinv.start_lt
  rw [recvFill] at h
  by_cases hse : sbuf.start ≤ sbuf.end_
  · rw [if_pos hse] at h
    split at h
    · cases h
    · next bs fd₁ hrecv =>
        obtain ⟨hpos, hlen, hstream, -⟩ := socketReceiveAllNonblocking_spec _ _ _ _ hrecv
        dsimp only at h
        by_cases hfull : sbuf.bufsz ≤ sbuf.end_ + bs.length
        · rw [if_pos hfull] at h
          -- with `start` at 0 the last cell stays free, so the ring did not just wrap there
          have hs : 0 < sbuf.start := by
            by_contra hzero
            rw [if_pos (by omega)] at hlen
            omega
          rw [if_neg (by omega)] at hlen
          split at h
          · cases h
          · next cs fd₂ hrecv₂ =>
              obtain ⟨hpos₂, hlen₂, hstream₂, -⟩ := socketReceiveAllNonblocking_spec _ _ _ _ hrecv₂
              obtain ⟨rfl, rfl⟩ : _ = sbuf' ∧ fd₂ = fd' := by simpa using h
              have hfirst := received_full bs hinv hs hse (by omega)
              have hsecond := received_wrapped cs hfirst.inv (by dsimp only; omega)
              refine ⟨bs ++ cs, by rw [hstream, hstream₂, List.append_assoc], ?_⟩
              simpa only [Nat.zero_add] using hfirst.trans hsecond
        · rw [if_neg hfull] at h
          obtain ⟨rfl, rfl⟩ : _ = sbuf' ∧ fd₁ = fd' := by simpa using h
          exact ⟨bs, hstream, received_straight bs hinv hse (by omega)⟩
  · rw [if_neg hse] at h
    split at h
    · cases h
    · next bs fd₁ hrecv =>
        obtain ⟨hpos, hlen, hstream, -⟩ := socketReceiveAllNonblocking_spec _ _ _ _ hrecv
        obtain ⟨rfl, rfl⟩ : _ = sbuf' ∧ fd₁ = fd' := by simpa using h
        exact ⟨bs, hstream, received_wrapped bs hinv (by omega)⟩

private theorem copyOut_ring {sbuf : SocketBuffer} (hinv : RecvInv sbuf) (len : ℕ) :
    ∃ read, copyOut sbuf len = (ring sbuf.data sbuf.read read, { sbuf with read := read }) ∧
      read < sbuf.bufsz ∧ Between sbuf.start sbuf.read read ∧
      Between sbuf.start read sbuf.end_ ∧
      ring sbuf.data sbuf.read read = (unread sbuf).take len := by
  have hsize := hinv.size
  have hstart := hinv.start_lt
  have hend := hinv.end_lt
  have hread := hinv.read_lt
  by_cases hre : sbuf.read ≤ sbuf.end_
  · have hcount : (if len ≤ bufUnread sbuf then len else bufUnread sbuf) =
        min len (sbuf.end_ - sbuf.read) := by
      rw [bufUnread_straight hre, Nat.min_def]
    have hmin : sbuf.read + min len (sbuf.end_ - sbuf.read) =
        min sbuf.end_ (sbuf.read + len) := by omega
    refine ⟨min sbuf.end_ (sbuf.read + len), ?_, by omega, ?_, ?_, ?_⟩
    · rw [copyOut, if_pos (.inl hre)]
      dsimp only
      rw [hcount, hmin, if_neg (by omega), ring_straight _ (by omega)]
    · rcases hinv.between with hb | hb | hb
      · exact .inl ⟨hb.1, by omega⟩
      · omega
      · exact .inr (.inr ⟨by omega, by omega⟩)
    · rcases hinv.between with hb | hb | hb
      · exact .inl ⟨by omega, by omega⟩
      · omega
      · exact .inr (.inr ⟨by omega, hb.2⟩)
    · rw [unread, ring_straight _ hre, ring_straight _ (by omega), take_slice]
  · -- the unread bytes go over the edge, so `start` is behind them
    have hes : sbuf.end_ < sbuf.start ∧ sbuf.start ≤ sbuf.read := by
      rcases hinv.between with hb | hb | hb
      · omega
      · exact hb
      · omega
    have hfull : (slice sbuf.data sbuf.read sbuf.data.length).length = sbuf.bufsz - sbuf.read := by
      rw [length_slice]
      omega
    by_cases hlen : len ≤ sbuf.bufsz - sbuf.read
    · have hcount : (if len ≤ bufUnread sbuf then len else bufUnread sbuf) = len := by
        rw [bufUnread_wrapped (by omega) hread.le, if_pos (by omega)]
      have htake : (unread sbuf).take len = slice sbuf.data sbuf.read (sbuf.read + len) := by
        rw [unread, ring_wrapped _ (by omega), List.take_append_of_le_length (by omega),
          take_slice]
        congr 1
        omega
      have hcopy : copyOut sbuf len = (slice sbuf.data sbuf.read (sbuf.read + len),
          { sbuf with read :=
            if sbuf.bufsz ≤ sbuf.read + len then 0 else sbuf.read + len }) := by
        rw [copyOut, if_pos (.inr hlen)]
        dsimp only
        rw [hcount]
      by_cases hedge : sbuf.bufsz ≤ sbuf.read + len
      · have hzero : ring sbuf.data sbuf.read 0 = slice sbuf.data sbuf.read (sbuf.read + len) := by
          rw [ring_wrapped _ (by omega), slice_self, List.append_nil]
          congr 1
          omega
        refine ⟨0, ?_, by omega, .inr (.inl ⟨by omega, hes.2⟩), .inr (.inr ⟨by omega, hes.1⟩), ?_⟩
        · rw [hcopy, if_pos hedge, hzero]
        · rw [hzero, htake]
      · refine ⟨sbuf.read + len, ?_, by omega, .inl ⟨hes.2, by omega⟩,
          .inr (.inl ⟨hes.1, by omega⟩), ?_⟩
        · rw [hcopy, if_neg hedge, ring_straight _ (by omega)]
        · rw [htake, ring_straight _ (by omega)]
    · have hmin : (if sbuf.end_ ≤ len - (sbuf.bufsz - sbuf.read) then sbuf.end_
          else len - (sbuf.bufsz - sbuf.read)) =
          min sbuf.end_ (0 + (len - (sbuf.bufsz - sbuf.read))) := by
        rw [Nat.zero_add, Nat.min_def]
      refine ⟨min sbuf.end_ (0 + (len - (sbuf.bufsz - sbuf.read))), ?_, by omega,
        .inr (.inl ⟨by omega, hes.2⟩), .inr (.inr ⟨by omega, hes.1⟩), ?_⟩
      · rw [copyOut, if_neg (by omega)]
        dsimp only
        rw [hmin, ring_wrapped _ (by omega), hsize]
      · rw [unread, ring_wrapped _ (by omega), ring_wrapped _ (by omega), List.take_append,
          List.take_of_length_le (by omega), take_slice, hfull]

theorem copyOut_spec {sbuf : SocketBuffer} (hinv : RecvInv sbuf) (len : ℕ) :
    (copyOut sbuf len).1 = (unread sbuf).take len ∧ RecvInv (copyOut sbuf len).2 ∧
      (copyOut sbuf len).2.bufsz = sbuf.bufsz ∧
      window (copyOut sbuf len).2 = window sbuf ∧
      handed (copyOut sbuf len).2 = handed sbuf ++ (copyOut sbuf len).1 := by
  obtain ⟨read, hcopy, hlt, hway, hrest, htake⟩ := copyOut_ring hinv len
  rw [hcopy]
  refine ⟨htake, ⟨hinv.size, hinv.start_lt, hinv.end_lt, hrest, hlt⟩, rfl, rfl, ?_⟩
  exact (ring_append sbuf.data hway (by have := hinv.size; have := hinv.read_lt; omega)).symm

/-- One successful non-blocking call: some bytes arrive, then one read of the tape. -/
theorem netplayRecv_nonblocking {sbuf sbuf' : SocketBuffer} {fd fd' : RecvEnd} {len : ℕ}
    {bs : List UInt8} (hinv : RecvInv sbuf)
    (h : netplayRecv sbuf fd len false = (some bs, sbuf', fd')) :
    ∃ new, fd.stream = new ++ fd'.stream ∧ RecvInv sbuf' ∧
      bs = (unread sbuf ++ new).take len ∧
      bufUnread (recvFill sbuf fd).2.1 = (unread sbuf ++ new).length ∧
      window sbuf' = window sbuf ++ new ∧ handed sbuf' = handed sbuf ++ bs := by
  rw [netplayRecv] at h
  split at h
  · cases h
  · next sbuf₁ fd₁ hfill =>
      obtain ⟨new, hstream, hreceived⟩ := recvFill_spec hinv hfill
      obtain ⟨htake, hinv', -, hwindow, hhanded⟩ := copyOut_spec hreceived.inv len
      obtain ⟨rfl, rfl, rfl⟩ : (copyOut sbuf₁ len).1 = bs ∧ (copyOut sbuf₁ len).2 = sbuf' ∧
          fd₁ = fd' := by simpa using h
      refine ⟨new, hstream, hinv', ?_, ?_, ?_, ?_⟩
      · rw [htake, hreceived.unread hinv]
      · rw [hfill, ← length_unread hreceived.inv, hreceived.unread hinv]
      · rw [hwindow, hreceived.window]
      · rw [hhanded, hreceived.handed]

/-- One successful blocking call: it hands out exactly `len` bytes, the last of them perhaps
straight from the socket, and flushes. -/
theorem netplayRecv_blocking {sbuf sbuf' : SocketBuffer} {fd fd' : RecvEnd} {len : ℕ}
    {bs : List UInt8} (hinv : RecvInv sbuf)
    (h : netplayRecv sbuf fd len true = (some bs, sbuf', fd')) :
    RecvInv sbuf' ∧ bs.length = len ∧ handed sbuf' = [] ∧
      unread sbuf ++ fd.stream = bs ++ (window sbuf' ++ fd'.stream) := by
  rw [netplayRecv] at h
  split at h
  · cases h
  · next sbuf₁ fd₁ hfill =>
      obtain ⟨new, hstream, hreceived⟩ := recvFill_spec hinv hfill
      obtain ⟨htake, hinv', -, hwindow, hhanded⟩ := copyOut_spec hreceived.inv len
      have hunread : window (netplayRecvFlush (copyOut sbuf₁ len).2) =
          (unread sbuf₁).drop len := by
        have hsplit := window_split hinv'
        rw [hwindow, hhanded, ← window_split hreceived.inv, List.append_assoc] at hsplit
        have hrest := List.append_cancel_left hsplit
        rw [htake] at hrest
        nth_rewrite 2 [← List.take_append_drop len (unread sbuf₁)] at hrest
        exact List.append_cancel_left hrest
      have hlen : (copyOut sbuf₁ len).1.length = min len (unread sbuf₁).length := by
        rw [htake, List.length_take]
      have hflushed : handed (netplayRecvFlush (copyOut sbuf₁ len).2) = [] := ring_self _ _
      rw [hreceived.unread hinv] at htake hunread hlen
      simp only [if_true] at h
      split_ifs at h with hshort
      · split at h
        · cases h
        · next rest fd₂ hrest =>
            obtain ⟨hcount, hstream₂⟩ := socketReceiveAllBlocking_spec _ _ _ _ hrest
            obtain ⟨rfl, rfl, rfl⟩ : (copyOut sbuf₁ len).1 ++ rest = bs ∧
                netplayRecvFlush (copyOut sbuf₁ len).2 = sbuf' ∧ fd₂ = fd' := by
              simpa [netplayRecvFlush] using h
            refine ⟨recvInv_flush hinv', ?_, hflushed, ?_⟩
            · rw [List.length_append]
              omega
            · -- a short count has emptied the buffer
              have hall : (unread sbuf ++ new).length ≤ len := by omega
              rw [hunread, htake, List.take_of_length_le hall, List.drop_of_length_le hall, hstream,
                hstream₂]
              simp only [List.append_assoc, List.nil_append]
      · obtain ⟨rfl, rfl, rfl⟩ : (copyOut sbuf₁ len).1 = bs ∧
            netplayRecvFlush (copyOut sbuf₁ len).2 = sbuf' ∧ fd₁ = fd' := by
          simpa [netplayRecvFlush] using h
        refine ⟨recvInv_flush hinv', by omega, hflushed, ?_⟩
        rw [hunread, htake, hstream, ← List.append_assoc, ← List.append_assoc,
          List.take_append_drop]

theorem resize_spec {sbuf : SocketBuffer} {fresh : List UInt8} (hinv : RecvInv sbuf)
    (hroom : bufUsed sbuf < fresh.length) :
    RecvInv (netplayResizeSocketBuffer sbuf fresh) ∧
      window (netplayResizeSocketBuffer sbuf fresh) = window sbuf ∧
      handed (netplayResizeSocketBuffer sbuf fresh) = handed sbuf := by
  have hsize := hinv.size
  have hstart := hinv.start_lt
  have hread := hinv.read_lt
  obtain ⟨hlen, hdata⟩ := resize_ring hsize hstart.le hinv.end_lt.le hroom
  have hwindow : window (netplayResizeSocketBuffer sbuf fresh) = window sbuf :=
    (ring_straight _ (Nat.zero_le _)).trans hdata
  have hcursor : (netplayResizeSocketBuffer sbuf fresh).read = (handed sbuf).length := by
    rcases Nat.lt_or_ge sbuf.read sbuf.start with hlt | hge
    · rw [handed, length_ring_wrapped _ hlt (by omega), netplayResizeSocketBuffer]
      dsimp only
      rw [if_pos hlt]
      omega
    · rw [handed, length_ring_straight _ hge (by omega), netplayResizeSocketBuffer]
      dsimp only
      rw [if_neg (by omega)]
  have hle : (handed sbuf).length ≤ bufUsed sbuf := by
    rw [← length_window hinv, ← window_split hinv, List.length_append]
    omega
  refine ⟨⟨hlen, Nat.zero_lt_of_lt hroom, hroom, ?_, ?_⟩, hwindow, ?_⟩
  · exact .inl ⟨Nat.zero_le _, by rw [hcursor]; exact hle⟩
  · rw [hcursor]
    exact lt_of_le_of_lt hle hroom
  · have htake := congrArg (List.take (handed sbuf).length) hdata
    rw [take_slice, Nat.zero_add, Nat.min_eq_right hle] at htake
    have hwin : ring sbuf.data sbuf.start sbuf.end_ = handed sbuf ++ unread sbuf :=
      (window_split hinv).symm
    rw [hwin, List.take_left] at htake
    rw [← htake, handed, hcursor]
    exact ring_straight _ (Nat.zero_le _)

/-- What a peer of the buffer may do; `resize` is `netplay_init_socket_buffers` meeting a
live connection. -/
inductive RecvOp
  | recv (len : ℕ) (block : Bool)
  | reset
  | flush
  | resize (fresh : List UInt8)

/-- A buffer on its socket, with the flush point as a position of the peer's stream and the
bytes handed out since. -/
structure RecvSession where
  sbuf : SocketBuffer
  fd : RecvEnd
  flushed : ℕ
  handedOut : List UInt8

/-- One operation; a call that returns -1 and a resize below the buffered data end the
session. -/
def recvStep (t : RecvSession) : RecvOp → Option RecvSession
  | .recv len false =>
    match netplayRecv t.sbuf t.fd len false with
    | (none, _, _) => none
    | (some bs, sbuf, fd) => some ⟨sbuf, fd, t.flushed, t.handedOut ++ bs⟩
  | .recv len true =>
    match netplayRecv t.sbuf t.fd len true with
    | (none, _, _) => none
    | (some bs, sbuf, fd) => some ⟨sbuf, fd, t.flushed + (t.handedOut ++ bs).length, []⟩
  | .reset => some { t with sbuf := netplayRecvReset t.sbuf, handedOut := [] }
  | .flush => some ⟨netplayRecvFlush t.sbuf, t.fd, t.flushed + t.handedOut.length, []⟩
  | .resize fresh =>
    if bufUsed t.sbuf < fresh.length then
      some { t with sbuf := netplayResizeSocketBuffer t.sbuf fresh }
    else none

/-- A fresh buffer on a socket whose peer is going to send `stream`. -/
def recvStart (fresh stream : List UInt8) (script : List RecvAnswer) : RecvSession :=
  ⟨netplayInitSocketBuffer fresh, ⟨stream, script, []⟩, 0, []⟩

/-- The buffer holds the stream from the flush point up to what the socket has delivered. -/
structure Faithful (stream : List UInt8) (t : RecvSession) : Prop where
  inv : RecvInv t.sbuf
  handed : handed t.sbuf = t.handedOut
  window : stream.drop t.flushed = window t.sbuf ++ t.fd.stream
  flushed_le : t.flushed ≤ stream.length

theorem Faithful.split {stream : List UInt8} {t : RecvSession} (h : Faithful stream t) :
    stream.drop t.flushed = t.handedOut ++ (unread t.sbuf ++ t.fd.stream) := by
  rw [h.window, ← window_split h.inv, h.handed, List.append_assoc]

theorem Faithful.drop_handed {stream : List UInt8} {t : RecvSession} (h : Faithful stream t) :
    stream.drop (t.flushed + t.handedOut.length) = unread t.sbuf ++ t.fd.stream := by
  rw [← List.drop_drop, h.split, List.drop_left]

theorem Faithful.position_le {stream : List UInt8} {t : RecvSession} (h : Faithful stream t) :
    t.flushed + t.handedOut.length ≤ stream.length := by
  have hlen := congrArg List.length h.split
  have hle := h.flushed_le
  rw [List.length_drop, List.length_append] at hlen
  omega

private theorem recvStep_faithful (stream : List UInt8) (t : RecvSession) (op : RecvOp)
    (t' : RecvSession) (hfaithful : Faithful stream t) (h : recvStep t op = some t') :
    Faithful stream t' := by
  cases op with
  | recv len block =>
    cases block with
    | false =>
      rw [recvStep] at h
      split at h
      · cases h
      · next bs sbuf fd hrecv =>
          obtain rfl := Option.some.inj h
          obtain ⟨new, hstream, hinv, -, -, hwindow, hhanded⟩ :=
            netplayRecv_nonblocking hfaithful.inv hrecv
          refine ⟨hinv, by rw [hhanded, hfaithful.handed], ?_, hfaithful.flushed_le⟩
          rw [hfaithful.window, hwindow, hstream, List.append_assoc]
    | true =>
      rw [recvStep] at h
      split at h
      · cases h
      · next bs sbuf fd hrecv =>
          obtain rfl := Option.some.inj h
          obtain ⟨hinv, -, hhanded, hsplit⟩ := netplayRecv_blocking hfaithful.inv hrecv
          have hdrop := hfaithful.drop_handed
          rw [hsplit] at hdrop
          have hlen := congrArg List.length hdrop
          have hle := hfaithful.position_le
          simp only [List.length_drop, List.length_append] at hlen
          refine ⟨hinv, hhanded, ?_, ?_⟩
          · dsimp only
            rw [List.length_append, ← Nat.add_assoc, ← List.drop_drop, hdrop, List.drop_left]
          · dsimp only
            rw [List.length_append]
            omega
  | reset =>
    obtain rfl := Option.some.inj h
    exact ⟨recvInv_reset hfaithful.inv, ring_self _ _, hfaithful.window, hfaithful.flushed_le⟩
  | flush =>
    obtain rfl := Option.some.inj h
    exact ⟨recvInv_flush hfaithful.inv, ring_self _ _, hfaithful.drop_handed,
      hfaithful.position_le⟩
  | resize fresh =>
    rw [recvStep] at h
    split_ifs at h with hroom
    obtain rfl := Option.some.inj h
    obtain ⟨hinv, hwindow, hhanded⟩ := resize_spec hfaithful.inv hroom
    exact ⟨hinv, hhanded.trans hfaithful.handed, by rw [hfaithful.window, hwindow],
      hfaithful.flushed_le⟩

theorem run_faithful {fresh stream : List UInt8} {script : List RecvAnswer} {ops : List RecvOp}
    {t : RecvSession} (hsize : 0 < fresh.length)
    (h : run recvStep (recvStart fresh stream script) ops = some t) : Faithful stream t :=
  run_invariant (recvStep_faithful stream)
    ⟨recvInv_init fresh hsize, by simp [recvStart, handed, netplayInitSocketBuffer],
      by simp [recvStart, window, netplayInitSocketBuffer], Nat.zero_le _⟩ h

/-- What a receive buffer promises in a session that has reached `t`. -/
structure RecvContract (stream : List UInt8) (t : RecvSession) : Prop where
  /-- The bytes handed out since the flush point are the next bytes of the stream. -/
  handed : t.handedOut <+: stream.drop t.flushed
  /-- A short count says how much was buffered. -/
  nonblocking : ∀ len bs sbuf fd, netplayRecv t.sbuf t.fd len false = (some bs, sbuf, fd) →
    t.handedOut ++ bs <+: stream.drop t.flushed ∧
      bs.length = min len (bufUnread (recvFill t.sbuf t.fd).2.1) ∧
      t.flushed + t.handedOut.length + bufUnread (recvFill t.sbuf t.fd).2.1 + fd.stream.length =
        stream.length
  blocking : ∀ len bs sbuf fd, netplayRecv t.sbuf t.fd len true = (some bs, sbuf, fd) →
    t.handedOut ++ bs <+: stream.drop t.flushed ∧ bs.length = len
  /-- After a reset the same bytes come again. -/
  again : ∀ len bs sbuf fd,
    netplayRecv (netplayRecvReset t.sbuf) t.fd len false = (some bs, sbuf, fd) →
      t.handedOut.take len <+: bs

/-- The receive buffer is a faithful, rewindable view of the peer's stream, whatever the
socket does and in whatever order it is read, reset, flushed and resized. -/
theorem recv_buffer_faithful (fresh stream : List UInt8) (script : List RecvAnswer)
    (ops : List RecvOp) (t : RecvSession) (hsize : 1 < fresh.length)
    (hrun : run recvStep (recvStart fresh stream script) ops = some t) :
    RecvContract stream t := by
  have hfaithful := run_faithful (Nat.zero_lt_of_lt hsize) hrun
  refine ⟨⟨_, hfaithful.split.symm⟩, ?_, ?_, ?_⟩
  · intro len bs sbuf fd h
    obtain ⟨new, hstream, -, hbs, hunread, -⟩ := netplayRecv_nonblocking hfaithful.inv h
    have hsplit : stream.drop t.flushed =
        t.handedOut ++ ((unread t.sbuf ++ new) ++ fd.stream) := by
      rw [hfaithful.split, hstream, List.append_assoc]
    refine ⟨?_, ?_, ?_⟩
    · rw [hsplit, hbs, List.prefix_append_right_inj]
      exact (List.take_prefix _ _).trans (List.prefix_append _ _)
    · rw [hbs, List.length_take, hunread]
    · have hlen := congrArg List.length hsplit
      have hle := hfaithful.flushed_le
      rw [List.length_drop, List.length_append, List.length_append] at hlen
      omega
  · intro len bs sbuf fd h
    obtain ⟨-, hlen, -, hsplit⟩ := netplayRecv_blocking hfaithful.inv h
    refine ⟨?_, hlen⟩
    rw [hfaithful.split, hsplit, List.prefix_append_right_inj]
    exact List.prefix_append _ _
  · intro len bs sbuf fd h
    obtain ⟨new, -, -, hbs, -⟩ := netplayRecv_nonblocking (recvInv_reset hfaithful.inv) h
    have hall : unread (netplayRecvReset t.sbuf) = t.handedOut ++ unread t.sbuf := by
      rw [← hfaithful.handed, window_split hfaithful.inv]
      rfl
    rw [hbs, hall, List.append_assoc, List.take_append]
    exact List.prefix_append _ _

theorem recv_buffer_faithful_wrapped :
    1 < [0, 0, 0, 0].length ∧
      run recvStep (recvStart [0, 0, 0, 0] [1, 2, 3, 4, 5, 6] [.ready 1, .again, .ready 0])
        [.recv 2 false, .flush, .recv 1 false, .recv 1 false, .reset] =
          some ⟨⟨[1, 2, 3, 0], 4, 2, 3, 2⟩,
            ⟨[4, 5, 6], [], [(3, .data [1, 2]), (2, .again), (2, .data [3])]⟩, 2, []⟩ ∧
      RecvContract [1, 2, 3, 4, 5, 6] ⟨⟨[1, 2, 3, 0], 4, 2, 3, 2⟩,
        ⟨[4, 5, 6], [], [(3, .data [1, 2]), (2, .again), (2, .data [3])]⟩, 2, []⟩ :=
  ⟨by decide, rfl, recv_buffer_faithful [0, 0, 0, 0] [1, 2, 3, 4, 5, 6]
    [.ready 1, .again, .ready 0] [.recv 2 false, .flush, .recv 1 false, .recv 1 false, .reset] _
    (by decide) rfl⟩

/-- The calls of `netplay_recv` that pass a length of 0 to the socket: no cell is free on
entry, or the first of the two reads uses up the last one. -/
def Choked (sbuf : SocketBuffer) (fd : RecvEnd) : Prop :=
  bufRemaining sbuf = 0 ∨
    sbuf.start = 1 ∧ sbuf.start ≤ sbuf.end_ ∧ Delivers fd (sbuf.bufsz - sbuf.end_)

private theorem recvFill_failure {sbuf : SocketBuffer} (fd : RecvEnd) (hinv : RecvInv sbuf) :
    (Choked sbuf fd → (recvFill sbuf fd).1 = false ∧
      ∀ wait, ∀ c ∈ (recvFill sbuf fd).2.2.calls.drop fd.calls.length, ¬ Refused wait c) ∧
    (¬ Choked sbuf fd → (recvFill sbuf fd).1 = false →
      ∃ c ∈ (recvFill sbuf fd).2.2.calls.drop fd.calls.length, Refused false c) := by
  have hstart := hinv.start_lt
  have hend := hinv.end_lt
  rw [recvFill]
  by_cases hse : sbuf.start ≤ sbuf.end_
  · have hremaining : bufRemaining sbuf = sbuf.bufsz - (sbuf.end_ - sbuf.start) - 1 := by
      rw [bufRemaining, bufUsed_straight hse]
    rw [if_pos hse]
    by_cases hfree : bufRemaining sbuf = 0
    · have hsize : (sbuf.bufsz - sbuf.end_ - if sbuf.start = 0 then 1 else 0) = 0 := by
        rw [if_pos (by omega)]
        omega
      rw [hsize, socketReceiveAllNonblocking_zero]
      refine ⟨fun _ => ⟨rfl, ?_⟩, fun hopen => absurd (.inl hfree) hopen⟩
      intro wait c hc
      obtain rfl : c = (0, .data []) := by simpa using hc
      exact fun hrefused => absurd hrefused.1 (by simp)
    · have hpos : 0 < sbuf.bufsz - sbuf.end_ - if sbuf.start = 0 then 1 else 0 := by
        split_ifs <;> omega
      split
      · next fd₁ hrecv =>
          obtain ⟨-, ret, hcalls, hzero | hrefused⟩ :=
            socketReceiveAllNonblocking_spec _ _ _ _ hrecv
          · omega
          refine ⟨?_, fun _ _ => ⟨_, by simp only [hcalls, List.drop_left]; simp, hrefused⟩⟩
          rintro (hzero | ⟨hone, -, hdelivers⟩)
          · exact absurd hzero hfree
          · rw [hone, if_neg (by omega), Nat.sub_zero] at hrecv
            obtain ⟨bs, hbs, -⟩ :=
              (socketReceiveAllNonblocking_full fd (by omega)).mpr hdelivers
            rw [hrecv] at hbs
            cases hbs
      · next bs fd₁ hrecv =>
          obtain ⟨-, hlen, -, ret, hcalls, hret⟩ := socketReceiveAllNonblocking_spec _ _ _ _ hrecv
          dsimp only
          by_cases hfull : sbuf.bufsz ≤ sbuf.end_ + bs.length
          · have hs : 0 < sbuf.start := by
              by_contra hzero
              rw [if_pos (by omega)] at hlen
              omega
            rw [if_neg (by omega), Nat.sub_zero] at hlen hrecv
            have hdelivers : Delivers fd (sbuf.bufsz - sbuf.end_) :=
              (socketReceiveAllNonblocking_full fd (by omega)).mp
                ⟨bs, by rw [hrecv], by omega⟩
            have hne : bs ≠ [] := by
              rintro rfl
              simp only [List.length_nil] at hfull
              omega
            rw [if_pos hfull]
            by_cases hone : sbuf.start = 1
            · refine ⟨fun _ => ?_, fun hopen => absurd (.inr ⟨hone, hse, hdelivers⟩) hopen⟩
              rw [hone, Nat.sub_self, socketReceiveAllNonblocking_zero]
              refine ⟨rfl, ?_⟩
              intro wait c hc
              simp only [hcalls, hret hne, List.append_assoc, List.drop_left,
                List.cons_append, List.nil_append, List.mem_cons, List.not_mem_nil, or_false] at hc
              rcases hc with rfl | rfl
              · exact not_refused_data _ _ hne
              · exact fun hrefused => absurd hrefused.1 (by simp)
            · refine ⟨?_, ?_⟩
              · rintro (hzero | ⟨hone', -⟩)
                · exact absurd hzero hfree
                · exact absurd hone' hone
              · intro _ hfail
                split at hfail
                · next fd₂ hrecv₂ =>
                    obtain ⟨-, ret₂, hcalls₂, hzero | hrefused⟩ :=
                      socketReceiveAllNonblocking_spec _ _ _ _ hrecv₂
                    · omega
                    refine ⟨_, ?_, hrefused⟩
                    simp [hcalls₂, hcalls]
                · cases hfail
          · rw [if_neg hfull]
            refine ⟨?_, fun _ hfail => by cases hfail⟩
            rintro (hzero | ⟨hone, -, hdelivers⟩)
            · exact absurd hzero hfree
            · rw [hone, if_neg (by omega), Nat.sub_zero] at hrecv
              obtain ⟨bs', hbs, hlen'⟩ :=
                (socketReceiveAllNonblocking_full fd (by omega)).mpr hdelivers
              rw [hrecv] at hbs
              obtain rfl := Option.some.inj hbs
              omega
  · have hremaining : bufRemaining sbuf = sbuf.start - sbuf.end_ - 1 := by
      rw [bufRemaining, bufUsed_wrapped (by omega) hstart.le]
      omega
    rw [if_neg hse]
    by_cases hfree : bufRemaining sbuf = 0
    · rw [← hremaining, hfree, socketReceiveAllNonblocking_zero]
      refine ⟨fun _ => ⟨rfl, ?_⟩, fun hopen => absurd (.inl hfree) hopen⟩
      intro wait c hc
      obtain rfl : c = (0, .data []) := by simpa using hc
      exact fun hrefused => absurd hrefused.1 (by simp)
    · have hclear : ¬ Choked sbuf fd := by
        rintro (hzero | ⟨-, hle, -⟩)
        · exact hfree hzero
        · exact hse hle
      refine ⟨fun hchoked => absurd hchoked hclear, fun _ hfail => ?_⟩
      split at hfail
      · next fd₁ hrecv =>
          obtain ⟨-, ret, hcalls, hzero | hrefused⟩ :=
            socketReceiveAllNonblocking_spec _ _ _ _ hrecv
          · omega
          exact ⟨_, by simp [hcalls], hrefused⟩
      · cases hfail

private theorem recvFill_calls (sbuf : SocketBuffer) (fd : RecvEnd) :
    fd.calls.length ≤ (recvFill sbuf fd).2.2.calls.length := by
  have hstep : ∀ fd fd' size r, socketReceiveAllNonblocking fd size = (r, fd') →
      fd.calls.length ≤ fd'.calls.length := by
    intro fd fd' size r h
    have hspec := socketReceiveAllNonblocking_spec fd fd' size r h
    cases r with
    | none =>
      obtain ⟨-, ret, hcalls, -⟩ := hspec
      simp [hcalls]
    | some bs =>
      obtain ⟨-, -, -, ret, hcalls, -⟩ := hspec
      simp [hcalls]
  rw [recvFill]
  split
  · split
    · next fd₁ hrecv => exact hstep _ _ _ _ hrecv
    · next bs fd₁ hrecv =>
        have hfirst := hstep _ _ _ _ hrecv
        dsimp only
        split
        · split
          · next fd₂ hrecv₂ => exact hfirst.trans (hstep _ _ _ _ hrecv₂)
          · next cs fd₂ hrecv₂ => exact hfirst.trans (hstep _ _ _ _ hrecv₂)
        · exact hfirst
  · split
    · next fd₁ hrecv => exact hstep _ _ _ _ hrecv
    · next bs fd₁ hrecv => exact hstep _ _ _ _ hrecv

/-- A receive buffer reports a dead connection only after the socket has, except in the
choked calls, where it always does and the socket never has. -/
theorem recv_minus_one_iff (fresh stream : List UInt8) (script : List RecvAnswer)
    (ops : List RecvOp) (t : RecvSession) (len : ℕ) (block : Bool) (hsize : 0 < fresh.length)
    (hrun : run recvStep (recvStart fresh stream script) ops = some t) :
    ((netplayRecv t.sbuf t.fd len block).1 = none →
      ∃ c ∈ (netplayRecv t.sbuf t.fd len block).2.2.calls.drop t.fd.calls.length,
        Refused block c) ↔ ¬ Choked t.sbuf t.fd := by
  have hfaithful := run_faithful hsize hrun
  obtain ⟨hchoked, hopen⟩ := recvFill_failure t.fd hfaithful.inv
  have hcalls := recvFill_calls t.sbuf t.fd
  rw [netplayRecv]
  cases hfill : recvFill t.sbuf t.fd with
  | mk ok rest =>
    obtain ⟨sbuf, fd⟩ := rest
    rw [hfill] at hchoked hopen hcalls
    cases ok with
    | false =>
      constructor
      · intro hdead hc
        obtain ⟨c, hmem, hrefused⟩ := hdead rfl
        exact (hchoked hc).2 block c hmem hrefused
      · intro hclear _
        obtain ⟨c, hmem, hrefused⟩ := hopen hclear rfl
        exact ⟨c, hmem, hrefused.mono⟩
    | true =>
      refine ⟨fun _ hc => absurd (hchoked hc).1 (by simp), fun _ hnone => ?_⟩
      -- the buffer was filled, so only the blocking read is left to fail
      cases block with
      | false => simp at hnone
      | true =>
        simp only [if_true] at hnone ⊢
        split at hnone
        · next hshort =>
            rw [if_pos hshort]
            split at hnone
            · next fd₁ hrest =>
                obtain ⟨c, hmem, hrefused⟩ := socketReceiveAllBlocking_spec _ _ _ _ hrest
                refine ⟨c, ?_, hrefused⟩
                change c ∈ fd₁.calls.drop t.fd.calls.length
                have hdrop : fd₁.calls.drop fd.calls.length =
                    (fd₁.calls.drop t.fd.calls.length).drop
                      (fd.calls.length - t.fd.calls.length) := by
                  rw [List.drop_drop, Nat.add_sub_cancel' hcalls]
                exact List.mem_of_mem_drop (hdrop ▸ hmem)
            · cases hnone
        · cases hnone

theorem recv_minus_one_iff_refused :
    0 < [0, 0].length ∧
      run recvStep (recvStart [0, 0] [7] [.ready 0, .closed]) [.recv 1 false, .flush] =
        some ⟨⟨[7, 0], 2, 1, 1, 1⟩, ⟨[], [.closed], [(1, .data [7])]⟩, 1, []⟩ ∧
      (((netplayRecv ⟨[7, 0], 2, 1, 1, 1⟩ ⟨[], [.closed], [(1, .data [7])]⟩ 1 false).1 = none →
        ∃ c ∈ (netplayRecv ⟨[7, 0], 2, 1, 1, 1⟩ ⟨[], [.closed], [(1, .data [7])]⟩ 1
          false).2.2.calls.drop 1, Refused false c) ↔
        ¬ Choked ⟨[7, 0], 2, 1, 1, 1⟩ ⟨[], [.closed], [(1, .data [7])]⟩) :=
  ⟨by decide, rfl, recv_minus_one_iff [0, 0] [7] [.ready 0, .closed] [.recv 1 false, .flush]
    ⟨⟨[7, 0], 2, 1, 1, 1⟩, ⟨[], [.closed], [(1, .data [7])]⟩, 1, []⟩ 1 false (by decide) rfl⟩

/-- Three of six bytes fill a buffer of four; the second call returns -1 with two of them still
buffered, on a socket that has refused nothing. -/
theorem recv_full_buffer_minus_one :
    ∃ t, run recvStep (recvStart [0, 0, 0, 0] [1, 2, 3, 4, 5, 6] [.ready 9]) [.recv 1 false] =
        some t ∧ bufUnread t.sbuf = 2 ∧ (netplayRecv t.sbuf t.fd 1 false).1 = none ∧
      ¬ ∃ c ∈ (netplayRecv t.sbuf t.fd 1 false).2.2.calls.drop t.fd.calls.length,
        Refused false c :=
  ⟨_, rfl, by decide, by decide, by decide⟩

section Refinement

variable {sbuf sbuf' : SocketBuffer}

theorem tapeOf_rest (h : RecvInv sbuf) : (tapeOf sbuf h).rest = unread sbuf := by
  change (window sbuf).drop (handed sbuf).length = unread sbuf
  rw [← window_split h, List.drop_left]

theorem tapeOf_eq (h : RecvInv sbuf) {tape : Tape UInt8} (hcells : window sbuf = tape.cells)
    (hcursor : (handed sbuf).length = tape.cursor) : ∃ h, tapeOf sbuf h = tape :=
  ⟨h, Tape.ext hcells hcursor⟩

theorem tapeOf_read {fd fd' : RecvEnd} {len : ℕ} {bs : List UInt8} (h : RecvInv sbuf)
    (hrecv : netplayRecv sbuf fd len false = (some bs, sbuf', fd')) :
    ∃ new h', fd.stream = new ++ fd'.stream ∧
      ((tapeOf sbuf h).arrive new).read len = (bs, tapeOf sbuf' h') := by
  obtain ⟨new, hstream, hinv, hbs, -, hwindow, hhanded⟩ := netplayRecv_nonblocking h hrecv
  have hread : (((tapeOf sbuf h).arrive new).read len).1 = bs := by
    rw [Tape.read, Tape.arrive_rest, tapeOf_rest, hbs]
  refine ⟨new, hinv, hstream, Prod.ext hread (Tape.ext hwindow.symm ?_)⟩
  have hlength := congrArg List.length hbs
  rw [List.length_take, List.length_append] at hlength
  change min ((handed sbuf).length + len) (window sbuf ++ new).length = (handed sbuf').length
  rw [hhanded, ← window_split h, List.length_append, List.length_append, List.length_append]
  omega

end Refinement

section Links

open Send

/-- A send buffer and the peer's receive buffer; `arrived` of the bytes that the sender's socket
has taken have come to the peer's socket. -/
structure Link where
  sbuf : SocketBuffer
  fd : SendEnd
  arrived : ℕ
  session : RecvSession

inductive LinkOp
  | send (op : SendOp)
  | arrive (n : ℕ)
  | receive (op : RecvOp)

/-- Up to `n` of the bytes on their way arrive. -/
def arrive (l : Link) (n : ℕ) : Link :=
  let bytes := (l.fd.sent.drop l.arrived).take n
  { l with
    arrived := l.arrived + bytes.length
    session := { l.session with
      fd := { l.session.fd with stream := l.session.fd.stream ++ bytes } } }

def linkStep (l : Link) : LinkOp → Option Link
  | .send op => (sendStep (l.sbuf, l.fd) op).map fun s => { l with sbuf := s.1, fd := s.2 }
  | .arrive n => some (arrive l n)
  | .receive op => (recvStep l.session op).map fun t => { l with session := t }

/-- What a step passes to `netplay_send`. -/
def LinkOp.passed : LinkOp → List UInt8
  | .send op => messages [op]
  | .arrive _ => []
  | .receive _ => []

/-- The sockets may give any answers. -/
def linkStart (fresh fresh' : List UInt8) (script : List SendAnswer) (script' : List RecvAnswer) :
    Link :=
  ⟨netplayInitSocketBuffer fresh, ⟨[], script⟩, 0, recvStart fresh' [] script'⟩

structure LinkInv (sent : List UInt8) (l : Link) : Prop where
  send : SendInv l.sbuf
  fifo : l.fd.sent ++ pending l.sbuf = sent
  arrived : l.arrived ≤ sent.length
  faithful : Faithful (sent.take l.arrived) l.session

theorem LinkInv.step {sent : List UInt8} {l l' : Link} {op : LinkOp} (h : LinkInv sent l)
    (hstep : linkStep l op = some l') : LinkInv (sent ++ op.passed) l' := by
  cases op with
  | send op =>
    obtain ⟨⟨sbuf, fd⟩, hsend, rfl⟩ := Option.map_eq_some_iff.mp hstep
    obtain ⟨hinv, hfifo⟩ := sendStep_spec h.send hsend
    refine ⟨hinv, h.fifo ▸ hfifo, ?_, ?_⟩
    · rw [List.length_append]
      exact Nat.le_add_right_of_le h.arrived
    · rw [List.take_append_of_le_length h.arrived]
      exact h.faithful
  | arrive n =>
    obtain rfl := Option.some.inj hstep
    rw [LinkOp.passed, List.append_nil]
    have hprefix : (l.fd.sent.drop l.arrived).take n <+: sent.drop l.arrived := by
      rw [← h.fifo]
      exact (List.take_prefix _ _).trans (List.IsPrefix.drop (List.prefix_append _ _) _)
    have hle := hprefix.length_le
    rw [List.length_drop] at hle
    refine ⟨h.send, h.fifo, ?_, h.faithful.inv, h.faithful.handed, ?_, ?_⟩
    · have harrived := h.arrived
      dsimp only [arrive]
      omega
    · dsimp only [arrive]
      rw [List.take_add, ← List.prefix_iff_eq_take.mp hprefix,
        List.drop_append_of_le_length h.faithful.flushed_le, h.faithful.window, List.append_assoc]
    · have hflushed := h.faithful.flushed_le
      dsimp only [arrive]
      rw [List.length_take] at hflushed ⊢
      omega
  | receive op =>
    obtain ⟨t, hrecv, rfl⟩ := Option.map_eq_some_iff.mp hstep
    rw [LinkOp.passed, List.append_nil]
    exact ⟨h.send, h.fifo, h.arrived, recvStep_faithful _ _ _ _ h.faithful hrecv⟩

theorem LinkInv.run {sent : List UInt8} {l l' : Link} {ops : List LinkOp} (h : LinkInv sent l)
    (hrun : run linkStep l ops = some l') : LinkInv (sent ++ ops.flatMap LinkOp.passed) l' := by
  induction ops generalizing sent l with
  | nil =>
    obtain rfl := Option.some.inj hrun
    rw [List.flatMap_nil, List.append_nil]
    exact h
  | cons op ops ih =>
    obtain ⟨m, hstep, hrest⟩ := run_cons hrun
    rw [List.flatMap_cons, ← List.append_assoc]
    exact ih (h.step hstep) hrest

/-- Whatever the sockets do and in whatever order both ends and the network go on, the peer reads
what was sent from its flush point on, and once all has arrived nothing is missing. -/
theorem link_faithful (fresh fresh' : List UInt8) (script : List SendAnswer)
    (script' : List RecvAnswer) (ops : List LinkOp) (l : Link) (hsize : 0 < fresh.length)
    (hsize' : 0 < fresh'.length)
    (hrun : run linkStep (linkStart fresh fresh' script script') ops = some l) :
    l.session.handedOut ++ (unread l.session.sbuf ++ l.session.fd.stream) <+:
        (ops.flatMap LinkOp.passed).drop l.session.flushed ∧
      (l.arrived = l.fd.sent.length → (ops.flatMap LinkOp.passed).drop l.session.flushed =
        l.session.handedOut ++ (unread l.session.sbuf ++ l.session.fd.stream) ++
          pending l.sbuf) := by
  have hnone : run recvStep (recvStart fresh' [] script') [] =
      some (recvStart fresh' [] script') := rfl
  have hstart : LinkInv [] (linkStart fresh fresh' script script') :=
    ⟨sendInv_init fresh hsize, by simp [linkStart, pending, netplayInitSocketBuffer],
      Nat.zero_le _, run_faithful hsize' hnone⟩
  have hinv := hstart.run hrun
  rw [List.nil_append] at hinv
  rw [← hinv.faithful.split]
  refine ⟨List.IsPrefix.drop (List.take_prefix _ _) _, fun harrived => ?_⟩
  have hflushed := hinv.faithful.flushed_le
  rw [← hinv.fifo, harrived, List.take_left] at hflushed ⊢
  exact List.drop_append_of_le_length hflushed

theorem link_faithful_one : ∃ l, run linkStep (linkStart [0, 0] [0, 0] [.room 0] [.ready 0])
    [.send (.send [1]), .send (.flush true), .arrive 1, .receive (.recv 1 false)] = some l ∧
    l.session.handedOut ++ (unread l.session.sbuf ++ l.session.fd.stream) <+:
      [1].drop l.session.flushed :=
  ⟨_, rfl, (link_faithful [0, 0] [0, 0] [.room 0] [.ready 0] [.send (.send [1]),
    .send (.flush true), .arrive 1, .receive (.recv 1 false)] _ (by decide) (by decide) rfl).1⟩

end Links

end RetroArch.Netplay.Recv
