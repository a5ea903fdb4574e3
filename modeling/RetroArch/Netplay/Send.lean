/- Sending: what the socket has taken and what the ring still holds is what was sent. -/

import RetroArch.Library.Run
import RetroArch.Netplay.Buf

namespace RetroArch.Netplay.Send

open Library.Region Library.Run Net.Socket Buf

/-- The bytes queued and not yet given to the socket. -/
def pending (sbuf : SocketBuffer) : List UInt8 := ring sbuf.data sbuf.start sbuf.end_

/-- The two cursors of a send buffer. Unwrapped, `end_` may stand at `bufsz` itself; one cell
is always free. -/
structure SendInv (sbuf : SocketBuffer) : Prop where
  size : sbuf.data.length = sbuf.bufsz
  start_lt : sbuf.start < sbuf.bufsz
  cursors : sbuf.start ≤ sbuf.end_ ∧ sbuf.end_ ≤ sbuf.bufsz ∧
      sbuf.end_ - sbuf.start < sbuf.bufsz ∨
    sbuf.end_ < sbuf.start

theorem SendInv.bounds {sbuf : SocketBuffer} (h : SendInv sbuf) :
    sbuf.start ≤ sbuf.bufsz ∧ sbuf.end_ ≤ sbuf.bufsz := by
  have hs := h.start_lt
  rcases h.cursors with hc | hc <;> omega

theorem SendInv.bufUsed_lt {sbuf : SocketBuffer} (h : SendInv sbuf) :
    bufUsed sbuf < sbuf.bufsz := by
  have hs := h.start_lt
  rcases h.cursors with ⟨hse, -, hroom⟩ | hes
  · rw [bufUsed_straight hse]
    exact hroom
  · rw [bufUsed_wrapped hes hs.le]
    omega

theorem length_pending {sbuf : SocketBuffer} (h : SendInv sbuf) :
    (pending sbuf).length = bufUsed sbuf :=
  length_ring_bufUsed h.size h.bounds.1 h.bounds.2

theorem sendInv_init (fresh : List UInt8) (h : 0 < fresh.length) :
    SendInv (netplayInitSocketBuffer fresh) :=
  ⟨rfl, h, .inl ⟨le_rfl, Nat.zero_le _, h⟩⟩

/-- A successful step of the send path: the socket and the ring together hold `msg` more. -/
structure Sent (sbuf sbuf' : SocketBuffer) (fd fd' : SendEnd) (msg : List UInt8) : Prop where
  inv : SendInv sbuf'
  bufsz : sbuf'.bufsz = sbuf.bufsz
  fifo : fd'.sent ++ pending sbuf' = fd.sent ++ pending sbuf ++ msg

private theorem sendInv_empty {sbuf : SocketBuffer} (h : SendInv sbuf) :
    SendInv { sbuf with start := 0, end_ := 0 } := by
  have hpos : 0 < sbuf.bufsz := Nat.zero_lt_of_lt h.start_lt
  exact ⟨h.size, hpos, .inl ⟨le_rfl, Nat.zero_le _, hpos⟩⟩

private theorem flush_straight {depth : ℕ} {sbuf sbuf' : SocketBuffer} {fd fd' : SendEnd}
    {block : Bool} (hinv : SendInv sbuf) (hse : sbuf.start ≤ sbuf.end_)
    (h : sendFlushAt depth sbuf fd block = (true, sbuf', fd')) :
    Sent sbuf sbuf' fd fd' [] ∧ (block = true → bufUsed sbuf' = 0) := by
  have hused := bufUsed_straight hse
  have hpending : pending sbuf = slice sbuf.data sbuf.start sbuf.end_ := ring_straight _ hse
  rw [sendFlushAt] at h
  by_cases hempty : bufUsed sbuf = 0
  · rw [if_pos hempty] at h
    obtain ⟨rfl, rfl⟩ : sbuf = sbuf' ∧ fd = fd' := by simpa using h
    exact ⟨⟨hinv, rfl, by simp⟩, fun _ => hempty⟩
  · have hwhole : sbuf.start + bufUsed sbuf = sbuf.end_ := by omega
    rw [if_neg hempty, if_pos (by omega), hwhole] at h
    cases block with
    | true =>
      simp only [if_true] at h
      split at h
      · cases h
      · next fd₁ hsend =>
          obtain ⟨rfl, rfl⟩ : _ = sbuf' ∧ fd₁ = fd' := by simpa using h
          have hsent := socketSendAllBlocking_spec _ _ _ hsend
          refine ⟨⟨sendInv_empty hinv, rfl, ?_⟩, fun _ => bufUsed_straight le_rfl⟩
          rw [hsent, hpending, pending, ring_self, List.append_assoc]
    | false =>
      simp only [Bool.false_eq_true, if_false] at h
      refine ⟨?_, fun hb => by cases hb⟩
      split at h
      · cases h
      · next sent fd₁ hsend =>
          obtain ⟨hcount, hsent⟩ := socketSendAllNonblocking_spec _ _ _ _ hsend
          rw [length_slice, hinv.size] at hcount
          have hrest : (slice sbuf.data sbuf.start sbuf.end_).take sent ++
              slice sbuf.data (sbuf.start + sent) sbuf.end_ =
                slice sbuf.data sbuf.start sbuf.end_ := by
            rw [← drop_slice, List.take_append_drop]
          split_ifs at h with hall
          · obtain ⟨rfl, rfl⟩ : _ = sbuf' ∧ fd₁ = fd' := by simpa using h
            refine ⟨sendInv_empty hinv, rfl, ?_⟩
            rw [hall, slice_self, List.append_nil] at hrest
            rw [hsent, hrest, hpending, pending, ring_self]
          · obtain ⟨rfl, rfl⟩ : _ = sbuf' ∧ fd₁ = fd' := by simpa using h
            have hbounds := hinv.bounds
            have hroom := hinv.bufUsed_lt
            have hle : sbuf.start + sent ≤ sbuf.end_ := by omega
            have hlt : sbuf.start + sent < sbuf.bufsz := by omega
            refine ⟨⟨hinv.size, hlt, .inl ⟨hle, hbounds.2, ?_⟩⟩, rfl, ?_⟩
            · show sbuf.end_ - (sbuf.start + sent) < sbuf.bufsz
              omega
            · rw [hsent, hpending, pending, ring_straight _ hle, List.append_assoc, hrest,
                List.append_nil]

theorem netplaySendFlush_spec {sbuf sbuf' : SocketBuffer} {fd fd' : SendEnd} {block : Bool}
    (hinv : SendInv sbuf) (h : netplaySendFlush sbuf fd block = (true, sbuf', fd')) :
    Sent sbuf sbuf' fd fd' [] ∧ (block = true → bufUsed sbuf' = 0) := by
  rcases Nat.lt_or_ge sbuf.end_ sbuf.start with hes | hse
  · have hs := hinv.start_lt
    have hsize := hinv.size
    have hpending : pending sbuf = slice sbuf.data sbuf.start sbuf.bufsz ++
        pending { sbuf with start := 0 } := by
      rw [pending, ring_wrapped _ hes, hsize, pending, ring_straight _ (Nat.zero_le _)]
    have hinv₀ : SendInv { sbuf with start := 0 } :=
      ⟨hsize, Nat.zero_lt_of_lt hs, .inl ⟨Nat.zero_le _, (hes.trans hs).le, hes.trans hs⟩⟩
    rw [netplaySendFlush, sendFlushAt, if_neg (by rw [bufUsed_wrapped hes hs.le]; omega),
      if_neg (by omega)] at h
    cases block with
    | true =>
      simp only [if_true] at h
      split at h
      · cases h
      · next fd₁ hsend =>
          have hsent := socketSendAllBlocking_spec _ _ _ hsend
          obtain ⟨hrest, hall⟩ := flush_straight hinv₀ (Nat.zero_le _) h
          refine ⟨⟨hrest.inv, hrest.bufsz, ?_⟩, hall⟩
          rw [hrest.fifo, hsent, hpending]
          simp only [List.append_assoc]
    | false =>
      simp only [Bool.false_eq_true, if_false] at h
      refine ⟨?_, fun hb => by cases hb⟩
      split at h
      · cases h
      · next sent fd₁ hsend =>
          obtain ⟨hcount, hsent⟩ := socketSendAllNonblocking_spec _ _ _ _ hsend
          rw [length_slice] at hcount
          split_ifs at h with hwrap
          · obtain ⟨hrest, -⟩ := flush_straight hinv₀ (Nat.zero_le _) h
            refine ⟨hrest.inv, hrest.bufsz, ?_⟩
            rw [List.take_of_length_le (by rw [length_slice]; omega)] at hsent
            rw [hrest.fifo, hsent, hpending]
            simp only [List.append_assoc]
          · obtain ⟨rfl, rfl⟩ : _ = sbuf' ∧ fd₁ = fd' := by simpa using h
            have hlt : sbuf.start + sent < sbuf.bufsz := by omega
            refine ⟨⟨hsize, hlt, .inr (Nat.lt_add_right sent hes)⟩, rfl, ?_⟩
            have hrest : (slice sbuf.data sbuf.start sbuf.bufsz).take sent ++
                slice sbuf.data (sbuf.start + sent) sbuf.bufsz =
                  slice sbuf.data sbuf.start sbuf.bufsz := by
              rw [← drop_slice, List.take_append_drop]
            have hpending' : pending { sbuf with start := sbuf.start + sent } =
                slice sbuf.data (sbuf.start + sent) sbuf.bufsz ++
                  pending { sbuf with start := 0 } := by
              rw [pending, ring_wrapped _ (by dsimp only; omega), hsize, pending,
                ring_straight _ (Nat.zero_le _)]
            rw [hsent, hpending', hpending, List.append_nil, List.append_assoc,
              ← List.append_assoc (List.take _ _), hrest]
  · exact flush_straight hinv hse h

private theorem copyIn_spec {sbuf : SocketBuffer} {buf : List UInt8} (hinv : SendInv sbuf)
    (hfit : buf.length ≤ bufRemaining sbuf) :
    SendInv (copyIn sbuf buf) ∧ (copyIn sbuf buf).bufsz = sbuf.bufsz ∧
      pending (copyIn sbuf buf) = pending sbuf ++ buf := by
  have hsize := hinv.size
  have hbounds := hinv.bounds
  rw [bufRemaining] at hfit
  rw [copyIn]
  have hs := hinv.start_lt
  rcases hinv.cursors with ⟨hse, he, hroom⟩ | hes
  · rw [bufUsed_straight hse] at hfit
    by_cases hhalf : sbuf.bufsz - sbuf.end_ < buf.length
    · rw [if_pos hhalf]
      have hfront : (buf.take (sbuf.bufsz - sbuf.end_)).length = sbuf.bufsz - sbuf.end_ := by
        rw [List.length_take]
        omega
      have hback : (buf.drop (sbuf.bufsz - sbuf.end_)).length =
          buf.length - (sbuf.bufsz - sbuf.end_) := List.length_drop
      have hlen := length_blit sbuf.data (buf.take (sbuf.bufsz - sbuf.end_)) sbuf.end_ (by omega)
      have hroom : buf.length - (sbuf.bufsz - sbuf.end_) < sbuf.start := by omega
      refine ⟨⟨?_, hs, .inr hroom⟩, rfl, ?_⟩
      · rw [length_blit _ _ _ (by omega), hlen, hsize]
      · have hwrap := ring_blit_wrapped
          (blit sbuf.data sbuf.end_ (buf.take (sbuf.bufsz - sbuf.end_)))
          (buf.drop (sbuf.bufsz - sbuf.end_)) (s := sbuf.start) (e := 0) (by rw [hback]; omega)
          (by rw [hlen]; omega)
        rw [Nat.zero_add, hback, ring_blit_full _ _ (by omega) hse (by omega),
          List.append_assoc, List.take_append_drop] at hwrap
        exact hwrap
    · rw [if_neg hhalf]
      have hgrow : sbuf.end_ + buf.length - sbuf.start < sbuf.bufsz := by omega
      refine ⟨⟨?_, hs, .inl ⟨hse.trans (Nat.le_add_right _ _), by dsimp only; omega, hgrow⟩⟩,
        rfl, ?_⟩
      · rw [length_blit _ _ _ (by omega), hsize]
      · exact ring_blit_straight _ _ hse (by omega)
  · rw [bufUsed_wrapped hes hs.le] at hfit
    rw [if_neg (by omega)]
    have hroom : sbuf.end_ + buf.length < sbuf.start := by omega
    refine ⟨⟨?_, hs, .inr hroom⟩, rfl, ?_⟩
    · rw [length_blit _ _ _ (by omega), hsize]
    · have hlen : sbuf.start ≤ sbuf.data.length := by omega
      exact ring_blit_wrapped sbuf.data buf hroom hlen

private theorem sendFlushed_spec {sbuf sbuf' : SocketBuffer} {fd fd' : SendEnd}
    {buf : List UInt8} (hinv : SendInv sbuf)
    (hready : bufRemaining sbuf < buf.length → bufUsed sbuf = 0)
    (h : sendFlushed sbuf fd buf = (true, sbuf', fd')) : Sent sbuf sbuf' fd fd' buf := by
  rw [sendFlushed] at h
  split_ifs at h with hbig
  · cases hsend : socketSendAllBlocking fd buf with
    | mk ok fd₁ =>
      rw [hsend] at h
      obtain ⟨rfl, rfl, rfl⟩ : ok = true ∧ sbuf = sbuf' ∧ fd₁ = fd' := by simpa using h
      -- nothing is pending, so going past the ring keeps the order
      have hempty : pending sbuf = [] := by
        apply List.eq_nil_of_length_eq_zero
        rw [length_pending hinv, hready hbig]
      refine ⟨hinv, rfl, ?_⟩
      rw [socketSendAllBlocking_spec _ _ _ hsend, hempty, List.append_nil, List.append_nil]
  · obtain ⟨rfl, rfl⟩ : copyIn sbuf buf = sbuf' ∧ fd = fd' := by simpa using h
    have hfit : buf.length ≤ bufRemaining sbuf := by omega
    obtain ⟨hinv', hbufsz, hpending⟩ := copyIn_spec hinv hfit
    exact ⟨hinv', hbufsz, by rw [hpending, List.append_assoc]⟩

theorem netplaySend_spec {sbuf sbuf' : SocketBuffer} {fd fd' : SendEnd} {buf : List UInt8}
    (hinv : SendInv sbuf) (h : netplaySend sbuf fd buf = (true, sbuf', fd')) :
    Sent sbuf sbuf' fd fd' buf := by
  rw [netplaySend] at h
  split_ifs at h with hfull
  · split at h
    · cases h
    · next sbuf₁ fd₁ hflush =>
        obtain ⟨hfirst, hall⟩ := netplaySendFlush_spec hinv hflush
        have hsecond := sendFlushed_spec hfirst.inv (fun _ => hall rfl) h
        refine ⟨hsecond.inv, hsecond.bufsz.trans hfirst.bufsz, ?_⟩
        rw [hsecond.fifo, hfirst.fifo, List.append_nil]
  · exact sendFlushed_spec hinv (fun hbig => absurd hbig hfull) h

inductive SendOp
  | send (buf : List UInt8)
  | flush (block : Bool)
  | resize (fresh : List UInt8)

/-- One operation on the buffer and its socket; a call that returns false and a resize that
does not exceed the pending data end the session. -/
def sendStep : SocketBuffer × SendEnd → SendOp → Option (SocketBuffer × SendEnd)
  | (sbuf, fd), .send buf =>
    match netplaySend sbuf fd buf with
    | (true, sbuf, fd) => some (sbuf, fd)
    | (false, _, _) => none
  | (sbuf, fd), .flush block =>
    match netplaySendFlush sbuf fd block with
    | (true, sbuf, fd) => some (sbuf, fd)
    | (false, _, _) => none
  | (sbuf, fd), .resize fresh =>
    if bufUsed sbuf < fresh.length then some (netplayResizeSocketBuffer sbuf fresh, fd) else none

/-- All messages passed to `netplay_send`, in order. -/
def messages : List SendOp → List UInt8
  | [] => []
  | .send buf :: ops => buf ++ messages ops
  | .flush _ :: ops => messages ops
  | .resize _ :: ops => messages ops

theorem sendStep_spec {sbuf sbuf' : SocketBuffer} {fd fd' : SendEnd} {op : SendOp}
    (hinv : SendInv sbuf) (h : sendStep (sbuf, fd) op = some (sbuf', fd')) :
    SendInv sbuf' ∧ fd'.sent ++ pending sbuf' = fd.sent ++ pending sbuf ++ messages [op] := by
  cases op with
  | send buf =>
    rw [sendStep] at h
    split at h
    · next sbuf₁ fd₁ hsend =>
        obtain ⟨rfl, rfl⟩ := Prod.mk.inj (Option.some.inj h)
        have hsent := netplaySend_spec hinv hsend
        exact ⟨hsent.inv, by rw [hsent.fifo, messages, messages, List.append_nil]⟩
    · cases h
  | flush block =>
    rw [sendStep] at h
    split at h
    · next sbuf₁ fd₁ hflush =>
        obtain ⟨rfl, rfl⟩ := Prod.mk.inj (Option.some.inj h)
        obtain ⟨hsent, -⟩ := netplaySendFlush_spec hinv hflush
        exact ⟨hsent.inv, hsent.fifo⟩
    · cases h
  | resize fresh =>
    rw [sendStep] at h
    split_ifs at h with hroom
    obtain ⟨rfl, rfl⟩ := Prod.mk.inj (Option.some.inj h)
    obtain ⟨hlen, hdata⟩ := resize_ring hinv.size hinv.bounds.1 hinv.bounds.2 hroom
    have hpending : pending (netplayResizeSocketBuffer sbuf fresh) = pending sbuf :=
      (ring_straight _ (Nat.zero_le _)).trans hdata
    refine ⟨⟨hlen, Nat.zero_lt_of_lt hroom, .inl ⟨Nat.zero_le _, hroom.le, hroom⟩⟩, ?_⟩
    rw [hpending, messages, messages, List.append_nil]

private theorem messages_cons (op : SendOp) (ops : List SendOp) :
    messages (op :: ops) = messages [op] ++ messages ops := by
  cases op with
  | send buf => simp [messages]
  | flush block => simp [messages]
  | resize fresh => simp [messages]

private theorem run_send {ops : List SendOp} {sbuf sbuf' : SocketBuffer} {fd fd' : SendEnd}
    (hinv : SendInv sbuf) (h : run sendStep (sbuf, fd) ops = some (sbuf', fd')) :
    SendInv sbuf' ∧ fd'.sent ++ pending sbuf' = fd.sent ++ pending sbuf ++ messages ops := by
  induction ops generalizing sbuf fd with
  | nil =>
    obtain ⟨rfl, rfl⟩ := Prod.mk.inj (Option.some.inj h)
    exact ⟨hinv, by rw [messages, List.append_nil]⟩
  | cons op ops ih =>
    obtain ⟨⟨sbuf₁, fd₁⟩, hstep, hrest⟩ := run_cons h
    obtain ⟨hinv₁, hfirst⟩ := sendStep_spec hinv hstep
    obtain ⟨hinv', hlast⟩ := ih hinv₁ hrest
    exact ⟨hinv', by rw [hlast, hfirst, messages_cons op ops, List.append_assoc]⟩

/-- The send path is FIFO and loses nothing, whatever the socket takes at a time. -/
theorem send_path_fifo (fresh : List UInt8) (script : List SendAnswer) (ops : List SendOp)
    (sbuf : SocketBuffer) (fd : SendEnd) (hsize : 1 < fresh.length)
    (hrun : run sendStep (netplayInitSocketBuffer fresh, ⟨[], script⟩) ops = some (sbuf, fd)) :
    fd.sent ++ pending sbuf = messages ops ∧ bufUsed sbuf ≤ sbuf.bufsz - 1 := by
  obtain ⟨hinv, hfifo⟩ := run_send (sendInv_init fresh (Nat.zero_lt_of_lt hsize)) hrun
  have hlt := hinv.bufUsed_lt
  refine ⟨?_, by omega⟩
  rw [hfifo, pending, netplayInitSocketBuffer, ring_self]
  simp

theorem send_path_fifo_wrapped :
    1 < [0, 0, 0, 0].length ∧
      run sendStep (netplayInitSocketBuffer [0, 0, 0, 0], ⟨[], [.room 1, .again]⟩)
        [.send [1, 2, 3], .flush false, .send [4, 5]] =
          some (⟨[5, 2, 3, 4], 4, 2, 1, 0⟩, ⟨[1, 2], []⟩) ∧
      [1, 2] ++ pending ⟨[5, 2, 3, 4], 4, 2, 1, 0⟩ =
        messages [.send [1, 2, 3], .flush false, .send [4, 5]] ∧
      bufUsed ⟨[5, 2, 3, 4], 4, 2, 1, 0⟩ ≤ 4 - 1 :=
  ⟨by decide, rfl, send_path_fifo [0, 0, 0, 0] [.room 1, .again]
    [.send [1, 2, 3], .flush false, .send [4, 5]] _ _ (by decide) rfl⟩

end RetroArch.Netplay.Send
