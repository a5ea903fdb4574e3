/- The two ends of a stream socket as `net_socket.c` uses them.
   The platform is a script of answers; everything it may do is some script. -/

import Mathlib.Data.List.Basic
import Mathlib.Order.Nat

namespace RetroArch.Net.Socket

/-- One answer of the platform to `recv`. `ready n` hands over up to `n + 1` bytes. -/
inductive RecvAnswer
  | ready (n : ℕ)
  | again
  | closed
  | error
  deriving DecidableEq

/-- The value of `recv`: a count with its bytes (none when the peer has closed), or `-1`
with `errno` asking to try again, or `-1` otherwise. -/
inductive RecvRet
  | data (bytes : List UInt8)
  | again
  | error
  deriving DecidableEq

/-- The receiving end: what the peer has still to deliver, what the platform is going to
answer, and the reads made so far with their sizes. -/
structure RecvEnd where
  stream : List UInt8
  script : List RecvAnswer
  calls : List (ℕ × RecvRet)
  deriving DecidableEq

/-- A read of length 0 returns 0 and consumes nothing. -/
def recv (fd : RecvEnd) (size : ℕ) : RecvRet × RecvEnd :=
  if size = 0 then
    (.data [], { fd with calls := fd.calls ++ [(size, .data [])] })
  else
    match fd.script with
    | .ready n :: script =>
      match fd.stream.take (min (n + 1) size) with
      | [] => (.again, { fd with script := script, calls := fd.calls ++ [(size, .again)] })
      | b :: bs =>
        (.data (b :: bs), ⟨fd.stream.drop (min (n + 1) size), script,
          fd.calls ++ [(size, .data (b :: bs))]⟩)
    | .closed :: script =>
      (.data [], { fd with script := script, calls := fd.calls ++ [(size, .data [])] })
    | .error :: script =>
      (.error, { fd with script := script, calls := fd.calls ++ [(size, .error)] })
    | .again :: script =>
      (.again, { fd with script := script, calls := fd.calls ++ [(size, .again)] })
    | [] => (.again, { fd with calls := fd.calls ++ [(size, .again)] })

/-- `none` is the return value -1; in `socket_receive_all_nonblocking` it always comes with
`*error = true`. -/
def socketReceiveAllNonblocking (fd : RecvEnd) (size : ℕ) : Option (List UInt8) × RecvEnd :=
  match recv fd size with
  | (.data [], fd) => (none, fd)
  | (.data (b :: bs), fd) => (some (b :: bs), fd)
  | (.again, fd) => (some [], fd)
  | (.error, fd) => (none, fd)

/-- The loop of `socket_receive_all_blocking`; every turn reads at least one byte, so the
size itself is fuel enough. -/
def receiveAllLoop : ℕ → RecvEnd → ℕ → List UInt8 → Option (List UInt8) × RecvEnd
  | 0, fd, _, got => (some got, fd)
  | fuel + 1, fd, size, got =>
    if size = 0 then (some got, fd)
    else
      match recv fd size with
      | (.data [], fd) => (none, fd)
      | (.data (b :: bs), fd) =>
        receiveAllLoop fuel fd (size - (b :: bs).length) (got ++ (b :: bs))
      | (.again, fd) => (none, fd)
      | (.error, fd) => (none, fd)

def socketReceiveAllBlocking (fd : RecvEnd) (size : ℕ) : Option (List UInt8) × RecvEnd :=
  receiveAllLoop size fd size []

/-- A non-empty read that reported closure or an error. For a read that is to wait for its
bytes, `-1` with `EAGAIN` is an error as well. -/
def Refused (wait : Bool) (c : ℕ × RecvRet) : Prop :=
  0 < c.1 ∧ (c.2 = .data [] ∨ c.2 = .error ∨ (wait = true ∧ c.2 = .again))

instance (wait : Bool) (c : ℕ × RecvRet) : Decidable (Refused wait c) :=
  inferInstanceAs (Decidable (_ ∧ _))

/-- The platform's next answer hands over `size` bytes. -/
def Delivers (fd : RecvEnd) (size : ℕ) : Prop :=
  ∃ n script, fd.script = .ready n :: script ∧ size ≤ n + 1 ∧ size ≤ fd.stream.length

/-- What one read does: it hands over a non-empty prefix of the stream no longer than asked,
or leaves the stream alone. -/
theorem recv_cases (fd : RecvEnd) (size : ℕ) :
    (size = 0 ∧ recv fd size =
      (.data [], { fd with calls := fd.calls ++ [(size, .data [])] })) ∨
    (0 < size ∧ ∃ r fd', recv fd size = (r, fd') ∧ fd'.calls = fd.calls ++ [(size, r)] ∧
      ((∃ b bs, r = .data (b :: bs) ∧ (b :: bs).length ≤ size ∧
          fd.stream = (b :: bs) ++ fd'.stream) ∨
        ((r = .data [] ∨ r = .again ∨ r = .error) ∧ fd'.stream = fd.stream))) := by
  by_cases hsize : size = 0
  · exact .inl ⟨hsize, by rw [recv, if_pos hsize]⟩
  · refine .inr ⟨by omega, ?_⟩
    rw [recv, if_neg hsize]
    match hscript : fd.script with
    | [] => exact ⟨_, _, rfl, rfl, .inr ⟨by simp, rfl⟩⟩
    | .again :: script => exact ⟨_, _, rfl, rfl, .inr ⟨by simp, rfl⟩⟩
    | .closed :: script => exact ⟨_, _, rfl, rfl, .inr ⟨by simp, rfl⟩⟩
    | .error :: script => exact ⟨_, _, rfl, rfl, .inr ⟨by simp, rfl⟩⟩
    | .ready n :: script =>
      cases htake : fd.stream.take (min (n + 1) size) with
      | nil =>
        simp only [htake]
        exact ⟨_, _, rfl, rfl, .inr ⟨by simp, rfl⟩⟩
      | cons b bs =>
        simp only [htake]
        refine ⟨_, _, rfl, rfl, .inl ⟨b, bs, rfl, ?_, ?_⟩⟩
        · have hle := List.length_take_le (min (n + 1) size) fd.stream
          rw [htake] at hle
          omega
        · rw [← htake, List.take_append_drop]

/-- The non-blocking read: it fails only on a refused read or on a read of length 0. -/
theorem socketReceiveAllNonblocking_spec (fd fd' : RecvEnd) (size : ℕ)
    (r : Option (List UInt8)) (h : socketReceiveAllNonblocking fd size = (r, fd')) :
    match r with
    | none => fd'.stream = fd.stream ∧ ∃ ret, fd'.calls = fd.calls ++ [(size, ret)] ∧
        (size = 0 ∨ Refused false (size, ret))
    | some bs => 0 < size ∧ bs.length ≤ size ∧ fd.stream = bs ++ fd'.stream ∧
        ∃ ret, fd'.calls = fd.calls ++ [(size, ret)] ∧ (bs ≠ [] → ret = .data bs) := by
  rcases recv_cases fd size with ⟨hzero, hrecv⟩ | ⟨hpos, ret, fd₁, hrecv, hcalls, hret⟩
  · rw [socketReceiveAllNonblocking, hrecv] at h
    obtain ⟨rfl, rfl⟩ := Prod.mk.inj h
    exact ⟨rfl, _, rfl, .inl hzero⟩
  · rw [socketReceiveAllNonblocking, hrecv] at h
    rcases hret with ⟨b, bs, rfl, hlen, hstream⟩ | ⟨rfl | rfl | rfl, hstream⟩
    · obtain ⟨rfl, rfl⟩ := Prod.mk.inj h
      exact ⟨hpos, hlen, hstream, _, hcalls, fun _ => rfl⟩
    · obtain ⟨rfl, rfl⟩ := Prod.mk.inj h
      exact ⟨hstream, _, hcalls, .inr ⟨hpos, by simp⟩⟩
    · obtain ⟨rfl, rfl⟩ := Prod.mk.inj h
      exact ⟨hpos, by simp, by simp [hstream], _, hcalls, by simp⟩
    · obtain ⟨rfl, rfl⟩ := Prod.mk.inj h
      exact ⟨hstream, _, hcalls, .inr ⟨hpos, by simp⟩⟩

theorem Refused.mono {wait : Bool} {c : ℕ × RecvRet} (h : Refused false c) : Refused wait c :=
  ⟨h.1, by simpa using h.2.imp_right fun h' => .inl (by simpa using h')⟩

theorem not_refused_data (wait : Bool) (size : ℕ) {bs : List UInt8} (h : bs ≠ []) :
    ¬ Refused wait (size, .data bs) := by
  rintro ⟨-, hret | hret | ⟨-, hret⟩⟩
  · exact h (RecvRet.data.inj hret)
  · cases hret
  · cases hret

theorem socketReceiveAllNonblocking_zero (fd : RecvEnd) :
    socketReceiveAllNonblocking fd 0 =
      (none, { fd with calls := fd.calls ++ [(0, .data [])] }) := rfl

theorem socketReceiveAllNonblocking_full (fd : RecvEnd) {size : ℕ} (hsize : 0 < size) :
    (∃ bs, (socketReceiveAllNonblocking fd size).1 = some bs ∧ bs.length = size) ↔
      Delivers fd size := by
  rw [socketReceiveAllNonblocking, recv, if_neg (by omega)]
  match hscript : fd.script with
  | [] => simp [Delivers, hscript, hsize.ne]
  | .again :: script => simp [Delivers, hscript, hsize.ne]
  | .closed :: script => simp [Delivers, hscript]
  | .error :: script => simp [Delivers, hscript]
  | .ready n :: script =>
    have hlen : (fd.stream.take (min (n + 1) size)).length =
        min (min (n + 1) size) fd.stream.length := List.length_take
    cases htake : fd.stream.take (min (n + 1) size) with
    | nil =>
      rw [htake, List.length_nil] at hlen
      simp only [htake]
      constructor
      · rintro ⟨bs, hbs, hfull⟩
        obtain rfl := Option.some.inj hbs
        exact absurd hfull (by simp only [List.length_nil]; omega)
      · rintro ⟨m, script', hm, hle, hstream⟩
        obtain ⟨hm, -⟩ := List.cons.inj (hscript.symm.trans hm)
        obtain rfl := RecvAnswer.ready.inj hm
        omega
    | cons b bs =>
      rw [htake] at hlen
      simp only [htake]
      constructor
      · rintro ⟨bs', hbs, hfull⟩
        obtain rfl := Option.some.inj hbs
        exact ⟨n, script, hscript, by omega, by omega⟩
      · rintro ⟨m, script', hm, hle, hstream⟩
        obtain ⟨hm, -⟩ := List.cons.inj (hscript.symm.trans hm)
        obtain rfl := RecvAnswer.ready.inj hm
        exact ⟨b :: bs, rfl, by omega⟩

private theorem receive_all_loop_spec (fuel : ℕ) (fd fd' : RecvEnd) (size : ℕ)
    (got : List UInt8) (r : Option (List UInt8)) (hfuel : size ≤ fuel)
    (h : receiveAllLoop fuel fd size got = (r, fd')) :
    match r with
    | none => ∃ c ∈ fd'.calls.drop fd.calls.length, Refused true c
    | some bs => ∃ new, bs = got ++ new ∧ new.length = size ∧ fd.stream = new ++ fd'.stream := by
  induction fuel generalizing fd size got with
  | zero =>
    obtain ⟨rfl, rfl⟩ := Prod.mk.inj h
    exact ⟨[], by simp, by simp; omega, rfl⟩
  | succ fuel ih =>
    rw [receiveAllLoop] at h
    split_ifs at h with hzero
    · obtain ⟨rfl, rfl⟩ := Prod.mk.inj h
      exact ⟨[], by simp, by simp [hzero], rfl⟩
    · rcases recv_cases fd size with ⟨hz, -⟩ | ⟨hpos, ret, fd₁, hrecv, hcalls, hret⟩
      · exact absurd hz hzero
      · rw [hrecv] at h
        rcases hret with ⟨b, bs, rfl, hlen, hstream⟩ | ⟨hret, -⟩
        · have hrest := ih fd₁ (size - (b :: bs).length) (got ++ (b :: bs))
            (by simp only [List.length_cons]; omega) h
          cases r with
          | none =>
            obtain ⟨c, hc, hrefused⟩ := hrest
            refine ⟨c, ?_, hrefused⟩
            rw [hcalls, List.length_append] at hc
            exact List.mem_of_mem_drop (l := fd'.calls.drop fd.calls.length) (i := 1)
              (by rw [List.drop_drop]; exact hc)
          | some got' =>
            obtain ⟨new, rfl, hnew, hrest⟩ := hrest
            refine ⟨(b :: bs) ++ new, by simp, ?_, ?_⟩
            · rw [List.length_append]
              omega
            · rw [hstream, hrest, List.append_assoc]
        · have hnone : r = none ∧ fd' = fd₁ := by
            rcases hret with rfl | rfl | rfl <;>
              exact ⟨(congrArg Prod.fst h).symm, (congrArg Prod.snd h).symm⟩
          obtain ⟨rfl, rfl⟩ := hnone
          refine ⟨(size, ret), ?_, hpos, ?_⟩
          · rw [hcalls]
            simp
          · rcases hret with rfl | rfl | rfl <;> simp

theorem socketReceiveAllBlocking_spec (fd fd' : RecvEnd) (size : ℕ)
    (r : Option (List UInt8)) (h : socketReceiveAllBlocking fd size = (r, fd')) :
    match r with
    | none => ∃ c ∈ fd'.calls.drop fd.calls.length, Refused true c
    | some bs => bs.length = size ∧ fd.stream = bs ++ fd'.stream := by
  have hspec := receive_all_loop_spec size fd fd' size [] r le_rfl h
  cases r with
  | none => exact hspec
  | some bs =>
    obtain ⟨new, rfl, hlen, hstream⟩ := hspec
    exact ⟨by simpa using hlen, by simpa using hstream⟩

/-- One answer of the platform to `send`. `room n` takes up to `n + 1` bytes. -/
inductive SendAnswer
  | room (n : ℕ)
  | zero
  | again
  | error
  deriving DecidableEq

/-- The sending end: the bytes given to the socket so far and what the platform is going to
answer. A script that has run out is an error. -/
structure SendEnd where
  sent : List UInt8
  script : List SendAnswer
  deriving DecidableEq

inductive SendRet
  | count (n : ℕ)
  | again
  | error
  deriving DecidableEq

/-- Only called with data, as both loops test `size` first. -/
def send (fd : SendEnd) (data : List UInt8) : SendRet × SendEnd :=
  match fd.script with
  | .room n :: script =>
    (.count (min (n + 1) data.length), ⟨fd.sent ++ data.take (n + 1), script⟩)
  | .zero :: script => (.count 0, { fd with script := script })
  | .again :: script => (.again, { fd with script := script })
  | .error :: script => (.error, { fd with script := script })
  | [] => (.error, fd)

/-- The loop of `socket_send_all_blocking`, along the platform's answers. -/
def sendAllBlockingLoop (script : List SendAnswer) (sent data : List UInt8) : Bool × SendEnd :=
  match data, script with
  | [], script => (true, ⟨sent, script⟩)
  | _ :: _, [] => (false, ⟨sent, []⟩)
  | b :: bs, a :: script =>
    match send ⟨sent, a :: script⟩ (b :: bs) with
    | (.count 0, fd) => (false, fd)
    | (.count (n + 1), fd) => sendAllBlockingLoop script fd.sent ((b :: bs).drop (n + 1))
    | (.again, fd) => sendAllBlockingLoop script fd.sent (b :: bs)
    | (.error, fd) => (false, fd)

def socketSendAllBlocking (fd : SendEnd) (data : List UInt8) : Bool × SendEnd :=
  sendAllBlockingLoop fd.script fd.sent data

/-- The loop of `socket_send_all_nonblocking`; `none` is the return value -1. -/
def sendAllNonblockingLoop (script : List SendAnswer) (sent data : List UInt8) (done : ℕ) :
    Option ℕ × SendEnd :=
  match data, script with
  | [], script => (some done, ⟨sent, script⟩)
  | _ :: _, [] => (none, ⟨sent, []⟩)
  | b :: bs, a :: script =>
    match send ⟨sent, a :: script⟩ (b :: bs) with
    | (.count 0, fd) => (some done, fd)
    | (.count (n + 1), fd) =>
      sendAllNonblockingLoop script fd.sent ((b :: bs).drop (n + 1)) (done + (n + 1))
    | (.again, fd) => (some done, fd)
    | (.error, fd) => (none, fd)

def socketSendAllNonblocking (fd : SendEnd) (data : List UInt8) : Option ℕ × SendEnd :=
  sendAllNonblockingLoop fd.script fd.sent data 0

private theorem send_count (sent data : List UInt8) (script : List SendAnswer) (a : SendAnswer)
    (n : ℕ) (fd : SendEnd) (h : send ⟨sent, a :: script⟩ data = (.count n, fd)) :
    n ≤ data.length ∧ fd.sent = sent ++ data.take n := by
  cases a with
  | room m =>
    obtain ⟨hn, rfl⟩ := Prod.mk.inj h
    obtain rfl := SendRet.count.inj hn
    refine ⟨by omega, ?_⟩
    rcases Nat.le_total (m + 1) data.length with hle | hle
    · rw [Nat.min_eq_left hle]
    · rw [Nat.min_eq_right hle, List.take_of_length_le hle, List.take_of_length_le le_rfl]
  | zero =>
    obtain ⟨hn, rfl⟩ := Prod.mk.inj h
    obtain rfl := SendRet.count.inj hn
    exact ⟨Nat.zero_le _, by simp⟩
  | again => simp [send] at h
  | error => simp [send] at h

private theorem send_again (sent data : List UInt8) (script : List SendAnswer) (a : SendAnswer)
    (fd : SendEnd) (h : send ⟨sent, a :: script⟩ data = (.again, fd)) : fd.sent = sent := by
  cases a with
  | again => exact congrArg SendEnd.sent (Prod.mk.inj h).2.symm
  | room m => simp [send] at h
  | zero => simp [send] at h
  | error => simp [send] at h

private theorem send_all_blocking_loop_spec (script : List SendAnswer)
    (sent data : List UInt8) (fd : SendEnd)
    (h : sendAllBlockingLoop script sent data = (true, fd)) : fd.sent = sent ++ data := by
  induction script generalizing sent data with
  | nil =>
    cases data with
    | nil =>
      rw [sendAllBlockingLoop] at h
      rw [← (Prod.mk.inj h).2]
      simp
    | cons b bs => simp [sendAllBlockingLoop] at h
  | cons a script ih =>
    cases data with
    | nil =>
      rw [sendAllBlockingLoop] at h
      rw [← (Prod.mk.inj h).2]
      simp
    | cons b bs =>
      rw [sendAllBlockingLoop] at h
      split at h
      · simp at h
      · next n fd₁ hsend =>
          obtain ⟨-, hsent⟩ := send_count _ _ _ _ _ _ hsend
          rw [ih _ _ h, hsent, List.append_assoc, List.take_append_drop]
      · next fd₁ hsend =>
          rw [ih _ _ h, send_again _ _ _ _ _ hsend]
      · simp at h

theorem socketSendAllBlocking_spec (fd fd' : SendEnd) (data : List UInt8)
    (h : socketSendAllBlocking fd data = (true, fd')) : fd'.sent = fd.sent ++ data :=
  send_all_blocking_loop_spec fd.script fd.sent data fd' h

private theorem send_all_nonblocking_loop_spec (script : List SendAnswer)
    (sent data : List UInt8) (done n : ℕ) (fd : SendEnd)
    (h : sendAllNonblockingLoop script sent data done = (some n, fd)) :
    ∃ k, n = done + k ∧ k ≤ data.length ∧ fd.sent = sent ++ data.take k := by
  induction script generalizing sent data done with
  | nil =>
    cases data with
    | nil =>
      rw [sendAllNonblockingLoop] at h
      obtain ⟨hn, rfl⟩ := Prod.mk.inj h
      exact ⟨0, by simpa using hn.symm, le_rfl, by simp⟩
    | cons b bs => simp [sendAllNonblockingLoop] at h
  | cons a script ih =>
    cases data with
    | nil =>
      rw [sendAllNonblockingLoop] at h
      obtain ⟨hn, rfl⟩ := Prod.mk.inj h
      exact ⟨0, by simpa using hn.symm, le_rfl, by simp⟩
    | cons b bs =>
      rw [sendAllNonblockingLoop] at h
      split at h
      · next fd₁ hsend =>
          obtain ⟨hn, rfl⟩ := Prod.mk.inj h
          obtain ⟨-, hsent⟩ := send_count _ _ _ _ _ _ hsend
          exact ⟨0, by simpa using hn.symm, Nat.zero_le _, by simpa using hsent⟩
      · next m fd₁ hsend =>
          obtain ⟨hm, hsent⟩ := send_count _ _ _ _ _ _ hsend
          obtain ⟨k, hn, hk, hrest⟩ := ih _ _ _ h
          refine ⟨m + 1 + k, by omega, ?_, ?_⟩
          · rw [List.length_drop] at hk
            omega
          · rw [hrest, hsent, List.append_assoc, ← List.take_add]
      · next fd₁ hsend =>
          obtain ⟨hn, rfl⟩ := Prod.mk.inj h
          refine ⟨0, by simpa using hn.symm, Nat.zero_le _, ?_⟩
          simpa using send_again _ _ _ _ _ hsend
      · simp at h

theorem socketSendAllNonblocking_spec (fd fd' : SendEnd) (data : List UInt8) (n : ℕ)
    (h : socketSendAllNonblocking fd data = (some n, fd')) :
    n ≤ data.length ∧ fd'.sent = fd.sent ++ data.take n := by
  obtain ⟨k, hn, hk, hsent⟩ := send_all_nonblocking_loop_spec fd.script fd.sent data 0 n fd' h
  rw [Nat.zero_add] at hn
  exact hn ▸ ⟨hk, hsent⟩

end RetroArch.Net.Socket
