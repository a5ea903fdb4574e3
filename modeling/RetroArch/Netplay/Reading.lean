/- Reading the fields of a command off a receive buffer. -/

import RetroArch.Netplay.Messaging

namespace RetroArch.Netplay.Reading

open Library.Rewinding Delta State Io Messaging

variable {σ : Type}

/-- What one `netplay_recv` of a whole field gives; a short count leaves what there is. -/
inductive Received
  | full (bytes : List UInt8)
  | short (bytes : List UInt8)
  | failed

/-- `netplay_recv`, non-blocking. -/
def netplayRecv (np : NetplayT σ) (i sz : ℕ) : Received × NetplayT σ :=
  let c := np.connection i
  if c.recvFaults.headD false then
    (.failed, np.retape i c.recvPacketBuffer c.recvFaults.tail)
  else
    let (bytes, tape) := c.recvPacketBuffer.read sz
    (if bytes.length < sz then .short bytes else .full bytes, np.retape i tape c.recvFaults.tail)

/-- What `netplay_get_cmd` returns: false, false with `had_input` set, true, and true with
`had_input` set. -/
inductive Ret
  | refused
  | dropped
  | idle
  | handled
deriving DecidableEq

/-- A result of `netplay_get_cmd`; none where the source has undefined behaviour. -/
abbrev Outcome (σ : Type) : Type := Option (Ret × NetplayT σ)

/-- `netplay_recv_reset`. -/
def netplayRecvReset (np : NetplayT σ) (i : ℕ) : NetplayT σ :=
  np.retape i (np.connection i).recvPacketBuffer.rewind (np.connection i).recvFaults

/-- `netplay_recv_flush`. -/
def netplayRecvFlush (np : NetplayT σ) (i : ℕ) : NetplayT σ :=
  np.retape i (np.connection i).recvPacketBuffer.commit (np.connection i).recvFaults

/-- The label `shrt`: no more data, reset and try again. -/
def shrt (np : NetplayT σ) (i : ℕ) : Outcome σ := some (.idle, netplayRecvReset np i)

/-- The end of `netplay_get_cmd`: the command is done with. -/
def done (np : NetplayT σ) (i : ℕ) : Outcome σ := some (.handled, netplayRecvFlush np i)

def refused (np : NetplayT σ) : Outcome σ := some (.refused, np)

/-- `netplay_cmd_nak`. -/
def nak (np : NetplayT σ) (i : ℕ) : Outcome σ :=
  some (.refused, (netplaySendRawCmd np i .nak).2)

/-- The macro `RECV`. -/
def RECV (np : NetplayT σ) (i sz : ℕ) (fail : NetplayT σ → Outcome σ)
    (next : List UInt8 → NetplayT σ → Outcome σ) : Outcome σ :=
  match netplayRecv np i sz with
  | (.full bytes, np) => next bytes np
  | (.short _, np) => shrt np i
  | (.failed, np) => fail np

/-- Exactly `bytes` have arrived on connection `i` and are still to be read, and its socket does
not fail. -/
structure Arrived (np : NetplayT σ) (i : ℕ) (bytes : List UInt8) : Prop where
  lt : i < np.connections.length
  sound : ∀ fault ∈ (np.connection i).recvFaults, fault = false
  rest : (np.connection i).recvPacketBuffer.rest = bytes

@[simp] theorem retape_retape (np : NetplayT σ) (i : ℕ) (t t' : Tape UInt8)
    (faults faults' : List Bool) :
    (np.retape i t faults).retape i t' faults' = np.retape i t' faults' := by
  simp only [NetplayT.retape, NetplayT.setConnection, List.modify_modify_eq]
  rfl

@[simp] theorem retape_self (np : NetplayT σ) (i : ℕ) :
    np.retape i (np.connection i).recvPacketBuffer (np.connection i).recvFaults = np := by
  have hsame : np.connections.modify i (fun c =>
      { c with
        recvPacketBuffer := (np.connection i).recvPacketBuffer
        recvFaults := (np.connection i).recvFaults }) = np.connections := by
    apply List.ext_getElem?
    intro j
    rw [List.getElem?_modify]
    split_ifs with hij
    · subst hij
      cases hj : np.connections[i]? with
      | none => rfl
      | some c =>
        have hc : np.connection i = c := by
          rw [NetplayT.connection, List.getD_eq_getElem?_getD, hj]
          rfl
        rw [hc]
        rfl
    · exact id_map' _
  rw [NetplayT.retape, NetplayT.setConnection, hsame]

@[simp] theorem retape_setFrame (np : NetplayT σ) (i ptr : ℕ) (t : Tape UInt8)
    (faults : List Bool) (f : DeltaFrame σ) :
    (np.retape i t faults).setFrame ptr f = (np.setFrame ptr f).retape i t faults := rfl

theorem connection_retape {np : NetplayT σ} {i : ℕ} (h : i < np.connections.length)
    (t : Tape UInt8) (faults : List Bool) : (np.retape i t faults).connection i =
      { np.connection i with recvPacketBuffer := t, recvFaults := faults } :=
  np.connection_setConnection _ h

variable {np : NetplayT σ} {i : ℕ} {bytes more : List UInt8}

theorem Arrived.headD (h : Arrived np i bytes) :
    (np.connection i).recvFaults.headD false = false := by
  have hsound := h.sound
  cases hfaults : (np.connection i).recvFaults with
  | nil => rfl
  | cons fault faults =>
    rw [hfaults] at hsound
    exact hsound fault List.mem_cons_self

theorem Arrived.retape (h : Arrived np i bytes) (t : Tape UInt8) :
    Arrived (np.retape i t (np.connection i).recvFaults.tail) i t.rest where
  lt := by
    rw [NetplayT.retape, NetplayT.setConnection_length]
    exact h.lt
  sound := by
    rw [connection_retape h.lt]
    intro fault hfault
    exact h.sound fault (List.mem_of_mem_tail hfault)
  rest := by
    rw [connection_retape h.lt]

/-- The tape after a field of `n` bytes. -/
def afterField (np : NetplayT σ) (i n : ℕ) : NetplayT σ :=
  np.retape i ((np.connection i).recvPacketBuffer.read n).2 (np.connection i).recvFaults.tail

@[simp] theorem mode_retape (np : NetplayT σ) (i j : ℕ) (t : Tape UInt8) (faults : List Bool) :
    ((np.retape i t faults).connection j).mode = (np.connection j).mode := by
  rw [NetplayT.retape, NetplayT.setConnection, NetplayT.connection, NetplayT.connection,
    List.getD_eq_getElem?_getD, List.getD_eq_getElem?_getD, List.getElem?_modify]
  cases np.connections[j]? with
  | none => split_ifs <;> rfl
  | some c => split_ifs <;> rfl

theorem Arrived.read {n : ℕ} (h : Arrived np i bytes) :
    ((np.connection i).recvPacketBuffer.read n).1 = bytes.take n := by
  rw [Tape.read, h.rest]

theorem Arrived.afterField (h : Arrived np i (bytes ++ more)) :
    Arrived (afterField np i bytes.length) i more := by
  have hnext := h.retape ((np.connection i).recvPacketBuffer.read bytes.length).2
  have hrest : ((np.connection i).recvPacketBuffer.read bytes.length).2.rest = more := by
    have hsplit := Tape.done_append_rest ((np.connection i).recvPacketBuffer.read bytes.length).2
    rw [Tape.read_done, Tape.read_cells, h.read, List.take_left' rfl,
      ← Tape.done_append_rest, h.rest, List.append_assoc] at hsplit
    exact List.append_cancel_left (List.append_cancel_left hsplit)
  rw [hrest] at hnext
  exact hnext

theorem netplayRecv_full (h : Arrived np i (bytes ++ more)) :
    netplayRecv np i bytes.length = (.full bytes, afterField np i bytes.length) := by
  have hsound : ¬(np.connection i).recvFaults.headD false = true := by
    rw [h.headD]
    exact Bool.false_ne_true
  rw [netplayRecv, if_neg hsound]
  have hread : ((np.connection i).recvPacketBuffer.read bytes.length).1 = bytes := by
    rw [h.read, List.take_left' rfl]
  simp only [hread, lt_irrefl, if_false]
  rfl

theorem RECV_full {n : ℕ} {fail : NetplayT σ → Outcome σ}
    {next : List UInt8 → NetplayT σ → Outcome σ} (h : Arrived np i (bytes ++ more))
    (hn : bytes.length = n) : RECV np i n fail next = next bytes (afterField np i n) := by
  subst hn
  rw [RECV, netplayRecv_full h]

/-- Whatever comes of a command has the property. -/
def Gives (P : NetplayT σ → Prop) (outcome : Outcome σ) : Prop :=
  ∀ ret np, outcome = some (ret, np) → P np

/-- A property that reading, and refusing what was read, keep. -/
structure Receptive (P : NetplayT σ → Prop) : Prop where
  retape : ∀ np i t faults, P np → P (np.retape i t faults)
  nak : ∀ np i, P np → P (netplaySendRawCmd np i .nak).2

variable {P : NetplayT σ → Prop}

theorem Gives.some {ret : Ret} (h : P np) : Gives P (some (ret, np)) := by
  intro ret' np' heq
  obtain ⟨-, rfl⟩ := Prod.mk.inj (Option.some.inj heq)
  exact h

theorem Gives.none : Gives P none := by
  intro ret np heq
  cases heq

theorem Gives.bind {α : Type} {o : Option α} {next : α → Outcome σ}
    (h : ∀ a, o = Option.some a → Gives P (next a)) : Gives P (o.bind next) := by
  cases o with
  | none => exact Gives.none
  | some a => exact h a rfl

theorem Receptive.refused (h : P np) : Gives P (refused np) := Gives.some h

theorem Receptive.shrt (hP : Receptive P) (h : P np) (i : ℕ) : Gives P (shrt np i) :=
  Gives.some (hP.retape np i _ _ h)

theorem Receptive.done (hP : Receptive P) (h : P np) (i : ℕ) : Gives P (done np i) :=
  Gives.some (hP.retape np i _ _ h)

theorem Receptive.refuse (hP : Receptive P) (h : P np) (i : ℕ) : Gives P (Reading.nak np i) :=
  Gives.some (hP.nak np i h)

theorem Receptive.netplayRecv (hP : Receptive P) (h : P np) (i n : ℕ) :
    P (netplayRecv np i n).2 := by
  rw [Reading.netplayRecv]
  split_ifs
  · exact hP.retape np i _ _ h
  · exact hP.retape np i _ _ h

theorem Receptive.recv (hP : Receptive P) {n : ℕ} {fail : NetplayT σ → Outcome σ}
    {next : List UInt8 → NetplayT σ → Outcome σ} (h : P np)
    (hfail : ∀ np, P np → Gives P (fail np))
    (hnext : ∀ bytes np, P np → Gives P (next bytes np)) : Gives P (RECV np i n fail next) := by
  have hrecv := hP.netplayRecv h i n
  rw [RECV]
  rcases hres : Reading.netplayRecv np i n with ⟨bytes | bytes | _, np'⟩
  · rw [hres] at hrecv
    exact hnext bytes np' hrecv
  · rw [hres] at hrecv
    exact hP.shrt hrecv i
  · rw [hres] at hrecv
    exact hfail np' hrecv

end RetroArch.Netplay.Reading
