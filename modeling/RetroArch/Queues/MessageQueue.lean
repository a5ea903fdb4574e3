/- The message queue: a heap in an array, with pointers to its elements in the slots from 1 on. -/

import Mathlib.Algebra.BigOperators.Group.Finset.Basic
import Mathlib.Algebra.Order.Interval.Finset.Basic
import Mathlib.Order.Interval.Finset.Nat

namespace RetroArch.Queues

variable {α : Type}

/-- An element with the address that the allocator gave to it; `msg` is what a pull returns. -/
structure QueueElem (α : Type) where
  address : ℕ
  duration : UInt32
  prio : UInt32
  msg : α
  deriving DecidableEq

/-- The pointers in the array. -/
abbrev Slots (α : Type) : Type := ℕ → Option (QueueElem α)

structure MsgQueue (α : Type) where
  elems : Slots α
  ptr : ℕ
  size : ℕ
  tmpMsg : Option α

def msgQueueNew (size : ℕ) : MsgQueue α := ⟨fun _ => none, 1, size + 1, none⟩

def exchange (elems : Slots α) (i j : ℕ) : Slots α := fun k => elems (Equiv.swap i j k)

/-- The loop of a push. No result is a `NULL` element read. -/
def siftUp (elems : Slots α) (tmpPtr : ℕ) : Option (Slots α) :=
  if 1 < tmpPtr then
    match elems (tmpPtr / 2), elems tmpPtr with
    | some parent, some child =>
      if child.prio ≤ parent.prio then some elems
      else siftUp (exchange elems (tmpPtr / 2) tmpPtr) (tmpPtr / 2)
    | _, _ => none
  else some elems
termination_by tmpPtr
decreasing_by omega

def msgQueuePush (queue : MsgQueue α) (msg : α) (prio duration : UInt32) (address : ℕ) :
    Option (MsgQueue α) :=
  if queue.ptr ≥ queue.size then some queue
  else
    let newElem : QueueElem α := ⟨address, duration, prio, msg⟩
    (siftUp (Function.update queue.elems queue.ptr (some newElem)) queue.ptr).map fun elems =>
      { queue with elems := elems, ptr := queue.ptr + 1 }

/-- A pointer as a number. -/
def pointer : Option (QueueElem α) → ℕ
  | none => 0
  | some elem => elem.address

/-- The place the element at `tmpPtr` is exchanged with: the pointers are compared, not the
priorities behind them, and the slot at `ptr` is still looked at. -/
def switchIndex (elems : Slots α) (ptr tmpPtr : ℕ) : Option ℕ :=
  let left := tmpPtr * 2 ≤ ptr ∧ pointer (elems tmpPtr) < pointer (elems (tmpPtr * 2))
  let right := tmpPtr * 2 + 1 ≤ ptr ∧ pointer (elems tmpPtr) < pointer (elems (tmpPtr * 2 + 1))
  if ¬ left ∧ ¬ right then none
  else if left ∧ ¬ right then some (tmpPtr * 2)
  else if right ∧ ¬ left then some (tmpPtr * 2 + 1)
  else if pointer (elems (tmpPtr * 2)) ≥ pointer (elems (tmpPtr * 2 + 1)) then some (tmpPtr * 2)
  else some (tmpPtr * 2 + 1)

theorem switchIndex_spec {elems : Slots α} {ptr i c : ℕ} (h : switchIndex elems ptr i = some c) :
    (c = i * 2 ∨ c = i * 2 + 1) ∧ c ≤ ptr ∧ pointer (elems i) < pointer (elems c) := by
  simp only [switchIndex] at h
  split_ifs at h with hstop hleft hright hge
  · obtain rfl := Option.some.inj h
    exact ⟨.inl rfl, hleft.1⟩
  · obtain rfl := Option.some.inj h
    exact ⟨.inr rfl, hright.1⟩
  · obtain rfl := Option.some.inj h
    have hboth := not_and_or.mp hstop
    refine ⟨.inl rfl, ?_⟩
    by_contra hnot
    exact hboth.elim (fun h => h hnot) fun h => hright ⟨not_not.mp h, hnot⟩
  · obtain rfl := Option.some.inj h
    refine ⟨.inr rfl, ?_⟩
    by_contra hnot
    have hboth := not_and_or.mp hstop
    exact hboth.elim (fun h => hleft ⟨not_not.mp h, hnot⟩) fun h => h hnot

theorem switchIndex_gt {elems : Slots α} {ptr i c : ℕ} (h : switchIndex elems ptr i = some c) :
    i < c ∧ c ≤ ptr := by
  obtain ⟨hchild, hle, hlt⟩ := switchIndex_spec h
  refine ⟨?_, hle⟩
  rcases hchild with rfl | rfl
  · rcases Nat.eq_zero_or_pos i with rfl | hpos
    · exact absurd hlt (lt_irrefl _)
    · omega
  · omega

/-- The loop of a pull. -/
def siftDown (elems : Slots α) (ptr tmpPtr : ℕ) : Slots α :=
  match _h : switchIndex elems ptr tmpPtr with
  | none => elems
  | some switch => siftDown (exchange elems tmpPtr switch) ptr switch
termination_by ptr - tmpPtr
decreasing_by
  have := switchIndex_gt _h
  omega

/-- `last` takes the place of the front; its own slot keeps the pointer to it. -/
def removeFront (queue : MsgQueue α) : Slots α :=
  Function.update queue.elems 1 (queue.elems (queue.ptr - 1))

/-- The message and the queue behind the pull. No result is a `NULL` element read. -/
def msgQueuePull (queue : MsgQueue α) : Option (Option α × MsgQueue α) :=
  if queue.ptr = 1 then some (none, queue)
  else
    (queue.elems 1).map fun front =>
      let front := { front with duration := front.duration - 1 }
      let queue := { queue with elems := Function.update queue.elems 1 (some front) }
      if front.duration > 0 then (some front.msg, queue)
      else
        (some front.msg,
          { queue with
            elems := siftDown (removeFront queue) (queue.ptr - 1) 1
            ptr := queue.ptr - 1
            tmpMsg := some front.msg })

end RetroArch.Queues
