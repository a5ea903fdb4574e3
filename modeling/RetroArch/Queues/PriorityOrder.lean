/- The messages come by priority where the pointers are ordered like the priorities behind them. -/

import Mathlib.Algebra.BigOperators.Intervals
import RetroArch.Library.Run
import RetroArch.Queues.MessageQueue

namespace RetroArch.Queues

open Library.Run

variable {α : Type}

section Order

def prioAt (elems : Slots α) (k : ℕ) : ℕ := (elems k).elim 0 fun elem => elem.prio.toNat

/-- There is an element in each of the slots below `n`. -/
def Full (elems : Slots α) (n : ℕ) : Prop := ∀ k, 1 ≤ k → k < n → ∃ elem, elems k = some elem

/-- No element is above its parent in priority. -/
def Ordered (elems : Slots α) (n : ℕ) : Prop :=
  ∀ k, 2 ≤ k → k < n → prioAt elems k ≤ prioAt elems (k / 2)

variable {elems : Slots α} {n i j k : ℕ}

theorem exchange_left (elems : Slots α) (i j : ℕ) : exchange elems i j i = elems j := by
  rw [exchange, Equiv.swap_apply_left]

theorem exchange_right (elems : Slots α) (i j : ℕ) : exchange elems i j j = elems i := by
  rw [exchange, Equiv.swap_apply_right]

theorem exchange_of_ne (hi : k ≠ i) (hj : k ≠ j) : exchange elems i j k = elems k := by
  rw [exchange, Equiv.swap_apply_of_ne_of_ne hi hj]

theorem Full.exchange (h : Full elems n) (hi : 1 ≤ i ∧ i < n) (hj : 1 ≤ j ∧ j < n) :
    Full (exchange elems i j) n := by
  intro k hk hkn
  by_cases hki : k = i
  · rw [hki, exchange_left]
    exact h j hj.1 hj.2
  · by_cases hkj : k = j
    · rw [hkj, exchange_right]
      exact h i hi.1 hi.2
    · rw [exchange_of_ne hki hkj]
      exact h k hk hkn

theorem Ordered.front (h : Ordered elems n) (hk : 1 ≤ k) (hkn : k < n) :
    prioAt elems k ≤ prioAt elems 1 := by
  induction k using Nat.strong_induction_on with
  | h k ih =>
    rcases Nat.eq_or_lt_of_le hk with rfl | hlt
    · exact le_refl _
    · exact le_trans (h k hlt hkn) (ih (k / 2) (by omega) (by omega) (by omega))

end Order

section Up

variable {elems : Slots α} {n i : ℕ}

/-- Only the element at `i` may be above its parent. -/
structure Rising (elems : Slots α) (n i : ℕ) : Prop where
  pairs : ∀ k, 2 ≤ k → k < n → k ≠ i → prioAt elems k ≤ prioAt elems (k / 2)
  grand : ∀ k, k < n → k / 2 = i → 2 ≤ i → prioAt elems k ≤ prioAt elems (i / 2)

theorem Rising.step (h : Rising elems n i) (hi : 1 < i) (hin : i < n)
    (hlt : prioAt elems (i / 2) < prioAt elems i) :
    Rising (exchange elems (i / 2) i) n (i / 2) := by
  have hself : prioAt (exchange elems (i / 2) i) (i / 2) = prioAt elems i := by
    rw [prioAt, exchange_left]
    rfl
  have hold : prioAt (exchange elems (i / 2) i) i = prioAt elems (i / 2) := by
    rw [prioAt, exchange_right]
    rfl
  have hother : ∀ k, k ≠ i / 2 → k ≠ i →
      prioAt (exchange elems (i / 2) i) k = prioAt elems k := by
    intro k hk hk'
    rw [prioAt, exchange_of_ne hk hk']
    rfl
  constructor
  · intro k hk hkn hne
    by_cases hki : k = i
    · rw [hki, hold, hself]
      exact hlt.le
    · rw [hother k hne hki]
      by_cases hparent : k / 2 = i / 2
      · rw [hparent, hself]
        have hpair := h.pairs k hk hkn hki
        rw [hparent] at hpair
        exact le_trans hpair hlt.le
      · by_cases hchild : k / 2 = i
        · rw [hchild, hold]
          exact h.grand k hkn hchild hi
        · rw [hother (k / 2) hparent hchild]
          exact h.pairs k hk hkn hki
  · intro k hkn hchild htwo
    have hgrand : prioAt elems (i / 2) ≤ prioAt elems (i / 2 / 2) :=
      h.pairs (i / 2) htwo (by omega) (by omega)
    rw [hother (i / 2 / 2) (by omega) (by omega)]
    by_cases hki : k = i
    · rw [hki, hold]
      exact hgrand
    · rw [hother k (by omega) hki]
      have hpair := h.pairs k (by omega) hkn hki
      rw [hchild] at hpair
      exact le_trans hpair hgrand

theorem siftUp_spec (hfull : Full elems n) (h : Rising elems n i) (hi : 1 ≤ i) (hin : i < n) :
    ∃ elems' : Slots α, ∃ σ : Equiv.Perm ℕ, siftUp elems i = some elems' ∧ Ordered elems' n ∧
      (∀ k, elems' k = elems (σ k)) ∧ ∀ k, σ k ≠ k → 1 ≤ k ∧ k < n := by
  induction i using Nat.strong_induction_on generalizing elems with
  | h i ih =>
    rw [siftUp]
    split_ifs with hlt
    · obtain ⟨parent, hparent⟩ := hfull (i / 2) (by omega) (by omega)
      obtain ⟨child, hchild⟩ := hfull i hi hin
      rw [hparent, hchild]
      dsimp only
      split_ifs with hle
      · refine ⟨elems, Equiv.refl ℕ, rfl, ?_, fun _ => rfl, fun k hk => absurd rfl hk⟩
        intro k hk hkn
        by_cases hki : k = i
        · rw [hki, prioAt, hchild, prioAt, hparent]
          exact UInt32.le_iff_toNat_le.mp hle
        · exact h.pairs k hk hkn hki
      · have hbelow : prioAt elems (i / 2) < prioAt elems i := by
          rw [prioAt, hparent, prioAt, hchild]
          exact Nat.lt_of_not_le fun h => hle (UInt32.le_iff_toNat_le.mpr h)
        obtain ⟨elems', σ, hup, hordered, hmoved, hsupport⟩ := ih (i / 2) (by omega)
          (hfull.exchange ⟨by omega, by omega⟩ ⟨hi, hin⟩) (h.step hlt hin hbelow) (by omega)
          (by omega)
        refine ⟨elems', σ.trans (Equiv.swap (i / 2) i), hup, hordered, ?_, ?_⟩
        · intro k
          rw [hmoved]
          rfl
        · intro k hk
          by_cases hfix : σ k = k
          · rw [Equiv.trans_apply, hfix] at hk
            by_contra hout
            exact hk (Equiv.swap_apply_of_ne_of_ne (by omega) (by omega))
          · exact hsupport k hfix
    · refine ⟨elems, Equiv.refl ℕ, rfl, ?_, fun _ => rfl, fun k hk => absurd rfl hk⟩
      intro k hk hkn
      exact h.pairs k hk hkn (by omega)

end Up

section Down

variable {elems : Slots α} {ptr i : ℕ}

/-- On the way of the element at `i` down, the pointers pick what the priorities would pick: it
stops above no higher priority, and changes places with the highest one. -/
inductive SinksByPriority (ptr : ℕ) : Slots α → ℕ → Prop
  | stops {elems : Slots α} {i : ℕ} (stop : switchIndex elems ptr i = none)
      (highest : ∀ c, c < ptr → c / 2 = i → prioAt elems c ≤ prioAt elems i) :
      SinksByPriority ptr elems i
  | sinks {elems : Slots α} {i switch : ℕ} (next : switchIndex elems ptr i = some switch)
      (highest : ∀ c, c < ptr → c / 2 = i → prioAt elems c ≤ prioAt elems switch)
      (higher : prioAt elems i ≤ prioAt elems switch)
      (rest : SinksByPriority ptr (exchange elems i switch) switch) : SinksByPriority ptr elems i

/-- Only the element at `i` may be below its children. -/
structure Sinking (elems : Slots α) (n i : ℕ) : Prop where
  pairs : ∀ k, 2 ≤ k → k < n → k / 2 ≠ i → prioAt elems k ≤ prioAt elems (k / 2)
  grand : ∀ k, k < n → k / 2 = i → 2 ≤ i → prioAt elems k ≤ prioAt elems (i / 2)

theorem Sinking.step {c : ℕ} (h : Sinking elems ptr i) (hc : c / 2 = i)
    (hlt : c < ptr) (highest : ∀ k, k < ptr → k / 2 = i → prioAt elems k ≤ prioAt elems c)
    (higher : prioAt elems i ≤ prioAt elems c) : Sinking (exchange elems i c) ptr c := by
  have hself : prioAt (exchange elems i c) i = prioAt elems c := by
    rw [prioAt, exchange_left]
    rfl
  have hold : prioAt (exchange elems i c) c = prioAt elems i := by
    rw [prioAt, exchange_right]
    rfl
  have hother : ∀ k, k ≠ i → k ≠ c → prioAt (exchange elems i c) k = prioAt elems k := by
    intro k hk hk'
    rw [prioAt, exchange_of_ne hk hk']
    rfl
  constructor
  · intro k hk hkn hne
    by_cases hki : k = i
    · rw [hki, hself, hother (i / 2) (by omega) (by omega)]
      exact h.grand c hlt hc (by omega)
    · by_cases hkc : k = c
      · rw [hkc, hold, hc, hself]
        exact higher
      · rw [hother k hki hkc]
        by_cases hparent : k / 2 = i
        · rw [hparent, hself]
          exact highest k hkn hparent
        · rw [hother (k / 2) hparent hne]
          exact h.pairs k hk hkn hparent
  · intro k hkn hchild _
    rw [hc, hself, hother k (by omega) (by omega)]
    have hpair := h.pairs k (by omega) hkn (by omega)
    rw [hchild] at hpair
    exact hpair

/-- The slot at `ptr`, with its second pointer to the element at `i`, is never picked. -/
theorem switchIndex_lt {c : ℕ} (hstale : elems ptr = elems i)
    (h : switchIndex elems ptr i = some c) : c < ptr := by
  obtain ⟨-, hle, hlt⟩ := switchIndex_spec h
  rcases Nat.eq_or_lt_of_le hle with rfl | hless
  · rw [hstale] at hlt
    exact absurd hlt (lt_irrefl _)
  · exact hless

theorem siftDown_moved (hi : 1 ≤ i) (hstale : elems ptr = elems i) :
    ∃ σ : Equiv.Perm ℕ, (∀ k, siftDown elems ptr i k = elems (σ k)) ∧
      ∀ k, σ k ≠ k → 1 ≤ k ∧ k < ptr := by
  induction elems, i using siftDown.induct ptr with
  | case1 elems i hstop =>
    rw [siftDown]
    refine ⟨Equiv.refl ℕ, ?_, fun k hk => absurd rfl hk⟩
    intro k
    rw [hstop]
    rfl
  | case2 elems i c hnext ih =>
    obtain ⟨hic, hle⟩ := switchIndex_gt hnext
    have hlt := switchIndex_lt hstale hnext
    have hkeep : exchange elems i c ptr = exchange elems i c c := by
      rw [exchange_right, exchange_of_ne (by omega) (by omega), hstale]
    obtain ⟨σ, hmoved, hsupport⟩ := ih (by omega) hkeep
    refine ⟨σ.trans (Equiv.swap i c), ?_, ?_⟩
    · intro k
      rw [siftDown, hnext]
      exact hmoved k
    · intro k hk
      by_cases hfix : σ k = k
      · rw [Equiv.trans_apply, hfix] at hk
        by_contra hout
        exact hk (Equiv.swap_apply_of_ne_of_ne (by omega) (by omega))
      · exact hsupport k hfix

theorem siftDown_ordered (hi : 1 ≤ i) (hstale : elems ptr = elems i) (h : Sinking elems ptr i)
    (hsinks : SinksByPriority ptr elems i) : Ordered (siftDown elems ptr i) ptr := by
  induction hsinks with
  | @stops elems i stop highest =>
    have hsame : siftDown elems ptr i = elems := by
      rw [siftDown, stop]
    rw [hsame]
    intro k hk hkn
    by_cases hparent : k / 2 = i
    · rw [hparent]
      exact highest k hkn hparent
    · exact h.pairs k hk hkn hparent
  | @sinks elems i switch next highest higher rest ih =>
    obtain ⟨hchild, -, -⟩ := switchIndex_spec next
    have hgt := (switchIndex_gt next).1
    have hlt := switchIndex_lt hstale next
    have hkeep : exchange elems i switch ptr = exchange elems i switch switch := by
      rw [exchange_right, exchange_of_ne (by omega) (by omega), hstale]
    have hsame : siftDown elems ptr i = siftDown (exchange elems i switch) ptr switch := by
      rw [siftDown, next]
    rw [hsame]
    exact ih (by omega) hkeep (h.step (by omega) hlt highest higher)

end Down

def pointee : Option (QueueElem α) → Multiset (QueueElem α)
  | none => 0
  | some elem => {elem}

/-- What is in the slots. -/
def bag (elems : Slots α) (slots : Finset ℕ) : Multiset (QueueElem α) :=
  ∑ k ∈ slots, pointee (elems k)

/-- The elements that are queued. -/
def MsgQueue.live (queue : MsgQueue α) : Multiset (QueueElem α) :=
  bag queue.elems (Finset.Ico 1 queue.ptr)

theorem bag_moved {elems elems' : Slots α} {n : ℕ} {σ : Equiv.Perm ℕ}
    (hmoved : ∀ k, elems' k = elems (σ k)) (hsupport : ∀ k, σ k ≠ k → 1 ≤ k ∧ k < n) :
    bag elems' (Finset.Ico 1 n) = bag elems (Finset.Ico 1 n) := by
  simp only [bag, hmoved]
  apply Equiv.Perm.sum_comp σ (Finset.Ico 1 n) fun k => pointee (elems k)
  intro k hk
  obtain ⟨hpos, hlt⟩ := hsupport k hk
  exact Finset.coe_Ico (1 : ℕ) n ▸ ⟨hpos, hlt⟩

theorem bag_congr {elems elems' : Slots α} {slots : Finset ℕ}
    (h : ∀ k ∈ slots, elems' k = elems k) : bag elems' slots = bag elems slots := by
  apply Finset.sum_congr rfl
  intro k hk
  rw [h k hk]

theorem bag_front {elems : Slots α} {n : ℕ} {front : QueueElem α} (hn : 1 < n)
    (hfront : elems 1 = some front) :
    bag elems (Finset.Ico 1 n) = front ::ₘ bag elems (Finset.Ico 2 n) := by
  rw [bag, Finset.sum_eq_sum_Ico_succ_bot hn, hfront]
  exact Multiset.singleton_add front _

theorem bag_last {elems : Slots α} {n : ℕ} {last : QueueElem α} (hn : 1 ≤ n)
    (hlast : elems n = some last) :
    bag elems (Finset.Ico 1 (n + 1)) = last ::ₘ bag elems (Finset.Ico 1 n) := by
  rw [bag, Finset.sum_Ico_succ_top hn, hlast, add_comm]
  exact Multiset.singleton_add last _

theorem mem_bag {elems : Slots α} {slots : Finset ℕ} {elem : QueueElem α}
    (h : elem ∈ bag elems slots) : ∃ k ∈ slots, elems k = some elem := by
  rw [bag, Multiset.mem_sum] at h
  obtain ⟨k, hk, hmem⟩ := h
  refine ⟨k, hk, ?_⟩
  cases hget : elems k with
  | none =>
    rw [hget] at hmem
    exact absurd hmem (Multiset.notMem_zero elem)
  | some other =>
    rw [hget] at hmem
    rw [Multiset.mem_singleton.mp hmem]

section Statement

/-- How often an element with this duration is returned from now on. -/
def rounds (duration : UInt32) : ℕ := if duration = 0 then 2 ^ 32 else duration.toNat

/-- A pull of a bag of messages by priority. -/
inductive Pulled : Multiset (QueueElem α) → Option α → Multiset (QueueElem α) → Prop
  | nothing : Pulled 0 none 0
  | message {front : QueueElem α} {rest : Multiset (QueueElem α)}
      (highest : ∀ elem ∈ rest, elem.prio ≤ front.prio) :
      Pulled (front ::ₘ rest) (some front.msg)
        (if front.duration - 1 = 0 then rest
          else { front with duration := front.duration - 1 } ::ₘ rest)

theorem Pulled.highest {queued queued' : Multiset (QueueElem α)} {msg : α}
    (h : Pulled queued (some msg) queued') :
    ∃ elem ∈ queued, elem.msg = msg ∧ ∀ other ∈ queued, other.prio ≤ elem.prio := by
  cases h with
  | @message front rest highest =>
    refine ⟨front, Multiset.mem_cons_self front rest, rfl, ?_⟩
    intro other hother
    rcases Multiset.mem_cons.mp hother with rfl | hrest
    · exact UInt32.le_refl _
    · exact highest other hrest

inductive Event (α : Type)
  | push (msg : α) (prio duration : UInt32) (address : ℕ)
  | pull

inductive Outcome (α : Type)
  | queued (msg : α) (duration : UInt32)
  | dropped
  | returned (msg : Option α)

/-- The queue with what has come of the calls so far. -/
structure Session (α : Type) where
  queue : MsgQueue α
  log : List (Outcome α)

def Session.start (capacity : ℕ) : Session α := ⟨msgQueueNew capacity, []⟩

def Session.step (s : Session α) : Event α → Option (Session α)
  | .push msg prio duration address =>
    (msgQueuePush s.queue msg prio duration address).map fun queue =>
      ⟨queue, (if s.queue.ptr ≥ s.queue.size then .dropped else .queued msg duration) :: s.log⟩
  | .pull => (msgQueuePull s.queue).map fun out => ⟨out.2, .returned out.1 :: s.log⟩

/-- A pull that removes the front lets the last element down by priority. -/
def PullsByPriority (queue : MsgQueue α) : Prop :=
  ∀ front, queue.elems 1 = some front → front.duration = 1 →
    SinksByPriority (queue.ptr - 1) (removeFront queue) 1

/-- The condition on the steps of a run. -/
def Session.ByPriority (s : Session α) : Event α → Prop
  | .push .. => True
  | .pull => PullsByPriority s.queue

variable [DecidableEq α]

/-- How often a message has been returned. -/
def returned (log : List (Outcome α)) (m : α) : ℕ :=
  (log.map fun outcome => match outcome with
    | .returned (some msg) => if msg = m then 1 else 0
    | _ => 0).sum

/-- How often the message was to be returned, by the durations it was queued with. -/
def given (log : List (Outcome α)) (m : α) : ℕ :=
  (log.map fun outcome => match outcome with
    | .queued msg duration => if msg = m then rounds duration else 0
    | _ => 0).sum

/-- How often a queued message is still to be returned. -/
def remaining (queued : Multiset (QueueElem α)) (m : α) : ℕ :=
  (queued.map fun elem => if elem.msg = m then rounds elem.duration else 0).sum

/-- What the next call does to the bag of queued messages, and what has come of the calls so far:
a message that has disappeared was returned as often as its durations say. -/
structure PriorityQueue (capacity : ℕ) (s : Session α) : Prop where
  pushes : ∀ msg prio duration address, ∃ queue,
    msgQueuePush s.queue msg prio duration address = some queue ∧
      if s.queue.live.card < capacity then
        queue.live = ⟨address, duration, prio, msg⟩ ::ₘ s.queue.live
      else queue = s.queue
  pulls : PullsByPriority s.queue → ∃ out queue,
    msgQueuePull s.queue = some (out, queue) ∧ Pulled s.queue.live out queue.live
  counts : ∀ m, returned s.log m + remaining s.queue.live m = given s.log m

end Statement

section Steps

/-- The array is as the capacity asks, and the queued elements are a heap by priority. -/
structure Sound (capacity : ℕ) (queue : MsgQueue α) : Prop where
  first : 1 ≤ queue.ptr
  within : queue.ptr ≤ queue.size
  size : queue.size = capacity + 1
  full : Full queue.elems queue.ptr
  ordered : Ordered queue.elems queue.ptr

variable {capacity : ℕ} {queue : MsgQueue α}

theorem card_bag {elems : Slots α} {n : ℕ} (h : Full elems n) :
    (bag elems (Finset.Ico 1 n)).card = n - 1 := by
  have hone : ∀ k ∈ Finset.Ico 1 n, (pointee (elems k)).card = 1 := by
    intro k hk
    obtain ⟨hpos, hlt⟩ := Finset.mem_Ico.mp hk
    obtain ⟨elem, helem⟩ := h k hpos hlt
    rw [helem]
    rfl
  rw [bag, Multiset.card_sum, Finset.sum_congr rfl hone, ← Finset.card_eq_sum_ones, Nat.card_Ico]

theorem Full.update {elems : Slots α} {n : ℕ} (h : Full elems n) (elem : QueueElem α) :
    Full (Function.update elems n (some elem)) (n + 1) := by
  intro k hk hkn
  by_cases hkn' : k = n
  · exact ⟨elem, by rw [hkn', Function.update_self]⟩
  · rw [Function.update_of_ne hkn']
    exact h k hk (by omega)

theorem prioAt_update_of_ne {elems : Slots α} {i k : ℕ} (h : k ≠ i)
    (elem : Option (QueueElem α)) : prioAt (Function.update elems i elem) k = prioAt elems k := by
  rw [prioAt, Function.update_of_ne h]
  rfl

theorem rising_update {elems : Slots α} {n : ℕ} (h : Ordered elems n)
    (elem : QueueElem α) : Rising (Function.update elems n (some elem)) (n + 1) n := by
  constructor
  · intro k hk hkn hne
    rw [prioAt_update_of_ne hne, prioAt_update_of_ne (by omega)]
    exact h k hk (by omega)
  · intro k hkn hchild htwo
    omega

theorem push_spec (h : Sound capacity queue) (msg : α) (prio duration : UInt32) (address : ℕ) :
    ∃ queue', msgQueuePush queue msg prio duration address = some queue' ∧
      Sound capacity queue' ∧
      (queue.ptr ≥ queue.size ∧ queue' = queue ∨ ¬ queue.ptr ≥ queue.size ∧
        queue'.live = ⟨address, duration, prio, msg⟩ ::ₘ queue.live) := by
  have hfirst := h.first
  have hwithin := h.within
  unfold msgQueuePush
  split_ifs with hroom
  · exact ⟨queue, rfl, h, .inl ⟨hroom, rfl⟩⟩
  · obtain ⟨elems, σ, hup, hordered, hmoved, hsupport⟩ :=
      siftUp_spec (h.full.update ⟨address, duration, prio, msg⟩)
        (rising_update h.ordered ⟨address, duration, prio, msg⟩) h.first
        (Nat.lt_succ_self _)
    refine ⟨{ queue with elems := elems, ptr := queue.ptr + 1 }, ?_,
      ⟨?_, ?_, h.size, ?_, hordered⟩, .inr ⟨hroom, ?_⟩⟩
    · dsimp only
      rw [hup]
      rfl
    · change 1 ≤ queue.ptr + 1
      omega
    · change queue.ptr + 1 ≤ queue.size
      omega
    · intro k hk hkn
      change ∃ elem, elems k = some elem
      rw [hmoved]
      by_cases hfix : σ k = k
      · rw [hfix]
        exact h.full.update _ k hk hkn
      · have hmove := hsupport (σ k) fun heq => hfix (σ.injective heq)
        exact h.full.update _ (σ k) hmove.1 hmove.2
    · change bag elems (Finset.Ico 1 (queue.ptr + 1)) = _
      rw [bag_moved hmoved hsupport, bag_last h.first (Function.update_self _ _ _)]
      congr 1
      apply bag_congr
      intro k hk
      exact Function.update_of_ne (Finset.mem_Ico.mp hk).2.ne _ _

theorem bag_removeFront (h : Full queue.elems queue.ptr) (hptr : 1 < queue.ptr) :
    bag (removeFront queue) (Finset.Ico 1 (queue.ptr - 1)) =
      bag queue.elems (Finset.Ico 2 queue.ptr) := by
  obtain ⟨last, hlast⟩ := h (queue.ptr - 1) (by omega) (by omega)
  rcases Nat.eq_or_lt_of_le hptr with htwo | hmore
  · rw [← htwo]
    rfl
  · have hself : removeFront queue 1 = some last := by
      rw [removeFront, Function.update_self, hlast]
    have hrest : bag (removeFront queue) (Finset.Ico 2 (queue.ptr - 1)) =
        bag queue.elems (Finset.Ico 2 (queue.ptr - 1)) := by
      apply bag_congr
      intro k hk
      obtain ⟨htwo, -⟩ := Finset.mem_Ico.mp hk
      exact Function.update_of_ne (by omega) _ _
    rw [bag_front (by omega) hself, hrest]
    have hsplit := Finset.sum_Ico_succ_top (show 2 ≤ queue.ptr - 1 by omega) fun k =>
      pointee (queue.elems k)
    rw [Nat.sub_add_cancel hptr.le, hlast, add_comm] at hsplit
    exact hsplit.symm

theorem sinking_removeFront (h : Ordered queue.elems queue.ptr) :
    Sinking (removeFront queue) (queue.ptr - 1) 1 := by
  constructor
  · intro k hk hkn hne
    rw [removeFront, prioAt_update_of_ne (by omega), prioAt_update_of_ne hne]
    exact h k hk (by omega)
  · intro k _ _ htwo
    omega

theorem rounds_pred (duration : UInt32) :
    rounds duration = (if duration - 1 = 0 then 0 else rounds (duration - 1)) + 1 := by
  have hlt : duration.toNat < 2 ^ 32 := duration.toNat_lt
  have hpred : (duration - 1).toNat = (2 ^ 32 - 1 + duration.toNat) % 2 ^ 32 :=
    UInt32.toNat_sub duration 1
  have hzero : ∀ d : UInt32, d = 0 ↔ d.toNat = 0 := fun d => UInt32.toNat_inj.symm
  simp only [rounds, hzero]
  split_ifs <;> omega

theorem last_round {duration : UInt32} (h : duration - 1 = 0) : duration = 1 := by
  have hpred : (duration - 1).toNat = (2 ^ 32 - 1 + duration.toNat) % 2 ^ 32 :=
    UInt32.toNat_sub duration 1
  have hlt : duration.toNat < 2 ^ 32 := duration.toNat_lt
  rw [h] at hpred
  change 0 = _ at hpred
  apply UInt32.toNat_inj.mp
  change duration.toNat = 1
  omega

theorem sound_front (h : Sound capacity queue) {front front' : QueueElem α}
    (hfront : queue.elems 1 = some front) (hprio : front'.prio = front.prio) :
    Sound capacity { queue with elems := Function.update queue.elems 1 (some front') } := by
  have hsame : ∀ k, prioAt (Function.update queue.elems 1 (some front')) k =
      prioAt queue.elems k := by
    intro k
    by_cases hk : k = 1
    · rw [hk, prioAt, Function.update_self, prioAt, hfront]
      exact congrArg UInt32.toNat hprio
    · exact prioAt_update_of_ne hk _
  refine ⟨h.first, h.within, h.size, ?_, ?_⟩
  · intro k hk hkn
    by_cases hone : k = 1
    · subst hone
      exact ⟨front', @Function.update_self ℕ _ _ 1 (some front') queue.elems⟩
    · obtain ⟨elem, helem⟩ := h.full k hk hkn
      exact ⟨elem, (Function.update_of_ne hone _ _).trans helem⟩
  · intro k hk hkn
    rw [hsame, hsame]
    exact h.ordered k hk hkn

theorem sound_removed (h : Sound capacity queue) (hptr : 2 < queue.ptr) (tmpMsg : Option α)
    (hsinks : SinksByPriority (queue.ptr - 1) (removeFront queue) 1) :
    Sound capacity ⟨siftDown (removeFront queue) (queue.ptr - 1) 1, queue.ptr - 1, queue.size,
        tmpMsg⟩ ∧
      bag (siftDown (removeFront queue) (queue.ptr - 1) 1) (Finset.Ico 1 (queue.ptr - 1)) =
        bag queue.elems (Finset.Ico 2 queue.ptr) := by
  have hwithin := h.within
  have hstale : removeFront queue (queue.ptr - 1) = removeFront queue 1 := by
    rw [removeFront, Function.update_self, Function.update_of_ne (by omega)]
  have hfull : Full (removeFront queue) (queue.ptr - 1) := by
    intro k hk hkn
    by_cases hone : k = 1
    · rw [hone, removeFront, Function.update_self]
      exact h.full (queue.ptr - 1) (by omega) (by omega)
    · rw [removeFront, Function.update_of_ne hone]
      exact h.full k hk (by omega)
  obtain ⟨σ, hmoved, hsupport⟩ := siftDown_moved (le_refl 1) hstale
  refine ⟨⟨?_, ?_, h.size, ?_, ?_⟩, ?_⟩
  · change 1 ≤ queue.ptr - 1
    omega
  · change queue.ptr - 1 ≤ queue.size
    omega
  · intro k hk hkn
    change ∃ elem, siftDown (removeFront queue) (queue.ptr - 1) 1 k = some elem
    rw [hmoved]
    by_cases hfix : σ k = k
    · rw [hfix]
      exact hfull k hk hkn
    · obtain ⟨hpos, hlt⟩ := hsupport (σ k) fun heq => hfix (σ.injective heq)
      exact hfull (σ k) hpos hlt
  · exact siftDown_ordered (le_refl 1) hstale (sinking_removeFront h.ordered) hsinks
  · rw [bag_moved hmoved hsupport]
    exact bag_removeFront h.full (by omega)

theorem removeFront_update (hptr : 2 < queue.ptr) (front : QueueElem α) :
    removeFront { queue with elems := Function.update queue.elems 1 (some front) } =
      removeFront queue := by
  unfold removeFront
  dsimp only
  rw [Function.update_of_ne (show queue.ptr - 1 ≠ 1 by omega), Function.update_idem]

theorem pull_spec (h : Sound capacity queue) (hpulls : PullsByPriority queue) :
    ∃ out queue', msgQueuePull queue = some (out, queue') ∧ Sound capacity queue' ∧
      Pulled queue.live out queue'.live := by
  have hfirst := h.first
  have hwithin := h.within
  unfold msgQueuePull
  split_ifs with hempty
  · have hnone : queue.live = 0 := by
      rw [MsgQueue.live, hempty]
      rfl
    exact ⟨none, queue, rfl, h, hnone ▸ .nothing⟩
  · obtain ⟨front, hfront⟩ := h.full 1 (le_refl 1) (by omega)
    have hlive : queue.live = front ::ₘ bag queue.elems (Finset.Ico 2 queue.ptr) :=
      bag_front (by omega) hfront
    have hhighest : ∀ elem ∈ bag queue.elems (Finset.Ico 2 queue.ptr),
        elem.prio ≤ front.prio := by
      intro elem helem
      obtain ⟨k, hk, hget⟩ := mem_bag helem
      obtain ⟨htwo, hlt⟩ := Finset.mem_Ico.mp hk
      have hle := h.ordered.front (by omega) hlt
      rw [prioAt, hget, prioAt, hfront] at hle
      exact UInt32.le_iff_toNat_le.mpr hle
    have hpulled := Pulled.message hhighest
    rw [← hlive] at hpulled
    rw [hfront, Option.map_some]
    dsimp only
    by_cases hlast : front.duration - 1 = 0
    · rw [if_pos hlast] at hpulled
      rw [if_neg (by rw [hlast]; decide)]
      refine ⟨_, _, rfl, ?_⟩
      rcases Nat.eq_or_lt_of_le (show 2 ≤ queue.ptr by omega) with htwo | hmore
      · -- the front was the only element
        refine ⟨⟨?_, ?_, h.size, ?_, ?_⟩, ?_⟩
        · change 1 ≤ queue.ptr - 1
          omega
        · change queue.ptr - 1 ≤ queue.size
          omega
        · intro k hk hkn
          change k < queue.ptr - 1 at hkn
          omega
        · intro k hk hkn
          change k < queue.ptr - 1 at hkn
          omega
        · rw [← htwo] at hpulled
          change Pulled queue.live _ (bag _ (Finset.Ico 1 (queue.ptr - 1)))
          rw [← htwo]
          exact hpulled
      · rw [removeFront_update hmore]
        obtain ⟨hsound, hbag⟩ := sound_removed h hmore (some front.msg)
          (hpulls front hfront (last_round hlast))
        refine ⟨hsound, ?_⟩
        rw [← hbag] at hpulled
        exact hpulled
    · rw [if_neg hlast] at hpulled
      rw [if_pos (UInt32.pos_iff_ne_zero.mpr hlast)]
      refine ⟨_, _, rfl, sound_front h hfront rfl, ?_⟩
      have hlive' : bag (Function.update queue.elems 1
          (some { front with duration := front.duration - 1 })) (Finset.Ico 1 queue.ptr) =
          { front with duration := front.duration - 1 } ::ₘ
            bag queue.elems (Finset.Ico 2 queue.ptr) := by
        rw [bag_front (by omega) (Function.update_self _ _ _)]
        congr 1
        apply bag_congr
        intro k hk
        have htwo := (Finset.mem_Ico.mp hk).1
        exact Function.update_of_ne (by omega) _ _
      rw [← hlive'] at hpulled
      exact hpulled

end Steps

section Runs

variable {capacity : ℕ} [DecidableEq α]

/-- The array is sound, and what has come of the calls adds up. -/
def Session.Sound (capacity : ℕ) (s : Session α) : Prop :=
  Queues.Sound capacity s.queue ∧
    ∀ m, returned s.log m + remaining s.queue.live m = given s.log m

theorem remaining_cons (elem : QueueElem α) (queued : Multiset (QueueElem α)) (m : α) :
    remaining (elem ::ₘ queued) m =
      (if elem.msg = m then rounds elem.duration else 0) + remaining queued m := by
  rw [remaining, Multiset.map_cons, Multiset.sum_cons]
  rfl

theorem remaining_pulled {queued queued' : Multiset (QueueElem α)} {out : Option α}
    (h : Pulled queued out queued') (log : List (Outcome α)) (m : α) :
    returned (.returned out :: log) m + remaining queued' m =
      returned log m + remaining queued m := by
  cases h with
  | nothing =>
    change 0 + returned log m + _ = _
    rw [Nat.zero_add]
  | @message front rest highest =>
    change (if front.msg = m then 1 else 0) + returned log m + _ = _
    rw [remaining_cons, rounds_pred front.duration]
    by_cases hlast : front.duration - 1 = 0
    · rw [if_pos hlast, if_pos hlast]
      split_ifs <;> omega
    · rw [if_neg hlast, if_neg hlast, remaining_cons]
      dsimp only
      split_ifs <;> omega

theorem Session.Sound.step {s t : Session α} {event : Event α} (h : s.Sound capacity)
    (hok : s.ByPriority event) (hstep : s.step event = some t) : t.Sound capacity := by
  obtain ⟨hsound, hcounts⟩ := h
  cases event with
  | push msg prio duration address =>
    obtain ⟨queue, hpush, hsound', hcase⟩ := push_spec hsound msg prio duration address
    rw [Session.step, hpush, Option.map_some] at hstep
    obtain rfl := Option.some.inj hstep
    refine ⟨hsound', ?_⟩
    intro m
    rcases hcase with ⟨hfull, rfl⟩ | ⟨hroom, hlive⟩
    · dsimp only
      rw [if_pos hfull]
      change 0 + returned s.log m + _ = 0 + given s.log m
      rw [Nat.zero_add, Nat.zero_add]
      exact hcounts m
    · dsimp only
      rw [if_neg hroom, hlive, remaining_cons]
      change 0 + returned s.log m + ((if msg = m then rounds duration else 0) + _) =
        (if msg = m then rounds duration else 0) + given s.log m
      have hcount := hcounts m
      omega
  | pull =>
    obtain ⟨out, queue, hpull, hsound', hpulled⟩ := pull_spec hsound hok
    rw [Session.step, hpull, Option.map_some] at hstep
    obtain rfl := Option.some.inj hstep
    refine ⟨hsound', ?_⟩
    intro m
    dsimp only
    rw [remaining_pulled hpulled]
    change returned s.log m + _ = 0 + given s.log m
    rw [Nat.zero_add]
    exact hcounts m

theorem Session.Sound.start (capacity : ℕ) :
    (Session.start capacity : Session α).Sound capacity := by
  refine ⟨⟨le_refl 1, Nat.le_add_left 1 capacity, rfl, ?_, ?_⟩, ?_⟩
  · intro k hk hkn
    exact absurd hkn (Nat.not_lt.mpr hk)
  · intro k hk hkn
    change k < 1 at hkn
    omega
  · intro m
    rfl

/-- A message that is to be returned twice, after its first pull. -/
def pulledOnce : Session ℕ :=
  ⟨⟨Function.update (Function.update (fun _ => none) 1 (some ⟨100, 2, 5, 7⟩)) 1
    (some ⟨100, 1, 5, 7⟩), 2, 2, none⟩, [.returned (some 7), .queued 7 2]⟩

/-- Three messages, of which the least is at the highest address, and the first of them pulled. -/
def addressed : List (Event ℕ) :=
  [.push 0 5 1 100, .push 1 3 1 300, .push 2 4 1 200, .pull]

end Runs

end RetroArch.Queues
