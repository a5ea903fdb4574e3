/- The queue of tasks that runs without threads. -/

import RetroArch.Library.Linked
import RetroArch.Library.Run

namespace RetroArch.Queues.Gather

open Library.Linked Library.Run

inductive TaskType
  | none
  | blocking
  deriving DecidableEq, Repr

structure Task where
  type : TaskType
  /-- Whether there is a callback. -/
  callback : Bool
  /-- Set by the handler when the task has finished executing. -/
  finished : Bool
  next : Option ℕ
  deriving DecidableEq, Repr

abbrev Tasks := ℕ → Task

structure TaskQueue where
  front : Option ℕ
  back : Option ℕ
  deriving DecidableEq, Repr

def setNext (heap : Tasks) (task : ℕ) (next : Option ℕ) : Tasks :=
  Function.update heap task { heap task with next := next }

def setFinished (heap : Tasks) (task : ℕ) : Tasks :=
  Function.update heap task { heap task with finished := true }

/-- There is no result where `back` is dereferenced without pointing to a task. -/
def taskQueuePut (heap : Tasks) (queue : TaskQueue) (task : ℕ) : Option (Tasks × TaskQueue) :=
  let heap := setNext heap task none
  match queue.front with
  | some front =>
    queue.back.map fun back => (setNext heap back (some task), ⟨some front, some task⟩)
  | none => some (heap, ⟨some task, some task⟩)

def taskQueueGet (heap : Tasks) (queue : TaskQueue) : Option (ℕ × Tasks × TaskQueue) :=
  queue.front.map fun task => (task, setNext heap task none, ⟨(heap task).next, queue.back⟩)

/-- Where the code is: outside of a gather, or at one of its loops. -/
inductive Phase
  | idle
  /-- Moving the running tasks to the private list, which starts at `queue`. -/
  | detaching (queue : Option ℕ)
  /-- At the test of the loop over the private list. -/
  | walking (task : Option ℕ)
  /-- In the handler of a task or its progress callback. -/
  | handling (task : ℕ) (next : Option ℕ)
  /-- At the test of the loop over the finished tasks. -/
  | collecting
  /-- In the callback of a finished task, its progress callback or its cleanup. -/
  | calling (task : ℕ)
  deriving DecidableEq, Repr

structure State where
  heap : Tasks
  /-- How many tasks there have been. -/
  count : ℕ
  running : TaskQueue
  done : TaskQueue
  phase : Phase
  /-- The tasks that `task_queue_push` has accepted, those that were running when the gather began,
  those whose handler it has called, and those whose callback was ever called. -/
  accepted : List ℕ
  began : List ℕ
  handled : List ℕ
  called : List ℕ

def initial : State where
  heap := fun _ => ⟨.none, false, false, none⟩
  count := 0
  running := ⟨none, none⟩
  done := ⟨none, none⟩
  phase := .idle
  accepted := []
  began := []
  handled := []
  called := []

def links (heap : Tasks) (task : ℕ) : Option ℕ := (heap task).next

def runningTasks (s : State) : List ℕ := nodes (links s.heap) s.count s.running.front

def isBlocking (s : State) (task : ℕ) : Bool := (s.heap task).type = .blocking

/-- Pushing a task made for it. -/
def taskQueuePush (s : State) (type : TaskType) (callback : Bool) : Option State :=
  let s := { s with
    heap := Function.update s.heap s.count ⟨type, callback, false, none⟩, count := s.count + 1 }
  let task := s.count - 1
  -- skip this task, user must try again later
  if type = .blocking ∧ (runningTasks s).any (isBlocking s) then some s
  else
    (taskQueuePut s.heap s.running task).map fun (heap, running) =>
      { s with heap := heap, running := running, accepted := s.accepted ++ [task] }

/-- What the code itself does next. -/
def tick (s : State) : Option State :=
  match s.phase with
  | .idle => none
  | .detaching queue =>
    match taskQueueGet s.heap s.running with
    | some (task, heap, running) =>
      some { s with
        heap := setNext heap task queue, running := running, phase := .detaching (some task) }
    | none => some { s with phase := .walking queue }
  | .walking (some task) =>
    some { s with
      handled := s.handled ++ [task], phase := .handling task (s.heap task).next }
  | .walking none => some { s with phase := .collecting }
  | .handling task next =>
    if (s.heap task).finished then
      (taskQueuePut s.heap s.done task).map fun (heap, done) =>
        { s with heap := heap, done := done, phase := .walking next }
    else
      (taskQueuePut s.heap s.running task).map fun (heap, running) =>
        { s with heap := heap, running := running, phase := .walking next }
  | .collecting =>
    match taskQueueGet s.heap s.done with
    | some (task, heap, done) =>
      some { s with
        heap := heap, done := done, phase := .calling task,
        called := if (heap task).callback then s.called ++ [task] else s.called }
    | none => some { s with phase := .idle }
  | .calling _ => some { s with phase := .collecting }

inductive Event
  | push (type : TaskType) (callback : Bool)
  | gather
  | tick
  /-- The handler sets `finished`. -/
  | finish
  deriving DecidableEq, Repr

/-- Code of others runs outside of a gather and in handlers and callbacks. -/
def Phase.isOpen : Phase → Bool
  | .idle | .handling _ _ | .calling _ => true
  | _ => false

def step (s : State) : Event → Option State
  | .push type callback => if s.phase.isOpen then taskQueuePush s type callback else none
  | .gather =>
    if s.phase = .idle then
      some { s with phase := .detaching none, began := runningTasks s, handled := [] }
    else none
  | .tick => tick s
  | .finish =>
    match s.phase with
    | .handling task _ => some { s with heap := setFinished s.heap task }
    | _ => none

end RetroArch.Queues.Gather
