import Dispatch.Engine.World

/-!
# Threads

A thread runs a script step by step. What it will do after the calls it is in the middle of stands on a
stack of frames, so that every moment of a run is a state: between two steps, inside the work of a task,
inside a failure handler, and in the middle of a release whose waiters are being queued again.
-/

namespace Dispatch

inductive AfterRelease (σ : Type) where
  /-- A script goes on with the outcome. -/
  | answer (handle : Option HandleIndex) (next : Except Fault Unit → Script σ)
  /-- The outcome is the ending of a closure task. -/
  | closureEnd
  /-- A worker goes on with a task whose work has ended. -/
  | execution (worker : Nat) (task : TaskIndex) (failure : Option Failure)

/-- A release that has taken the tokens out of the table. -/
structure Freeing (σ : Type) where
  task : TaskIndex
  /-- The waiters of the list freed last that are still to be queued. -/
  waiters : List TaskIndex
  /-- The lists that are still to be freed. -/
  lists : List ListIndex
  /-- The number of lists taken out of the table. -/
  freed : Nat
  outcome : Except Fault Unit
  after : AfterRelease σ

inductive AfterClaim (σ : Type) where
  | answer (next : Bool → Script σ)
  | poll (next : Option TaskIndex → Script σ)

inductive Frame (σ : Type) where
  /-- Goes on with a script, unless the call ended by a panic. -/
  | resume (handle : Option HandleIndex) (next : Script σ)
  /-- Goes on with a script that is told how the call ended. -/
  | attempting (handle : Option HandleIndex) (next : Ending → Script σ)
  /-- Ends a run of a task. -/
  | running (handle : Option HandleIndex) (own : HandleIndex) (next : Except Report Unit → Bool → Script σ)
  /-- Ends the use of a handle. -/
  | holding (handle : Option HandleIndex) (own : HandleIndex) (next : Bool → Script σ)
  /-- Releases after the work of a task. -/
  | working (worker : Nat) (task : TaskIndex) (own : HandleIndex)
  /-- Ends the report of a failure by a worker. -/
  | reporting (worker : Nat) (task : TaskIndex)
  /-- Releases after the closure of a task, if it ended normally. -/
  | closing (own : HandleIndex)
  /-- Goes on with a release after the handler of a rejected waiter. -/
  | rejecting (task : TaskIndex) (freeing : Freeing σ)

inductive Control (σ : Type) where
  /-- Runs a script with a handle at hand, or with none. -/
  | script (handle : Option HandleIndex) (script : Script σ)
  /-- Frees the lists of a release and queues their waiters. -/
  | freeing (freeing : Freeing σ)
  /-- Tries again to claim the tokens of a task. -/
  | claiming (handle : Option HandleIndex) (task : TaskIndex) (list : ListIndex) (after : AfterClaim σ)
  /-- Waits for workers. -/
  | joining (handle : Option HandleIndex) (workers : List Nat) (next : Script σ)
  /-- Rests as a worker. -/
  | resting (handle : Option HandleIndex) (worker : Nat) (next : Script σ)

/-- A thread, of a worker or not. -/
structure Thread (σ : Type) where
  worker : Option Nat
  control : Control σ
  stack : List (Frame σ)

inductive Progress where
  | moved
  /-- The thread waits for others. -/
  | blocked
  /-- The thread tried to claim tokens from a holder that has gone, and will try again. -/
  | refused
  | ended (ending : Ending)
  deriving DecidableEq, Repr

/-- A step and the state after it. -/
structure Turn (σ : Type) where
  progress : Progress
  world : World σ
  thread : Thread σ

namespace Thread

variable {σ : Type}

def ofScript (worker : Option Nat) (script : Script σ) : Thread σ :=
  { worker, control := .script none script, stack := [] }

def doing (thread : Thread σ) (control : Control σ) : Thread σ :=
  { thread with control }

def calling (thread : Thread σ) (frame : Frame σ) (control : Control σ) : Thread σ :=
  { thread with control, stack := frame :: thread.stack }

/-- A step of a thread that moved. -/
def turn (world : World σ) (thread : Thread σ) : Turn σ :=
  { progress := .moved, world, thread }

end Thread

end Dispatch
