import Dispatch.Engine

/-!
# What tasks do

The work of a task, its closure and its failure handler are scripts: trees whose nodes are calls of the
engine and whose branches are the answers. Between two calls a script may read and change a memory that
all scripts share. A script ends normally, with a report, or by a panic; an end that is not normal also
ends the scripts that called it, up to the next one that is prepared for it.
-/

namespace Dispatch

/-- The right to release the tokens of a task, which is used up by the first release. -/
structure Handle where
  task : TaskIndex
  released : Bool := false
  deriving DecidableEq, Repr

def Handle.describe (handle : Handle) (engine : Engine) : String :=
  Text.fields "LockRelease"
    [("task", (engine.tasks[handle.task]?.map Task.describeRef).getD ""),
      ("released", Text.truth handle.released)]

/-- A way to schedule closures, all at the same priority. -/
structure Executor where
  priority : Nat
  deriving DecidableEq, Repr

def Executor.describe (executor : Executor) : String :=
  Text.fields "PriorityExecutor" [("priority", Nat.repr executor.priority)]

/-- A piece of work, with a memory of type `σ`. -/
inductive Script (σ : Type) where
  | stop (ending : Ending)
  /-- Changes the memory. -/
  | remember (change : Engine → σ → σ) (next : Script σ)
  /-- Goes on as the engine and the memory say. -/
  | recall (next : Engine → σ → Script σ)
  /-- Goes on with the ending of another script, whatever it is. -/
  | attempt (body : Script σ) (next : Ending → Script σ)
  | schedule (task : TaskIndex) (next : Except Fault Unit → Script σ)
  /-- Makes a closure task and schedules it. -/
  | submit (priority : Nat) (closure : Script σ) (next : TaskIndex → Except Fault Unit → Script σ)
  | poll (next : Option TaskIndex → Script σ)
  | claim (task : TaskIndex) (next : Bool → Script σ)
  /-- Releases the tokens of a task without a handle. -/
  | releaseFor (task : TaskIndex) (next : Except Fault Unit → Script σ)
  /-- Releases the tokens through the handle at hand. -/
  | release (next : Except Fault Unit → Script σ)
  /-- Looks at the handle at hand. -/
  | atHand (next : Option Handle → Script σ)
  /-- Runs the work of a task with a new handle, and tells how it ended and whether it released. -/
  | run (task : TaskIndex) (next : Except Report Unit → Bool → Script σ)
  /-- Runs a task as a worker does: its work, the release, and the report of a failure. -/
  | execute (worker : Nat) (task : TaskIndex) (next : Script σ)
  /-- Runs a script with a new handle for a task at hand, and tells whether it released. -/
  | withHandle (task : TaskIndex) (body : Script σ) (next : Bool → Script σ)
  /-- Hands a failure to a task. -/
  | report (task : TaskIndex) (failure : Failure) (next : Script σ)
  | setPriority (task : TaskIndex) (priority : Nat) (next : Script σ)
  | setTokens (task : TaskIndex) (tokens : List Token) (next : Script σ)
  | applyPriority (task : TaskIndex) (next : Except Fault Bool → Script σ)
  | shutDown (next : Script σ)
  /-- Waits until the other workers have stopped. -/
  | join (next : Script σ)
  /-- Raises a signal. -/
  | signal (name : String) (next : Script σ)
  /-- Waits until a signal has been raised. -/
  | await (name : String) (next : Script σ)
  /-- Rests as a worker until a task is queued or the engine is shut down. -/
  | rest (worker : Nat) (next : Script σ)
  /-- Tells which worker runs the script, if one does. -/
  | whoAmI (next : Option Nat → Script σ)

namespace Script

variable {σ : Type}

/-- Runs a script and takes a report for a normal end. -/
def ignoringReports (body : Script σ) : Script σ :=
  .attempt body fun
    | .failed _ => .stop .normal
    | ending => .stop ending

/-- What a worker does over and over: run a task, or rest if there is none to run. -/
def shift (worker : Nat) : Script σ :=
  .poll fun
    | none => .rest worker (.stop .normal)
    | some task => .execute worker task (.stop .normal)

end Script

end Dispatch
