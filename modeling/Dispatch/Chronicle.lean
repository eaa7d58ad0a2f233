import Dispatch.Failure
import Dispatch.HolderTable
import Dispatch.Log
import Dispatch.Task

/-!
# What happens in an engine

Everything that happens to a task is an occurrence. Some occurrences are told in the log; the others are
there to be counted.
-/

namespace Dispatch

/-- The release handle of a running task, as the engine refers to it. -/
abbrev HandleIndex := Nat

inductive Occurrence where
  | started (workers levels : Nat)
  | shuttingDown (pending : Nat)
  /-- A task was accepted. -/
  | submitted (task : TaskIndex)
  /-- A task was put at the end of a level. -/
  | enqueued (task : TaskIndex) (level : Nat)
  /-- A task was taken from the front of a level. -/
  | dequeued (task : TaskIndex) (level : Nat)
  | moved (task : TaskIndex) (source target : Nat)
  /-- All tokens of a task were entered in the table of holders. -/
  | claimed (task : TaskIndex) (tokens : Nat)
  /-- The holder of a token gave up its list while the task was about to wait on it. -/
  | retried (task : TaskIndex)
  /-- A task waits on a list. -/
  | waiting (task : TaskIndex) (list : ListIndex)
  /-- A task was handed out to be run. -/
  | handedOut (task : TaskIndex)
  /-- The tokens of a task were taken out of the table of holders, through a handle if there was one. -/
  | released (task : TaskIndex) (handle : Option HandleIndex) (outcome : Except Fault Unit)
  | releaseFailed (task : TaskIndex) (fault : Fault) (freed : Nat)
  /-- A waiter was queued again. -/
  | requeued (task : TaskIndex)
  | requeueRefused (task : TaskIndex) (fault : Fault)
  /-- The closure of a task was taken to be run. -/
  | opened (task : TaskIndex)
  /-- A task completed. -/
  | executed (task : TaskIndex)
  | failed (worker : Nat) (task : TaskIndex) (failure : Failure)
  /-- The worker's own release failed, after the work of the task did or did not. -/
  | releaseRefused (worker : Nat) (task : TaskIndex) (earlier : Option Failure) (fault : Fault)
  /-- A failure was handed to its task. -/
  | reported (task : TaskIndex) (failure : Failure)
  /-- A task without a handler got a failure. -/
  | unheard (task : TaskIndex) (kind : TaskKind) (failure : Failure)
  /-- The handler of a task panicked. -/
  | handlerPanicked (worker : Option Nat) (task : TaskIndex) (payload : Payload)
  | initializerPanicked (worker : Nat) (payload : Payload)
  | workerStarted (worker : Nat)
  | workerParked (worker : Nat)
  | workerStopped (worker : Nat)

namespace Occurrence

/-- How an occurrence is told, if it is. -/
def entry? : Occurrence → Option LogEntry
  | started workers levels =>
    some ⟨.debug, "executor started", [("workers", Nat.repr workers), ("levels", Nat.repr levels)]⟩
  | shuttingDown pending => some ⟨.debug, "executor shutting down", [("pending", Nat.repr pending)]⟩
  | enqueued _ level => some ⟨.trace, "enqueued element", [("priority", Nat.repr level)]⟩
  | dequeued _ level => some ⟨.trace, "dequeued element", [("priority", Nat.repr level)]⟩
  | moved _ source target =>
    some ⟨.trace, "changed element priority",
      [("from", Nat.repr source), ("to", Nat.repr target)]⟩
  | claimed _ tokens => some ⟨.trace, "claimed all locks", [("locks", Nat.repr tokens)]⟩
  | retried _ => some ⟨.trace, "holder released during claim, retrying", []⟩
  | releaseFailed _ fault freed =>
    some ⟨.warn, "lock release failed", [("error", fault.message), ("freed", Nat.repr freed)]⟩
  | requeueRefused _ fault =>
    some ⟨.error, "failed to requeue waiting task", [("error", fault.message)]⟩
  | failed worker _ failure =>
    some ⟨.warn, "task failed", [("worker", Nat.repr worker), ("error", failure.message)]⟩
  | releaseRefused worker _ none fault =>
    some ⟨.error, "Error while releasing locks",
      [("worker", Nat.repr worker), ("error", fault.message)]⟩
  | releaseRefused worker _ (some earlier) fault =>
    some ⟨.error, "Error while releasing locks",
      [("worker", Nat.repr worker), ("error", earlier.message), ("release_error", fault.message)]⟩
  | unheard _ (.closure serial name) failure =>
    some ⟨.error, "task failed",
      [("task", serialName serial), ("name", name), ("error", failure.message)]⟩
  | unheard _ .repeatable failure =>
    some ⟨.error, "task failed",
      [("error", failure.message), ("suppressed", Nat.repr failure.suppressed.length)]⟩
  | handlerPanicked (some worker) _ payload =>
    some ⟨.error, "Error while propagating task failure",
      [("worker", Nat.repr worker), ("panic", payload.message)]⟩
  | handlerPanicked none _ payload =>
    some ⟨.error, "Error while propagating task failure", [("panic", payload.message)]⟩
  | initializerPanicked worker payload =>
    some ⟨.error, "worker initializer panicked",
      [("worker", Nat.repr worker), ("panic", payload.message)]⟩
  | workerStarted worker => some ⟨.debug, "worker started", [("worker", Nat.repr worker)]⟩
  | workerParked worker => some ⟨.trace, "worker parked", [("worker", Nat.repr worker)]⟩
  | workerStopped worker => some ⟨.debug, "worker stopped", [("worker", Nat.repr worker)]⟩
  | submitted _ | waiting .. | handedOut _ | released .. | requeued _ | opened _ | executed _
  | reported .. => none

end Occurrence

end Dispatch
