import Dispatch.Text.Layout

/-!
# Statistics of an engine

Six counters, each raised by one kind of occurrence and never lowered.
-/

namespace Dispatch

/-- How often each kind of occurrence was met. -/
structure Stats where
  /-- Tasks that were accepted. -/
  scheduled : Nat := 0
  /-- Tasks that ran to completion. -/
  executed : Nat := 0
  /-- Tasks whose work failed. -/
  failed : Nat := 0
  /-- Claims that found a token held. -/
  contentions : Nat := 0
  /-- Waiters that were queued again. -/
  requeued : Nat := 0
  /-- Times a worker went to rest. -/
  parks : Nat := 0
  deriving DecidableEq, Repr

namespace Stats

def countScheduled (stats : Stats) : Stats :=
  { stats with scheduled := stats.scheduled + 1 }

def countExecuted (stats : Stats) : Stats :=
  { stats with executed := stats.executed + 1 }

def countFailed (stats : Stats) : Stats :=
  { stats with failed := stats.failed + 1 }

def countContention (stats : Stats) : Stats :=
  { stats with contentions := stats.contentions + 1 }

def countRequeue (stats : Stats) : Stats :=
  { stats with requeued := stats.requeued + 1 }

def countPark (stats : Stats) : Stats :=
  { stats with parks := stats.parks + 1 }

/-- Tasks that ran, well or not. -/
def finished (stats : Stats) : Nat :=
  stats.executed + stats.failed

def describe (stats : Stats) : String :=
  Text.fields "ExecutorStats"
    [("tasks_scheduled", Nat.repr stats.scheduled), ("tasks_executed", Nat.repr stats.executed),
      ("tasks_failed", Nat.repr stats.failed), ("lock_contentions", Nat.repr stats.contentions),
      ("waiters_requeued", Nat.repr stats.requeued), ("parks", Nat.repr stats.parks)]

end Stats

end Dispatch
