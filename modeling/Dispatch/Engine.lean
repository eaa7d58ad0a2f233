import Dispatch.Chronicle
import Dispatch.PriorityQueue
import Dispatch.Stats
import Dispatch.WorkerStatus

/-!
# The engine

Ready tasks wait in a priority queue. A task that is taken from it may run once all its tokens have been
claimed; if one of them is held, the task waits on the list of the holder, and is queued again when the
holder releases. The functions below are the actions that are not interrupted: what runs in between, the
work of tasks and their failure handlers, is the subject of the scripts and threads.
-/

namespace Dispatch

/-- The state of an engine. -/
structure Engine where
  config : Config
  queue : PriorityQueue TaskIndex
  table : HolderTable
  lists : WaitingLists
  tasks : Array Task
  /-- Whether the engine has been shut down. -/
  halted : Bool
  stats : Stats
  workers : Array WorkerStatus
  /-- The serial number of the next closure task. -/
  nextSerial : Nat
  /-- What happened so far, the latest first. -/
  chronicle : List Occurrence

/-- The outcome of an attempt to claim the tokens of a task. -/
inductive Admission where
  /-- All tokens are held by the task. -/
  | acquired (engine : Engine)
  /-- The task waits on the list of a holder. -/
  | waiting (engine : Engine)
  /-- The list of the holder has been freed; the claim is to be tried again with the same list. -/
  | refused (engine : Engine) (list : ListIndex)

/-- The outcome of a search for a task to run. -/
inductive Poll where
  /-- A task to run, its tokens claimed. -/
  | found (task : TaskIndex) (engine : Engine)
  /-- The queue is exhausted. -/
  | exhausted (engine : Engine)
  /-- The claim for a task is to be tried again before the search goes on. -/
  | refused (task : TaskIndex) (engine : Engine) (list : ListIndex)

namespace Engine

def record (engine : Engine) (occurrence : Occurrence) : Engine :=
  { engine with chronicle := occurrence :: engine.chronicle }

def idle (config : Config) (queue : PriorityQueue TaskIndex) : Engine :=
  { config, queue
    table := .empty
    lists := {}
    tasks := #[]
    halted := false
    stats := {}
    workers := Array.replicate config.workers .running
    nextSerial := 1
    chronicle := [] }

/-- Starts an engine with checked settings. -/
def start (config : Config) : Except Fault Engine :=
  match config.check with
  | .error fault => .error (.config fault)
  | .ok () =>
    match PriorityQueue.ofLevels config.levels with
    | .error fault => .error (.queue fault)
    | .ok queue => .ok ((idle config queue).record (.started config.workers config.levels))

def priority (engine : Engine) (task : TaskIndex) : Nat :=
  (engine.tasks[task]?.map Task.priority).getD 0

def tokens (engine : Engine) (task : TaskIndex) : List Token :=
  (engine.tasks[task]?.map Task.tokens).getD []

def isTaken (engine : Engine) (task : TaskIndex) : Bool :=
  (engine.tasks[task]?.map Task.taken).getD false

def kind (engine : Engine) (task : TaskIndex) : TaskKind :=
  (engine.tasks[task]?.map Task.kind).getD .repeatable

/-- The number of queued tasks; those that wait for tokens are not counted. -/
def pending (engine : Engine) : Nat :=
  engine.queue.size

def isRunning (engine : Engine) : Bool :=
  !engine.halted

def describe (engine : Engine) : String :=
  Text.fields "ExecutorManager"
    [("config", engine.config.describe), ("pending", Nat.repr engine.pending),
      ("shutdown", Text.truth engine.halted)]

def addTask (engine : Engine) (task : Task) : TaskIndex × Engine :=
  (engine.tasks.size, { engine with tasks := engine.tasks.push task })

/-- Makes a closure task known under the next serial number. -/
def addClosure (engine : Engine) (draft : Draft) : TaskIndex × Engine :=
  let (task, engine) := engine.addTask (draft.build engine.nextSerial)
  (task, { engine with nextSerial := engine.nextSerial + 1 })

def modifyTask (engine : Engine) (task : TaskIndex) (change : Task → Task) : Engine :=
  { engine with tasks := engine.tasks.modify task change }

/-- Sets the priority of a task. A queued task stays where it is. -/
def setPriority (engine : Engine) (task : TaskIndex) (priority : Nat) : Engine :=
  engine.modifyTask task fun known => { known with priority }

/-- Sets the tokens of a task. Tokens that are held stay as they are. -/
def setTokens (engine : Engine) (task : TaskIndex) (tokens : List Token) : Engine :=
  engine.modifyTask task fun known => { known with tokens }

/-- Takes the closure of a task, to be run. -/
def takeClosure (engine : Engine) (task : TaskIndex) : Engine :=
  (engine.modifyTask task fun known => { known with taken := true }).record (.opened task)

def enqueue (engine : Engine) (task : TaskIndex) : Except QueueFault Engine :=
  match engine.queue.enqueue task (engine.priority task) with
  | .error fault => .error fault
  | .ok queue =>
    .ok ({ engine with queue }.record (.enqueued task (engine.priority task)))

def schedule (engine : Engine) (task : TaskIndex) : Except Fault Engine :=
  if engine.halted then .error .shutDown
  else
    match engine.enqueue task with
    | .error fault => .error (.queue fault)
    | .ok engine =>
      .ok ({ engine with stats := engine.stats.countScheduled }.record (.submitted task))

/-- Moves a queued task to the level of its priority, and says whether it moved. -/
def applyPriority (engine : Engine) (task : TaskIndex) : Except Fault (Bool × Engine) :=
  match engine.queue.moveTo task (engine.priority task) with
  | .error fault => .error (.queue fault)
  | .ok (none, queue) => .ok (false, { engine with queue })
  | .ok (some source, queue) =>
    .ok (true, { engine with queue }.record (.moved task source (engine.priority task)))

/-- Asks the engine to stop. -/
def shutDown (engine : Engine) : Engine :=
  if engine.halted then engine
  else { engine.record (.shuttingDown engine.pending) with halted := true }

/-- Tries once to claim tokens for a task with a list on which nobody waits. -/
def attempt (engine : Engine) (task : TaskIndex) (tokens : List Token) (list : ListIndex) : Admission :=
  match engine.table.claim tokens list with
  | (.acquired, table) => .acquired ({ engine with table }.record (.claimed task tokens.length))
  | (.held holder, table) =>
    let engine := { engine with table, stats := engine.stats.countContention }
    match engine.lists.add? holder task with
    | none => .refused (engine.record (.retried task)) list
    | some lists =>
      .waiting ({ engine with lists := (lists.free list).2 }.record (.waiting task holder))

/-- Claims the tokens of a task, or lets it wait for the holder of the first one that is held. -/
def claimTokens (engine : Engine) (task : TaskIndex) : Admission :=
  let tokens := Token.distinct (engine.tokens task)
  if tokens.isEmpty then .acquired engine
  else
    let (list, lists) := engine.lists.make
    { engine with lists }.attempt task tokens list

/-- Takes tasks from the queue until one of them claims its tokens, at most as many as the bound says. -/
def pollWithin : Nat → Engine → Poll
  | 0, engine => .exhausted engine
  | bound + 1, engine =>
    match engine.queue.dequeue with
    | (none, queue) => .exhausted { engine with queue }
    | (some (level, task), queue) =>
      match ({ engine with queue }.record (.dequeued task level)).claimTokens task with
      | .acquired engine => .found task (engine.record (.handedOut task))
      | .waiting engine => pollWithin bound engine
      | .refused engine list => .refused task engine list

/-- Takes tasks from the queue until one of them claims its tokens. -/
def poll (engine : Engine) : Poll :=
  pollWithin (engine.queue.queued + 1) engine

/-- Takes the tokens of a task out of the table of holders, through a handle if there is one. Answers the
lists that are to be freed. -/
def takeTokens (engine : Engine) (task : TaskIndex) (handle : Option HandleIndex) :
    List ListIndex × Except Fault Unit × Engine :=
  let taken := engine.table.take (Token.distinct (engine.tokens task))
  (taken.lists, taken.outcome,
    { engine with table := taken.table }.record (.released task handle taken.outcome))

def freeList (engine : Engine) (list : ListIndex) : List TaskIndex × Engine :=
  let (waiters, lists) := engine.lists.free list
  (waiters, { engine with lists })

/-- Queues a waiter again, or answers why that is refused. -/
def requeue (engine : Engine) (task : TaskIndex) : Option Fault × Engine :=
  match engine.enqueue task with
  | .ok engine =>
    (none, { engine with stats := engine.stats.countRequeue }.record (.requeued task))
  | .error fault => (some (.queue fault), engine.record (.requeueRefused task (.queue fault)))

end Engine

end Dispatch
