import Dispatch.Engine.World

/-!
# Workers side by side

Seen closely, a claim or a release is not one action but several: a token is entered in the table, or
taken back, or taken out; a task is put on a list; a list is freed; a waiter is queued. Between two such
actions of one worker any number of actions of others may take place. A phase tells where a worker stands
in what it does, and a step of a phase is the next of these actions, or no action at all.
-/

namespace Dispatch

/-- Where a worker stands. -/
inductive Phase where
  /-- About to take a task from the queue. -/
  | idle
  /-- Enters the tokens of a task with a list of its own. -/
  | entering (task : TaskIndex) (list : ListIndex) (entered rest : List Token)
  /-- Takes back the tokens entered so far, to wait on the list of a holder after that. -/
  | withdrawing (task : TaskIndex) (list holder : ListIndex) (entered : List Token)
  /-- Has claimed all tokens of a task and not begun to release them. -/
  | holding (task : TaskIndex)
  /-- Takes the tokens of a task out of the table, with the lists of those taken out so far. -/
  | taking (task : TaskIndex) (rest : List Token) (lists : List ListIndex)
  /-- Queues the waiters of the list freed last, and frees further lists. -/
  | freeing (waiters : List TaskIndex) (lists : List ListIndex)
  deriving DecidableEq, Repr

namespace Engine

def beginClaim (engine : Engine) (task : TaskIndex) : Engine × Phase :=
  let tokens := Token.distinct (engine.tokens task)
  if tokens.isEmpty then (engine.record (.handedOut task), .holding task)
  else
    let (list, lists) := engine.lists.make
    ({ engine with lists }, .entering task list [] tokens)

/-- Enters one token with a list. -/
def enterToken (engine : Engine) (task : TaskIndex) (list : ListIndex) (entered : List Token)
    (token : Token) (rest : List Token) : Engine × Phase :=
  match engine.table.holders.getThenInsertIfNew? token list with
  | (some holder, _) => (engine, .withdrawing task list holder entered)
  | (none, holders) => ({ engine with table := ⟨holders⟩ }, .entering task list (entered ++ [token]) rest)

/-- Lets a task wait on the list of a holder, and turns to free its own; if that of the holder has been
freed, the claim begins again. -/
def register (engine : Engine) (task : TaskIndex) (list holder : ListIndex) : Engine × Phase :=
  let engine := { engine with stats := engine.stats.countContention }
  match engine.lists.add? holder task with
  | none =>
    (engine.record (.retried task),
      .entering task list [] (Token.distinct (engine.tokens task)))
  | some lists => ({ engine with lists }.record (.waiting task holder), .freeing [] [list])

/-- Takes the first of the tokens that are left out of the table. -/
def takeNext (engine : Engine) (task : TaskIndex) (lists : List ListIndex) :
    List Token → Engine × Phase
  | [] => (engine.record (.released task none (.ok ())), .freeing [] lists)
  | token :: rest =>
    match engine.table.remove token with
    | (none, table) =>
      ({ engine with table }.record (.released task none (.error (.notHeld token))),
        .freeing [] lists)
    | (some list, table) =>
      if lists.contains list then ({ engine with table }, .taking task rest lists)
      else if lists.isEmpty then ({ engine with table }, .taking task rest [list])
      else
        ({ engine with table }.record (.released task none (.error .mixedHolders)),
          .freeing [] (lists ++ [list]))

/-- Queues a waiter again, or tells it that it was rejected. -/
def requeueOrReject (engine : Engine) (task : TaskIndex) : Engine :=
  match engine.requeue task with
  | (none, engine) => engine
  | (some fault, engine) => engine.record (.reported task { cause := .rejected fault })

end Engine

def Phase.step (engine : Engine) : Phase → Engine × Phase
  | idle =>
    match engine.queue.dequeue with
    | (none, queue) => ({ engine with queue }, idle)
    | (some (level, task), queue) =>
      ({ engine with queue }.record (.dequeued task level)).beginClaim task
  | entering task list entered (token :: rest) => engine.enterToken task list entered token rest
  | entering task _ entered [] =>
    ((engine.record (.claimed task entered.length)).record (.handedOut task), holding task)
  | withdrawing task list holder (token :: entered) =>
    ({ engine with table := engine.table.withdraw list token }, withdrawing task list holder entered)
  | withdrawing task list holder [] => engine.register task list holder
  | holding task => engine.takeNext task [] (Token.distinct (engine.tokens task))
  | taking task rest lists => engine.takeNext task lists rest
  | freeing (task :: waiters) lists => (engine.requeueOrReject task, freeing waiters lists)
  | freeing [] (list :: lists) =>
    let (waiters, engine) := engine.freeList list
    (engine, freeing waiters lists)
  | freeing [] [] => (engine, idle)

/-- An engine and the workers that share it. -/
structure Arena where
  engine : Engine
  workers : List Phase

namespace Arena

def ofEngine (engine : Engine) (workers : Nat) : Arena :=
  ⟨engine, List.replicate workers .idle⟩

def submit (arena : Arena) (task : TaskIndex) : Arena :=
  match arena.engine.schedule task with
  | .ok engine => { arena with engine }
  | .error _ => arena

def step (arena : Arena) (worker : Nat) : Arena :=
  match arena.workers[worker]? with
  | none => arena
  | some phase =>
    let (engine, phase) := phase.step arena.engine
    ⟨engine, arena.workers.set worker phase⟩

end Arena

end Dispatch
