import Dispatch.Engine.Thread

/-!
# The steps of a thread

A step starts a call, goes on inside one, or ends one and goes on with the frame below it. A release takes
the tokens out of the table in one step, then frees one list at a time and queues one waiter at a time;
the handler of a waiter that cannot be queued runs in between.
-/

namespace Dispatch

namespace Thread

variable {σ : Type}

def deliver (world : World σ) (task : TaskIndex) (failure : Failure) : World σ × Control σ :=
  let engine := world.engine.record (.reported task failure)
  match world.code[task]?.bind Code.handler with
  | some handler => ({ world with engine }, .script none (handler failure))
  | none =>
    ({ world with engine := engine.record (.unheard task (engine.kind task) failure) },
      .script none (.stop .normal))

/-- Ends the execution of a task by a worker that has released its tokens. -/
def finishExecution (world : World σ) (thread : Thread σ) (worker : Nat) (task : TaskIndex) :
    Option Failure → World σ × Thread σ
  | none =>
    let engine := { world.engine with stats := world.engine.stats.countExecuted }
    ({ world with engine := engine.record (.executed task) },
      thread.doing (.script none (.stop .normal)))
  | some failure =>
    let engine := { world.engine with stats := world.engine.stats.countFailed }
    let (world, control) :=
      deliver { world with engine := engine.record (.failed worker task failure) } task failure
    (world, thread.calling (.reporting worker task) control)

def finishRelease (world : World σ) (thread : Thread σ) (after : AfterRelease σ)
    (outcome : Except Fault Unit) : World σ × Thread σ :=
  match after with
  | .answer handle next => (world, thread.doing (.script handle (next outcome)))
  | .closureEnd =>
    match outcome with
    | .ok () => (world, thread.doing (.script none (.stop .normal)))
    | .error fault => (world, thread.doing (.script none (.stop (.failed (.ofFault fault)))))
  | .execution worker task failure =>
    match outcome with
    | .ok () => finishExecution world thread worker task failure
    | .error fault =>
      let engine := world.engine.record (.releaseRefused worker task failure fault)
      let failure :=
        match failure with
        | some earlier => earlier.suppress fault
        | none => { cause := .error (.ofFault fault) }
      finishExecution { world with engine } thread worker task (some failure)

/-- Takes the tokens of a task out of the table, to free the lists they were held with. -/
def beginRelease (world : World σ) (thread : Thread σ) (task : TaskIndex)
    (handle : Option HandleIndex) (after : AfterRelease σ) : World σ × Thread σ :=
  let (lists, outcome, engine) := world.engine.takeTokens task handle
  ({ world with engine },
    thread.doing (.freeing { task, waiters := [], lists, freed := lists.length, outcome, after }))

/-- Releases through a handle. Only the first release reaches the table. -/
def releaseThrough (world : World σ) (thread : Thread σ) (handle : HandleIndex)
    (after : AfterRelease σ) : World σ × Thread σ :=
  match world.handles[handle]? with
  | none => finishRelease world thread after (.ok ())
  | some held =>
    if held.released then finishRelease world thread after (.ok ())
    else
      let handles := world.handles.setIfInBounds handle { held with released := true }
      beginRelease { world with handles } thread held.task (some handle) after

def beginWork (world : World σ) (thread : Thread σ) (task : TaskIndex) (handle : HandleIndex) :
    World σ × Thread σ :=
  match world.code[task]?.map Code.work with
  | none => (world, thread.doing (.script none (.stop .normal)))
  | some (.repeatable script) => (world, thread.doing (.script (some handle) script))
  | some (.closure script) =>
    if world.engine.isTaken task then releaseThrough world thread handle .closureEnd
    else
      ({ world with engine := world.engine.takeClosure task },
        thread.calling (.closing handle) (.script none script))

/-- Goes on with the frame a script was called from. -/
def finish (world : World σ) (thread : Thread σ) (ending : Ending) (frame : Frame σ) :
    World σ × Thread σ :=
  let onwards := thread.doing (.script none (.stop ending))
  match frame with
  | .resume handle next =>
    match ending with
    | .panicked _ => (world, onwards)
    | .normal | .failed _ => (world, thread.doing (.script handle next))
  | .attempting handle next => (world, thread.doing (.script handle (next ending)))
  | .running handle own next =>
    match ending with
    | .normal => (world, thread.doing (.script handle (next (.ok ()) (world.isReleased own))))
    | .failed report =>
      (world, thread.doing (.script handle (next (.error report) (world.isReleased own))))
    | .panicked _ => (world, onwards)
  | .holding handle own next =>
    match ending with
    | .normal => (world, thread.doing (.script handle (next (world.isReleased own))))
    | .failed _ | .panicked _ => (world, onwards)
  | .working worker task own =>
    releaseThrough world thread own (.execution worker task (Failure.ofEnding? ending))
  | .reporting worker task =>
    let thread := thread.doing (.script none (.stop .normal))
    match ending with
    | .panicked payload =>
      ({ world with
          engine := world.engine.record (.handlerPanicked (some worker) task payload) }, thread)
    | .normal | .failed _ => (world, thread)
  | .closing own =>
    match ending with
    | .normal => releaseThrough world thread own .closureEnd
    | .failed _ | .panicked _ => (world, onwards)
  | .rejecting task freeing =>
    let thread := thread.doing (.freeing freeing)
    match ending with
    | .panicked payload =>
      ({ world with
          engine := world.engine.record (.handlerPanicked none task payload) }, thread)
    | .normal | .failed _ => (world, thread)

/-- A step in the middle of a release: the next waiter is queued, or the next list is freed. -/
def stepFreeing (world : World σ) (thread : Thread σ) (freeing : Freeing σ) :
    World σ × Thread σ :=
  match freeing.waiters with
  | task :: waiters =>
    let freeing := { freeing with waiters }
    match world.engine.requeue task with
    | (none, engine) => ({ world with engine }, thread.doing (.freeing freeing))
    | (some fault, engine) =>
      let (world, control) := deliver { world with engine } task { cause := .rejected fault }
      (world, thread.calling (.rejecting task freeing) control)
  | [] =>
    match freeing.lists with
    | list :: lists =>
      let (waiters, engine) := world.engine.freeList list
      ({ world with engine }, thread.doing (.freeing { freeing with waiters, lists }))
    | [] =>
      let world :=
        match freeing.outcome with
        | .ok () => world
        | .error fault =>
          { world with
            engine := world.engine.record (.releaseFailed freeing.task fault freeing.freed) }
      finishRelease world thread freeing.after freeing.outcome

def afterPoll (world : World σ) (thread : Thread σ) (handle : Option HandleIndex)
    (next : Option TaskIndex → Script σ) : Poll → Turn σ
  | .found task engine => turn { world with engine } (thread.doing (.script handle (next (some task))))
  | .exhausted engine => turn { world with engine } (thread.doing (.script handle (next none)))
  | .refused task engine list =>
    turn { world with engine } (thread.doing (.claiming handle task list (.poll next)))

def afterAttempt (world : World σ) (thread : Thread σ) (handle : Option HandleIndex) (task : TaskIndex)
    (after : AfterClaim σ) : Admission → Turn σ
  | .acquired engine =>
    match after with
    | .answer next => turn { world with engine } (thread.doing (.script handle (next true)))
    | .poll next =>
      afterPoll world thread handle next (.found task (engine.record (.handedOut task)))
  | .waiting engine =>
    match after with
    | .answer next => turn { world with engine } (thread.doing (.script handle (next false)))
    | .poll next => afterPoll world thread handle next engine.poll
  | .refused engine list =>
    { progress := .refused
      world := { world with engine }
      thread := thread.doing (.claiming handle task list after) }

def stepScript (world : World σ) (thread : Thread σ) (handle : Option HandleIndex) :
    Script σ → Turn σ
  | .stop ending =>
    match thread.stack with
    | [] => { progress := .ended ending, world, thread }
    | frame :: stack =>
      let (world, thread) := finish world { thread with stack } ending frame
      turn world thread
  | .remember change next =>
    turn { world with memory := change world.engine world.memory }
      (thread.doing (.script handle next))
  | .recall next =>
    turn world (thread.doing (.script handle (next world.engine world.memory)))
  | .attempt body next =>
    turn world (thread.calling (.attempting handle next) (.script handle body))
  | .schedule task next =>
    match world.engine.schedule task with
    | .ok engine => turn { world with engine } (thread.doing (.script handle (next (.ok ()))))
    | .error fault => turn world (thread.doing (.script handle (next (.error fault))))
  | .submit priority closure next =>
    let (task, world) := world.addClosure { priority } { work := .closure closure }
    match world.engine.schedule task with
    | .ok engine => turn { world with engine } (thread.doing (.script handle (next task (.ok ()))))
    | .error fault => turn world (thread.doing (.script handle (next task (.error fault))))
  | .poll next => afterPoll world thread handle next world.engine.poll
  | .claim task next =>
    match world.engine.claimTokens task with
    | .refused engine list =>
      turn { world with engine } (thread.doing (.claiming handle task list (.answer next)))
    | admission => afterAttempt world thread handle task (.answer next) admission
  | .releaseFor task next =>
    let (world, thread) := beginRelease world thread task none (.answer handle next)
    turn world thread
  | .release next =>
    match handle with
    | none => turn world (thread.doing (.script handle (next (.ok ()))))
    | some own =>
      let (world, thread) := releaseThrough world thread own (.answer handle next)
      turn world thread
  | .atHand next =>
    turn world (thread.doing (.script handle (next (handle.bind (world.handles[·]?)))))
  | .run task next =>
    let (own, world) := world.makeHandle task
    let (world, thread) :=
      beginWork world { thread with stack := .running handle own next :: thread.stack } task own
    turn world thread
  | .execute worker task next =>
    let (own, world) := world.makeHandle task
    let stack := .working worker task own :: .resume handle next :: thread.stack
    let (world, thread) := beginWork world { thread with stack } task own
    turn world thread
  | .withHandle task body next =>
    let (own, world) := world.makeHandle task
    turn world (thread.calling (.holding handle own next) (.script (some own) body))
  | .report task failure next =>
    let (world, control) := deliver world task failure
    turn world (thread.calling (.resume handle next) control)
  | .setPriority task priority next =>
    turn { world with engine := world.engine.setPriority task priority }
      (thread.doing (.script handle next))
  | .setTokens task tokens next =>
    turn { world with engine := world.engine.setTokens task tokens }
      (thread.doing (.script handle next))
  | .applyPriority task next =>
    match world.engine.applyPriority task with
    | .ok (moved, engine) =>
      turn { world with engine } (thread.doing (.script handle (next (.ok moved))))
    | .error fault => turn world (thread.doing (.script handle (next (.error fault))))
  | .shutDown next =>
    turn { world with engine := world.engine.shutDown } (thread.doing (.script handle next))
  | .join next =>
    let all := List.range world.engine.workers.size
    let workers := all.filter fun worker => !world.awaited.contains worker
    let others := workers.filter fun worker => thread.worker ≠ some worker
    turn { world with awaited := workers ++ world.awaited }
      (thread.doing (.joining handle others next))
  | .signal name next =>
    turn { world with signals := name :: world.signals } (thread.doing (.script handle next))
  | .await name next =>
    if world.signals.contains name then turn world (thread.doing (.script handle next))
    else { progress := .blocked, world, thread }
  | .rest worker next =>
    if world.engine.halted || !world.engine.queue.isEmpty then
      turn world (thread.doing (.script handle next))
    else
      let engine := { world.engine with stats := world.engine.stats.countPark }
      turn ({ world with engine := engine.record (.workerParked worker) }.setWorker worker .parked)
        (thread.doing (.resting handle worker next))
  | .whoAmI next => turn world (thread.doing (.script handle (next thread.worker)))

def step (world : World σ) (thread : Thread σ) : Turn σ :=
  match thread.control with
  | .script handle script => stepScript world thread handle script
  | .freeing freeing =>
    let (world, thread) := stepFreeing world thread freeing
    turn world thread
  | .claiming handle task list after =>
    afterAttempt world thread handle task after
      (world.engine.attempt task (Token.distinct (world.engine.tokens task)) list)
  | .joining handle workers next =>
    if world.haveStopped workers then turn world (thread.doing (.script handle next))
    else { progress := .blocked, world, thread }
  | .resting handle worker next =>
    if world.engine.halted || !world.engine.queue.isEmpty then
      turn (world.setWorker worker .running) (thread.doing (.script handle next))
    else { progress := .blocked, world, thread }

end Thread

/-- How a run of a single thread ended. -/
inductive Run (σ : Type) where
  | ended (ending : Ending) (world : World σ)
  /-- The thread waits for a thread that is not there. -/
  | blocked (world : World σ)
  /-- The thread tries for ever to claim tokens from a holder that has gone. -/
  | livelock (world : World σ)
  /-- The run took more steps than it was given. -/
  | unfinished (world : World σ)

namespace Thread

variable {σ : Type}

/-- Runs a single thread to its end. An attempt that is refused twice is refused for ever, since nobody
else is there to change the table. -/
def run : Nat → World σ → Thread σ → Run σ
  | 0, world, _ => .unfinished world
  | bound + 1, world, thread =>
    let turn := thread.step world
    match turn.progress with
    | .moved => run bound turn.world turn.thread
    | .blocked => .blocked turn.world
    | .refused => .livelock turn.world
    | .ended ending => .ended ending turn.world

end Thread

end Dispatch
