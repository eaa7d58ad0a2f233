import Dispatch.Engine.Step

/-!
# A crew of workers

Each worker is a thread that first runs the initializer, if there is one, and then works shift after
shift until the engine is shut down. The crew takes turns, one step at a time, until every worker waits
or has stopped.
-/

namespace Dispatch

/-- Where a worker stands in its life. -/
inductive Duty where
  /-- The initializer is running. -/
  | opening
  /-- A shift is running. -/
  | shift
  /-- The worker has stopped. -/
  | over
  deriving DecidableEq, Repr

/-- A worker and its thread. -/
structure Worker (σ : Type) where
  duty : Duty
  thread : Thread σ

/-- The workers of an engine and what they share. -/
structure Crew (σ : Type) where
  world : World σ
  workers : Array (Worker σ)

namespace Crew

variable {σ : Type}

/-- A crew that has not begun. Without an initializer the workers begin with their first shift. -/
def ofWorld (world : World σ) (initializer : Option (Nat → Script σ)) : Crew σ :=
  { world
    workers := (Array.range world.engine.workers.size).map fun worker =>
      { duty := .opening
        thread := .ofScript (some worker)
          (match initializer with
          | some script => script worker
          | none => .stop .normal) } }

/-- What a worker does when its script has ended: the next shift, or its end. -/
def relieve (world : World σ) (worker : Nat) : World σ × Worker σ :=
  if world.engine.halted then
    (({ world with engine := world.engine.record (.workerStopped worker) }).setWorker worker .stopped,
      { duty := .over, thread := .ofScript (some worker) (.stop .normal) })
  else (world, { duty := .shift, thread := .ofScript (some worker) (.shift worker) })

/-- The world after the initializer of a worker has ended. -/
def opened (world : World σ) (worker : Nat) (ending : Ending) : World σ :=
  let engine :=
    match ending with
    | .panicked payload => world.engine.record (.initializerPanicked worker payload)
    | .normal | .failed _ => world.engine
  { world with engine := engine.record (.workerStarted worker) }

def turn (crew : Crew σ) (index : Nat) : Bool × Crew σ :=
  match crew.workers[index]? with
  | none => (false, crew)
  | some worker =>
    if worker.duty = .over then (false, crew)
    else
      let turn := worker.thread.step crew.world
      let resting := { world := turn.world
                       workers := crew.workers.setIfInBounds index { worker with thread := turn.thread } }
      match turn.progress with
      | .moved | .refused => (true, resting)
      | .blocked => (false, resting)
      | .ended ending =>
        let world := if worker.duty = .opening then opened turn.world index ending else turn.world
        let (world, worker) := relieve world index
        (true, { world, workers := crew.workers.setIfInBounds index worker })

/-- One step of every worker in turn, and whether any did anything. -/
def round (crew : Crew σ) : Bool × Crew σ :=
  (List.range crew.workers.size).foldl
    (fun (moved, crew) index =>
      let (now, crew) := crew.turn index
      (moved || now, crew))
    (false, crew)

/-- Takes turns until every worker waits or has stopped, and says whether that was reached. -/
def settle (crew : Crew σ) : Nat → Bool × Crew σ
  | 0 => (false, crew)
  | bound + 1 =>
    match crew.round with
    | (true, crew) => settle crew bound
    | (false, crew) => (true, crew)

/-- Runs a script outside the crew, which takes turns whenever the script waits. -/
def runBeside (crew : Crew σ) (thread : Thread σ) : Nat → Option Ending × Crew σ
  | 0 => (none, crew)
  | bound + 1 =>
    let turn := thread.step crew.world
    let crew := { crew with world := turn.world }
    match turn.progress with
    | .moved => runBeside crew turn.thread bound
    | .blocked | .refused => runBeside crew.round.2 turn.thread bound
    | .ended ending => (some ending, crew)

/-- Keeps every worker busy with a task of its own, until a signal is raised. The tasks are closures at
the most urgent level. -/
def hold (crew : Crew σ) (signal : String) (bound : Nat) : Crew σ :=
  let gate : Script σ := .submit 0 (.await signal (.stop .normal)) fun _ _ => .stop .normal
  let crew := crew.workers.foldl
    (fun crew _ => (crew.runBeside (.ofScript none gate) bound).2)
    crew
  (crew.settle bound).2

/-- Raises the signal the workers wait for, and lets them work until nothing is left to do. -/
def letGo (crew : Crew σ) (signal : String) (bound : Nat) : Crew σ :=
  let crew := { crew with
    world := { crew.world with signals := signal :: crew.world.signals } }
  (crew.settle bound).2

end Crew

end Dispatch
