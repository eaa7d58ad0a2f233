import Dispatch.Engine.Script

/-!
# What threads share

The engine, what its tasks do, the handles made for them, the memory of the scripts, and the signals by
which scripts wait for each other.
-/

namespace Dispatch

inductive Work (σ : Type) where
  /-- A closure, which is taken by the first run. Later runs only release. -/
  | closure (script : Script σ)
  /-- Work that is done by every run, with the handle at hand. -/
  | repeatable (script : Script σ)

/-- What a task does, and what it does with its failures. Without a handler they are logged. -/
structure Code (σ : Type) where
  work : Work σ
  handler : Option (Failure → Script σ) := none

/-- What threads share. -/
structure World (σ : Type) where
  engine : Engine
  code : Array (Code σ)
  handles : Array Handle
  memory : σ
  /-- The signals that have been raised. -/
  signals : List String
  /-- The workers somebody waits for, or has waited for. -/
  awaited : List Nat

namespace World

variable {σ : Type}

def ofEngine (engine : Engine) (memory : σ) : World σ :=
  { engine, code := #[], handles := #[], memory, signals := [], awaited := [] }

def addTask (world : World σ) (task : Task) (code : Code σ) : TaskIndex × World σ :=
  let (ref, engine) := world.engine.addTask task
  (ref, { world with engine, code := world.code.push code })

/-- Makes a closure task known under the next serial number. -/
def addClosure (world : World σ) (draft : Draft) (code : Code σ) : TaskIndex × World σ :=
  let (ref, engine) := world.engine.addClosure draft
  (ref, { world with engine, code := world.code.push code })

def makeHandle (world : World σ) (task : TaskIndex) : HandleIndex × World σ :=
  (world.handles.size, { world with handles := world.handles.push { task } })

def isReleased (world : World σ) (handle : HandleIndex) : Bool :=
  (world.handles[handle]?.map Handle.released).getD false

def haveStopped (world : World σ) (workers : List Nat) : Bool :=
  workers.all fun worker => world.engine.workers[worker]? = some .stopped

def setWorker (world : World σ) (worker : Nat) (state : WorkerStatus) : World σ :=
  { world with engine :=
      { world.engine with workers := world.engine.workers.setIfInBounds worker state } }

end World

end Dispatch
