import Dispatch.Log
import Dispatch.ReferenceCounter

/-!
# Runs of a reference counter

A run is a thread whose stack shows the firings it is in the middle of. The panic of a listener that is
due at a zero crossing is logged and does not keep the others from running.
-/

namespace Dispatch

/-- What a user of a counter does after a call. -/
inductive CounterFrame (σ : Type) where
  /-- Goes on after a listener that was run at once, unless it panicked. -/
  | resume (next : CounterScript σ)
  /-- Goes on with a script that is told how the call ended. -/
  | attempting (next : Ending → CounterScript σ)
  /-- Runs the other listeners that are due at a zero crossing, and goes on. -/
  | firing (due : List (CounterScript σ)) (next : CounterScript σ)

/-- A counter and what surrounds it. -/
structure CounterWorld (σ : Type) where
  counter : ReferenceCounter σ := {}
  /-- The guards that have not been dropped. -/
  guards : List GuardRef := []
  nextGuard : GuardRef := 0
  memory : σ
  /-- The log, the latest entry first. -/
  log : List LogEntry := []

structure CounterThread (σ : Type) where
  world : CounterWorld σ
  script : CounterScript σ
  stack : List (CounterFrame σ) := []

namespace CounterThread

variable {σ : Type}

def underflow : Payload :=
  .text "Reference count underflow"

def listenerPanicked (payload : Payload) : LogEntry :=
  ⟨.error, "busy counter listener panicked", [("panic", payload.message)]⟩

def doing (thread : CounterThread σ) (script : CounterScript σ) : CounterThread σ :=
  { thread with script }

def calling (thread : CounterThread σ) (frame : CounterFrame σ) (script : CounterScript σ) :
    CounterThread σ :=
  { thread with script, stack := frame :: thread.stack }

def setCounter (thread : CounterThread σ) (counter : ReferenceCounter σ) : CounterThread σ :=
  { thread with world := { thread.world with counter } }

/-- Runs the listeners that are due, and goes on. -/
def fire (thread : CounterThread σ) (next : CounterScript σ) :
    List (CounterScript σ) → CounterThread σ
  | [] => thread.doing next
  | listener :: due => thread.calling (.firing due next) listener

def decrement (thread : CounterThread σ) (next : CounterScript σ) : CounterThread σ :=
  match thread.world.counter.decrement? with
  | none => thread.doing (.stop (.panicked underflow))
  | some (due, counter) => (thread.setCounter counter).fire next due

/-- Goes on with the frame a script was called from. -/
def finish (thread : CounterThread σ) (ending : Ending) : CounterFrame σ → CounterThread σ
  | .resume next =>
    match ending with
    | .panicked _ => thread
    | .normal | .failed _ => thread.doing next
  | .attempting next => thread.doing (next ending)
  | .firing due next =>
    match ending with
    | .panicked payload =>
      { thread with
        world := { thread.world with log := listenerPanicked payload :: thread.world.log } }.fire
          next due
    | .normal | .failed _ => thread.fire next due

def step (thread : CounterThread σ) : Ending ⊕ CounterThread σ :=
  match thread.script with
  | .stop ending =>
    match thread.stack with
    | [] => .inl ending
    | frame :: stack => .inr ({ thread with stack }.finish ending frame)
  | .remember change next =>
    .inr { thread with
      world := { thread.world with memory := change thread.world.memory }, script := next }
  | .recall next => .inr (thread.doing (next thread.world.counter.view thread.world.memory))
  | .attempt body next => .inr (thread.calling (.attempting next) body)
  | .increment next => .inr ((thread.setCounter thread.world.counter.increment).doing next)
  | .decrement next => .inr (thread.decrement next)
  | .listen listener next =>
    if thread.world.counter.isBusy then
      .inr ((thread.setCounter (thread.world.counter.listen listener)).doing next)
    else .inr (thread.calling (.resume next) listener)
  | .listenOnce listener next =>
    if thread.world.counter.isBusy then
      .inr ((thread.setCounter (thread.world.counter.listenOnce listener)).doing next)
    else .inr (thread.calling (.resume next) listener)
  | .hold next =>
    let guard := thread.world.nextGuard
    let world := { thread.world with
      counter := thread.world.counter.increment
      guards := guard :: thread.world.guards
      nextGuard := guard + 1 }
    .inr ({ thread with world }.doing (next guard))
  | .letGo guard next =>
    if thread.world.guards.contains guard then
      let world := { thread.world with guards := thread.world.guards.erase guard }
      .inr ({ thread with world }.decrement next)
    else .inr (thread.doing next)

/-- Runs a script to its end, if that is reached within the bound. -/
def run : Nat → CounterThread σ → Option Ending × CounterWorld σ
  | 0, thread => (none, thread.world)
  | bound + 1, thread =>
    match thread.step with
    | .inl ending => (some ending, thread.world)
    | .inr thread => run bound thread

end CounterThread

end Dispatch
