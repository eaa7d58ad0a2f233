import Dispatch.Log
import Dispatch.Signal

/-!
# Runs of signals

A run is a thread whose stack shows the calls it is in the middle of. The panic of a listener that is run
by a completion, and that of a cancel handler, are logged and go no further.
-/

namespace Dispatch

/-- What a user of signals does after a call. -/
inductive SignalFrame (σ : Type) where
  /-- Goes on after a listener that was run at once, unless it panicked. -/
  | resume (next : SignalScript σ)
  /-- Goes on with a script that is told how the call ended. -/
  | attempting (next : Ending → SignalScript σ)
  /-- Runs the other listeners of a signal that has just completed, and goes on. -/
  | notifying (result : Completion) (due : List (Completion → SignalScript σ))
      (next : SignalScript σ)
  /-- Goes on after a cancel handler. -/
  | cancelling (next : SignalScript σ)

/-- All signals and flags, and what surrounds them. -/
structure SignalWorld (σ : Type) where
  signals : Array (Signal σ) := #[]
  flags : Array Bool := #[]
  memory : σ
  /-- The log, the latest entry first. -/
  log : List LogEntry := []

structure SignalThread (σ : Type) where
  world : SignalWorld σ
  script : SignalScript σ
  stack : List (SignalFrame σ) := []

namespace SignalWorld

variable {σ : Type}

/-- A signal; one that was never made counts as completed. -/
def get (world : SignalWorld σ) (signal : SignalIndex) : Signal σ :=
  world.signals.getD signal .completed

def set (world : SignalWorld σ) (signal : SignalIndex) (changed : Signal σ) : SignalWorld σ :=
  { world with signals := world.signals.setIfInBounds signal changed }

def note (world : SignalWorld σ) (entry : LogEntry) : SignalWorld σ :=
  { world with log := entry :: world.log }

end SignalWorld

namespace SignalThread

variable {σ : Type}

def listenerPanicked (payload : Payload) : LogEntry :=
  ⟨.error, "completion listener panicked", [("panic", payload.message)]⟩

def handlerPanicked (payload : Payload) : LogEntry :=
  ⟨.error, "cancellation callback panicked", [("panic", payload.message)]⟩

def doing (thread : SignalThread σ) (script : SignalScript σ) : SignalThread σ :=
  { thread with script }

def calling (thread : SignalThread σ) (frame : SignalFrame σ) (script : SignalScript σ) :
    SignalThread σ :=
  { thread with script, stack := frame :: thread.stack }

def within (thread : SignalThread σ) (world : SignalWorld σ) : SignalThread σ :=
  { thread with world }

/-- Runs the listeners that are due, and goes on. -/
def notify (thread : SignalThread σ) (result : Completion) (next : SignalScript σ) :
    List (Completion → SignalScript σ) → SignalThread σ
  | [] => thread.doing next
  | listener :: due => thread.calling (.notifying result due next) (listener result)

/-- Goes on with the frame a script was called from. -/
def finish (thread : SignalThread σ) (ending : Ending) : SignalFrame σ → SignalThread σ
  | .resume next =>
    match ending with
    | .panicked _ => thread
    | .normal | .failed _ => thread.doing next
  | .attempting next => thread.doing (next ending)
  | .notifying result due next =>
    match ending with
    | .panicked payload =>
      (thread.within (thread.world.note (listenerPanicked payload))).notify result next due
    | .normal | .failed _ => thread.notify result next due
  | .cancelling next =>
    match ending with
    | .panicked payload =>
      (thread.within (thread.world.note (handlerPanicked payload))).doing next
    | .normal | .failed _ => thread.doing next

def step (thread : SignalThread σ) : Ending ⊕ SignalThread σ :=
  let world := thread.world
  match thread.script with
  | .stop ending =>
    match thread.stack with
    | [] => .inl ending
    | frame :: stack => .inr ({ thread with stack }.finish ending frame)
  | .remember change next =>
    .inr ((thread.within { world with memory := change world.memory }).doing next)
  | .recall next => .inr (thread.doing (next world.memory))
  | .attempt body next => .inr (thread.calling (.attempting next) body)
  | .make cancelHandler next =>
    let ref := world.signals.size
    let signals := world.signals.push { cancelHandler := cancelHandler ref }
    .inr ((thread.within { world with signals }).doing (next ref))
  | .makeCompleted next =>
    let ref := world.signals.size
    let signals := world.signals.push .completed
    .inr ((thread.within { world with signals }).doing (next ref))
  | .complete signal result next =>
    match (world.get signal).complete? result with
    | none => .inr (thread.doing (next false))
    | some (due, completed) =>
      .inr ((thread.within (world.set signal completed)).notify result (next true) due)
  | .listen signal listener next =>
    match (world.get signal).finished with
    | some result => .inr (thread.calling (.resume next) (listener result))
    | none =>
      .inr ((thread.within (world.set signal ((world.get signal).listen listener))).doing next)
  | .cancel signal next =>
    let found := world.get signal
    if found.cancelled then .inr (thread.doing (next false))
    else
      .inr ((thread.within (world.set signal { found with cancelled := true })).calling
        (.cancelling (next true)) found.cancelHandler)
  | .look signal next => .inr (thread.doing (next (world.get signal).view))
  | .makeFlag next =>
    .inr ((thread.within { world with flags := world.flags.push false }).doing
      (next world.flags.size))
  | .raise flag next =>
    .inr ((thread.within { world with flags := world.flags.setIfInBounds flag true }).doing next)
  | .isRaised flag next => .inr (thread.doing (next (world.flags.getD flag false)))

/-- Runs a script to its end, if that is reached within the bound. -/
def run : Nat → SignalThread σ → Option Ending × SignalWorld σ
  | 0, thread => (none, thread.world)
  | bound + 1, thread =>
    match thread.step with
    | .inl ending => (some ending, thread.world)
    | .inr thread => run bound thread

end SignalThread

end Dispatch
