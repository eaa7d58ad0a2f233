import Dispatch.Failure

/-!
# Completion signals and cancellation

A signal is completed once. Listeners that were registered before are run, in their order, by the call
that completes it; later ones are run at once. A signal can also be cancelled once, which runs its cancel
handler and nothing else. Listeners and handlers may use any signal. A flag is a cancellation without
listeners.
-/

namespace Dispatch

/-- A signal, as its users refer to it. -/
abbrev SignalIndex := Nat

/-- A flag, as its users refer to it. -/
abbrev FlagIndex := Nat

/-- How a signalled operation ended. -/
inductive Completion where
  | succeeded
  | failed (report : Report)
  deriving DecidableEq, Repr

structure SignalView where
  finished : Option Completion
  cancelled : Bool
  deriving DecidableEq, Repr

/-- What a user of signals does, with a memory of type `σ`. Listeners and cancel handlers are users,
too. -/
inductive SignalScript (σ : Type) where
  | stop (ending : Ending)
  /-- Changes the memory. -/
  | remember (change : σ → σ) (next : SignalScript σ)
  /-- Goes on as the memory says. -/
  | recall (next : σ → SignalScript σ)
  /-- Goes on with the ending of another script, whatever it is. -/
  | attempt (body : SignalScript σ) (next : Ending → SignalScript σ)
  /-- Makes a signal with a cancel handler. -/
  | make (cancelHandler : SignalIndex → SignalScript σ) (next : SignalIndex → SignalScript σ)
  /-- Makes a signal that is cancelled and has completed. -/
  | makeCompleted (next : SignalIndex → SignalScript σ)
  /-- Completes a signal, and tells whether this call did. -/
  | complete (signal : SignalIndex) (result : Completion) (next : Bool → SignalScript σ)
  | listen (signal : SignalIndex) (listener : Completion → SignalScript σ) (next : SignalScript σ)
  /-- Cancels a signal, and tells whether this call did. -/
  | cancel (signal : SignalIndex) (next : Bool → SignalScript σ)
  /-- Looks at a signal. -/
  | look (signal : SignalIndex) (next : SignalView → SignalScript σ)
  | makeFlag (next : FlagIndex → SignalScript σ)
  | raise (flag : FlagIndex) (next : SignalScript σ)
  | isRaised (flag : FlagIndex) (next : Bool → SignalScript σ)

/-- A signal, its listeners and its cancel handler. -/
structure Signal (σ : Type) where
  finished : Option Completion := none
  cancelled : Bool := false
  listeners : List (Completion → SignalScript σ) := []
  cancelHandler : SignalScript σ := .stop .normal

namespace Completion

def describe : Completion → String
  | succeeded => Text.applied "Ok" ["()"]
  | failed report => Text.applied "Err" [report.describe]

end Completion

namespace SignalView

def isComplete (view : SignalView) : Bool :=
  view.finished.isSome

def describe (view : SignalView) : String :=
  Text.fields "CancellationSignaller"
    [("finished", Text.optional (view.finished.map Completion.describe)),
      ("cancelled", Text.truth view.cancelled)]

end SignalView

def describeFlag (raised : Bool) : String :=
  Text.fields "Cancellable" [("cancelled", Text.truth raised)]

namespace Signal

variable {σ : Type}

def view (signal : Signal σ) : SignalView :=
  { finished := signal.finished, cancelled := signal.cancelled }

/-- A signal that is cancelled and has completed. -/
def completed : Signal σ :=
  { finished := some .succeeded, cancelled := true }

/-- Completes a signal that has not completed, and hands out its listeners. -/
def complete? (signal : Signal σ) (result : Completion) :
    Option (List (Completion → SignalScript σ) × Signal σ) :=
  match signal.finished with
  | some _ => none
  | none => some (signal.listeners, { signal with finished := some result, listeners := [] })

def listen (signal : Signal σ) (listener : Completion → SignalScript σ) : Signal σ :=
  { signal with listeners := signal.listeners ++ [listener] }

end Signal

end Dispatch
