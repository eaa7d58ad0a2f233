import Dispatch.Failure

/-!
# Reference counters

A counter counts the references that are out. Listeners run when the last one is given back, or at once
if none is out; a one-shot listener takes the place of the one before it. A listener may use the counter
itself.
-/

namespace Dispatch

/-- A guard, which holds one reference. -/
abbrev GuardRef := Nat

structure CounterView where
  count : Nat
  /-- The number of listeners that wait. -/
  listeners : Nat
  /-- Whether a one-shot listener waits. -/
  once : Bool
  deriving DecidableEq, Repr

/-- What a user of a counter does, with a memory of type `σ`. Listeners are users, too. -/
inductive CounterScript (σ : Type) where
  | stop (ending : Ending)
  /-- Changes the memory. -/
  | remember (change : σ → σ) (next : CounterScript σ)
  /-- Goes on as the counter and the memory say. -/
  | recall (next : CounterView → σ → CounterScript σ)
  /-- Goes on with the ending of another script, whatever it is. -/
  | attempt (body : CounterScript σ) (next : Ending → CounterScript σ)
  | increment (next : CounterScript σ)
  | decrement (next : CounterScript σ)
  | listen (listener : CounterScript σ) (next : CounterScript σ)
  | listenOnce (listener : CounterScript σ) (next : CounterScript σ)
  /-- Takes a guard. -/
  | hold (next : GuardRef → CounterScript σ)
  /-- Drops a guard. -/
  | letGo (guard : GuardRef) (next : CounterScript σ)

/-- Holds a guard during a piece of work. However the work ends, the guard is dropped first. -/
def CounterScript.whileBusy {σ : Type} (work next : CounterScript σ) : CounterScript σ :=
  .hold fun guard => .attempt work fun ending =>
    .letGo guard
      (match ending with
      | .normal => next
      | .failed _ | .panicked _ => .stop ending)

/-- A counter and the listeners that wait. -/
structure ReferenceCounter (σ : Type) where
  count : Nat := 0
  listeners : List (CounterScript σ) := []
  once : Option (CounterScript σ) := none

namespace ReferenceCounter

variable {σ : Type}

def view (counter : ReferenceCounter σ) : CounterView :=
  { count := counter.count, listeners := counter.listeners.length, once := counter.once.isSome }

def isBusy (counter : ReferenceCounter σ) : Bool :=
  counter.count != 0

def increment (counter : ReferenceCounter σ) : ReferenceCounter σ :=
  { counter with count := counter.count + 1 }

/-- One reference less, and the listeners that are due if it was the last one. The one-shot listener is
the last of them. There is no less than none. -/
def decrement? (counter : ReferenceCounter σ) :
    Option (List (CounterScript σ) × ReferenceCounter σ) :=
  match counter.count with
  | 0 => none
  | 1 => some (counter.listeners ++ counter.once.toList, {})
  | count + 1 => some ([], { counter with count })

def listen (counter : ReferenceCounter σ) (listener : CounterScript σ) : ReferenceCounter σ :=
  { counter with listeners := counter.listeners ++ [listener] }

/-- Lets a one-shot listener wait, in the place of the one before it. -/
def listenOnce (counter : ReferenceCounter σ) (listener : CounterScript σ) : ReferenceCounter σ :=
  { counter with once := some listener }

end ReferenceCounter

namespace CounterView

def describe (view : CounterView) : String :=
  Text.fields "BusyReferenceCounter"
    [("count", Nat.repr view.count), ("listeners", Nat.repr view.listeners),
      ("once", Text.truth view.once)]

def describeGuard (view : CounterView) : String :=
  Text.fields "BusyGuard" [("counter", view.describe)]

end CounterView

end Dispatch
