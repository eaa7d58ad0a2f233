import Dispatch.Text.Quoted
import Dispatch.Token

/-!
# Tasks, as the engine sees them

Of a task the engine needs the current priority and the tokens. Tasks made from a closure carry a serial
number and a name, and remember whether the closure has been taken; it is run at most once. What a task
does is kept apart from it, with the scripts.
-/

namespace Dispatch

inductive TaskKind where
  /-- A closure, to be run once. -/
  | closure (serial : Nat) (name : String)
  /-- Work that can be run any number of times. -/
  | repeatable
  deriving DecidableEq, Repr

structure Task where
  kind : TaskKind
  priority : Nat
  tokens : List Token
  /-- Whether the closure has been taken. -/
  taken : Bool := false
  deriving DecidableEq, Repr

/-- The name of a closure task for which none is given. -/
def serialName (serial : Nat) : String :=
  Text.applied "Task" [Nat.repr serial]

namespace Task

/-- The task as a reference to it shows it. The address is not told. -/
def describeRef (task : Task) : String :=
  Text.fields "TaskRef"
    [("addr", "0x0"), ("priority", Nat.repr task.priority),
      ("locks", Token.describeAll task.tokens)]

def describe (task : Task) : String :=
  match task.kind with
  | .repeatable => task.describeRef
  | .closure serial name =>
    Text.fields "SimpleTask"
      [("id", Text.applied "TaskId" [Nat.repr serial]), ("name", Text.quoted name),
        ("priority", Nat.repr task.priority), ("lock_tokens", Token.describeAll task.tokens),
        ("executed", Text.truth task.taken)]

end Task

/-- A closure task in the making. -/
structure Draft where
  name : Option String := none
  priority : Nat := 0
  tokens : List Token := []
  /-- Whether failures are handled by the task itself. -/
  handled : Bool := false
  deriving DecidableEq, Repr

namespace Draft

def withName (draft : Draft) (name : String) : Draft :=
  { draft with name := some name }

def withPriority (draft : Draft) (priority : Nat) : Draft :=
  { draft with priority }

/-- Asks for further tokens. -/
def withTokens (draft : Draft) (tokens : List Token) : Draft :=
  { draft with tokens := draft.tokens ++ tokens }

def withHandler (draft : Draft) : Draft :=
  { draft with handled := true }

def build (draft : Draft) (serial : Nat) : Task :=
  { kind := .closure serial (draft.name.getD (serialName serial))
    priority := draft.priority
    tokens := draft.tokens }

def describe (draft : Draft) : String :=
  Text.fields "TaskBuilder"
    [("name", Text.optional (draft.name.map Text.quoted)), ("priority", Nat.repr draft.priority),
      ("lock_tokens", Token.describeAll draft.tokens), ("on_failure", Text.truth draft.handled)]

end Draft

end Dispatch
