import Dispatch.Config
import Dispatch.Token

/-!
# Faults of the engine

Each fault is a cause; its wording, its name and the fault behind it are functions of the cause.
-/

namespace Dispatch

inductive QueueFault where
  /-- A queue needs a level. -/
  | noLevels
  /-- The element is queued already. -/
  | duplicate
  /-- The queue has no such level. -/
  | outOfRange (priority levels : Nat)
  deriving DecidableEq, Repr

inductive Fault where
  | queue (fault : QueueFault)
  /-- A token to be released is held by nobody. -/
  | notHeld (token : Token)
  /-- The tokens to be released belong to different holders. -/
  | mixedHolders
  | config (fault : ConfigFault)
  /-- The system gave no thread. -/
  | spawn (reason : String)
  /-- The engine takes no more tasks. -/
  | shutDown
  deriving DecidableEq, Repr

namespace QueueFault

def message : QueueFault → String
  | noLevels => "Priority levels must be positive"
  | duplicate => "Element already exists in the queue"
  | outOfRange priority levels =>
    "Priority out of range: " ++ Nat.repr priority ++ " (levels: " ++ Nat.repr levels ++ ")"

def describe : QueueFault → String
  | noLevels => "InvalidLevels"
  | duplicate => "DuplicateElement"
  | outOfRange priority levels =>
    Text.fields "PriorityOutOfRange"
      [("priority", Nat.repr priority), ("levels", Nat.repr levels)]

end QueueFault

namespace Fault

def message : Fault → String
  | queue fault => fault.message
  | notHeld token => "Lock not found: " ++ token.text
  | mixedHolders => "Inconsistent lock listener state"
  | config fault => fault.message
  | spawn reason => "Failed to spawn worker thread: " ++ reason
  | shutDown => "Executor has been shut down"

def source? : Fault → Option String
  | config fault => fault.source?
  | spawn reason => some reason
  | queue _ | notHeld _ | mixedHolders | shutDown => none

def describe : Fault → String
  | queue fault => Text.applied "Queue" [fault.describe]
  | notHeld token => Text.applied "LockNotHeld" [token.describe]
  | mixedHolders => "InconsistentWaiters"
  | config fault => Text.applied "Config" [fault.describe]
  | spawn reason =>
    Text.applied "Spawn" [Text.fields "Custom" [("kind", "Other"), ("error", Text.quoted reason)]]
  | shutDown => "ShutDown"

end Fault

end Dispatch
