import Dispatch.Text.Layout
import Dispatch.Text.Quoted
import Dispatch.Text.Unsigned

/-!
# Settings of an engine

The number of workers and of priority levels, the name the workers are called by and the size of their
stacks. Settings start from the defaults and are overridden one by one, by hand or from environment
variables; before an engine is started with them they are checked.
-/

namespace Dispatch

/-- The settings of an engine. -/
structure Config where
  workers : Nat := 1
  levels : Nat := 64
  threadName : String := "lockweave-worker"
  stackSize : Option Nat := none
  deriving DecidableEq, Repr

/-- The settings that are checked before use. -/
inductive Setting where
  | levels
  | threadName
  | stackSize
  deriving DecidableEq, Repr

/-- The environment variables that override a setting. -/
inductive Variable where
  | workers
  | levels
  | threadName
  | stackSize
  deriving DecidableEq, Repr

/-- Why settings cannot be used. -/
inductive ConfigFault where
  /-- A setting is zero or empty. -/
  | invalid (setting : Setting)
  /-- The value of a variable is not a number. -/
  | unreadable (var : Variable) (value : String) (reason : Text.UnsignedFault)
  deriving DecidableEq, Repr

def Setting.name : Setting → String
  | levels => "priority_levels"
  | threadName => "thread_name"
  | stackSize => "stack_size"

/-- What is asked of a setting. -/
def Setting.demand : Setting → String
  | levels => "must be positive"
  | threadName => "must not be empty"
  | stackSize => "must be positive"

def Variable.name : Variable → String
  | workers => "LOCKWEAVE_WORKERS"
  | levels => "LOCKWEAVE_PRIORITY_LEVELS"
  | threadName => "LOCKWEAVE_THREAD_NAME"
  | stackSize => "LOCKWEAVE_STACK_SIZE"

namespace ConfigFault

def message : ConfigFault → String
  | invalid setting => "Invalid config value for `" ++ setting.name ++ "`: " ++ setting.demand
  | unreadable var value reason =>
    "Cannot parse " ++ var.name ++ "=" ++ Text.quoted value ++ ": " ++ reason.message

def source? : ConfigFault → Option String
  | invalid _ => none
  | unreadable _ _ reason => some reason.message

def describe : ConfigFault → String
  | invalid setting =>
    Text.fields "Invalid"
      [("field", Text.quoted setting.name), ("reason", Text.quoted setting.demand)]
  | unreadable var value reason =>
    Text.fields "Env"
      [("key", Text.quoted var.name), ("value", Text.quoted value),
        ("source", Text.fields "ParseIntError" [("kind", reason.word)])]

end ConfigFault

namespace Config

/-- Checks the settings in the order levels, name, stack size. The number of workers is free. -/
def check (config : Config) : Except ConfigFault Unit :=
  if config.levels = 0 then .error (.invalid .levels)
  else if config.threadName = "" then .error (.invalid .threadName)
  else if config.stackSize = some 0 then .error (.invalid .stackSize)
  else .ok ()

/-- The value of a number variable, or what stood before if it is not set. -/
def numberOr (lookup : Variable → Option String) (var : Variable) (before : Option Nat) :
    Except ConfigFault (Option Nat) :=
  match lookup var with
  | none => .ok before
  | some value =>
    match Text.readUnsigned value with
    | .ok number => .ok (some number)
    | .error reason => .error (.unreadable var value reason)

/-- Overrides settings by the variables that are set, and checks the outcome. -/
def merge (config : Config) (lookup : Variable → Option String) : Except ConfigFault Config := do
  let workers ← numberOr lookup .workers (some config.workers)
  let levels ← numberOr lookup .levels (some config.levels)
  let stackSize ← numberOr lookup .stackSize config.stackSize
  let merged : Config :=
    { workers := workers.getD config.workers
      levels := levels.getD config.levels
      threadName := (lookup .threadName).getD config.threadName
      stackSize }
  merged.check
  return merged

def workerName (config : Config) (worker : Nat) : String :=
  config.threadName ++ "-" ++ Nat.repr worker

def describe (config : Config) : String :=
  Text.fields "ExecutorConfig"
    [("worker_threads", Nat.repr config.workers), ("priority_levels", Nat.repr config.levels),
      ("thread_name", Text.quoted config.threadName),
      ("stack_size", Text.optional (config.stackSize.map Nat.repr))]

end Config

end Dispatch
