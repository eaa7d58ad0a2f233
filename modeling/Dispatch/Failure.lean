import Dispatch.Report

/-!
# How work ends

Work ends normally, with a report, or by a panic, which carries a payload. The engine turns the last two
into a failure of the task: its cause, and the faults that were met while cleaning up after it.
-/

namespace Dispatch

/-- What a panic carries. -/
inductive Payload where
  | text (message : String)
  | other
  deriving DecidableEq, Repr

def Payload.message : Payload → String
  | text message => message
  | other => "<non-string panic payload>"

/-- How a piece of work ended. -/
inductive Ending where
  | normal
  | failed (report : Report)
  | panicked (payload : Payload)
  deriving DecidableEq, Repr

/-- Why a task did not complete. -/
inductive Cause where
  | error (report : Report)
  | panic (message : String)
  /-- The task was waiting for tokens and could not be queued again. -/
  | rejected (fault : Fault)
  deriving DecidableEq, Repr

structure Failure where
  cause : Cause
  suppressed : List Fault := []
  deriving DecidableEq, Repr

namespace Cause

def message : Cause → String
  | error report => "task returned an error: " ++ report.fullMessage
  | panic message => "task panicked: " ++ message
  | rejected fault => "task could not be requeued: " ++ fault.message

def source? : Cause → Option String
  | rejected fault => some fault.message
  | error _ | panic _ => none

end Cause

namespace Failure

def message (failure : Failure) : String :=
  failure.cause.message

def isPanic (failure : Failure) : Bool :=
  match failure.cause with
  | .panic _ => true
  | .error _ | .rejected _ => false

/-- Adds a fault met while cleaning up. -/
def suppress (failure : Failure) (fault : Fault) : Failure :=
  { failure with suppressed := failure.suppressed ++ [fault] }

/-- The failure of work that ended this way. -/
def ofEnding? : Ending → Option Failure
  | .normal => none
  | .failed report => some { cause := .error report }
  | .panicked payload => some { cause := .panic payload.message }

end Failure

end Dispatch
