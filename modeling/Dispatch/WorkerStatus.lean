/-!
# States of a worker

A worker runs, rests or has stopped. The state is kept in one byte; every byte stands for a state, and
the bytes from two up all stand for a stopped worker.
-/

namespace Dispatch

inductive WorkerStatus where
  | running
  | parked
  | stopped
  deriving DecidableEq, Repr

namespace WorkerStatus

def ofByte (byte : UInt8) : WorkerStatus :=
  if byte = 0 then running else if byte = 1 then parked else stopped

def toByte : WorkerStatus → UInt8
  | running => 0
  | parked => 1
  | stopped => 2

def describe : WorkerStatus → String
  | running => "Running"
  | parked => "Parked"
  | stopped => "Shutdown"

end WorkerStatus

/-- A state kept in a byte. -/
structure StatusCell where
  byte : UInt8
  deriving DecidableEq, Repr

namespace StatusCell

def start : StatusCell :=
  ⟨WorkerStatus.running.toByte⟩

def get (cell : StatusCell) : WorkerStatus :=
  .ofByte cell.byte

def set (_cell : StatusCell) (state : WorkerStatus) : StatusCell :=
  ⟨state.toByte⟩

end StatusCell

end Dispatch
