import Dispatch.ShardMap

/-!
# Write-once maps

Each key can be given a value once. A second assignment and a look-up before the first one are faults
that name the key.
-/

namespace Dispatch

/-- A map whose keys are assigned at most once. -/
structure OnceMap (κ ν : Type) where
  entries : ShardMap κ ν

inductive OnceFault (κ : Type) where
  | assigned (key : κ)
  | unassigned (key : κ)
  deriving DecidableEq, Repr

/-- What is told about a refusal, given the text of a key. -/
def OnceFault.message {κ : Type} (keyText : κ → String) : OnceFault κ → String
  | assigned key => "Key '" ++ keyText key ++ "' is already initialized"
  | unassigned key => "Key '" ++ keyText key ++ "' is not initialized"

namespace OnceMap

variable {κ ν : Type}

def empty : OnceMap κ ν :=
  ⟨ShardMap.empty⟩

def size (map : OnceMap κ ν) : Nat :=
  map.entries.size

def isEmpty (map : OnceMap κ ν) : Bool :=
  map.entries.isEmpty

variable [BEq κ] [Hashable κ]

/-- Gives a key its value. -/
def set (map : OnceMap κ ν) (key : κ) (value : ν) : Except (OnceFault κ) (OnceMap κ ν) :=
  match map.entries.getThenInsertIfNew? key value with
  | (none, entries) => .ok ⟨entries⟩
  | (some _, _) => .error (.assigned key)

def get (map : OnceMap κ ν) (key : κ) : Except (OnceFault κ) ν :=
  match map.entries.get? key with
  | some value => .ok value
  | none => .error (.unassigned key)

def isAssigned (map : OnceMap κ ν) (key : κ) : Bool :=
  map.entries.contains key

omit [BEq κ] [Hashable κ] in
def describe (_map : OnceMap κ ν) : String :=
  Text.withheld "SingleAssignmentMap"

end OnceMap

end Dispatch
