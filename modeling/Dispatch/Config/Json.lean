import Dispatch.Config
import Dispatch.Json.Value

/-!
# Settings as JSON text

Settings are written as an object with all four members. They are read from an object, whose members may
be missing or unknown but not repeated, or from a list of the members in their order, whose tail may be
missing.
-/

namespace Dispatch.Config

open Json

/-- The members read so far. -/
structure Members where
  workers : Option Nat := none
  levels : Option Nat := none
  threadName : Option String := none
  stackSize : Option (Option Nat) := none

/-- The settings of the members, and the defaults for those that are missing. -/
def Members.config (members : Members) : Config :=
  let standard : Config := {}
  { workers := members.workers.getD standard.workers
    levels := members.levels.getD standard.levels
    threadName := members.threadName.getD standard.threadName
    stackSize := members.stackSize.getD standard.stackSize }

def readNamed (name : Bytes) (members : Members) (text : Bytes) :
    Except Json.Fault (Members × Bytes) := do
  if name = word "worker_threads" then
    let (value, rest) ← readMember members.workers readUnsigned text
    return ({ members with workers := some value }, rest)
  else if name = word "priority_levels" then
    let (value, rest) ← readMember members.levels readUnsigned text
    return ({ members with levels := some value }, rest)
  else if name = word "thread_name" then
    let (value, rest) ← readMember members.threadName readText text
    return ({ members with threadName := some value }, rest)
  else if name = word "stack_size" then
    let (value, rest) ← readMember members.stackSize readOptional text
    return ({ members with stackSize := some value }, rest)
  else return (members, ← skipValue (← readColon text))

/-- Reads the members of an object after its brace, or after the members before them. -/
def readMembers : Nat → Bool → Members → Bytes → Except Json.Fault (Members × Bytes)
  | 0, _, _, _ => .error .malformed
  | bound + 1, isFirst, members, text =>
    let named (text : Bytes) : Except Json.Fault (Members × Bytes) := do
      let (name, rest) ← readString [] text
      let (members, rest) ← readNamed name members rest
      readMembers bound false members rest
    match skipBlanks text with
    | [] => .error .cutShort
    | b :: rest =>
      if b = byte '\x7d' then .ok (members, rest)
      else if isFirst then if b = byte '"' then named rest else .error .malformed
      else if b ≠ byte ',' then .error .malformed
      else
        match skipBlanks rest with
        | [] => .error .cutShort
        | c :: rest => if c = byte '"' then named rest else .error .malformed

def readList (text : Bytes) : Except Json.Fault (Members × Bytes) := do
  let (workers, rest) ← readItem true readUnsigned text
  let (levels, rest) ← readItem false readUnsigned rest
  let (threadName, rest) ← readItem false readText rest
  let (stackSize, rest) ← readItem false readOptional rest
  match skipBlanks rest with
  | [] => .error .cutShort
  | b :: rest =>
    if b = byte ']' then return ({ workers, levels, threadName, stackSize }, rest)
    else .error .malformed

/-- Reads settings from the front of a text. -/
def readMembersOrList (text : Bytes) : Except Json.Fault (Members × Bytes) :=
  match text with
  | [] => .error .cutShort
  | b :: rest =>
    if b = byte '[' then readList rest
    else if b = byte '\x7b' then readMembers (rest.length + 1) true {} rest
    else .error (refusal text)

/-- Reads settings from a text that holds nothing else. -/
def ofJson (text : String) : Except Json.Fault Config := do
  let (members, rest) ← readMembersOrList (skipBlanks text.toUTF8.toList)
  match skipBlanks rest with
  | [] => return members.config
  | _ :: _ => .error .malformed

def toJson (config : Config) : String :=
  let members :=
    [("worker_threads", Nat.repr config.workers), ("priority_levels", Nat.repr config.levels),
      ("thread_name", quoted config.threadName),
      ("stack_size", (config.stackSize.map Nat.repr).getD "null")]
  "\x7b" ++ ",".intercalate (members.map fun m => "\"" ++ m.1 ++ "\":" ++ m.2) ++ "\x7d"

end Dispatch.Config
