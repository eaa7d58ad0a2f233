import Dispatch.Json.Number
import Dispatch.Json.Text

/-!
# Values in JSON

Machine words and strings are read; a value of another kind in their place is refused, after as much of
it as is needed to tell its kind. Any value can be skipped, however deep it is nested.
-/

namespace Dispatch.Json

/-- Why the value at the front of a text is of no use. -/
def refusal (text : Bytes) : Fault :=
  let outcome {α : Type} : Except Fault α → Fault
    | .ok _ => .unsuitable
    | .error fault => fault
  match text with
  | [] => .cutShort
  | b :: rest =>
    if b = byte 'n' then outcome (readWord (word "ull") rest)
    else if b = byte 't' then outcome (readWord (word "rue") rest)
    else if b = byte 'f' then outcome (readWord (word "alse") rest)
    else if b = byte '-' then outcome (readNumber rest)
    else if isDigit b then outcome (readNumber text)
    else if b = byte '"' then outcome (readString [] rest)
    else if b = byte '[' || b = byte '\x7b' then .unsuitable
    else .malformed

def readUnsigned (text : Bytes) : Except Fault (Nat × Bytes) :=
  let text := skipBlanks text
  if text.head?.any isDigit then
    match readNumber text with
    | .ok (some value, rest) => .ok (value, rest)
    | .ok (none, _) => .error .unsuitable
    | .error fault => .error fault
  else .error (refusal text)

/-- Reads a machine word that may be missing. -/
def readOptional (text : Bytes) : Except Fault (Option Nat × Bytes) :=
  match skipBlanks text with
  | [] => .error .cutShort
  | b :: rest =>
    if b = byte 'n' then do return (none, ← readWord (word "ull") rest)
    else do
      let (value, rest) ← readUnsigned (b :: rest)
      return (some value, rest)

def readText (text : Bytes) : Except Fault (String × Bytes) :=
  let text := skipBlanks text
  match text with
  | [] => .error .cutShort
  | b :: rest =>
    if b = byte '"' then do
      let (bytes, rest) ← readString [] rest
      return ((String.fromUTF8? ⟨bytes.toArray⟩).getD "", rest)
    else .error (refusal text)

/-- What is expected while a value is skipped. -/
inductive Expected where
  /-- A value. -/
  | value
  /-- The first item of the innermost list or object, or its end. -/
  | first
  /-- The next item of the innermost list or object, or its end. -/
  | next
  deriving DecidableEq, Repr

/-- Skips a value without items of its own. -/
def skipScalar (b : UInt8) (rest : Bytes) : Except Fault Bytes :=
  if b = byte 'n' then readWord (word "ull") rest
  else if b = byte 't' then readWord (word "rue") rest
  else if b = byte 'f' then readWord (word "alse") rest
  else if b = byte '-' then skipNumber rest
  else if isDigit b then skipNumber (b :: rest)
  else if b = byte '"' then skipString rest
  else .error .malformed

/-- Skips the name of a member and the colon after it. -/
def skipName (text : Bytes) : Except Fault Bytes := do
  match skipBlanks text with
  | [] => .error .cutShort
  | b :: rest =>
    if b ≠ byte '"' then .error .malformed
    match skipBlanks (← skipString rest) with
    | [] => .error .cutShort
    | c :: rest => if c = byte ':' then return rest else .error .malformed

/-- Skips a value, given which of the lists and objects around it are objects. -/
def skipWithin : Nat → Expected → List Bool → Bytes → Except Fault Bytes
  | 0, _, _, _ => .error .malformed
  | bound + 1, .value, around, text =>
    match skipBlanks text with
    | [] => .error .cutShort
    | b :: rest =>
      if b = byte '[' then skipWithin bound .first (false :: around) rest
      else if b = byte '\x7b' then skipWithin bound .first (true :: around) rest
      else
        match skipScalar b rest with
        | .error fault => .error fault
        | .ok rest => skipWithin bound .next around rest
  | _ + 1, _, [], text => .ok text
  | bound + 1, expected, isObject :: around, text =>
    match skipBlanks text with
    | [] => .error .cutShort
    | b :: rest =>
      let item (text : Bytes) : Except Fault Bytes := do
        let text ← if isObject then skipName text else pure text
        skipWithin bound .value (isObject :: around) text
      if b = byte (if isObject then '\x7d' else ']') then skipWithin bound .next around rest
      else if expected = .first then item (b :: rest)
      else if b = byte ',' then item rest
      else .error .malformed

def skipValue (text : Bytes) : Except Fault Bytes :=
  skipWithin (2 * text.length + 2) .value [] text

def readColon (text : Bytes) : Except Fault Bytes :=
  match skipBlanks text with
  | [] => .error .cutShort
  | b :: rest => if b = byte ':' then .ok rest else .error .malformed

/-- Reads the value of a member that must not have been read before. -/
def readMember {α : Type} (before : Option α) (read : Bytes → Except Fault (α × Bytes))
    (text : Bytes) : Except Fault (α × Bytes) :=
  if before.isSome then .error .unsuitable
  else do read (← readColon text)

/-- Reads the next item of a list, if there is one. -/
def readItem {α : Type} (isFirst : Bool) (read : Bytes → Except Fault (α × Bytes))
    (text : Bytes) : Except Fault (Option α × Bytes) :=
  let item (text : Bytes) : Except Fault (Option α × Bytes) := do
    let (value, rest) ← read text
    return (some value, rest)
  match skipBlanks text with
  | [] => .error .cutShort
  | b :: rest =>
    if b = byte ']' then .ok (none, b :: rest)
    else if isFirst then item (b :: rest)
    else if b ≠ byte ',' then .error .malformed
    else
      match skipBlanks rest with
      | [] => .error .cutShort
      | c :: rest => if c = byte ']' then .error .malformed else item (c :: rest)

end Dispatch.Json
