/-!
# JSON text

The text is read byte by byte, from the left, and the first fault that is met is the one reported. A
reader takes what it reads off the front of a text and answers the rest.
-/

namespace Dispatch.Json

/-- Why a text does not hold what is read from it. -/
inductive Fault where
  /-- The text breaks the rules. -/
  | malformed
  /-- The text ends too early. -/
  | cutShort
  /-- A value is there, but not one of the kind that is read. -/
  | unsuitable
  deriving DecidableEq, Repr

/-- A text as it is read. -/
abbrev Bytes := List UInt8

def byte (c : Char) : UInt8 :=
  UInt8.ofNat c.toNat

def isDigit (b : UInt8) : Bool :=
  48 ≤ b && b ≤ 57

/-- The text after white space. -/
def skipBlanks (text : Bytes) : Bytes :=
  text.dropWhile fun b => b = 32 || b = 10 || b = 9 || b = 13

/-- Reads what is left of a word. -/
def readWord : Bytes → Bytes → Except Fault Bytes
  | [], text => .ok text
  | _ :: _, [] => .error .cutShort
  | b :: word, c :: text => if b = c then readWord word text else .error .malformed

def word (text : String) : Bytes :=
  text.toUTF8.toList

end Dispatch.Json
