/-!
# Reading unsigned integers

White space around the number is dropped; what is left is an optional plus sign and decimal digits whose
value stays below a bound. The digits are read from the left, and the first fault that is met is the one
reported.
-/

namespace Dispatch.Text

/-- Why a text is not an unsigned integer. -/
inductive UnsignedFault where
  /-- Nothing is left of the text. -/
  | empty
  /-- A character is not a decimal digit. -/
  | invalidDigit
  /-- The value reaches the bound. -/
  | tooLarge
  deriving DecidableEq, Repr

def UnsignedFault.message : UnsignedFault → String
  | empty => "cannot parse integer from empty string"
  | invalidDigit => "invalid digit found in string"
  | tooLarge => "number too large to fit in target type"

def UnsignedFault.word : UnsignedFault → String
  | empty => "Empty"
  | invalidDigit => "InvalidDigit"
  | tooLarge => "PosOverflow"

/-- White space in any script. -/
def isBlank (c : Char) : Bool :=
  let code := c.toNat
  (9 ≤ code && code ≤ 13) || code = 0x20 || code = 0x85 || code = 0xA0 || code = 0x1680 ||
    (0x2000 ≤ code && code ≤ 0x200A) || code = 0x2028 || code = 0x2029 || code = 0x202F ||
    code = 0x205F || code = 0x3000

/-- The text without white space at either end. -/
def trimmed (cs : List Char) : List Char :=
  ((cs.dropWhile isBlank).reverse.dropWhile isBlank).reverse

def digitValue (c : Char) : Option Nat :=
  if c.isDigit then some (c.toNat - 48) else none

/-- Reads digits onto a value that stays below the bound. -/
def readDigits (bound : Nat) : Nat → List Char → Except UnsignedFault Nat
  | value, [] => .ok value
  | value, c :: rest =>
    match digitValue c with
    | none => .error .invalidDigit
    | some digit =>
      if 10 * value + digit < bound then readDigits bound (10 * value + digit) rest
      else .error .tooLarge

/-- Reads a number without white space around it. A sign with no digit after it is a wrong digit. -/
def readSigned (bound : Nat) : List Char → Except UnsignedFault Nat
  | [] => .error .empty
  | '+' :: c :: rest => readDigits bound 0 (c :: rest)
  | cs => readDigits bound 0 cs

/-- The values of machine words lie below this bound. -/
def wordBound : Nat := Nat.pow 2 64

/-- Reads a machine word. -/
def readUnsigned (text : String) : Except UnsignedFault Nat :=
  readSigned wordBound (trimmed text.toList)

end Dispatch.Text
