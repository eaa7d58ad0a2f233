import Dispatch.Json.Basic
import Dispatch.Text.Unsigned

/-!
# Numbers in JSON

A number has no leading zero. Its fraction and its exponent may be missing, but neither is without a
digit. A number that is read must lie in the range of double precision; one that is skipped need not.
Only the leading digits that fit into a machine word count, and the rounding is that of one product.
-/

namespace Dispatch.Json

def digitsValue (digits : Bytes) : Nat :=
  digits.foldl (fun value b => 10 * value + (b.toNat - 48)) 0

/-- Appends digits to a whole number until it would outgrow a machine word. The second part of the answer
is how many digits were left out. -/
def appendDigits (whole : Nat) : Bytes → Nat × Nat
  | [] => (whole, 0)
  | b :: rest =>
    let longer := 10 * whole + (b.toNat - 48)
    if longer < Text.wordBound then appendDigits longer rest else (whole, rest.length + 1)

/-- The nearest number with at most 53 binary digits before its zeros, in a tie the even one. -/
def roundToDouble (whole : Nat) : Nat :=
  let unit := Nat.pow 2 (Nat.log2 whole + 1 - 53)
  let below := whole / unit
  let twice := 2 * (whole % unit)
  if unit < twice || (twice = unit && below % 2 = 1) then (below + 1) * unit else below * unit

/-- Numbers from here on are rounded out of range. -/
def hugeBound : Nat := Nat.pow 2 1024 - Nat.pow 2 970

/-- Whether a number, a whole one times a power of ten, is in range. Both factors are rounded before they
are multiplied; the largest power of ten in range is the 308th. -/
def inRange (whole : Nat) (exponent : Int) : Bool :=
  if whole = 0 || exponent < 0 then true
  else if 308 < exponent then false
  else roundToDouble whole * roundToDouble (Nat.pow 10 exponent.toNat) < hugeBound

/-- The digits at the front of a text, and the rest. -/
def spanDigits (text : Bytes) : Bytes × Bytes :=
  (text.takeWhile isDigit, text.dropWhile isDigit)

def readDigits (text : Bytes) : Except Fault (Bytes × Bytes) :=
  match spanDigits text with
  | ([], []) => .error .cutShort
  | ([], _ :: _) => .error .malformed
  | (digits, rest) => .ok (digits, rest)

def readExponent (text : Bytes) : Except Fault (Option Int × Bytes) :=
  match text with
  | [] => .ok (none, [])
  | e :: rest =>
    if e = byte 'e' || e = byte 'E' then
      let (negative, rest) :=
        match rest with
        | [] => (false, [])
        | b :: after =>
          if b = byte '-' then (true, after)
          else if b = byte '+' then (false, after)
          else (false, rest)
      match readDigits rest with
      | .error fault => .error fault
      | .ok (digits, rest) =>
        let value : Int := digitsValue digits
        .ok (some (if negative then -value else value), rest)
    else .ok (none, text)

def readFraction (text : Bytes) : Except Fault (Option Bytes × Bytes) :=
  match text with
  | [] => .ok (none, [])
  | b :: rest =>
    if b = byte '.' then
      match readDigits rest with
      | .error fault => .error fault
      | .ok (digits, rest) => .ok (some digits, rest)
    else .ok (none, text)

/-- Reads a number after its sign. The answer is its value if it is a whole number below the bound of
machine words, written without fraction or exponent. -/
def readNumber (text : Bytes) : Except Fault (Option Nat × Bytes) := do
  let (digits, rest) ← readDigits text
  if digits.head? = some 48 && digits.length ≠ 1 then .error .malformed
  let (fraction, rest) ← readFraction rest
  let (exponent, rest) ← readExponent rest
  if fraction.isNone && exponent.isNone && digitsValue digits < Text.wordBound then
    return (some (digitsValue digits), rest)
  let (whole, dropped) := appendDigits 0 digits
  let (whole, ignored) := appendDigits whole (fraction.getD [])
  let shift : Int := dropped + ignored - (fraction.getD []).length + exponent.getD 0
  if inRange whole shift then return (none, rest)
  else .error .malformed

/-- Skips digits, of which there must be at least one. -/
def skipDigits (text : Bytes) : Except Fault Bytes :=
  match spanDigits text with
  | ([], _) => .error .malformed
  | (_, rest) => .ok rest

/-- Skips a number after its sign. A number that ends too early breaks the rules. -/
def skipNumber (text : Bytes) : Except Fault Bytes := do
  let digits := (spanDigits text).1
  if digits.head? = some 48 && digits.length ≠ 1 then .error .malformed
  let rest ← skipDigits text
  let rest ←
    match rest with
    | [] => pure []
    | b :: after => if b = byte '.' then skipDigits after else pure rest
  match rest with
  | [] => return []
  | e :: after =>
    if e = byte 'e' || e = byte 'E' then
      match after with
      | [] => .error .malformed
      | sign :: digits =>
        if sign = byte '+' || sign = byte '-' then skipDigits digits else skipDigits after
    else return rest

end Dispatch.Json
