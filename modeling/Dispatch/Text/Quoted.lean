import Dispatch.Text.Invisible

/-!
# Quoted text

A text is shown between double quotes. Quotes, backslashes and the usual controls have short escapes,
every other invisible character is given by its code point in hexadecimal digits.
-/

namespace Dispatch.Text

/-- The digits of a code point, in braces. -/
def codePoint (c : Char) : String :=
  "\\u\x7b" ++ String.ofList (Nat.toDigits 16 c.toNat) ++ "\x7d"

/-- How one character is written between the quotes. -/
def escaped (c : Char) : String :=
  if c = '\x00' then "\\0"
  else if c = '\t' then "\\t"
  else if c = '\n' then "\\n"
  else if c = '\r' then "\\r"
  else if c = '"' then "\\\""
  else if c = '\\' then "\\\\"
  else if isInvisible c then codePoint c
  else c.toString

/-- A text between quotes. -/
def quoted (text : String) : String :=
  "\"" ++ String.join (text.toList.map escaped) ++ "\""

end Dispatch.Text
