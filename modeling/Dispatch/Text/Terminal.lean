import Dispatch.Text.Quoted

/-!
# Text for a terminal

Some controls make a terminal act instead of showing something: escape, bell, backspace, form feed,
delete and the controls above the ASCII range. Shown on a terminal, a text has them spelled out. Tabs
and line ends stay.
-/

namespace Dispatch.Text

/-- Two hexadecimal digits of a control. -/
def controlDigits (c : Char) : String :=
  "\\x" ++ String.ofList ((Nat.toDigits 16 c.toNat).leftpad 2 '0')

/-- How one character is sent to a terminal. -/
def defused (c : Char) : String :=
  if c ∈ ['\x07', '\x08', '\x0c', '\x1b', '\x7f'] then controlDigits c
  else if 0x80 ≤ c.toNat ∧ c.toNat ≤ 0x9F then codePoint c
  else c.toString

/-- A text that makes a terminal do nothing but show it. -/
def forTerminal (text : String) : String :=
  String.join (text.toList.map defused)

end Dispatch.Text
