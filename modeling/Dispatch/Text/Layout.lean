/-!
# One-line texts of structured values

A value is shown as a word, as a word with arguments in brackets, as a word with named fields, or as a
list. The functions below only place the punctuation; what stands between it is given to them as text.
-/

namespace Dispatch.Text

/-- The items of a list, a comma and a blank between each two. -/
def commaSeparated (items : List String) : String :=
  ", ".intercalate items

/-- A list in square brackets. -/
def listing (items : List String) : String :=
  "[" ++ commaSeparated items ++ "]"

/-- A word with its arguments in brackets. -/
def applied (word : String) (arguments : List String) : String :=
  word ++ "(" ++ commaSeparated arguments ++ ")"

/-- A word with its named fields in braces. -/
def fields (word : String) (entries : List (String × String)) : String :=
  word ++ " \x7b " ++ commaSeparated (entries.map fun e => e.1 ++ ": " ++ e.2) ++ " \x7d"

/-- A word whose fields are kept back. -/
def withheld (word : String) : String :=
  word ++ " \x7b .. \x7d"

def optional : Option String → String
  | none => "None"
  | some text => applied "Some" [text]

def truth : Bool → String
  | true => "true"
  | false => "false"

end Dispatch.Text
