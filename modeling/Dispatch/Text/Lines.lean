/-!
# Lines of a text

A line feed ends a line, and a carriage return right before it belongs to the end. What follows the last
line feed is a line of its own unless it is empty.
-/

namespace Dispatch.Text

/-- A line, written backwards, without the carriage return at its end. -/
def withoutReturn : List Char → List Char
  | '\r' :: line => line
  | line => line

/-- The lines of a text when the start of the first one has been read, backwards, before. -/
def linesFrom (start : List Char) : List Char → List String
  | [] => if start.isEmpty then [] else [String.ofList start.reverse]
  | c :: rest =>
    if c = '\n' then String.ofList (withoutReturn start).reverse :: linesFrom [] rest
    else linesFrom (c :: start) rest

def lines (text : String) : List String :=
  linesFrom [] text.toList

end Dispatch.Text
