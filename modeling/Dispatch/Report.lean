import Dispatch.Fault

/-!
# Error reports

A report is what a piece of work returns when it fails: a root, either a plain message or a fault of the
engine, and the contexts that were added on the way up. It is told from the outermost context inwards.
-/

namespace Dispatch

inductive Root where
  | message (text : String)
  | fault (cause : Fault)
  deriving DecidableEq, Repr

/-- An error on its way up, with the outermost context first. -/
structure Report where
  contexts : List String
  root : Root
  deriving DecidableEq, Repr

/-- The messages of a root, from the nearest to the deepest. -/
def Root.chain : Root → List String
  | message text => [text]
  | fault cause => cause.message :: cause.source?.toList

namespace Report

def ofFault (fault : Fault) : Report :=
  { contexts := [], root := .fault fault }

/-- A report made from a message and the contexts put around it one after the other. -/
def ofMessages : List String → Report
  | [] => { contexts := [], root := .message "" }
  | text :: contexts => { contexts := contexts.reverse, root := .message text }

/-- The fault at the root, if there is one. -/
def fault? (report : Report) : Option Fault :=
  match report.root with
  | .message _ => none
  | .fault cause => some cause

def chain (report : Report) : List String :=
  report.contexts ++ report.root.chain

def message (report : Report) : String :=
  report.chain.headD ""

/-- All messages in one line. -/
def fullMessage (report : Report) : String :=
  ": ".intercalate report.chain

/-- A message under a mark, its further lines moved in below it. -/
def indented (mark margin text : String) : String :=
  mark ++ ("\n" ++ margin).intercalate (text.splitOn "\n")

/-- A number at the right end of five columns. -/
def numberMark (number : Nat) : String :=
  let digits := Nat.repr number
  "".pushn ' ' (5 - digits.length) ++ digits ++ ": "

/-- The messages behind the first one. They are numbered if there are several. -/
def causes : List String → String
  | [] => ""
  | [text] => "\n\nCaused by:\n" ++ indented "    " "    " text
  | texts =>
    "\n\nCaused by:" ++ String.join
      (texts.mapIdx fun i text => "\n" ++ indented (numberMark i) "       " text)

def describe (report : Report) : String :=
  report.message ++ causes report.chain.tail

end Report

end Dispatch
