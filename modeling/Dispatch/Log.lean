import Dispatch.Text.Lines
import Dispatch.Text.Terminal

/-!
# Log lines

An entry has a level, a message and fields. A reader chooses the lowest level to be told; the console
puts the level, right-aligned, and the name of the thread in front, and spells out the controls in the
message. An entry whose text has line ends takes several lines there.
-/

namespace Dispatch

/-- How much an entry matters. -/
inductive LogLevel where
  | trace
  | debug
  | info
  | warn
  | error
  deriving DecidableEq, Repr

namespace LogLevel

def rank : LogLevel → Nat
  | trace => 0
  | debug => 1
  | info => 2
  | warn => 3
  | error => 4

def name : LogLevel → String
  | trace => "TRACE"
  | debug => "DEBUG"
  | info => "INFO"
  | warn => "WARN"
  | error => "ERROR"

/-- The level of a name in small letters. -/
def ofName? : String → Option LogLevel
  | "trace" => some trace
  | "debug" => some debug
  | "info" => some info
  | "warn" => some warn
  | "error" => some error
  | _ => none

/-- Whether entries of a level are told when this one is the lowest. -/
def admits (lowest level : LogLevel) : Bool :=
  lowest.rank ≤ level.rank

end LogLevel

structure LogEntry where
  level : LogLevel
  message : String
  fields : List (String × String) := []
  deriving DecidableEq, Repr

namespace LogEntry

def withFields (entry : LogEntry) (message : String) : String :=
  " ".intercalate (message :: entry.fields.map fun field => field.1 ++ "=" ++ field.2)

def line (entry : LogEntry) : String :=
  entry.level.name ++ " " ++ entry.withFields entry.message

/-- The entry as the console shows it. -/
def consoleText (thread : String) (entry : LogEntry) : String :=
  "".pushn ' ' (5 - entry.level.name.length) ++ entry.level.name ++ " " ++ thread ++ " "
    ++ entry.withFields (Text.forTerminal entry.message)

end LogEntry

/-- The lines of the entries that are told when this level is the lowest. -/
def LogLevel.lines (lowest : LogLevel) (entries : List LogEntry) : List String :=
  (entries.filter fun entry => lowest.admits entry.level).map LogEntry.line

/-- A console, silent until a level has been set. -/
structure Console where
  lowest : Option LogLevel := none
  deriving DecidableEq, Repr

namespace Console

/-- Sets the level of a console that has none; later settings have no effect. -/
def setUp (console : Console) (lowest : LogLevel) : Console :=
  { lowest := console.lowest.or (some lowest) }

/-- What a console shows of a log, each entry ended by a line feed. -/
def output (console : Console) (thread : String) (entries : List LogEntry) : String :=
  match console.lowest with
  | none => ""
  | some lowest =>
    String.join ((entries.filter fun entry => lowest.admits entry.level).map
      fun entry => entry.consoleText thread ++ "\n")

/-- The lines of what a console shows of a log. -/
def lines (console : Console) (thread : String) (entries : List LogEntry) : List String :=
  Text.lines (console.output thread entries)

end Console

end Dispatch
