import Dispatch.Text.Layout

/-!
# Lock tokens

A token stands for a resource that a task needs for itself alone. It is either one of a kind, known by
the serial number it was made with, or named, and then equal to every other token of the same name.
-/

namespace Dispatch

/-- What a task must hold alone while it runs. -/
inductive Token where
  | unique (serial : Nat)
  | named (name : String)
  deriving DecidableEq, Repr

namespace Token

/-- Spreads tokens over the shards of a map: unique tokens by their serial number, named ones by the
characters of their name. -/
instance : Hashable Token where
  hash
    | unique serial => UInt64.ofNat (2 * serial)
    | named name => name.toList.foldl (fun h c => 31 * h + UInt64.ofNat c.toNat) 1

def name? : Token → Option String
  | unique _ => none
  | named name => some name

def text : Token → String
  | unique serial => "#" ++ Nat.repr serial
  | named name => name

def describe (token : Token) : String :=
  Text.applied "LockToken" [token.text]

def describeAll (tokens : List Token) : String :=
  Text.listing (tokens.map describe)

/-- Each token once, in the order of the first occurrences. -/
def distinct (tokens : List Token) : List Token :=
  tokens.eraseDups

end Token

end Dispatch
