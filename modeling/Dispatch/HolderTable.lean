import Dispatch.Fault
import Dispatch.ShardMap

/-!
# The table of holders

Every held token is entered in the table with the waiting list of its holder; all tokens of one holder
share a list. A claim enters all tokens of a task or none. Tasks that find a token held wait on the list
of the holder, as long as that list has not been freed; freeing a list hands out its waiters once and for
all.
-/

namespace Dispatch

/-- A task, as the engine refers to it. -/
abbrev TaskIndex := Nat

/-- A waiting list, as the table of holders refers to it. -/
abbrev ListIndex := Nat

/-- The tasks waiting for one holder. -/
structure WaitingList where
  freed : Bool := false
  waiters : List TaskIndex := []
  deriving DecidableEq, Repr

namespace WaitingList

/-- Lets a task wait, unless the list has been freed. -/
def add? (list : WaitingList) (task : TaskIndex) : Option WaitingList :=
  if list.freed then none else some { list with waiters := list.waiters ++ [task] }

/-- Frees the list and hands out its waiters. -/
def free (list : WaitingList) : List TaskIndex × WaitingList :=
  (list.waiters, { freed := true, waiters := [] })

end WaitingList

/-- All waiting lists made so far. -/
structure WaitingLists where
  lists : Array WaitingList := #[]
  deriving DecidableEq, Repr

namespace WaitingLists

def make (lists : WaitingLists) : ListIndex × WaitingLists :=
  (lists.lists.size, ⟨lists.lists.push {}⟩)

/-- A list; one that was never made counts as freed. -/
def get (lists : WaitingLists) (list : ListIndex) : WaitingList :=
  lists.lists.getD list { freed := true }

/-- Puts a task on a list, unless the list has been freed. -/
def add? (lists : WaitingLists) (list : ListIndex) (task : TaskIndex) : Option WaitingLists :=
  ((lists.get list).add? task).map fun changed => ⟨lists.lists.setIfInBounds list changed⟩

/-- Frees a list and hands out its waiters. -/
def free (lists : WaitingLists) (list : ListIndex) : List TaskIndex × WaitingLists :=
  let (waiters, changed) := (lists.get list).free
  (waiters, ⟨lists.lists.setIfInBounds list changed⟩)

end WaitingLists

inductive Claim where
  /-- Every token is now entered with the list of the claim. -/
  | acquired
  /-- A token is held, with this list. -/
  | held (list : ListIndex)
  deriving DecidableEq, Repr

/-- The held tokens and the lists of their holders. -/
structure HolderTable where
  holders : ShardMap Token ListIndex

namespace HolderTable

def empty : HolderTable :=
  ⟨.empty⟩

/-- The list a token is held with. -/
def holder? (table : HolderTable) (token : Token) : Option ListIndex :=
  table.holders.get? token

def isHeld (table : HolderTable) (token : Token) : Bool :=
  table.holders.contains token

def held (table : HolderTable) : Nat :=
  table.holders.size

/-- Takes a token out of the table and answers the list it was held with. -/
def remove (table : HolderTable) (token : Token) : Option ListIndex × HolderTable :=
  let (list, holders) := table.holders.remove token
  (list, ⟨holders⟩)

/-- Takes a token out of the table if it is held with this list. -/
def withdraw (table : HolderTable) (list : ListIndex) (token : Token) : HolderTable :=
  if table.holder? token = some list then (table.remove token).2 else table

/-- Enters the tokens one after the other. At the first one that is held, the tokens entered before it
are taken back. -/
def claimAfter (list : ListIndex) (entered : List Token) (table : HolderTable) :
    List Token → Claim × HolderTable
  | [] => (.acquired, table)
  | token :: rest =>
    match table.holders.getThenInsertIfNew? token list with
    | (some holder, _) => (.held holder, entered.foldl (withdraw · list) table)
    | (none, holders) => claimAfter list (entered ++ [token]) ⟨holders⟩ rest

/-- Enters all tokens with a list, or none. -/
def claim (table : HolderTable) (tokens : List Token) (list : ListIndex) : Claim × HolderTable :=
  claimAfter list [] table tokens

/-- What a release took out of the table. -/
structure Taken where
  table : HolderTable
  /-- The lists the tokens were held with, each once. -/
  lists : List ListIndex
  outcome : Except Fault Unit

/-- Takes the tokens out one after the other. A token that nobody holds ends the release, and so does
one that is held with another list than the first; that one is taken out before. -/
def takeAfter (lists : List ListIndex) (table : HolderTable) : List Token → Taken
  | [] => ⟨table, lists, .ok ()⟩
  | token :: rest =>
    match table.remove token with
    | (none, table) => ⟨table, lists, .error (.notHeld token)⟩
    | (some list, table) =>
      if lists.contains list then takeAfter lists table rest
      else if lists.isEmpty then takeAfter [list] table rest
      else ⟨table, lists ++ [list], .error .mixedHolders⟩

/-- Takes the tokens of one holder out of the table. -/
def take (table : HolderTable) (tokens : List Token) : Taken :=
  takeAfter [] table tokens

end HolderTable

end Dispatch
