import Dispatch.Fault
import Dispatch.ShardMap

/-!
# Priority queues with movable elements

A queue has a fixed number of levels, the first being the most urgent, and serves each of them first come,
first served. An element is queued at most once at a time; a map keeps the level of every queued element,
so that it can be found, taken out and moved. Elements are recognised by their equality alone: the copy
that is handed out is the one that was queued last.
-/

namespace Dispatch

/-- A level of a queue. Its occupancy is kept beside the elements, to be read without them. -/
structure Level (α : Type) where
  elements : List α
  occupancy : Nat

namespace Level

variable {α : Type}

def empty : Level α :=
  ⟨[], 0⟩

def ofList (elements : List α) : Level α :=
  ⟨elements, elements.length⟩

def push (level : Level α) (element : α) : Level α :=
  ofList (level.elements ++ [element])

def pop (level : Level α) : Option α × Level α :=
  (level.elements.head?, ofList level.elements.tail)

def remove [BEq α] (level : Level α) (element : α) : Bool × Level α :=
  if level.elements.contains element then (true, ofList (level.elements.erase element))
  else (false, level)

end Level

/-- A queue with levels, and the level of every queued element. -/
structure PriorityQueue (α : Type) where
  levels : Array (Level α)
  levelOf : ShardMap α Nat

namespace PriorityQueue

variable {α : Type}

def ofLevels (levels : Nat) : Except QueueFault (PriorityQueue α) :=
  if levels = 0 then .error .noLevels
  else .ok { levels := Array.replicate levels .empty, levelOf := .empty }

def size (queue : PriorityQueue α) : Nat :=
  queue.levelOf.size

def isEmpty (queue : PriorityQueue α) : Bool :=
  queue.levelOf.isEmpty

/-- The number of elements in the levels. -/
def queued (queue : PriorityQueue α) : Nat :=
  (queue.levels.toList.flatMap Level.elements).length

def levelSize (queue : PriorityQueue α) (level : Nat) : Nat :=
  (queue.levels[level]?.map Level.occupancy).getD 0

/-- Refuses a priority that no level has. -/
def checkPriority (queue : PriorityQueue α) (priority : Nat) : Except QueueFault Unit :=
  if queue.levels.size ≤ priority then .error (.outOfRange priority queue.levels.size)
  else .ok ()

def push (queue : PriorityQueue α) (level : Nat) (element : α) : PriorityQueue α :=
  { queue with levels := queue.levels.modify level (·.push element) }

/-- Takes an element out of a level, and says whether it was there. -/
def removeFrom [BEq α] (queue : PriorityQueue α) (level : Nat) (element : α) :
    Bool × PriorityQueue α :=
  match queue.levels[level]? with
  | none => (false, queue)
  | some found =>
    let (removed, rest) := found.remove element
    (removed, { queue with levels := queue.levels.setIfInBounds level rest })

variable [BEq α] [Hashable α]

def contains (queue : PriorityQueue α) (element : α) : Bool :=
  queue.levelOf.contains element

def enqueue (queue : PriorityQueue α) (element : α) (priority : Nat) :
    Except QueueFault (PriorityQueue α) := do
  queue.checkPriority priority
  match queue.levelOf.getThenInsertIfNew? element priority with
  | (some _, _) => .error .duplicate
  | (none, levelOf) => .ok ({ queue with levelOf }.push priority element)

/-- Takes the first element of the first of the given levels that has one. -/
def dequeueFrom (queue : PriorityQueue α) : List Nat → Option (Nat × α) × PriorityQueue α
  | [] => (none, queue)
  | level :: rest =>
    match queue.levels[level]? with
    | none => queue.dequeueFrom rest
    | some found =>
      if found.occupancy = 0 then queue.dequeueFrom rest
      else
        let levels := queue.levels.setIfInBounds level found.pop.2
        match found.pop.1 with
        | none => { queue with levels }.dequeueFrom rest
        | some element =>
          (some (level, element), { levels, levelOf := (queue.levelOf.remove element).2 })

/-- Takes the first element of the most urgent level that has one, and tells the level. -/
def dequeue (queue : PriorityQueue α) : Option (Nat × α) × PriorityQueue α :=
  queue.dequeueFrom (List.range queue.levels.size)

/-- Moves a queued element to the end of another level, and tells the level it came from. An element
that is not queued, or is at that level already, stays as it is. -/
def moveTo (queue : PriorityQueue α) (element : α) (priority : Nat) :
    Except QueueFault (Option Nat × PriorityQueue α) := do
  queue.checkPriority priority
  match queue.levelOf.get? element with
  | none => .ok (none, queue)
  | some current =>
    if current = priority then .ok (none, queue)
    else
      match queue.removeFrom current element with
      | (false, queue) => .ok (none, queue)
      | (true, queue) =>
        let levelOf := queue.levelOf.put element priority
        .ok (some current, { queue with levelOf }.push priority element)

def remove (queue : PriorityQueue α) (element : α) : Bool × PriorityQueue α :=
  match queue.levelOf.remove element with
  | (none, _) => (false, queue)
  | (some level, levelOf) => { queue with levelOf }.removeFrom level element

omit [BEq α] [Hashable α] in
def describe (queue : PriorityQueue α) : String :=
  Text.fields "DynamicPriorityQueue"
    [("levels", Text.listing (queue.levels.toList.map fun level => Nat.repr level.occupancy))]

/-- Takes elements until none is left. -/
def drainWithin : Nat → PriorityQueue α → List α × PriorityQueue α
  | 0, queue => ([], queue)
  | bound + 1, queue =>
    match queue.dequeue with
    | (none, queue) => ([], queue)
    | (some (_, element), queue) =>
      let (elements, queue) := drainWithin bound queue
      (element :: elements, queue)

/-- Takes all elements, in the order in which they are handed out. -/
def drain (queue : PriorityQueue α) : List α × PriorityQueue α :=
  drainWithin (queue.queued + 1) queue

end PriorityQueue

end Dispatch
