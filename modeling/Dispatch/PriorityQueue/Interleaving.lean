import Dispatch.PriorityQueue

/-!
# Callers of a priority queue side by side

Seen closely, to queue an element is two actions: it is entered on the map and then put into its level. To
take one is more: the levels are looked at one after the other, the first element of one that seems to have
any is taken out, and is off the map only after that. Between two such actions of one caller any number of
actions of others may take place. A stage tells how far a call has come, and a step of a stage is the next
of its actions.
-/

namespace Dispatch

namespace PriorityQueue

variable {α : Type}

inductive Request (α : Type) where
  | enqueue (element : α) (priority : Nat)
  | dequeue
  deriving DecidableEq, Repr

inductive Reply (α : Type) where
  /-- The element was not queued. -/
  | refused (fault : QueueFault)
  | queued (level : Nat) (element : α)
  /-- An element was taken from a level, or all levels seemed to be empty. -/
  | served (found : Option (Nat × α))
  deriving DecidableEq, Repr

/-- How far a call has come. -/
inductive Stage (α : Type) where
  /-- There is no call. -/
  | idle
  /-- Enters an element on the map. -/
  | entering (level : Nat) (element : α)
  /-- Puts an element that is on the map into its level. -/
  | pushing (level : Nat) (element : α)
  /-- Looks at the first of the levels that are left. -/
  | looking (levels : List Nat)
  /-- Takes the first element of a level, and looks at the levels behind it if there is none. -/
  | popping (level : Nat) (rest : List Nat)
  /-- Takes an element that came out of a level off the map. -/
  | leaving (level : Nat) (element : α)
  deriving DecidableEq, Repr

/-- Begins a call, which is over at once if the priority is that of no level. -/
def Request.begin (queue : PriorityQueue α) : Request α → Stage α × Option (Reply α)
  | enqueue element priority =>
    match queue.checkPriority priority with
    | .error fault => (.idle, some (.refused fault))
    | .ok () => (.entering priority element, none)
  | dequeue => (.looking (List.range queue.levels.size), none)

variable [BEq α] [Hashable α]

/-- The next action of a call, and what its caller is told if it was the last one. -/
def Stage.step (queue : PriorityQueue α) :
    Stage α → PriorityQueue α × Stage α × Option (Reply α)
  | idle => (queue, idle, none)
  | entering level element =>
    match queue.levelOf.getThenInsertIfNew? element level with
    | (some _, _) => (queue, idle, some (.refused .duplicate))
    | (none, levelOf) => ({ queue with levelOf }, pushing level element, none)
  | pushing level element => (queue.push level element, idle, some (.queued level element))
  | looking [] => (queue, idle, some (.served none))
  | looking (level :: rest) =>
    if queue.levelSize level = 0 then (queue, looking rest, none)
    else (queue, popping level rest, none)
  | popping level rest =>
    match queue.levels[level]? with
    | none => (queue, looking rest, none)
    | some found =>
      let queue := { queue with levels := queue.levels.setIfInBounds level found.pop.2 }
      match found.pop.1 with
      | none => (queue, looking rest, none)
      | some element => (queue, leaving level element, none)
  | leaving level element =>
    ({ queue with levelOf := (queue.levelOf.remove element).2 }, idle,
      some (.served (some (level, element))))

/-- A queue, how far each of its callers has come, and what callers were told, the latest first. -/
structure Crowd (α : Type) where
  queue : PriorityQueue α
  stages : List (Stage α)
  replies : List (Reply α)

namespace Crowd

omit [BEq α] [Hashable α] in
def ofQueue (queue : PriorityQueue α) (callers : Nat) : Crowd α :=
  ⟨queue, List.replicate callers .idle, []⟩

omit [BEq α] [Hashable α] in
def call (crowd : Crowd α) (caller : Nat) (request : Request α) : Crowd α :=
  match crowd.stages[caller]? with
  | some .idle =>
    let (stage, reply) := request.begin crowd.queue
    { crowd with
      stages := crowd.stages.set caller stage
      replies := reply.toList ++ crowd.replies }
  | _ => crowd

def step (crowd : Crowd α) (caller : Nat) : Crowd α :=
  match crowd.stages[caller]? with
  | none => crowd
  | some stage =>
    let (queue, stage, reply) := stage.step crowd.queue
    ⟨queue, crowd.stages.set caller stage, reply.toList ++ crowd.replies⟩

end Crowd

end PriorityQueue

end Dispatch
