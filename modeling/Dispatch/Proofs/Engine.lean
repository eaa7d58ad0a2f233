import Dispatch.Engine
import Dispatch.Proofs.Chronicle
import Dispatch.Proofs.HolderTable
import Dispatch.Proofs.PriorityQueue
import Dispatch.Proofs.WaitingLists

/-!
# What the actions of an engine do

Each action of the engine is read off here once: what it finds, and what it leaves in the queue, the
table, the lists and the chronicle. A search for a task to run is a number of tasks that are passed over,
each taken from the queue and put on the list of a holder (`Skips`), followed by its end (`Sought`). An
engine that differs from another only in what neither moves a task nor touches a token is `Quiet` after
it.
-/

namespace Dispatch

namespace Engine

/-- The second engine is the first after things that left all tasks and all tokens where they were. -/
structure Quiet (before after : Engine) : Prop where
  queue : after.queue = before.queue
  table : after.table = before.table
  lists : after.lists = before.lists
  chronicle : ∃ news, after.chronicle = news ++ before.chronicle ∧
    ∀ occurrence ∈ news, occurrence.isQuiet = true

namespace Quiet

variable {engine middle after : Engine}

theorem refl (engine : Engine) : engine.Quiet engine :=
  ⟨rfl, rfl, rfl, [], rfl, by simp⟩

theorem trans (first : engine.Quiet middle) (second : middle.Quiet after) : engine.Quiet after := by
  obtain ⟨hqueue, htable, hlists, news, hnews, hquiet⟩ := first
  obtain ⟨hqueue', htable', hlists', later, hlater, hquiet'⟩ := second
  refine ⟨hqueue'.trans hqueue, htable'.trans htable, hlists'.trans hlists, later ++ news, ?_, ?_⟩
  · rw [hlater, hnews, List.append_assoc]
  · intro occurrence hmem
    rcases List.mem_append.mp hmem with hmem | hmem
    · exact hquiet' occurrence hmem
    · exact hquiet occurrence hmem

theorem of_eq (hqueue : after.queue = engine.queue) (htable : after.table = engine.table)
    (hlists : after.lists = engine.lists) (hchronicle : after.chronicle = engine.chronicle) :
    engine.Quiet after :=
  ⟨hqueue, htable, hlists, [], hchronicle, by simp⟩

theorem of_cons (occurrence : Occurrence) (hqueue : after.queue = engine.queue)
    (htable : after.table = engine.table) (hlists : after.lists = engine.lists)
    (hchronicle : after.chronicle = occurrence :: engine.chronicle)
    (h : occurrence.isQuiet = true) : engine.Quiet after :=
  ⟨hqueue, htable, hlists, [occurrence], hchronicle, by simpa using h⟩

theorem record (quiet : engine.Quiet after) (occurrence : Occurrence)
    (h : occurrence.isQuiet = true) : engine.Quiet (after.record occurrence) :=
  quiet.trans (of_cons occurrence rfl rfl rfl rfl h)

end Quiet

variable {engine after : Engine} {task : TaskIndex}

theorem tokens_congr (h : after.tasks = engine.tasks) : after.tokens = engine.tokens := by
  funext task
  rw [tokens, h]
  rfl

theorem priority_congr (h : after.tasks = engine.tasks) : after.priority = engine.priority := by
  funext task
  rw [priority, h]
  rfl

/-! ### Queueing -/

theorem enqueue_ok (h : engine.enqueue task = .ok after) :
    ∃ queue, engine.queue.enqueue task (engine.priority task) = .ok queue ∧
      after = { engine with queue }.record (.enqueued task (engine.priority task)) := by
  rw [enqueue] at h
  split at h
  · cases h
  · next queue hqueue =>
    cases h
    exact ⟨queue, hqueue, rfl⟩

/-- What accepting a task does. -/
theorem schedule_ok (h : engine.schedule task = .ok after) :
    ∃ queue, engine.queue.enqueue task (engine.priority task) = .ok queue ∧
      after = ({ engine with queue, stats := engine.stats.countScheduled }.record
        (.enqueued task (engine.priority task))).record (.submitted task) := by
  rw [schedule] at h
  split at h
  · cases h
  · split at h
    · cases h
    · next queued hqueued =>
      obtain ⟨queue, hqueue, rfl⟩ := enqueue_ok hqueued
      cases h
      exact ⟨queue, hqueue, rfl⟩

/-- What queueing a waiter again does. -/
theorem requeue_none (h : engine.requeue task = (none, after)) :
    ∃ queue, engine.queue.enqueue task (engine.priority task) = .ok queue ∧
      after = ({ engine with queue, stats := engine.stats.countRequeue }.record
        (.enqueued task (engine.priority task))).record (.requeued task) := by
  rw [requeue] at h
  split at h
  · next queued hqueued =>
    obtain ⟨queue, hqueue, rfl⟩ := enqueue_ok hqueued
    cases h
    exact ⟨queue, hqueue, rfl⟩
  · cases h

theorem requeue_some {fault : Fault} (h : engine.requeue task = (some fault, after)) :
    after = engine.record (.requeueRefused task fault) := by
  rw [requeue] at h
  split at h
  · cases h
  · cases h
    rfl

/-- What moving a task to its priority does. -/
theorem applyPriority_ok {moved : Bool} (h : engine.applyPriority task = .ok (moved, after)) :
    ∃ source queue, engine.queue.moveTo task (engine.priority task) = .ok (source, queue) ∧
      (after = { engine with queue } ∨
        ∃ level, after = { engine with queue }.record
          (.moved task level (engine.priority task))) := by
  rw [applyPriority] at h
  split at h
  · cases h
  · next queue hqueue =>
    cases h
    exact ⟨none, queue, hqueue, Or.inl rfl⟩
  · next source queue hqueue =>
    cases h
    exact ⟨some source, queue, hqueue, Or.inr ⟨source, rfl⟩⟩

theorem shutDown_quiet (engine : Engine) : engine.Quiet engine.shutDown := by
  rw [shutDown]
  split
  · exact .refl _
  · exact .of_cons (.shuttingDown engine.pending) rfl rfl rfl rfl rfl

/-! ### Claims -/

variable {tokens : List Token} {list : ListIndex}

theorem attempt_acquired (h : engine.attempt task tokens list = .acquired after) :
    ∃ table, engine.table.claim tokens list = (.acquired, table) ∧
      after = { engine with table }.record (.claimed task tokens.length) := by
  rw [attempt] at h
  split at h
  · next table hclaim =>
    cases h
    exact ⟨table, hclaim, rfl⟩
  · dsimp only at h
    split at h <;> cases h

theorem attempt_waiting (h : engine.attempt task tokens list = .waiting after) :
    ∃ holder table lists, engine.table.claim tokens list = (.held holder, table) ∧
      engine.lists.add? holder task = some lists ∧
      after = { engine with
        table, stats := engine.stats.countContention, lists := (lists.free list).2 }.record
          (.waiting task holder) := by
  rw [attempt] at h
  split at h
  · cases h
  · next holder table hclaim =>
    dsimp only at h
    split at h
    · cases h
    · next lists hadd =>
      cases h
      exact ⟨holder, table, lists, hclaim, hadd, rfl⟩

theorem attempt_refused {own : ListIndex}
    (h : engine.attempt task tokens list = .refused after own) :
    own = list ∧ ∃ holder table, engine.table.claim tokens list = (.held holder, table) ∧
      (engine.lists.get holder).freed = true ∧
      after = { engine with table, stats := engine.stats.countContention }.record
        (.retried task) := by
  rw [attempt] at h
  split at h
  · cases h
  · next holder table hclaim =>
    dsimp only at h
    split at h
    · next hadd =>
      cases h
      exact ⟨rfl, holder, table, hclaim, WaitingLists.add?_eq_none.mp hadd, rfl⟩
    · cases h

/-- A claim for a task without tokens succeeds at once; any other claim is an attempt with a new list. -/
theorem claimTokens_cases (engine : Engine) (task : TaskIndex) :
    engine.tokens task = [] ∧ engine.claimTokens task = .acquired engine ∨
      engine.tokens task ≠ [] ∧ engine.claimTokens task =
        { engine with lists := engine.lists.make.2 }.attempt task
          (Token.distinct (engine.tokens task)) engine.lists.lists.size := by
  rw [claimTokens]
  cases htokens : engine.tokens task with
  | nil => exact Or.inl ⟨rfl, rfl⟩
  | cons token rest =>
    refine Or.inr ⟨List.cons_ne_nil _ _, ?_⟩
    rw [Token.distinct, List.eraseDups_cons]
    rfl

/-! ### Searches -/

def serve (engine : Engine) (queue : PriorityQueue TaskIndex) (task : TaskIndex) (level : Nat) :
    Engine :=
  { engine with queue }.record (.dequeued task level)

/-- The second engine is the first after tasks have been taken from the queue to wait on lists of
holders. -/
inductive Skips : Engine → Engine → Prop
  | refl (engine : Engine) : Skips engine engine
  | tail {engine middle after : Engine} {queue : PriorityQueue TaskIndex} {task : TaskIndex}
      {level : Nat} (prior : Skips engine middle)
      (dequeued : middle.queue.dequeue = (some (level, task), queue))
      (waits : (middle.serve queue task level).claimTokens task = .waiting after) :
      Skips engine after

theorem Skips.head {middle : Engine} {queue : PriorityQueue TaskIndex} {level : Nat}
    (dequeued : engine.queue.dequeue = (some (level, task), queue))
    (waits : (engine.serve queue task level).claimTokens task = .waiting middle)
    (skips : Skips middle after) : Skips engine after := by
  induction skips with
  | refl => exact .tail (.refl _) dequeued waits
  | tail _ dequeued' waits' ih => exact .tail ih dequeued' waits'

/-- The outcomes of a search of an engine that follow tasks being passed over. -/
inductive Sought (engine : Engine) : Poll → Prop
  | found {middle claimed : Engine} {queue : PriorityQueue TaskIndex} {task : TaskIndex}
      {level : Nat} (skips : Skips engine middle)
      (dequeued : middle.queue.dequeue = (some (level, task), queue))
      (claims : (middle.serve queue task level).claimTokens task = .acquired claimed) :
      Sought engine (.found task (claimed.record (.handedOut task)))
  | exhausted {middle : Engine} {queue : PriorityQueue TaskIndex} (skips : Skips engine middle)
      (dequeued : middle.queue.dequeue = (none, queue)) :
      Sought engine (.exhausted { middle with queue })
  /-- The bound of the search was reached. -/
  | abandoned {middle : Engine} (skips : Skips engine middle) : Sought engine (.exhausted middle)
  | refused {middle after : Engine} {queue : PriorityQueue TaskIndex} {task : TaskIndex}
      {level : Nat} {list : ListIndex} (skips : Skips engine middle)
      (dequeued : middle.queue.dequeue = (some (level, task), queue))
      (refuses : (middle.serve queue task level).claimTokens task = .refused after list) :
      Sought engine (.refused task after list)

theorem Sought.head {middle : Engine} {queue : PriorityQueue TaskIndex} {level : Nat} {poll : Poll}
    (dequeued : engine.queue.dequeue = (some (level, task), queue))
    (waits : (engine.serve queue task level).claimTokens task = .waiting middle)
    (sought : Sought middle poll) : Sought engine poll := by
  cases sought with
  | found skips dequeued' claims => exact .found (.head dequeued waits skips) dequeued' claims
  | exhausted skips dequeued' => exact .exhausted (.head dequeued waits skips) dequeued'
  | abandoned skips => exact .abandoned (.head dequeued waits skips)
  | refused skips dequeued' refuses => exact .refused (.head dequeued waits skips) dequeued' refuses

theorem sought_pollWithin (bound : Nat) (engine : Engine) :
    Sought engine (pollWithin bound engine) := by
  induction bound generalizing engine with
  | zero => exact .abandoned (.refl engine)
  | succ bound ih =>
    rw [pollWithin]
    split
    · next queue hdequeue => exact .exhausted (.refl engine) hdequeue
    · next level task queue hdequeue =>
      split
      · next claimed hclaims => exact .found (.refl engine) hdequeue hclaims
      · next middle hwaits => exact (ih middle).head hdequeue hwaits
      · next after list hrefuses => exact .refused (.refl engine) hdequeue hrefuses

/-- Every search passes over tasks that wait, and then ends in one of four ways. -/
theorem sought_poll (engine : Engine) : Sought engine engine.poll :=
  sought_pollWithin _ engine

end Engine

end Dispatch
