import Dispatch.Proofs.Backlog
import Dispatch.Proofs.Release

/-!
# What fails changes nothing

An operation that returns a fault gives nothing back, and so it goes without saying that its caller keeps
what he had. Here the operations are done in place instead, one write after the other, so that what was
written before a failure stays written: `PriorityQueue.Writer` and `Engine.Writer` are made of these writes.
They answer as the operations do, and leave behind what these give back (`Writer.enqueue_eq` and its like).
When they fail, or find nothing to do, they leave everything as it was (`unchanged_of_failure`).
-/

namespace Dispatch

variable {σ : Type}

/-! ### Work in place -/

section Writing

variable {ε τ β γ : Type} {work : EStateM ε τ β} {next : β → EStateM ε τ γ} {before after : τ}

theorem bind_of_ok {answer : β} (h : work before = .ok answer after) :
    (work >>= next) before = next answer after := by
  show EStateM.bind work next before = _
  rw [EStateM.bind, h]

theorem bind_of_error {fault : ε} (h : work before = .error fault after) :
    (work >>= next) before = .error fault after := by
  show EStateM.bind work next before = _
  rw [EStateM.bind, h]

def outcome : EStateM.Result ε τ β → Except ε β × τ
  | .ok answer after => (.ok answer, after)
  | .error fault after => (.error fault, after)

end Writing

namespace PriorityQueue

/-- Work on a queue in place. What has been written stays, also if the work fails afterwards. -/
abbrev Writer (α β : Type) : Type :=
  EStateM QueueFault (PriorityQueue α) β

variable {α : Type}

namespace Writer

def checkPriority (priority : Nat) : Writer α Unit := do
  let queue ← get
  if queue.levels.size ≤ priority then throw (.outOfRange priority queue.levels.size)

def append (level : Nat) (x : α) : Writer α Unit :=
  modify (·.push level x)

def takeFrom [BEq α] (level : Nat) (x : α) : Writer α Bool :=
  modifyGet (·.removeFrom level x)

section Operations

variable [BEq α] [Hashable α]

def enter (x : α) (level : Nat) : Writer α (Option Nat) :=
  modifyGet fun queue =>
    let (found, levelOf) := queue.levelOf.getThenInsertIfNew? x level
    (found, { queue with levelOf })

def enterAgain (x : α) (level : Nat) : Writer α Unit :=
  modify fun queue => { queue with levelOf := queue.levelOf.put x level }

def strike (x : α) : Writer α (Option Nat) :=
  modifyGet fun queue =>
    let (found, levelOf) := queue.levelOf.remove x
    (found, { queue with levelOf })

def enqueue (x : α) (priority : Nat) : Writer α Unit := do
  checkPriority priority
  match ← enter x priority with
  | some _ => throw .duplicate
  | none => append priority x

def moveTo (x : α) (priority : Nat) : Writer α (Option Nat) := do
  checkPriority priority
  match (← get).levelOf.get? x with
  | none => return none
  | some current =>
    if current = priority then return none
    else if ← takeFrom current x then
      enterAgain x priority
      append priority x
      return some current
    else return none

def remove (x : α) : Writer α Bool := do
  match ← strike x with
  | none => return false
  | some level => takeFrom level x

end Operations

theorem checkPriority_of_le {queue : PriorityQueue α} {priority : Nat}
    (h : queue.levels.size ≤ priority) :
    checkPriority priority queue = .error (.outOfRange priority queue.levels.size) queue := by
  show (if queue.levels.size ≤ priority then _ else _ : Writer α Unit) queue = _
  rw [if_pos h]
  rfl

theorem checkPriority_of_lt {queue : PriorityQueue α} {priority : Nat}
    (h : priority < queue.levels.size) : checkPriority priority queue = .ok () queue := by
  show (if queue.levels.size ≤ priority then _ else _ : Writer α Unit) queue = _
  rw [if_neg (Nat.not_le.mpr h)]
  rfl

variable [BEq α] [Hashable α] (queue : PriorityQueue α) (x : α) (priority : Nat)

/-- Queueing in place leaves the new queue behind, and after a fault the old one. -/
theorem enqueue_eq : enqueue x priority queue =
    match queue.enqueue x priority with
    | .ok after => .ok () after
    | .error fault => .error fault queue := by
  rw [PriorityQueue.enqueue, PriorityQueue.checkPriority]
  by_cases hle : queue.levels.size ≤ priority
  · rw [if_pos hle]
    exact bind_of_error (checkPriority_of_le hle)
  · rw [if_neg hle]
    refine (bind_of_ok (checkPriority_of_lt (Nat.lt_of_not_le hle))).trans ?_
    have henter : enter x priority queue = .ok (queue.levelOf.getThenInsertIfNew? x priority).1
        { queue with levelOf := (queue.levelOf.getThenInsertIfNew? x priority).2 } := rfl
    refine (bind_of_ok henter).trans ?_
    rw [ShardMap.getThenInsertIfNew?]
    cases queue.levelOf.get? x <;> rfl

/-- Moving in place leaves the new queue behind, and after a fault the old one. -/
theorem moveTo_eq : moveTo x priority queue =
    match queue.moveTo x priority with
    | .ok (source, after) => .ok source after
    | .error fault => .error fault queue := by
  rw [PriorityQueue.moveTo, PriorityQueue.checkPriority]
  by_cases hle : queue.levels.size ≤ priority
  · rw [if_pos hle]
    exact bind_of_error (checkPriority_of_le hle)
  · rw [if_neg hle]
    refine (bind_of_ok (checkPriority_of_lt (Nat.lt_of_not_le hle))).trans ?_
    refine (bind_of_ok (rfl : (get : Writer α _) queue = .ok queue queue)).trans ?_
    cases queue.levelOf.get? x with
    | none => rfl
    | some current =>
      by_cases hcurrent : current = priority
      · simp only [hcurrent, if_true]
        rfl
      · simp only [hcurrent, if_false]
        have htake : takeFrom current x queue = .ok (queue.removeFrom current x).1
            (queue.removeFrom current x).2 := rfl
        refine (bind_of_ok htake).trans ?_
        cases queue.removeFrom current x with
        | mk removed after => cases removed <;> rfl

/-- Removing in place leaves the new queue behind. -/
theorem remove_eq : remove x queue = .ok (queue.remove x).1 (queue.remove x).2 := by
  have hstrike : strike x queue = .ok (queue.levelOf.remove x).1
      { queue with levelOf := (queue.levelOf.remove x).2 } := rfl
  refine (bind_of_ok hstrike).trans ?_
  rw [PriorityQueue.remove, ShardMap.remove]
  cases queue.levelOf.get? x <;> rfl

end Writer

/-! ### The queue -/

variable [BEq α] [Hashable α] {queue : PriorityQueue α} {x : α} {priority : Nat}

def objection? (queue : PriorityQueue α) (x : α) (priority : Nat) : Option QueueFault :=
  if queue.levels.size ≤ priority then some (.outOfRange priority queue.levels.size)
  else if queue.contains x then some .duplicate
  else none

/-- An element is refused for the reason that there is. -/
theorem enqueue_eq_error {fault : QueueFault} :
    queue.enqueue x priority = .error fault ↔ queue.objection? x priority = some fault := by
  rw [enqueue, checkPriority, objection?]
  by_cases hle : queue.levels.size ≤ priority
  · rw [if_pos hle, if_pos hle]
    constructor
    · intro h
      cases h
      rfl
    · intro h
      cases h
      rfl
  · rw [if_neg hle, if_neg hle, ShardMap.getThenInsertIfNew?, contains, ShardMap.contains]
    cases queue.levelOf.get? x with
    | none =>
      constructor
      · intro h
        cases h
      · intro h
        cases h
    | some level =>
      constructor
      · intro h
        cases h
        rfl
      · intro h
        cases h
        rfl

/-- What holds of a queue on which operations are done in place: each does what it is to do, and one that
fails, or has nothing to do, leaves the queue as it was. -/
structure Atomic (queue : PriorityQueue α) : Prop where
  enqueue_ok : ∀ {x priority after}, Writer.enqueue x priority queue = .ok () after ↔
    queue.enqueue x priority = .ok after
  enqueue_error : ∀ {x priority fault after}, Writer.enqueue x priority queue = .error fault after ↔
    queue.objection? x priority = some fault ∧ after = queue
  moveTo_ok : ∀ {x priority source after}, Writer.moveTo x priority queue = .ok source after ↔
    queue.moveTo x priority = .ok (source, after)
  moveTo_error : ∀ {x priority fault after}, Writer.moveTo x priority queue = .error fault after ↔
    queue.levels.size ≤ priority ∧ fault = .outOfRange priority queue.levels.size ∧ after = queue
  /-- An element does not move if it is not queued, or is at that level already. -/
  moveTo_none : ∀ {x priority after}, Writer.moveTo x priority queue = .ok none after ↔
    priority < queue.levels.size ∧
      (∀ current, queue.levelOf.get? x = some current → current = priority) ∧ after = queue
  remove_ok : ∀ {x removed after}, Writer.remove x queue = .ok removed after ↔
    queue.remove x = (removed, after)
  remove_false : ∀ {x after}, Writer.remove x queue = .ok false after ↔
    queue.contains x = false ∧ after = queue

theorem moveTo_of_le (hle : queue.levels.size ≤ priority) :
    queue.moveTo x priority = .error (.outOfRange priority queue.levels.size) := by
  rw [moveTo, checkPriority, if_pos hle]
  rfl

variable [EquivBEq α]

/-- A sound queue is left as it was by what fails. -/
theorem Sound.atomic (sound : queue.Sound) : queue.Atomic where
  enqueue_ok {x priority after} := by
    rw [Writer.enqueue_eq]
    cases queue.enqueue x priority with
    | ok found => simp
    | error fault => simp
  enqueue_error {x priority fault after} := by
    rw [Writer.enqueue_eq, ← enqueue_eq_error]
    cases queue.enqueue x priority with
    | ok found => simp
    | error found => simp [eq_comm]
  moveTo_ok {x priority source after} := by
    rw [Writer.moveTo_eq]
    cases queue.moveTo x priority with
    | ok found => simp [Prod.ext_iff]
    | error fault => simp
  moveTo_error {x priority fault after} := by
    rw [Writer.moveTo_eq]
    by_cases hle : queue.levels.size ≤ priority
    · rw [moveTo_of_le hle]
      simp [hle, eq_comm]
    · rcases sound.moveTo_cases (Nat.lt_of_not_le hle) x with ⟨hstay, -⟩ | ⟨_, _, _, _, -, -, -, -, hmove⟩
      · rw [hstay]
        simp [hle]
      · rw [hmove]
        simp [hle]
  moveTo_none {x priority after} := by
    rw [Writer.moveTo_eq]
    by_cases hle : queue.levels.size ≤ priority
    · rw [moveTo_of_le hle]
      simp [Nat.not_lt.mpr hle]
    · have hlt := Nat.lt_of_not_le hle
      rcases sound.moveTo_cases hlt x with ⟨hstay, hsame⟩ | ⟨current, _, _, _, hx, hne, -, -, hmove⟩
      · rw [hstay]
        simp only [EStateM.Result.ok.injEq, true_and]
        exact ⟨fun h => ⟨hlt, hsame, h.symm⟩, fun h => h.2.2.symm⟩
      · rw [hmove]
        simp only [EStateM.Result.ok.injEq, reduceCtorEq, false_and, false_iff]
        intro h
        exact hne (h.2.1 current hx)
  remove_ok {x removed after} := by
    rw [Writer.remove_eq]
    simp [Prod.ext_iff]
  remove_false {x after} := by
    rw [Writer.remove_eq]
    rcases sound.remove_cases x with ⟨hx, hremove⟩ | ⟨level, _, _, _, hx, -, -, hremove⟩
    · rw [hremove, contains, ShardMap.contains, hx]
      simp [eq_comm]
    · rw [hremove, contains, ShardMap.contains, hx]
      simp

end PriorityQueue

/-! ### The engine -/

namespace Engine

abbrev Writer (β : Type) : Type :=
  EStateM Fault Engine β

namespace Writer

def onQueue {β : Type} (work : PriorityQueue.Writer TaskIndex β) : Writer β := fun engine =>
  match work engine.queue with
  | .ok answer queue => .ok answer { engine with queue }
  | .error fault queue => .error (.queue fault) { engine with queue }

def checkRunning : Writer Unit := do
  if (← get).halted then throw .shutDown

def record (occurrence : Occurrence) : Writer Unit :=
  modify (·.record occurrence)

def schedule (task : TaskIndex) : Writer Unit := do
  checkRunning
  let priority := (← get).priority task
  onQueue (.enqueue task priority)
  record (.enqueued task priority)
  modify fun engine => { engine with stats := engine.stats.countScheduled }
  record (.submitted task)

def applyPriority (task : TaskIndex) : Writer Bool := do
  let priority := (← get).priority task
  match ← onQueue (.moveTo task priority) with
  | none => return false
  | some source =>
    record (.moved task source priority)
    return true

variable (engine : Engine) (task : TaskIndex)

theorem get_eq : (get : Writer Engine) engine = .ok engine engine := rfl

/-- Accepting a task in place leaves the new engine behind, and after a fault the old one. -/
theorem schedule_eq : schedule task engine =
    match engine.schedule task with
    | .ok after => .ok () after
    | .error fault => .error fault engine := by
  rw [Engine.schedule]
  by_cases hhalted : engine.halted = true
  · have hcheck : checkRunning engine = .error .shutDown engine := by
      show (if engine.halted = true then _ else _ : Writer Unit) engine = _
      rw [if_pos hhalted]
      rfl
    rw [if_pos hhalted]
    exact bind_of_error hcheck
  · have hcheck : checkRunning engine = .ok () engine := by
      show (if engine.halted = true then _ else _ : Writer Unit) engine = _
      rw [if_neg hhalted]
      rfl
    rw [if_neg hhalted, Engine.enqueue]
    refine (bind_of_ok hcheck).trans ?_
    refine (bind_of_ok (get_eq engine)).trans ?_
    have henqueue := PriorityQueue.Writer.enqueue_eq engine.queue task (engine.priority task)
    cases hqueue : engine.queue.enqueue task (engine.priority task) with
    | error fault =>
      rw [hqueue] at henqueue
      refine bind_of_error ?_
      rw [onQueue, henqueue]
    | ok queue =>
      rw [hqueue] at henqueue
      have honQueue : onQueue (.enqueue task (engine.priority task)) engine =
          .ok () { engine with queue } := by
        rw [onQueue, henqueue]
      exact (bind_of_ok honQueue).trans rfl

/-- Moving a task in place leaves the new engine behind, and after a fault the old one. -/
theorem applyPriority_eq : applyPriority task engine =
    match engine.applyPriority task with
    | .ok (moved, after) => .ok moved after
    | .error fault => .error fault engine := by
  rw [Engine.applyPriority]
  refine (bind_of_ok (get_eq engine)).trans ?_
  have hmove := PriorityQueue.Writer.moveTo_eq engine.queue task (engine.priority task)
  cases hqueue : engine.queue.moveTo task (engine.priority task) with
  | error fault =>
    rw [hqueue] at hmove
    refine bind_of_error ?_
    rw [onQueue, hmove]
  | ok found =>
    obtain ⟨source, queue⟩ := found
    rw [hqueue] at hmove
    have honQueue : onQueue (.moveTo task (engine.priority task)) engine =
        .ok source { engine with queue } := by
      rw [onQueue, hmove]
    refine (bind_of_ok honQueue).trans ?_
    cases source <;> rfl

end Writer

variable {engine : Engine} {task : TaskIndex}

/-- Why a task is not accepted, if it is not. A shutdown is the first reason, a priority without a level the
second, and that the task is queued already the last. -/
def objection? (engine : Engine) (task : TaskIndex) : Option Fault :=
  if engine.halted then some .shutDown
  else (engine.refusal? task).map .queue

/-- A task is accepted exactly if nothing speaks against it. -/
theorem objection?_eq_none : engine.objection? task = none ↔ engine.halted = false ∧
    engine.priority task < engine.queue.levels.size ∧ engine.queue.contains task = false := by
  rw [objection?, refusal?, ← Nat.not_le]
  cases engine.halted with
  | true => simp
  | false =>
    by_cases hle : engine.queue.levels.size ≤ engine.priority task
    · simp [hle]
    · simp [hle]

theorem schedule_eq_error {fault : Fault} :
    engine.schedule task = .error fault ↔ engine.objection? task = some fault := by
  have hrefusal : engine.refusal? task = engine.queue.objection? task (engine.priority task) := rfl
  rw [schedule, objection?, hrefusal]
  cases engine.halted with
  | true => simp
  | false =>
    simp only [Bool.false_eq_true, if_false, Option.map_eq_some_iff, ← PriorityQueue.enqueue_eq_error]
    rw [enqueue]
    cases engine.queue.enqueue task (engine.priority task) with
    | error found => simp
    | ok queue => simp

/-- What holds of an engine that is worked on in place: it accepts a task if nothing speaks against it, and
moves one that stands at another level than that of its priority; when it refuses, and when there is nothing
to move, it is left as it was. -/
structure Atomic (engine : Engine) : Prop where
  schedule_ok : ∀ {task after}, Writer.schedule task engine = .ok () after ↔
    engine.schedule task = .ok after
  schedule_error : ∀ {task fault after}, Writer.schedule task engine = .error fault after ↔
    engine.objection? task = some fault ∧ after = engine
  accepts_iff : ∀ {task}, engine.objection? task = none ↔ engine.halted = false ∧
    engine.priority task < engine.queue.levels.size ∧ engine.queue.contains task = false
  applyPriority_ok : ∀ {task moved after}, Writer.applyPriority task engine = .ok moved after ↔
    engine.applyPriority task = .ok (moved, after)
  applyPriority_error : ∀ {task fault after}, Writer.applyPriority task engine = .error fault after ↔
    engine.queue.levels.size ≤ engine.priority task ∧
      fault = .queue (.outOfRange (engine.priority task) engine.queue.levels.size) ∧ after = engine
  applyPriority_false : ∀ {task after}, Writer.applyPriority task engine = .ok false after ↔
    engine.priority task < engine.queue.levels.size ∧
      (∀ current, engine.queue.levelOf.get? task = some current → current = engine.priority task) ∧
      after = engine

theorem applyPriority_of_le (hle : engine.queue.levels.size ≤ engine.priority task) :
    engine.applyPriority task =
      .error (.queue (.outOfRange (engine.priority task) engine.queue.levels.size)) := by
  rw [applyPriority, PriorityQueue.moveTo_of_le hle]

theorem applyPriority_of_lt (sound : engine.queue.Sound)
    (hlt : engine.priority task < engine.queue.levels.size) :
    engine.applyPriority task = .ok (false, engine) ∧ (∀ current,
      engine.queue.levelOf.get? task = some current → current = engine.priority task) ∨
    ∃ current after, engine.applyPriority task = .ok (true, after) ∧
      engine.queue.levelOf.get? task = some current ∧ current ≠ engine.priority task := by
  rw [applyPriority]
  rcases sound.moveTo_cases hlt task with ⟨hstay, hsame⟩ | ⟨current, _, _, _, hqueued, hne, -, -, hmove⟩
  · rw [hstay]
    exact Or.inl ⟨rfl, hsame⟩
  · rw [hmove]
    exact Or.inr ⟨current, _, rfl, hqueued, hne⟩

/-- An engine with a sound queue is left as it was by what fails. -/
theorem atomic (sound : engine.queue.Sound) : engine.Atomic where
  schedule_ok {task after} := by
    rw [Writer.schedule_eq]
    cases engine.schedule task with
    | ok found => simp
    | error fault => simp
  schedule_error {task fault after} := by
    rw [Writer.schedule_eq, ← schedule_eq_error]
    cases engine.schedule task with
    | ok found => simp
    | error found => simp [eq_comm]
  accepts_iff := objection?_eq_none
  applyPriority_ok {task moved after} := by
    rw [Writer.applyPriority_eq]
    cases engine.applyPriority task with
    | ok found => simp [Prod.ext_iff]
    | error fault => simp
  applyPriority_error {task fault after} := by
    rw [Writer.applyPriority_eq]
    by_cases hle : engine.queue.levels.size ≤ engine.priority task
    · rw [applyPriority_of_le hle]
      simp [hle, eq_comm]
    · rcases applyPriority_of_lt sound (Nat.lt_of_not_le hle) with ⟨hstay, -⟩ | ⟨_, _, hmove, -⟩
      · rw [hstay]
        simp [hle]
      · rw [hmove]
        simp [hle]
  applyPriority_false {task after} := by
    rw [Writer.applyPriority_eq]
    by_cases hle : engine.queue.levels.size ≤ engine.priority task
    · rw [applyPriority_of_le hle]
      simp [Nat.not_lt.mpr hle]
    · have hlt := Nat.lt_of_not_le hle
      rcases applyPriority_of_lt sound hlt with ⟨hstay, hsame⟩ | ⟨current, _, hmove, hqueued, hne⟩
      · rw [hstay]
        simp only [EStateM.Result.ok.injEq, true_and]
        exact ⟨fun h => ⟨hlt, hsame, h.symm⟩, fun h => h.2.2.symm⟩
      · rw [hmove]
        simp only [EStateM.Result.ok.injEq, Bool.true_eq_false, false_and, false_iff]
        intro h
        exact hne (h.2.1 current hqueued)

theorem outcome_schedule (engine : Engine) (task : TaskIndex) :
    outcome (Writer.schedule task engine) =
      match engine.schedule task with
      | .ok after => (.ok (), after)
      | .error fault => (.error fault, engine) := by
  rw [Writer.schedule_eq]
  cases engine.schedule task <;> rfl

theorem outcome_applyPriority (engine : Engine) (task : TaskIndex) :
    outcome (Writer.applyPriority task engine) =
      match engine.applyPriority task with
      | .ok (moved, after) => (.ok moved, after)
      | .error fault => (.error fault, engine) := by
  rw [Writer.applyPriority_eq]
  cases engine.applyPriority task <;> rfl

end Engine

namespace Moment

variable {moment : Moment σ} {handle : Option HandleIndex} {frames : List (Frame σ)}

/-- A step works on the engine in place, and a script goes on with the answer. -/
def Works {β : Type} (moment : Moment σ) (world : World σ) (work : Engine.Writer β)
    (next : Except Fault β → Control σ) (frames : List (Frame σ)) : Prop :=
  ∃ answer, outcome (work world.engine) = (answer, moment.next.engine) ∧
    moment.next.world = { world with engine := moment.next.engine } ∧
    moment.next.Doing (next answer) frames

/-- What holds of every moment: its engine is left as it was by what fails, and so is the world, whether a
task is handed in, or a closure after it has been made known, or word is given that a priority has changed. -/
structure Atomic (moment : Moment σ) : Prop where
  engine : moment.engine.Atomic
  schedule : ∀ {handle task next frames}, moment.Doing (.script handle (.schedule task next)) frames →
    moment.Works moment.world (Engine.Writer.schedule task) (fun answer => .script handle (next answer))
      frames
  submit : ∀ {handle priority closure next frames},
    moment.Doing (.script handle (.submit priority closure next)) frames →
      ∃ task made, moment.world.addClosure { priority } { work := .closure closure } = (task, made) ∧
        made.engine.Atomic ∧ made.engine.priority task = priority ∧
        made.engine.halted = moment.engine.halted ∧ made.engine.queue = moment.engine.queue ∧
        made.engine.table = moment.engine.table ∧ made.engine.lists = moment.engine.lists ∧
        made.engine.stats = moment.engine.stats ∧
        moment.Works made (Engine.Writer.schedule task) (fun answer => .script handle (next task answer))
          frames
  applyPriority : ∀ {handle task next frames},
    moment.Doing (.script handle (.applyPriority task next)) frames →
      moment.Works moment.world (Engine.Writer.applyPriority task)
        (fun answer => .script handle (next answer)) frames

theorem Doing.works_schedule {task : TaskIndex} {next : Except Fault Unit → Script σ}
    (doing : moment.Doing (.script handle (.schedule task next)) frames) :
    moment.Works moment.world (Engine.Writer.schedule task) (fun answer => .script handle (next answer))
      frames := by
  rw [Works, Engine.outcome_schedule, Moment.next, Thread.step]
  simp only [doing.control, Thread.stepScript]
  cases moment.world.engine.schedule task with
  | ok after => exact ⟨.ok (), rfl, rfl, rfl, doing.stack⟩
  | error fault => exact ⟨.error fault, rfl, rfl, rfl, doing.stack⟩

theorem Doing.works_submit {priority : Nat} {closure : Script σ}
    {next : TaskIndex → Except Fault Unit → Script σ} {task : TaskIndex} {made : World σ}
    (doing : moment.Doing (.script handle (.submit priority closure next)) frames)
    (adds : moment.world.addClosure { priority } { work := .closure closure } = (task, made)) :
    moment.Works made (Engine.Writer.schedule task) (fun answer => .script handle (next task answer))
      frames := by
  rw [Works, Engine.outcome_schedule, Moment.next, Thread.step]
  simp only [doing.control, Thread.stepScript, adds]
  cases made.engine.schedule task with
  | ok after => exact ⟨.ok (), rfl, rfl, rfl, doing.stack⟩
  | error fault => exact ⟨.error fault, rfl, rfl, rfl, doing.stack⟩

theorem Doing.works_applyPriority {task : TaskIndex} {next : Except Fault Bool → Script σ}
    (doing : moment.Doing (.script handle (.applyPriority task next)) frames) :
    moment.Works moment.world (Engine.Writer.applyPriority task)
      (fun answer => .script handle (next answer)) frames := by
  rw [Works, Engine.outcome_applyPriority, Moment.next, Thread.step]
  simp only [doing.control, Thread.stepScript]
  cases moment.world.engine.applyPriority task with
  | ok found => exact ⟨.ok found.1, rfl, rfl, rfl, doing.stack⟩
  | error fault => exact ⟨.error fault, rfl, rfl, rfl, doing.stack⟩

end Moment

theorem World.priority_addClosure (world : World σ) (draft : Draft) (code : Code σ) :
    (world.addClosure draft code).2.engine.priority (world.addClosure draft code).1 = draft.priority := by
  show ((world.engine.tasks.push (draft.build world.engine.nextSerial))[world.engine.tasks.size]?.map
    Task.priority).getD 0 = _
  rw [Array.getElem?_push_size]
  rfl

/-- Whatever fails leaves everything as it was: an operation on the queue of any session, a task or a closure
that is handed in at any moment of a run, and the word that a priority has changed. A task is refused exactly
if the engine has been shut down, no level has its priority or it is queued already, and the first of these
is the reason that is given. -/
theorem unchanged_of_failure {α : Type} [BEq α] [Hashable α] [EquivBEq α] [LawfulHashable α]
    {levels : Nat} {queue : PriorityQueue α} (ok : PriorityQueue.ofLevels levels = .ok queue)
    (operations : List (PriorityQueue.Operation α)) {allowed : Moment σ → Prop} {moment : Moment σ}
    (reached : Reached allowed moment) :
    ((PriorityQueue.Session.begin queue).run operations).queue.Atomic ∧ moment.Atomic := by
  constructor
  · have htallied : ((PriorityQueue.Session.begin queue).run operations).queue.Tallied :=
      PriorityQueue.Session.run_preserves (fun session => session.queue.Tallied)
        (fun _ operation h => (h.perform operation).1) (PriorityQueue.Tallied.ofLevels ok).1 operations
    exact htallied.sound.atomic
  · have hsound : moment.engine.queue.Sound := reached.tallied.sound
    exact {
      engine := Engine.atomic hsound
      schedule := fun doing => doing.works_schedule
      submit := fun doing => ⟨_, _, rfl, Engine.atomic hsound, World.priority_addClosure _ _ _, rfl, rfl, rfl,
        rfl, rfl, doing.works_submit rfl⟩
      applyPriority := fun doing => doing.works_applyPriority }

/-- One task is about to be handed in twice, and then to be notified. -/
def Moment.repeated : Moment Unit :=
  ⟨.rivals, .ofScript none
    (.schedule 0 fun _ => .schedule 0 fun _ => .applyPriority 0 fun _ => .stop .normal)⟩

theorem unchanged_of_failure_repeated :
    PriorityQueue.ofLevels 2 = .ok PriorityQueue.Marked.queue ∧
    (Moment.repeated.after 1).engine.objection? 0 = some (.queue .duplicate) ∧
    ((PriorityQueue.Session.begin PriorityQueue.Marked.queue).run
        PriorityQueue.Marked.operations).queue.Atomic ∧ (Moment.repeated.after 1).Atomic :=
  ⟨PriorityQueue.Marked.ofLevels_queue, by decide +kernel,
    unchanged_of_failure PriorityQueue.Marked.ofLevels_queue PriorityQueue.Marked.operations
      (.step (.begin World.fresh_rivals none _) trivial : Reached (fun _ => True) (Moment.repeated.after 1))⟩

end Dispatch
