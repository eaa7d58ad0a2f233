import Mathlib.Data.List.Perm.Subperm
import Dispatch.Proofs.Actions
import Dispatch.Proofs.Statistics
import Dispatch.Proofs.Waiters

/-!
# What goes on after a shutdown

An engine that has been shut down stays so, and accepts no task: whatever a step does, it tells of no
submission any more (`Engine.Heeds`, `Thread.step_heeds`). What is queued from then on are waiters that a
release queues again, and those were there before. Counted, a task has been accepted as often as it has a
place or is in hand, and so it can be handed out no more often than it had a place or was in hand when the
engine was shut down (`Moment.Onwards.handouts_subperm`).
-/

namespace Dispatch

variable {σ : Type}

/-! ### What is accepted -/

namespace Engine

variable {engine middle after : Engine} {task : TaskIndex}

theorem schedule_of_halted (halted : engine.halted = true) (task : TaskIndex) :
    engine.schedule task = .error .shutDown := by
  rw [schedule, if_pos halted]

/-- The second engine is the first after things that are told of in its chronicle. If it had been shut down
it still is, and no task has been accepted. -/
structure Heeds (engine after : Engine) : Prop where
  chronicle : engine.chronicle <:+ after.chronicle
  halted : engine.halted = true → after.halted = true
  unsubmitted : engine.halted = true →
    submissions after.chronicle = submissions engine.chronicle

namespace Heeds

theorem of_eq (hhalted : after.halted = engine.halted) (hchronicle : after.chronicle = engine.chronicle) :
    engine.Heeds after :=
  ⟨⟨[], hchronicle.symm⟩, fun h => hhalted.trans h, fun _ => congrArg submissions hchronicle⟩

theorem refl (engine : Engine) : engine.Heeds engine := .of_eq rfl rfl

theorem of_cons (occurrence : Occurrence) (hhalted : after.halted = engine.halted)
    (hchronicle : after.chronicle = occurrence :: engine.chronicle)
    (h : occurrence.submission? = none) : engine.Heeds after :=
  ⟨⟨[occurrence], hchronicle.symm⟩, fun halted => hhalted.trans halted,
    fun _ => (congrArg submissions hchronicle).trans (List.filterMap_cons_none h)⟩

theorem of_tells (tells : engine.Tells after) : engine.Heeds after := by
  obtain ⟨news, hnews, -⟩ := tells.proceeds
  exact ⟨⟨news, hnews.symm⟩, fun halted => tells.halted.trans halted, fun _ => tells.unsubmitted⟩

theorem trans (first : engine.Heeds middle) (second : middle.Heeds after) : engine.Heeds after :=
  ⟨first.chronicle.trans second.chronicle, fun h => second.halted (first.halted h),
    fun h => (second.unsubmitted (first.halted h)).trans (first.unsubmitted h)⟩

theorem schedule (ok : engine.schedule task = .ok after) : engine.Heeds after := by
  have hrunning (halted : engine.halted = true) : False := by
    rw [schedule_of_halted halted] at ok
    cases ok
  obtain ⟨queue, -, rfl⟩ := schedule_ok ok
  exact ⟨⟨[.submitted task, .enqueued task (engine.priority task)], rfl⟩, fun h => (hrunning h).elim,
    fun h => (hrunning h).elim⟩

theorem shutDown (engine : Engine) : engine.Heeds engine.shutDown := by
  rw [Engine.shutDown]
  split
  · exact .refl engine
  · exact ⟨⟨[.shuttingDown engine.pending], rfl⟩, fun _ => rfl, fun _ => rfl⟩

theorem of_act {accepts : TaskIndex → Prop} {sets : Prop} (act : Act accepts sets engine after) :
    engine.Heeds after := by
  cases act with
  | told occurrence unsubmitted halted _ chronicle => exact .of_cons occurrence halted chronicle unsubmitted
  | tells tells => exact .of_tells tells
  | accepted _ ok => exact .schedule ok
  | made | changed | prioritised => exact .of_eq rfl rfl
  | shutDown => exact .shutDown engine

theorem of_acts {accepts : TaskIndex → Prop} {sets : Prop} (acts : Acts accepts sets engine after) :
    engine.Heeds after := by
  induction acts with
  | refl => exact .refl engine
  | tail _ act ih => exact ih.trans (.of_act act)

end Heeds

end Engine

/-- No step of any thread accepts a task once the engine has been shut down, or starts it again. -/
theorem Thread.step_heeds (world : World σ) (thread : Thread σ) :
    world.engine.Heeds (thread.step world).world.engine :=
  .of_acts (step_acts world thread)

/-! ### What is queued -/

namespace Engine

variable {engine after : Engine} {task : TaskIndex}

/-- A search puts no task into the queue. -/
theorem contains_poll (sound : engine.queue.Sound)
    (h : engine.poll.engine.queue.contains task = true) : engine.queue.contains task = true := by
  let Inv (queue : PriorityQueue TaskIndex) : Prop :=
    queue.Sound ∧ (queue.contains task = true → engine.queue.contains task = true)
  have hdequeue {queue : PriorityQueue TaskIndex} (hinv : Inv queue) : Inv queue.dequeue.2 := by
    obtain ⟨hsound, hqueued⟩ := hinv
    rcases hsound.dequeue_inOrder with ⟨hnone, -⟩ | ⟨level, other, after, hsome, hafter, -⟩
    · rw [hnone]
      exact ⟨hsound, hqueued⟩
    · rw [hsome]
      refine ⟨hafter, fun hcontains => hqueued ?_⟩
      rw [PriorityQueue.contains_dequeue hsound hsome, Bool.and_eq_true] at hcontains
      exact hcontains.2
  have hpoll : Inv engine.poll.engine.queue := poll_preserves hdequeue ⟨sound, id⟩
  exact hpoll.2 h

end Engine

/-- If no task is accepted, a task that comes into the queue is the next waiter of the release that is under
way. -/
theorem Effect.requeues {tries : Prop} {reports : Failure → Prop} {before after : Ledger σ}
    (effect : Effect tries reports before after) (sound : before.engine.queue.Sound)
    (proper : ∀ freeing ∈ before.releases, freeing.after.Proper)
    (unsubmitted : submissions after.engine.chronicle = submissions before.engine.chronicle)
    {task : TaskIndex} (absent : before.engine.queue.contains task = false)
    (present : after.engine.queue.contains task = true) :
    ∃ freeing releases waiters, before.releases = freeing :: releases ∧
      freeing.waiters = task :: waiters ∧ before.engine.requeue task = (none, after.engine) := by
  have hsame (h : before.engine.queue.contains task = true) : False :=
    Bool.false_ne_true (absent.symm.trans h)
  cases effect with
  | quiet quiet | reported _ quiet => exact (hsame (quiet.queue ▸ present)).elim
  | scheduled quiet ok =>
    obtain ⟨queue, -, rfl⟩ := Engine.schedule_ok ok
    obtain ⟨news, hnews, hquiet⟩ := quiet.chronicle
    have hmiddle : submissions _ = submissions _ :=
      (congrArg submissions hnews).trans (filterMap_quiet _ Occurrence.submission?_of_isQuiet hquiet)
    have hlength := congrArg List.length (unsubmitted.trans hmiddle.symm)
    exact absurd hlength (Nat.succ_ne_self _)
  | moved ok =>
    obtain ⟨source, queue, hmove, hafter⟩ := Engine.applyPriority_ok ok
    have hcontains := (PriorityQueue.contains_moveTo sound hmove).2 task
    rcases hafter with rfl | ⟨level, rfl⟩ <;> exact (hsame (hcontains.symm.trans present)).elim
  | polled => exact (hsame (Engine.contains_poll sound present)).elim
  | tried asked =>
    dsimp only at present
    rw [Engine.claimTokens_queue] at present
    exact (hsame present).elim
  | refused retry again =>
    exact (hsame (Engine.queue_of_attempt again ▸ present)).elim
  | acquired retry again =>
    have hqueue := Engine.queue_of_attempt again
    dsimp only at present
    split at present <;> exact (hsame (hqueue ▸ present)).elim
  | @waiting engine after releases retry again =>
    have hqueue : after.queue = engine.queue := Engine.queue_of_attempt again
    dsimp only at present
    split at present
    · exact (hsame (hqueue ▸ Engine.contains_poll (hqueue.symm ▸ sound) present)).elim
    · exact (hsame (hqueue ▸ present)).elim
  | begun | freed => exact (hsame present).elim
  | @requeued engine after releases freeing other waiters next ok =>
    obtain ⟨queue, hqueue, hafter⟩ := Engine.requeue_none ok
    have hpresent : queue.contains task = true := by
      rw [hafter] at present
      exact present
    rw [PriorityQueue.contains_enqueue hqueue, absent, Bool.or_false] at hpresent
    obtain rfl := eq_of_beq hpresent
    exact ⟨freeing, releases, waiters, rfl, next, ok⟩
  | rejected next refusal quiet =>
    obtain rfl := Engine.requeue_some refusal
    exact (hsame (quiet.queue ▸ present)).elim
  | finished idle done quiet =>
    exact (hsame ((quiet (proper _ List.mem_cons_self)).queue ▸ present)).elim

/-! ### The way on -/

namespace Moment

variable {allowed : Moment σ → Prop} {moment later : Moment σ}

inductive Onwards (allowed : Moment σ → Prop) (moment : Moment σ) : Moment σ → Prop
  | refl : Onwards allowed moment moment
  | step {later : Moment σ} (prior : Onwards allowed moment later) (ok : allowed later) :
      Onwards allowed moment later.next
  | again {later : Moment σ} (prior : Onwards allowed moment later) (ended : later.Over)
      (worker : Option Nat) (script : Script σ) :
      Onwards allowed moment ⟨later.world, .ofScript worker script⟩

namespace Onwards

theorem reached (onwards : moment.Onwards allowed later) (reached : Reached allowed moment) :
    Reached allowed later := by
  induction onwards with
  | refl => exact reached
  | step _ ok ih => exact .step ih ok
  | again _ ended worker script ih => exact .again ih ended worker script

theorem heeds (onwards : moment.Onwards allowed later) : moment.engine.Heeds later.engine := by
  induction onwards with
  | refl => exact .refl _
  | step _ _ ih => exact ih.trans (Thread.step_heeds _ _)
  | again _ _ _ _ ih => exact ih

theorem steps {n : Nat} (ok : ∀ k < n, allowed (moment.after k)) :
    moment.Onwards allowed (moment.after n) := by
  induction n with
  | zero => exact .refl
  | succ n ih =>
    exact .step (ih fun k hk => ok k (Nat.lt_succ_of_lt hk)) (ok n (Nat.lt_succ_self n))

end Onwards

end Moment

theorem Reached.honest {allowed : Moment σ → Prop} {moment : Moment σ}
    (reached : Reached allowed moment) : moment.engine.Honest := by
  have hran : ∃ calls, Ran allowed calls moment := by
    induction reached with
    | begin fresh worker script => exact ⟨0, .begin fresh worker script⟩
    | step _ ok ih => exact ⟨_, ih.choose_spec.step ok⟩
    | again _ ended worker script ih => exact ⟨_, ih.choose_spec.again ended worker script⟩
  exact hran.choose_spec.balance.1

/-- Whatever has been accepted is counted. -/
theorem Reached.scheduled_eq {allowed : Moment σ → Prop} {moment : Moment σ}
    (reached : Reached allowed moment) :
    moment.engine.stats.scheduled = (submissions moment.engine.chronicle).length :=
  (congrArg Stats.scheduled reached.honest).trans (scheduled_tally _)

/-! ### What is outstanding -/

/-- The tasks on the lists that have not been freed, each as often as it waits. -/
def WaitingLists.unfreed (lists : WaitingLists) : List TaskIndex :=
  (lists.lists.toList.filter fun list => !list.freed).flatMap WaitingList.waiters

/-- Nobody waits on a list that has been freed. -/
theorem Engine.Attended.unfreed_eq {engine : Engine} {pending : List ListIndex}
    (attended : engine.Attended pending) : engine.lists.unfreed = engine.lists.waiting := by
  have hfreed : ∀ list ∈ engine.lists.lists.toList, list.freed = true → list.waiters = [] := by
    intro list hmem hfreed
    obtain ⟨i, hi, rfl⟩ := List.mem_iff_getElem.mp hmem
    have hget : engine.lists.get i = engine.lists.lists.toList[i] := WaitingLists.get_of_lt hi
    by_contra hwaiters
    have hunfreed := (attended i (hget ▸ hwaiters)).1
    rw [hget, hfreed] at hunfreed
    cases hunfreed
  rw [WaitingLists.unfreed, WaitingLists.waiting]
  generalize engine.lists.lists.toList = lists at hfreed
  induction lists with
  | nil => rfl
  | cons list lists ih =>
    have hlists := ih fun other hmem => hfreed other (List.mem_cons_of_mem _ hmem)
    have hlist := hfreed list List.mem_cons_self
    cases hcase : list.freed with
    | false => simp [hcase, hlists]
    | true => simp [hcase, hlist hcase, hlists]

/-- The tasks that are queued, that wait on lists not yet freed, or that releases under way have taken to
queue them again. -/
def Moment.outstanding (moment : Moment σ) : List TaskIndex :=
  moment.engine.queue.inOrder ++ moment.engine.lists.unfreed ++
    moment.thread.releases.flatMap Freeing.waiters

/-- A task has been accepted as often as it is queued, waits, was handed out, was rejected or is in hand. -/
theorem Reached.count_submissions {moment : Moment σ} (reached : Reached Ordinary moment)
    (task : TaskIndex) : (submissions moment.engine.chronicle).count task =
      moment.engine.queue.inOrder.count task + moment.engine.lists.waiting.count task +
        (handouts moment.engine.chronicle).count task +
        (rejections moment.engine.chronicle).count task + moment.ledger.hand.count task := by
  rw [reached.tallied.sound.count_inOrder]
  exact reached.accounted.engine.balance task

/-- While no claim is to be tried again, what is in hand is outstanding. -/
theorem Reached.count_outstanding {moment : Moment σ} (reached : Reached Ordinary moment)
    (idle : moment.thread.control.retry = none) (task : TaskIndex) :
    moment.outstanding.count task = moment.engine.queue.inOrder.count task +
      moment.engine.lists.waiting.count task + moment.ledger.hand.count task := by
  have hwaiting : moment.engine.lists.unfreed = moment.engine.lists.waiting :=
    reached.attended.unfreed_eq
  rw [Moment.outstanding, List.count_append, List.count_append, hwaiting, Ledger.hand, Moment.ledger,
    Thread.ledger, idle]
  rfl

/-- Once tasks are accepted no more, only those that are outstanding are handed out. -/
theorem Moment.Onwards.handouts_subperm {moment later : Moment σ}
    (onwards : moment.Onwards Ordinary later) (reached : Reached Ordinary moment)
    (idle : moment.thread.control.retry = none) (halted : moment.engine.halted = true) :
    ∃ news, later.engine.chronicle = news ++ moment.engine.chronicle ∧
      (handouts news).Subperm moment.outstanding := by
  obtain ⟨news, hnews⟩ := onwards.heeds.chronicle
  refine ⟨news, hnews.symm, List.subperm_ext_iff.mpr fun task _ => ?_⟩
  have hbefore := reached.count_submissions task
  have hafter := (onwards.reached reached).count_submissions task
  rw [onwards.heeds.unsubmitted halted, ← hnews, handouts, rejections, List.filterMap_append,
    List.filterMap_append, List.count_append, List.count_append] at hafter
  rw [handouts, rejections] at hbefore
  rw [reached.count_outstanding idle, handouts]
  omega

/-! ### After a shutdown -/

structure Moment.Closed (moment later : Moment σ) : Prop where
  halted : later.engine.isRunning = false
  scheduled : later.engine.stats.scheduled = moment.engine.stats.scheduled
  /-- A task is refused, and nothing else comes of it. -/
  refuses : ∀ {handle : Option HandleIndex} {task : TaskIndex} {next : Except Fault Unit → Script σ}
    {frames : List (Frame σ)}, later.Doing (.script handle (.schedule task next)) frames →
      later.next.Doing (.script handle (next (.error .shutDown))) frames ∧
        later.next.world = later.world
  /-- A closure is refused. It has been made known by then, but nothing else comes of it. -/
  refusesClosure : ∀ {handle : Option HandleIndex} {priority : Nat} {closure : Script σ}
    {next : TaskIndex → Except Fault Unit → Script σ} {frames : List (Frame σ)},
    later.Doing (.script handle (.submit priority closure next)) frames →
      later.next.Doing (.script handle (next later.engine.tasks.size (.error .shutDown))) frames ∧
        later.next.world = (later.world.addClosure { priority } { work := .closure closure }).2 ∧
        later.next.engine.queue = later.engine.queue ∧ later.next.engine.table = later.engine.table ∧
        later.next.engine.lists = later.engine.lists ∧ later.next.engine.stats = later.engine.stats
  /-- A task that comes into the queue is a waiter of a freed list, which a release queues again. -/
  requeues : ∀ {task : TaskIndex}, later.engine.queue.contains task = false →
    later.next.engine.queue.contains task = true →
      ∃ freeing releases waiters, later.thread.releases = freeing :: releases ∧
        freeing.waiters = task :: waiters ∧ later.engine.requeue task = (none, later.next.engine)
  /-- What is handed out was outstanding when the engine was shut down. -/
  handsOut : ∃ news, later.engine.chronicle = news ++ moment.next.engine.chronicle ∧
    (handouts news).Subperm moment.outstanding ∧
      (handouts news).length ≤ moment.outstanding.length

namespace Moment

variable {moment later : Moment σ} {handle : Option HandleIndex} {frames : List (Frame σ)}

/-- The step that shuts the engine down does nothing else. -/
theorem Doing.next_shutDown {next : Script σ}
    (doing : moment.Doing (.script handle (.shutDown next)) frames) :
    moment.next.world = { moment.world with engine := moment.engine.shutDown } ∧
      moment.next.thread = moment.thread.doing (.script handle next) := by
  rw [Moment.next, Thread.step]
  simp only [doing.control]
  exact ⟨rfl, rfl⟩

theorem Doing.next_schedule {task : TaskIndex} {next : Except Fault Unit → Script σ}
    (doing : moment.Doing (.script handle (.schedule task next)) frames)
    (halted : moment.engine.halted = true) :
    moment.next.Doing (.script handle (next (.error .shutDown))) frames ∧
      moment.next.world = moment.world := by
  rw [Moment.next, Thread.step]
  simp only [doing.control, Thread.stepScript]
  rw [show moment.world.engine.schedule task = _ from Engine.schedule_of_halted halted task]
  exact ⟨⟨rfl, doing.stack⟩, rfl⟩

theorem Doing.next_submit {priority : Nat} {closure : Script σ}
    {next : TaskIndex → Except Fault Unit → Script σ}
    (doing : moment.Doing (.script handle (.submit priority closure next)) frames)
    (halted : moment.engine.halted = true) :
    moment.next.Doing (.script handle (next moment.engine.tasks.size (.error .shutDown))) frames ∧
      moment.next.world = (moment.world.addClosure { priority } { work := .closure closure }).2 := by
  let made := (moment.world.addClosure { priority } { work := .closure closure }).2
  have hmade : made.engine.halted = true := halted
  rw [Moment.next, Thread.step]
  simp only [doing.control, Thread.stepScript]
  rw [show made.engine.schedule _ = _ from Engine.schedule_of_halted hmade _]
  exact ⟨⟨rfl, doing.stack⟩, rfl⟩

end Moment

theorem Engine.halted_shutDown (engine : Engine) : engine.shutDown.halted = true := by
  rw [shutDown]
  split
  · next h => exact h
  · rfl

theorem Engine.stats_shutDown (engine : Engine) : engine.shutDown.stats = engine.stats := by
  rw [shutDown]
  split <;> rfl

/-- Shutting the engine down leaves everything outstanding that is. -/
theorem Moment.Doing.outstanding_shutDown {moment : Moment σ} {handle : Option HandleIndex}
    {next : Script σ} {frames : List (Frame σ)}
    (doing : moment.Doing (.script handle (.shutDown next)) frames) :
    moment.next.outstanding = moment.outstanding := by
  obtain ⟨hworld, hthread⟩ := doing.next_shutDown
  have hquiet := moment.engine.shutDown_quiet
  rw [outstanding, outstanding, Moment.engine, hworld, hthread, hquiet.queue, hquiet.lists,
    Thread.releases, Thread.releases, doing.control]
  rfl

/-- An engine that has been shut down stays so. From then on every task and every closure is refused and
changes nothing, what comes into the queue are waiters that a release queues again, and no more is handed
out than was outstanding. -/
theorem closed_of_shutDown {moment later : Moment σ} (reached : Reached Ordinary moment)
    {handle : Option HandleIndex} {next : Script σ} {frames : List (Frame σ)}
    (doing : moment.Doing (.script handle (.shutDown next)) frames) (ok : Ordinary moment)
    (onwards : moment.next.Onwards Ordinary later) : moment.Closed later := by
  obtain ⟨hworld, hthread⟩ := doing.next_shutDown
  have hreached : Reached Ordinary later := onwards.reached (reached.step ok)
  have hshut : moment.next.engine.halted = true := by
    rw [Moment.engine, hworld]
    exact Engine.halted_shutDown _
  have hhalted : later.engine.halted = true := onwards.heeds.halted hshut
  have hidle : moment.next.thread.control.retry = none := by
    rw [hthread]
    rfl
  refine ⟨by rw [Engine.isRunning, hhalted, Bool.not_true], ?_, fun doing => doing.next_schedule hhalted,
    fun doing => ?_, fun absent present => ?_, ?_⟩
  · rw [hreached.scheduled_eq, onwards.heeds.unsubmitted hshut, ← (reached.step ok).scheduled_eq,
      Moment.engine, hworld]
    exact congrArg Stats.scheduled (Engine.stats_shutDown _)
  · obtain ⟨hnext, hmade⟩ := doing.next_submit hhalted
    refine ⟨hnext, hmade, ?_⟩
    rw [Moment.engine, hmade]
    exact ⟨rfl, rfl, rfl, rfl⟩
  · have heeds : later.engine.Heeds later.next.engine := Thread.step_heeds _ _
    exact (Thread.step_effect later.world later.thread).requeues hreached.tallied.sound hreached.proper
      (heeds.unsubmitted hhalted) absent present
  · obtain ⟨news, hnews, hsubperm⟩ := onwards.handouts_subperm (reached.step ok) hidle hshut
    rw [doing.outstanding_shutDown] at hsubperm
    exact ⟨news, hnews, hsubperm, hsubperm.length_le⟩

/-- A world with three tasks that need one token and two that need another one. The second task shuts the
engine down when it is handed a failure. -/
def World.closing : World Unit :=
  let task (token : Token) : Task := { kind := .repeatable, priority := 0, tokens := [token] }
  let code : Code Unit := { work := .repeatable (.stop .normal) }
  let closes : Code Unit := { code with handler := some fun _ => .shutDown (.stop .normal) }
  let queue : PriorityQueue TaskIndex := ⟨Array.replicate 1 .empty, .empty⟩
  let engine := (Engine.idle { levels := 1 } queue).record (.started 1 1)
  let world := World.ofEngine engine ()
  let world := (world.addTask (task (.unique 0)) code).2
  let world := (world.addTask (task (.unique 0)) closes).2
  let world := (world.addTask (task (.unique 0)) code).2
  let world := (world.addTask (task (.unique 1)) code).2
  (world.addTask (task (.unique 1)) code).2

theorem World.fresh_closing : World.closing.Fresh :=
  .addTask (.addTask (.addTask (.addTask (.addTask
    (@World.Fresh.start _ { levels := 1 } _ () rfl) _ _) _ _) _ _) _ _) _ _

/-- Two tasks wait for the first one and one for the fourth. The second has been scheduled once more, so
that it is rejected when the first is released, and shuts the engine down. -/
def Moment.closing : Moment Unit :=
  ⟨.closing, .ofScript none (.schedule 0 fun _ => .schedule 1 fun _ => .schedule 2 fun _ =>
    .schedule 3 fun _ => .schedule 4 fun _ => .poll fun _ => .poll fun _ => .poll fun _ =>
    .schedule 1 fun _ => .releaseFor 0 fun _ => .poll fun _ => .schedule 0 fun _ =>
    .releaseFor 1 fun _ => .poll fun _ => .stop .normal)⟩

/-- One task is queued, one waits, and one is in hand when the engine is shut down. Two of them are handed
out afterwards. -/
theorem closed_of_shutDown_closing : (Moment.closing.after 12).outstanding = [1, 4, 2] ∧
    handouts (Moment.closing.after 13).engine.chronicle = [3, 0] ∧
    handouts (Moment.closing.after 22).engine.chronicle = [2, 1, 3, 0] ∧
    (Moment.closing.after 12).Closed (Moment.closing.after 22) := by
  have hasks : ∀ k < 22, (Moment.closing.after k).thread.control.asks = false := by decide +kernel
  have ordinary (k : Nat) (hk : k < 22) : Ordinary (Moment.closing.after k) := .of_asks (hasks k hk)
  have hreached : Reached Ordinary (Moment.closing.after 12) :=
    (Reached.begin World.fresh_closing _ _).steps fun k hk => ordinary k (by omega)
  have hdoing : (Moment.closing.after 12).Doing (.script none (.shutDown (.stop .normal)))
      (Moment.closing.after 12).thread.stack := ⟨rfl, rfl⟩
  have honwards : (Moment.closing.after 12).next.Onwards Ordinary ((Moment.closing.after 13).after 9) :=
    .steps fun k hk => Moment.closing.after_add 13 k ▸ ordinary (13 + k) (by omega)
  exact ⟨by decide +kernel, by decide +kernel, by decide +kernel,
    closed_of_shutDown hreached hdoing (ordinary 12 (by decide)) honwards⟩

end Dispatch
