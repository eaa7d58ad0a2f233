import Dispatch.Proofs.Execution
import Dispatch.Proofs.QueueOperations
import Dispatch.Proofs.Search

/-!
# Draining an engine

Tasks that keep to themselves are scheduled in some order on a fresh engine, and then a worker searches
and executes until it finds nothing. Every search hands out the first queued task, since no token is held
between two executions; so all work is run once, to its end, in the order of the stable sort by priority, and
nothing is left behind (`drains`).

The argument goes in three parts: laying out a list by levels is sorting it stably
(`flatMap_filter_eq_mergeSort`), scheduling lays the tasks out by levels (`Scheduled`), and a round of the
worker takes the first of them away (`Draining`).
-/

namespace Dispatch

variable {σ : Type}

/-! ### Laying out by levels -/

/-- A list whose elements come in two kinds, first the one and then the other, is cut in one way. -/
theorem append_inj_of_kind {α : Type} {p : α → Bool} {xs xs' ys ys' : List α}
    (h : xs ++ ys = xs' ++ ys') (hxs : ∀ x ∈ xs, p x = true) (hxs' : ∀ x ∈ xs', p x = true)
    (hys : ∀ y ∈ ys, p y = false) (hys' : ∀ y ∈ ys', p y = false) : xs = xs' ∧ ys = ys' := by
  have hfilter : (xs ++ ys).filter p = (xs' ++ ys').filter p := by rw [h]
  have hnil : ys.filter p = [] := by simpa using hys
  have hnil' : ys'.filter p = [] := by simpa using hys'
  rw [List.filter_append, List.filter_append, List.filter_eq_self.mpr hxs,
    List.filter_eq_self.mpr hxs', hnil, hnil', List.append_nil, List.append_nil] at hfilter
  subst hfilter
  exact ⟨rfl, List.append_cancel_left h⟩

theorem range_split {k n : Nat} (h : k < n) :
    ∃ behind, List.range n = List.range k ++ k :: behind ∧ ∀ i ∈ behind, k < i := by
  obtain ⟨further, rfl⟩ := Nat.exists_eq_add_of_lt h
  refine ⟨(List.range further).map (k + 1 + ·), ?_, fun i hi => ?_⟩
  · rw [Nat.add_assoc, List.range_add, List.range_succ_eq_map]
    simp [Function.comp_def, Nat.add_assoc, Nat.add_comm 1]
  · simp only [List.mem_map] at hi
    omega

/-- Laying out elements by their keys, those with the same key in the order they come in, sorts them
stably. -/
theorem flatMap_filter_eq_mergeSort {α : Type} (key : α → Nat) {n : Nat} {xs : List α}
    (h : ∀ x ∈ xs, key x < n) :
    (List.range n).flatMap (fun k => xs.filter fun x => decide (key x = k)) =
      xs.mergeSort fun x y => decide (key x ≤ key y) := by
  induction xs with
  | nil => simp
  | cons a xs ih =>
    have htrans (x y z : α) : decide (key x ≤ key y) = true → decide (key y ≤ key z) = true →
        decide (key x ≤ key z) = true := by
      simp only [decide_eq_true_eq]
      omega
    have htotal (x y : α) : (decide (key x ≤ key y) || decide (key y ≤ key x)) = true := by
      simp only [Bool.or_eq_true, decide_eq_true_eq]
      omega
    obtain ⟨before, after, hcons, hrest, hbefore⟩ := List.mergeSort_cons htrans htotal a xs
    have hsorted := List.pairwise_mergeSort htrans htotal (a :: xs)
    rw [hcons] at hsorted
    have hafter := (List.pairwise_cons.mp (List.pairwise_append.mp hsorted).2.1).1
    -- a new element comes first at its own level, and changes no other
    obtain ⟨behind, hlevels, hbehind⟩ := range_split (h a List.mem_cons_self)
    have hlayout := ih fun x hx => h x (List.mem_cons_of_mem _ hx)
    have hother (levels : List Nat) (hne : ∀ k ∈ levels, key a ≠ k) :
        levels.flatMap (fun k => (a :: xs).filter fun x => decide (key x = k)) =
          levels.flatMap fun k => xs.filter fun x => decide (key x = k) := by
      refine List.flatMap_congr fun k hk => ?_
      rw [List.filter_cons_of_neg (by simpa using hne k hk)]
    rw [hrest, hlevels, List.flatMap_append, List.flatMap_cons] at hlayout
    rw [hcons, hlevels, List.flatMap_append, List.flatMap_cons,
      hother _ fun k hk => Nat.ne_of_gt (List.mem_range.mp hk),
      hother _ fun k hk => Nat.ne_of_lt (hbehind k hk), List.filter_cons_of_pos (by simp),
      List.cons_append]
    -- both ways of cutting the rest put the smaller keys first
    have hless : ∀ x ∈ (List.range (key a)).flatMap (fun k => xs.filter fun x => decide (key x = k)),
        decide (key x < key a) = true := by
      intro x hx
      obtain ⟨k, hk, hx⟩ := List.mem_flatMap.mp hx
      simp only [List.mem_range, List.mem_filter, decide_eq_true_eq] at hk hx ⊢
      omega
    have hmore : ∀ x ∈ xs.filter (fun x => decide (key x = key a)) ++
        behind.flatMap (fun k => xs.filter fun x => decide (key x = k)),
        decide (key x < key a) = false := by
      intro x hx
      simp only [List.mem_append, List.mem_filter, List.mem_flatMap, decide_eq_true_eq] at hx
      rw [decide_eq_false_iff_not]
      rcases hx with ⟨-, hx⟩ | ⟨k, hk, -, hx⟩
      · omega
      · have hlt := hbehind k hk
        omega
    obtain ⟨hfirst, hsecond⟩ := append_inj_of_kind hlayout hless
      (fun x hx => by simpa using hbefore x hx) hmore (fun x hx => by simpa using hafter x hx)
    rw [hfirst, hsecond]

/-- A queue in which elements stand at the levels of their keys, in the order of a list. -/
def PriorityQueue.LaidOut (queue : PriorityQueue TaskIndex) (key : TaskIndex → Nat)
    (tasks : List TaskIndex) : Prop :=
  ∀ level, queue.elementsAt level = tasks.filter fun task => decide (key task = level)

namespace PriorityQueue.LaidOut

variable {queue : PriorityQueue TaskIndex} {key : TaskIndex → Nat} {tasks : List TaskIndex}
  {task : TaskIndex}

theorem inOrder (laid : queue.LaidOut key tasks) (h : ∀ task ∈ tasks, key task < queue.levels.size) :
    queue.inOrder = tasks.mergeSort fun first second => decide (key first ≤ key second) := by
  rw [PriorityQueue.inOrder, funext laid]
  exact flatMap_filter_eq_mergeSort key h

/-- A task that is not among those laid out can be queued behind them. -/
theorem enqueue (laid : queue.LaidOut key tasks) (sound : queue.Sound) (hnew : task ∉ tasks)
    (hlt : key task < queue.levels.size) :
    ∃ after, queue.enqueue task (key task) = .ok after ∧ after.LaidOut key (tasks ++ [task]) := by
  have habsent : queue.levelOf.get? task = none := by
    refine Option.eq_none_iff_forall_ne_some.mpr fun level hlevel => hnew ?_
    have hmem := (sound.levelOf level task).mp hlevel
    rw [laid, List.contains_iff_mem] at hmem
    exact (List.mem_filter.mp hmem).1
  refine ⟨_, enqueue_eq_ok.mpr ⟨hlt, habsent, rfl⟩, fun level => ?_⟩
  rw [elementsAt_pushed queue _ hlt, Function.update_apply, laid, laid, List.filter_append]
  by_cases hlevel : level = key task
  · simp [hlevel]
  · simp [hlevel, Ne.symm hlevel]

end PriorityQueue.LaidOut

/-! ### The scripts -/

namespace Script

def scheduleAll : List TaskIndex → Script σ → Script σ
  | [], next => next
  | task :: more, next => .schedule task fun _ => scheduleAll more next

/-- Searches and executes until nothing is found. Gives up if that takes too many rounds. -/
def drain (worker : Nat) : Nat → Script σ
  | 0 => .stop (.panicked .other)
  | rounds + 1 => .poll fun
    | none => .stop .normal
    | some task => .execute worker task (drain worker rounds)

end Script

/-! ### Scheduling -/

namespace Engine

structure Unused (engine : Engine) : Prop where
  tallied : engine.queue.Tallied
  levels : engine.queue.levels.size = engine.config.levels
  halted : engine.halted = false
  stats : engine.stats = {}

theorem Unused.of_start {config : Config} {engine : Engine} (ok : Engine.start config = .ok engine) :
    engine.Unused := by
  unfold Engine.start at ok
  split at ok
  · cases ok
  · split at ok
    · cases ok
    · next queue hqueue =>
      cases ok
      obtain ⟨htallied, hlevels⟩ := PriorityQueue.Tallied.ofLevels hqueue
      exact ⟨htallied, hlevels, rfl, rfl⟩

end Engine

namespace World

theorem Fresh.unused {world : World σ} (fresh : world.Fresh) : world.engine.Unused := by
  induction fresh with
  | start memory ok => exact .of_start ok
  | addTask fresh task code ih => exact ⟨ih.1, ih.2, ih.3, ih.4⟩
  | addClosure fresh draft code ih => exact ⟨ih.1, ih.2, ih.3, ih.4⟩

/-- A world in which these tasks have been scheduled, and nothing else has been done. -/
structure Scheduled (base world : World σ) (tasks : List TaskIndex) : Prop where
  code : world.code = base.code
  known : world.engine.tasks = base.engine.tasks
  halted : world.engine.halted = false
  tallied : world.engine.queue.Tallied
  levels : world.engine.queue.levels.size = base.engine.config.levels
  laidOut : world.engine.queue.LaidOut base.engine.priority tasks
  table : world.engine.table = .empty
  lists : world.engine.lists = {}
  stats : world.engine.stats = { scheduled := tasks.length }

theorem Fresh.scheduled {world : World σ} (fresh : world.Fresh) : world.Scheduled world [] := by
  obtain ⟨htallied, hlevels, hhalted, hstats⟩ := fresh.unused
  refine ⟨rfl, rfl, hhalted, htallied, hlevels, fun level => ?_, fresh.blank.table,
    fresh.blank.lists, hstats⟩
  refine List.eq_nil_iff_forall_not_mem.mpr fun task hmem => ?_
  have hqueued := htallied.sound.contains_iff.mpr ⟨level, List.contains_iff_mem.mpr hmem⟩
  rw [fresh.blank.unqueued] at hqueued
  cases hqueued

variable {base world : World σ} {tasks : List TaskIndex} {task : TaskIndex}

theorem Scheduled.inOrder (h : base.Scheduled world tasks)
    (hpriority : ∀ task ∈ tasks, base.engine.priority task < base.engine.config.levels) :
    world.engine.queue.inOrder = tasks.mergeSort fun first second =>
      decide (base.engine.priority first ≤ base.engine.priority second) :=
  h.laidOut.inOrder fun task hmem => h.levels ▸ hpriority task hmem

theorem Scheduled.schedule (h : base.Scheduled world tasks) (hnew : task ∉ tasks)
    (hpriority : base.engine.priority task < base.engine.config.levels) :
    ∃ engine, world.engine.schedule task = .ok engine ∧
      base.Scheduled { world with engine } (tasks ++ [task]) := by
  obtain ⟨queue, hqueue, hlaid⟩ := h.laidOut.enqueue h.tallied.sound hnew (h.levels ▸ hpriority)
  have hengine : world.engine.schedule task = .ok (({ world.engine with
      queue, stats := world.engine.stats.countScheduled }.record
        (.enqueued task (base.engine.priority task))).record (.submitted task)) := by
    simp only [Engine.schedule, h.halted, Engine.enqueue, Engine.priority_congr h.known, hqueue]
    rfl
  refine ⟨_, hengine, h.code, h.known, h.halted, h.tallied.enqueue hqueue,
    (PriorityQueue.size_enqueue hqueue).trans h.levels, hlaid, h.table, h.lists, ?_⟩
  show world.engine.stats.countScheduled = _
  rw [h.stats]
  simp [Stats.countScheduled]

/-- Tasks that are scheduled for the first time are accepted one after the other, whoever schedules
them. -/
theorem Scheduled.schedules (h : base.Scheduled world tasks) {more : List TaskIndex}
    (hnodup : (tasks ++ more).Nodup)
    (hpriority : ∀ task ∈ more, base.engine.priority task < base.engine.config.levels) :
    ∃ later, base.Scheduled later (tasks ++ more) ∧ ∀ (thread : Thread σ) (next : Script σ),
      Moment.LeadsBy ⟨world, thread.doing (.script none (.scheduleAll more next))⟩
        (fun moment => moment.Idle ∧ moment.thread.stack = thread.stack)
        ⟨later, thread.doing (.script none next)⟩ := by
  induction more generalizing world tasks with
  | nil =>
    rw [List.append_nil]
    exact ⟨world, h, fun thread next => .refl ⟨world, thread.doing (.script none next)⟩⟩
  | cons task more ih =>
    have hnew : task ∉ tasks := fun hmem =>
      (List.nodup_append.mp hnodup).2.2 task hmem task List.mem_cons_self rfl
    obtain ⟨engine, hengine, hscheduled⟩ := h.schedule hnew (hpriority task List.mem_cons_self)
    rw [List.append_cons] at hnodup
    obtain ⟨later, hlater, hleads⟩ := ih hscheduled hnodup fun task hmem =>
      hpriority task (List.mem_cons_of_mem _ hmem)
    rw [← List.append_cons] at hlater
    refine ⟨later, hlater, fun thread next => .head ?_ ⟨rfl, rfl⟩ (hleads thread next)⟩
    simp only [Moment.next, Thread.step, Thread.doing, Script.scheduleAll, Thread.stepScript, hengine,
      Thread.turn]

end World

/-! ### Rounds -/

namespace Engine

variable {engine : Engine} {task : TaskIndex}

/-- The second engine is the first after a task has entered its tokens, which are the only held ones. They
are held with a list that was made for them, on which nobody waits. -/
structure Entered (engine after : Engine) (task : TaskIndex) : Prop where
  tasks : after.tasks = engine.tasks
  queue : after.queue = engine.queue
  stats : after.stats = engine.stats
  waiting : after.lists.waiting = engine.lists.waiting
  holders : after.table.holders.Sound
  holder : ∀ token, after.table.holder? token =
    if token ∈ engine.tokens task then some engine.lists.lists.size else none
  list : engine.tokens task ≠ [] → after.lists.get engine.lists.lists.size = {}

theorem claimTokens_of_free (hfree : ∀ token, engine.table.holder? token = none)
    (sound : engine.table.holders.Sound) :
    ∃ after, engine.claimTokens task = .acquired after ∧ engine.Entered after task := by
  rcases claimTokens_cases engine task with ⟨hnil, hclaim⟩ | ⟨_, hclaim⟩
  · refine ⟨engine, hclaim, rfl, rfl, rfl, rfl, sound, fun token => ?_, fun hne => absurd hnil hne⟩
    simp [hnil, hfree]
  · rw [hclaim]
    -- only a token that is held lets a claim fail
    have hheld {list holder : ListIndex} {table : HolderTable} (hclaim : engine.table.claim
        (Token.distinct (engine.tokens task)) list = (.held holder, table)) : False := by
      obtain ⟨⟨token, -, hheld⟩, -⟩ := HolderTable.claim_held (Token.nodup_distinct _) hclaim
      rw [hfree] at hheld
      cases hheld
    generalize hadmission : attempt _ task _ _ = admission
    cases admission with
    | acquired after =>
      obtain ⟨table, htable, rfl⟩ := attempt_acquired hadmission
      have hsound := HolderTable.sound_claim sound (Token.distinct (engine.tokens task))
        engine.lists.lists.size
      rw [htable] at hsound
      refine ⟨_, rfl, rfl, rfl, rfl, WaitingLists.waiting_make _, hsound, fun token => ?_,
        fun _ => ?_⟩
      · show table.holder? token = _
        rw [(HolderTable.claim_acquired htable).2, hfree]
        simp only [Token.mem_distinct]
      · show engine.lists.make.2.get engine.lists.lists.size = {}
        rw [WaitingLists.get_make, if_pos rfl]
    | waiting after =>
      obtain ⟨holder, table, lists, htable, -, -⟩ := attempt_waiting hadmission
      exact (hheld htable).elim
    | refused after list =>
      obtain ⟨-, holder, table, htable, -, -⟩ := attempt_refused hadmission
      exact (hheld htable).elim

end Engine

namespace World

/-- A world between two executions of a worker that is to execute these tasks yet, in this order, of a
number of tasks that have been scheduled. -/
structure Draining (base world : World σ) (tasks : List TaskIndex) (count : Nat) : Prop where
  code : world.code = base.code
  untaken : ∀ task ∈ tasks, world.engine.isTaken task = false
  tallied : world.engine.queue.Tallied
  inOrder : world.engine.queue.inOrder = tasks
  free : ∀ token, world.engine.table.holder? token = none
  holders : world.engine.table.holders.Sound
  idle : world.engine.lists.waiting = []
  scheduled : world.engine.stats.scheduled = count
  contentions : world.engine.stats.contentions = 0
  finished : world.engine.stats.finished + tasks.length = count

variable {base world : World σ} {tasks : List TaskIndex} {task : TaskIndex} {count : Nat}

/-- A round of the worker executes the first task. -/
theorem Draining.round (h : base.Draining world (task :: tasks) count)
    (hnodup : (task :: tasks).Nodup) {code : Code σ} (hcode : base.code[task]? = some code)
    (hprivate : code.Private) {thread : Thread σ} (hstack : thread.stack = []) (worker rounds : Nat) :
    ∃ later, base.Draining later tasks count ∧
      base.Performs ⟨world, thread.doing (.script none (.drain worker (rounds + 1)))⟩ [task]
        ⟨later, thread.doing (.script none (.drain worker rounds))⟩ := by
  obtain ⟨level, queue, hsome, -, hrest⟩ := h.tallied.sound.dequeue_of_cons h.inOrder
  have htallied := (h.tallied.perform .dequeue).1
  rw [PriorityQueue.perform, hsome] at htallied
  obtain ⟨claimed, hclaim, hentered⟩ :=
    @Engine.claimTokens_of_free (world.engine.serve queue task level) task h.free h.holders
  have hpoll : world.engine.poll = .found task (claimed.record (.handedOut task)) := by
    rw [Engine.poll, Engine.pollWithin_of_dequeue hsome, hclaim]
  let found : World σ := { world with engine := claimed.record (.handedOut task) }
  have huntaken : ∀ other ∈ task :: tasks, found.engine.isTaken other = false := by
    intro other hmem
    rw [← h.untaken other hmem]
    exact congrArg (fun known : Array Task => (known[other]?.map Task.taken).getD false)
      hentered.tasks
  have htokens : found.engine.tokens = world.engine.tokens := Engine.tokens_congr hentered.tasks
  have hstats : found.engine.stats = world.engine.stats := hentered.stats
  obtain ⟨later, own, hserves, hholding, hperforms⟩ := @World.executes σ found task base code hcode
    (h.code ▸ hcode) hprivate (huntaken task List.mem_cons_self) ⟨_, htokens ▸ hentered.holder⟩
    hentered.holders (hentered.waiting.trans h.idle) thread worker (.drain worker rounds)
  have hqueue : later.engine.queue = queue := hserves.queue.trans hentered.queue
  refine ⟨later, ⟨hserves.code.trans h.code, fun other hmem => ?_, hqueue ▸ htallied, ?_,
    fun token => ?_, hholding.sound, hholding.idle, ?_, ?_, ?_⟩,
    hperforms.after_rest (.step ?_ (.own hstack rfl))⟩
  · have hne : other ≠ task := fun he => (List.nodup_cons.mp hnodup).1 (he ▸ hmem)
    rw [hserves.taken other hne]
    exact huntaken other (List.mem_cons_of_mem _ hmem)
  · rw [hqueue]
    exact hrest
  · obtain ⟨list, hholder⟩ := hholding.holder
    simpa using hholder token
  · rw [hserves.scheduled, hstats]
    exact h.scheduled
  · rw [hserves.contentions, hstats]
    exact h.contentions
  · have hfinished := h.finished
    rw [List.length_cons] at hfinished
    rw [hserves.finished, hstats]
    omega
  · simp only [Moment.next, Thread.step, Thread.doing, Script.drain, Thread.stepScript, hpoll,
      Thread.afterPoll, Thread.turn]
    rfl

theorem Draining.rounds (h : base.Draining world tasks count) (hnodup : tasks.Nodup)
    (hcode : ∀ task ∈ tasks, ∃ code, base.code[task]? = some code ∧ code.Private)
    {thread : Thread σ} (hstack : thread.stack = []) (worker rounds : Nat) :
    ∃ later, base.Draining later [] count ∧
      base.Performs ⟨world, thread.doing (.script none (.drain worker (tasks.length + rounds)))⟩
        tasks ⟨later, thread.doing (.script none (.drain worker rounds))⟩ := by
  induction tasks generalizing world with
  | nil =>
    rw [List.length_nil, Nat.zero_add]
    exact ⟨world, h, .rest (.refl _)⟩
  | cons task tasks ih =>
    obtain ⟨code, htask, hprivate⟩ := hcode task List.mem_cons_self
    obtain ⟨middle, hmiddle, hround⟩ :=
      h.round hnodup htask hprivate hstack worker (tasks.length + rounds)
    obtain ⟨later, hlater, hrest⟩ := ih hmiddle (List.nodup_cons.mp hnodup).2 fun task hmem =>
      hcode task (List.mem_cons_of_mem _ hmem)
    refine ⟨later, hlater, ?_⟩
    rw [List.length_cons, Nat.add_right_comm]
    exact hround.trans hrest

theorem Draining.exhausted (h : base.Draining world [] count) {thread : Thread σ}
    (hstack : thread.stack = []) (worker rounds : Nat) :
    Moment.LeadsBy ⟨world, thread.doing (.script none (.drain worker (rounds + 1)))⟩ (·.Rests)
      ⟨world, thread.doing (.script none (.stop .normal))⟩ := by
  have hpoll : world.engine.poll = .exhausted world.engine := by
    rw [Engine.poll, Engine.pollWithin, h.tallied.sound.dequeue_of_nil h.inOrder]
  refine .step ?_ (.own hstack rfl)
  simp only [Moment.next, Thread.step, Thread.doing, Script.drain, Thread.stepScript, hpoll,
    Thread.afterPoll, Thread.turn]

theorem Scheduled.draining (h : base.Scheduled world tasks)
    (huntaken : ∀ task ∈ tasks, base.engine.isTaken task = false)
    (hpriority : ∀ task ∈ tasks, base.engine.priority task < base.engine.config.levels) :
    base.Draining world (tasks.mergeSort fun first second =>
      decide (base.engine.priority first ≤ base.engine.priority second)) tasks.length := by
  refine ⟨h.code, fun task hmem => ?_, h.tallied, h.inOrder hpriority, fun token => ?_, ?_, ?_,
    ?_, ?_, ?_⟩
  · rw [← huntaken task (List.mem_mergeSort.mp hmem), Engine.isTaken, h.known]
    rfl
  · rw [h.table, HolderTable.holder?_empty]
  · rw [h.table]
    exact .empty
  · rw [h.lists]
    rfl
  · rw [h.stats]
  · rw [h.stats]
  · rw [h.stats, List.length_mergeSort]
    exact Nat.zero_add _

end World

/-! ### The whole run -/

/-- A task that can be drained: it has work, which keeps to itself, and its priority is that of a
level. -/
structure World.Drainable (world : World σ) (task : TaskIndex) : Prop where
  code : ∃ code, world.code[task]? = some code ∧ code.Private
  untaken : world.engine.isTaken task = false
  priority : world.engine.priority task < world.engine.config.levels

/-- A moment at which a worker has stopped because nothing is left to do: nothing is queued, nobody waits,
no token is held, no claim ever failed, and all of a number of tasks have completed or failed. -/
structure Moment.Drained (moment : Moment σ) (count : Nat) : Prop where
  stopped : moment.Doing (.script none (.stop .normal)) []
  unqueued : ∀ task, moment.engine.queue.contains task = false
  pending : moment.engine.pending = 0
  waiting : moment.engine.lists.waiting = []
  held : moment.engine.table.held = 0
  contentions : moment.engine.stats.contentions = 0
  scheduled : moment.engine.stats.scheduled = count
  finished : moment.engine.stats.executed + moment.engine.stats.failed = count

theorem World.Draining.drained {base world : World σ} {count : Nat}
    (h : base.Draining world [] count) {thread : Thread σ} (hstack : thread.stack = []) :
    Moment.Drained ⟨world, thread.doing (.script none (.stop .normal))⟩ count := by
  refine ⟨⟨rfl, hstack⟩, fun task => ?_, ?_, h.idle, HolderTable.held_eq_zero h.holders h.free,
    h.contentions, h.scheduled, h.finished⟩
  · refine Bool.eq_false_iff.mpr fun hqueued => ?_
    have hmem := h.tallied.sound.contains_iff_mem.mp hqueued
    rw [h.inOrder] at hmem
    cases hmem
  · show world.engine.queue.size = 0
    rw [h.tallied.size]
    refine Finset.sum_eq_zero fun level _ => List.length_eq_zero_iff.mpr ?_
    refine List.eq_nil_iff_forall_not_mem.mpr fun task hmem => ?_
    have hqueued := PriorityQueue.mem_inOrder.mpr ⟨level, hmem⟩
    rw [h.inOrder] at hqueued
    cases hqueued

/-- Draining runs the work of every task once, to its end, in the order of the stable sort by priority, and
leaves nothing behind. -/
theorem drains {world : World σ} (fresh : world.Fresh) {order : List TaskIndex}
    (hnodup : order.Nodup) (drainable : ∀ task ∈ order, world.Drainable task)
    (self : Option Nat) (worker : Nat) {rounds : Nat} (hrounds : order.length < rounds) :
    ∃ last : Moment σ, last.Drained order.length ∧
      world.Performs ⟨world, .ofScript self (.scheduleAll order (.drain worker rounds))⟩
        (order.mergeSort fun first second =>
          decide (world.engine.priority first ≤ world.engine.priority second)) last := by
  have hpriority := fun task hmem => (drainable task hmem).priority
  obtain ⟨more, rfl⟩ := Nat.exists_eq_add_of_lt hrounds
  let thread : Thread σ := .ofScript self (.stop .normal)
  have hstack : thread.stack = [] := rfl
  obtain ⟨middle, hscheduled, hschedules⟩ := fresh.scheduled.schedules (by simpa using hnodup) hpriority
  have hscheduling := (hschedules thread (.drain worker (order.length + more + 1))).mono
    fun _ own => Moment.Rests.own own.2 own.1
  rw [List.nil_append] at hscheduled
  have hdraining := hscheduled.draining (fun task hmem => (drainable task hmem).untaken) hpriority
  have hperm := List.mergeSort_perm order fun first second =>
    decide (world.engine.priority first ≤ world.engine.priority second)
  obtain ⟨last, hlast, hrounds⟩ := hdraining.rounds (hperm.nodup_iff.mpr hnodup)
    (fun task hmem => (drainable task (hperm.mem_iff.mp hmem)).code) hstack worker (more + 1)
  rw [hperm.length_eq, ← Nat.add_assoc] at hrounds
  have hdrained : Moment.Drained ⟨last, thread.doing (.script none (.stop .normal))⟩ order.length :=
    hlast.drained hstack
  have hexhausted : world.Performs ⟨last, thread.doing (.script none (.drain worker (more + 1)))⟩ []
      ⟨last, thread.doing (.script none (.stop .normal))⟩ := .rest (hlast.exhausted hstack worker more)
  have hall := (hrounds.after_rest hscheduling).trans hexhausted
  rw [List.append_nil] at hall
  exact ⟨_, hdrained, hall⟩

/-- A world with tasks of two levels: one that releases early, one that panics and whose handler panics, a
closure without tokens that fails, and one that has nothing to do. -/
def World.errands : World Unit :=
  let early : Code Unit := { work := .repeatable (.release fun _ => .stop .normal) }
  let panics : Code Unit :=
    { work := .repeatable (.stop (.panicked .other)), handler := some fun _ => .stop (.panicked .other) }
  let fails : Code Unit := { work := .closure (.stop (.failed (.ofFault .shutDown))) }
  let idles : Code Unit := { work := .repeatable (.stop .normal) }
  let queue : PriorityQueue TaskIndex := ⟨Array.replicate 2 .empty, .empty⟩
  let engine := (Engine.idle { levels := 2 } queue).record (.started 1 2)
  let world := World.ofEngine engine ()
  let world := (world.addTask ⟨.repeatable, 1, [.unique 0, .unique 1], false⟩ early).2
  let world := (world.addTask ⟨.repeatable, 0, [.unique 1, .unique 1], false⟩ panics).2
  let world := (world.addClosure { priority := 1 } fails).2
  (world.addTask ⟨.repeatable, 0, [.unique 0], false⟩ idles).2

theorem World.fresh_errands : World.errands.Fresh :=
  .addTask (.addClosure (.addTask (.addTask
    (@World.Fresh.start _ { levels := 2 } _ () rfl) _ _) _ _) _ _) _ _

theorem World.drainable_errands : ∀ task ∈ [0, 1, 2, 3], World.errands.Drainable task := by
  intro task hmem
  simp only [List.mem_cons, List.not_mem_nil, or_false] at hmem
  rcases hmem with rfl | rfl | rfl | rfl
  · exact ⟨⟨_, rfl, .of_work (.release fun _ => .stop .normal) rfl⟩, rfl, by decide⟩
  · refine ⟨⟨_, rfl, .stop _, ?_⟩, rfl, by decide⟩
    rintro handler ⟨⟩ failure
    exact .stop _
  · exact ⟨⟨_, rfl, .of_work (.stop _) rfl⟩, rfl, by decide⟩
  · exact ⟨⟨_, rfl, .of_work (.stop _) rfl⟩, rfl, by decide⟩

theorem drains_errands : [0, 1, 2, 3].mergeSort (fun first second => decide
      (World.errands.engine.priority first ≤ World.errands.engine.priority second)) = [1, 3, 0, 2] ∧
    ∃ last : Moment Unit, last.Drained 4 ∧
      World.errands.Performs ⟨.errands, .ofScript none (.scheduleAll [0, 1, 2, 3] (.drain 0 6))⟩
        ([0, 1, 2, 3].mergeSort fun first second => decide
          (World.errands.engine.priority first ≤ World.errands.engine.priority second)) last :=
  ⟨(@flatMap_filter_eq_mergeSort _ World.errands.engine.priority 2 _ (by decide)).symm.trans
      (by decide),
    drains World.fresh_errands (by decide) World.drainable_errands none 0 (by decide)⟩

end Dispatch
