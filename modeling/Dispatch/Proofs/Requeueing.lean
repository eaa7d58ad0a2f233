import Dispatch.Proofs.Execution
import Dispatch.Proofs.QueueOperations
import Dispatch.Proofs.Release

/-!
# Releases that reject no waiter

The waiters of a list that is freed are queued one after the other, and where each of them can be, no handler
is called in between. So what such a release does can be said at once: the tokens leave the table, the list
is freed, and all waiters stand in the queue, in their order (`World.givesBack_iff`). Whether a waiter is
rejected can be read off the queue beforehand (`Engine.exists_enqueueAll_iff`).
-/

namespace Dispatch

variable {σ : Type}

/-! ### Elements queued one after the other -/

namespace PriorityQueue

variable {α : Type} [BEq α] [Hashable α] {queue after : PriorityQueue α} {priority : α → Nat}
  {elements : List α}

/-- The queue after elements have been queued one after the other, each at its priority, unless one of them
is refused. -/
def enqueueAll (queue : PriorityQueue α) (priority : α → Nat) : List α → Option (PriorityQueue α)
  | [] => some queue
  | x :: rest =>
    match queue.enqueue x (priority x) with
    | .ok after => after.enqueueAll priority rest
    | .error _ => none

theorem enqueueAll_append (queue : PriorityQueue α) (priority : α → Nat) (elements more : List α) :
    queue.enqueueAll priority (elements ++ more) =
      (queue.enqueueAll priority elements).bind (·.enqueueAll priority more) := by
  induction elements generalizing queue with
  | nil => rfl
  | cons x rest ih =>
    rw [List.cons_append, enqueueAll, enqueueAll]
    cases queue.enqueue x (priority x) with
    | ok middle => exact ih middle
    | error fault => rfl

/-- Elements that are queued stand behind those that were queued before, each at the level of its priority
and in their order. -/
theorem Tallied.enqueueAll [EquivBEq α] [LawfulHashable α] (h : queue.Tallied)
    (ok : queue.enqueueAll priority elements = some after) :
    after.Tallied ∧ after.levels.size = queue.levels.size ∧ ∀ level, after.elementsAt level =
      queue.elementsAt level ++ elements.filter (priority · = level) := by
  induction elements generalizing queue with
  | nil =>
    cases ok
    exact ⟨h, rfl, fun level => (List.append_nil _).symm⟩
  | cons x rest ih =>
    rw [PriorityQueue.enqueueAll] at ok
    split at ok
    · next middle hmiddle =>
      obtain ⟨htallied, hsize, helements⟩ := ih (h.enqueue hmiddle) ok
      refine ⟨htallied, hsize.trans (size_enqueue hmiddle), fun level => ?_⟩
      obtain ⟨hlt, -, rfl⟩ := enqueue_eq_ok.mp hmiddle
      rw [helements, elementsAt_pushed queue _ hlt, Function.update_apply]
      by_cases heq : level = priority x
      · rw [if_pos heq, List.filter_cons_of_pos (by simpa using heq.symm), heq, List.append_assoc]
        rfl
      · rw [if_neg heq, List.filter_cons_of_neg (by simpa using Ne.symm heq)]
    · cases ok

/-- No element is refused exactly if each of them could be queued and none is among them twice. -/
theorem exists_enqueueAll_iff [LawfulBEq α] :
    (∃ after, queue.enqueueAll priority elements = some after) ↔ elements.Nodup ∧
      ∀ x ∈ elements, priority x < queue.levels.size ∧ queue.contains x = false := by
  induction elements generalizing queue with
  | nil => exact ⟨fun _ => ⟨.nil, by simp⟩, fun _ => ⟨queue, rfl⟩⟩
  | cons x rest ih =>
    rw [enqueueAll]
    split
    · next middle hmiddle =>
      have hsize := size_enqueue hmiddle
      have hcontains := contains_enqueue hmiddle
      have hx := not_contains_of_enqueue hmiddle
      have hlt := (enqueue_eq_ok.mp hmiddle).1
      rw [ih, List.nodup_cons, List.forall_mem_cons, hsize]
      constructor
      · rintro ⟨hnodup, hrest⟩
        refine ⟨⟨fun hmem => ?_, hnodup⟩, ⟨hlt, hx⟩, fun y hmem => ⟨(hrest y hmem).1, ?_⟩⟩
        · have hself := (hrest x hmem).2
          rw [hcontains, BEq.refl x] at hself
          cases hself
        · have hy := (hrest y hmem).2
          rw [hcontains, Bool.or_eq_false_iff] at hy
          exact hy.2
      · rintro ⟨⟨hnew, hnodup⟩, -, hrest⟩
        refine ⟨hnodup, fun y hmem => ⟨(hrest y hmem).1, ?_⟩⟩
        rw [hcontains, (hrest y hmem).2, Bool.or_false, beq_eq_false_iff_ne]
        rintro rfl
        exact hnew hmem
    · next fault hfault =>
      refine iff_of_false (fun ⟨after, h⟩ => nomatch h) ?_
      rintro ⟨-, hall⟩
      obtain ⟨hlt, hx⟩ := hall x List.mem_cons_self
      rw [contains, ShardMap.contains, Option.isSome_eq_false_iff, Option.isNone_iff_eq_none] at hx
      rw [enqueue_eq_ok.mpr ⟨hlt, hx, rfl⟩] at hfault
      cases hfault

end PriorityQueue

/-! ### Waiters queued one after the other -/

namespace Engine

def requeued (engine : Engine) (tasks : List TaskIndex) (queue : PriorityQueue TaskIndex) : Engine :=
  { engine with
    queue
    stats := Stats.countRequeue^[tasks.length] engine.stats
    chronicle := tasks.foldl
      (fun told task => .requeued task :: .enqueued task (engine.priority task) :: told)
      engine.chronicle }

/-- Tasks that could all be queued now, one after the other. -/
structure HasRoomFor (engine : Engine) (tasks : List TaskIndex) : Prop where
  nodup : tasks.Nodup
  refusal? : ∀ task ∈ tasks, engine.refusal? task = none

theorem HasRoomFor.perm {engine : Engine} {tasks others : List TaskIndex}
    (h : engine.HasRoomFor tasks) (hperm : tasks.Perm others) : engine.HasRoomFor others :=
  ⟨hperm.nodup_iff.mp h.nodup, fun task hmem => h.refusal? task (hperm.mem_iff.mpr hmem)⟩

theorem refusal?_eq_none {engine : Engine} {task : TaskIndex} : engine.refusal? task = none ↔
    engine.priority task < engine.queue.levels.size ∧ engine.queue.contains task = false := by
  rw [Engine.refusal?]
  split
  · next hle => exact iff_of_false (Option.some_ne_none _) fun h => Nat.not_lt.mpr hle h.1
  · next hlt =>
    rw [Nat.not_le] at hlt
    cases engine.queue.contains task with
    | true => exact iff_of_false (Option.some_ne_none _) fun h => Bool.noConfusion h.2
    | false => exact iff_of_true rfl ⟨hlt, rfl⟩

theorem exists_enqueueAll_iff {engine : Engine} {tasks : List TaskIndex} :
    (∃ queue, engine.queue.enqueueAll engine.priority tasks = some queue) ↔ engine.HasRoomFor tasks := by
  rw [PriorityQueue.exists_enqueueAll_iff]
  constructor
  · exact fun ⟨hnodup, hall⟩ => ⟨hnodup, fun task hmem => refusal?_eq_none.mpr (hall task hmem)⟩
  · exact fun ⟨hnodup, hall⟩ => ⟨hnodup, fun task hmem => refusal?_eq_none.mp (hall task hmem)⟩

theorem requeue_of_enqueue {engine : Engine} {task : TaskIndex} {queue : PriorityQueue TaskIndex}
    (hqueue : engine.queue.enqueue task (engine.priority task) = .ok queue) :
    engine.requeue task = (none, engine.requeued [task] queue) := by
  rw [requeue, enqueue, hqueue]
  rfl

end Engine

namespace Moment

/-- The next step rejects a waiter: it is to be queued again, and that is refused. -/
def Rejects (moment : Moment σ) : Prop :=
  ∃ freeing task waiters, moment.thread.control = .freeing freeing ∧
    freeing.waiters = task :: waiters ∧ (moment.engine.requeue task).1.isSome = true

def queueing (world : World σ) (thread : Thread σ) (rest : Freeing σ) (waiters : List TaskIndex) :
    Moment σ :=
  ⟨world, thread.doing (.freeing { rest with waiters })⟩

variable {world : World σ} {thread : Thread σ} {rest : Freeing σ} {task : TaskIndex}
  {waiters : List TaskIndex} {queue : PriorityQueue TaskIndex}

theorem not_rejects_of_waiters {freeing : Freeing σ}
    (h : ∀ task others, freeing.waiters = task :: others → (world.engine.requeue task).1 = none) :
    ¬ Rejects ⟨world, thread.doing (.freeing freeing)⟩ := by
  rintro ⟨freeing, task, others, hcontrol, hwaiters, hsome⟩
  obtain rfl := Control.freeing.inj hcontrol
  rw [engine, h task others hwaiters] at hsome
  cases hsome

theorem queueing_leadsBy
    (hqueue : world.engine.queue.enqueue task (world.engine.priority task) = .ok queue) :
    (queueing world thread rest (task :: waiters)).LeadsBy (¬ ·.Rejects)
      (queueing { world with engine := world.engine.requeued [task] queue } thread rest waiters) := by
  have hrequeue := Engine.requeue_of_enqueue hqueue
  have hkept : ¬ (queueing world thread rest (task :: waiters)).Rejects := by
    refine not_rejects_of_waiters fun other others hwaiters => ?_
    obtain ⟨rfl, -⟩ := List.cons.inj hwaiters
    rw [hrequeue]
  have hnext : (queueing world thread rest (task :: waiters)).next =
      queueing { world with engine := world.engine.requeued [task] queue } thread rest waiters := by
    simp only [queueing, next, Thread.step, Thread.doing, Thread.stepFreeing, hrequeue, Thread.turn]
  rw [← hnext]
  exact .single hkept

theorem queueing_all
    (ok : world.engine.queue.enqueueAll world.engine.priority waiters = some queue) :
    (queueing world thread rest waiters).LeadsBy (¬ ·.Rejects)
      (queueing { world with engine := world.engine.requeued waiters queue } thread rest []) := by
  induction waiters generalizing world with
  | nil =>
    cases ok
    exact .refl _
  | cons task waiters ih =>
    rw [PriorityQueue.enqueueAll] at ok
    split at ok
    · next middle hmiddle =>
      exact (queueing_leadsBy hmiddle).trans
        (@ih { world with engine := world.engine.requeued [task] middle } ok)
    · cases ok

/-- If one of them is refused the release comes to the first that is. -/
theorem exists_rejects
    (refused : world.engine.queue.enqueueAll world.engine.priority waiters = none) :
    ∃ later, (queueing world thread rest waiters).LeadsBy (¬ ·.Rejects) later ∧ later.Rejects := by
  induction waiters generalizing world with
  | nil => cases refused
  | cons task waiters ih =>
    rw [PriorityQueue.enqueueAll] at refused
    split at refused
    · next middle hmiddle =>
      obtain ⟨later, hleads, hrejects⟩ :=
        @ih { world with engine := world.engine.requeued [task] middle } refused
      exact ⟨later, (queueing_leadsBy hmiddle).trans hleads, hrejects⟩
    · next fault hfault =>
      refine ⟨_, .refl _, _, task, waiters, rfl, rfl, ?_⟩
      show (world.engine.requeue task).1.isSome = true
      rw [Engine.requeue, Engine.enqueue, hfault]
      rfl

/-- A run comes to its end in one way only. -/
theorem Over.unique {moment first second : Moment σ} (hfirst : moment.Leads first)
    (hsecond : moment.Leads second) (ended : first.Over) (ended' : second.Over) : first = second := by
  obtain ⟨n, rfl⟩ := hfirst
  obtain ⟨k, rfl⟩ := hsecond
  rcases Nat.le_total n k with hle | hle
  · obtain ⟨j, rfl⟩ := Nat.exists_eq_add_of_le hle
    exact (ended.leads ⟨j, (moment.after_add n j).symm⟩).symm
  · obtain ⟨j, rfl⟩ := Nat.exists_eq_add_of_le hle
    exact ended'.leads ⟨j, (moment.after_add k j).symm⟩

/-- What is met before the end is of the kind that leads there. -/
theorem Over.kind_of_leads {moment last later : Moment σ} {kind : Moment σ → Prop}
    (hlast : moment.LeadsBy kind last) (ended : last.Over) (hlater : moment.Leads later) :
    later = last ∨ kind later := by
  obtain ⟨n, rfl, hkind⟩ := hlast
  obtain ⟨k, rfl⟩ := hlater
  rcases Nat.lt_or_ge k n with hlt | hge
  · exact .inr (hkind k hlt)
  · obtain ⟨j, rfl⟩ := Nat.exists_eq_add_of_le hge
    exact .inl (ended.leads ⟨j, (moment.after_add n j).symm⟩)

end Moment

/-! ### A release -/

structure Engine.HeldWith (engine : Engine) (task : TaskIndex) (list : ListIndex) : Prop where
  tokens : engine.tokens task ≠ []
  holder? : ∀ token ∈ engine.tokens task, engine.table.holder? token = some list

/-- The engine when the tokens of a task have left the table and their list has been freed. -/
def Engine.vacated (engine : Engine) (task : TaskIndex) (handle : Option HandleIndex)
    (list : ListIndex) : Engine :=
  ((engine.takeTokens task handle).2.2.freeList list).2

namespace World

/-- A release through the handle, whoever calls it and whatever follows, comes back without a fault and
rejects no waiter. This is the world it leaves. -/
def GivesBack (world : World σ) (own : HandleIndex) (later : World σ) : Prop :=
  ∀ (thread : Thread σ) (after : AfterRelease σ),
    (Moment.of (Thread.releaseThrough world thread own after)).LeadsBy (¬ ·.Rejects)
      (.of (Thread.finishRelease later thread after (.ok ())))

def givenBack (world : World σ) (own : HandleIndex) (task : TaskIndex) (list : ListIndex)
    (queue : PriorityQueue TaskIndex) : World σ :=
  { world with
    handles := world.handles.setIfInBounds own { task, released := true }
    engine := (world.engine.vacated task (some own) list).requeued
      (world.engine.lists.get list).waiters queue }

variable {world later : World σ} {own : HandleIndex} {task : TaskIndex} {list : ListIndex}

/-- A release first vacates the tokens, and then queues the waiters. -/
theorem beginRelease_leadsBy (held : world.engine.HeldWith task list) (thread : Thread σ)
    (handle : Option HandleIndex) (after : AfterRelease σ) :
    (Moment.of (Thread.beginRelease world thread task handle after)).LeadsBy (¬ ·.Rejects)
      (Moment.queueing { world with engine := world.engine.vacated task handle list } thread
        { task, waiters := [], lists := [], freed := 1, outcome := .ok (), after }
        (world.engine.lists.get list).waiters) := by
  obtain ⟨houtcome, hlists, -⟩ := HolderTable.take_of_held
    (Token.nodup_distinct (world.engine.tokens task))
    (fun token hmem => held.holder? token (Token.mem_distinct.mp hmem))
  have hne : Token.distinct (world.engine.tokens task) ≠ [] := by
    obtain ⟨token, hmem⟩ := List.exists_mem_of_ne_nil _ held.tokens
    exact List.ne_nil_of_mem (Token.mem_distinct.mpr hmem)
  rw [if_neg hne] at hlists
  have hbegins : Thread.beginRelease world thread task handle after =
      ({ world with engine := (world.engine.takeTokens task handle).2.2 },
        thread.doing (.freeing
          { task, waiters := [], lists := [list], freed := 1, outcome := .ok (), after })) := by
    rw [Thread.beginRelease]
    simp only [Engine.takeTokens, hlists, houtcome]
    rfl
  rw [hbegins]
  exact .single (Moment.not_rejects_of_waiters fun _ _ hwaiters => nomatch hwaiters)

theorem releaseThrough_leadsBy (held : world.engine.HeldWith task list)
    (handle : world.handles[own]? = some { task }) (thread : Thread σ) (after : AfterRelease σ) :
    (Moment.of (Thread.releaseThrough world thread own after)).LeadsBy (¬ ·.Rejects)
      (Moment.queueing
        { world with
          handles := world.handles.setIfInBounds own { task, released := true }
          engine := world.engine.vacated task (some own) list } thread
        { task, waiters := [], lists := [], freed := 1, outcome := .ok (), after }
        (world.engine.lists.get list).waiters) := by
  rw [Thread.releaseThrough, handle]
  dsimp only
  rw [if_neg Bool.false_ne_true]
  exact @beginRelease_leadsBy _
    { world with handles := world.handles.setIfInBounds own { task, released := true } } _ _ held thread
    (some own) after

theorem queueing_nil_leadsBy (world : World σ) (thread : Thread σ) (task : TaskIndex) (freed : Nat)
    (after : AfterRelease σ) :
    (Moment.queueing world thread
      { task, waiters := [], lists := [], freed, outcome := .ok (), after } []).LeadsBy (¬ ·.Rejects)
      (.of (Thread.finishRelease world thread after (.ok ()))) := by
  rw [← Thread.finishRelease_doing world thread (.freeing
    { task, waiters := [], lists := [], freed, outcome := .ok (), after })]
  exact .single (Moment.not_rejects_of_waiters fun _ _ hwaiters => nomatch hwaiters)

theorem GivesBack.unique {first second : World σ} (hfirst : world.GivesBack own first)
    (hsecond : world.GivesBack own second) : first = second := by
  let thread : Thread σ := .ofScript none (.stop .normal)
  let after : AfterRelease σ := .answer none fun _ => .stop .normal
  have hsame := Moment.Over.unique (hfirst thread after).leads (hsecond thread after).leads
    ⟨⟨none, .normal, rfl⟩, rfl⟩ ⟨⟨none, .normal, rfl⟩, rfl⟩
  exact congrArg Moment.world hsame

/-- A release through the handle of a claim comes back without having rejected a waiter exactly if the
waiters can be queued one after the other, and then it leaves this world. -/
theorem givesBack_iff (held : world.engine.HeldWith task list)
    (handle : world.handles[own]? = some { task }) :
    world.GivesBack own later ↔ ∃ queue,
      world.engine.queue.enqueueAll world.engine.priority (world.engine.lists.get list).waiters =
        some queue ∧ later = world.givenBack own task list queue := by
  have hgives (queue : PriorityQueue TaskIndex) (ok : world.engine.queue.enqueueAll
      world.engine.priority (world.engine.lists.get list).waiters = some queue) :
      world.GivesBack own (world.givenBack own task list queue) := by
    intro thread after
    refine ((releaseThrough_leadsBy held handle thread after).trans (Moment.queueing_all ?_)).trans
      (queueing_nil_leadsBy _ thread task 1 after)
    exact ok
  constructor
  · intro hlater
    cases ok : world.engine.queue.enqueueAll world.engine.priority
        (world.engine.lists.get list).waiters with
    | some queue => exact ⟨queue, rfl, hlater.unique (hgives queue ok)⟩
    | none =>
      -- the release would come to a waiter that is rejected before it comes back
      let thread : Thread σ := .ofScript none (.stop .normal)
      let after : AfterRelease σ := .answer none fun _ => .stop .normal
      let vacated : World σ := { world with
        handles := world.handles.setIfInBounds own { task, released := true }
        engine := world.engine.vacated task (some own) list }
      obtain ⟨met, hmet, hrejects⟩ := @Moment.exists_rejects _ vacated thread
        { task, waiters := [], lists := [], freed := 1, outcome := .ok (), after } _ ok
      have hleads := (releaseThrough_leadsBy held handle thread after).trans hmet
      have hover : (Moment.of (Thread.finishRelease later thread after (.ok ()))).Over :=
        ⟨⟨none, .normal, rfl⟩, rfl⟩
      rcases hover.kind_of_leads (hlater thread after) hleads.leads with rfl | hkept
      · obtain ⟨freeing, -, -, hcontrol, -⟩ := hrejects
        cases hcontrol
      · exact absurd hrejects hkept
  · rintro ⟨queue, ok, rfl⟩
    exact hgives queue ok

end World

end Dispatch
