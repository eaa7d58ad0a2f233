import Dispatch.Proofs.Calls
import Dispatch.Proofs.Faultless
import Dispatch.Proofs.TableOperations

/-!
# Releases, whatever the handlers do

A release takes tokens out of the table, and then frees the lists they were held with and treats the waiters
of each. A waiter that cannot be queued is handed the refusal, and its handler may do anything, the release
of other claims included, as long as it comes back. Treatment of a waiter begins where that of the one before
has ended, whatever has happened meanwhile (`waiters_treated`), and so a release does nothing else than what
it is asked for (`release_exact`).
-/

namespace Dispatch

variable {σ : Type}

/-! ### The parts of a release -/

namespace Engine

variable {engine after : Engine} {task : TaskIndex} {fault : QueueFault}

def tell (engine : Engine) (news : List Occurrence) : Engine :=
  { engine with chronicle := news ++ engine.chronicle }

theorem tell_append (engine : Engine) (later news : List Occurrence) :
    engine.tell (later ++ news) = (engine.tell news).tell later := by
  rw [tell, tell, tell, List.append_assoc]

def refusal? (engine : Engine) (task : TaskIndex) : Option QueueFault :=
  if engine.queue.levels.size ≤ engine.priority task then
    some (.outOfRange (engine.priority task) engine.queue.levels.size)
  else if engine.queue.contains task then some .duplicate
  else none

/-- A waiter has been put at the end of the level of its priority, and nothing else was done. -/
structure Requeues (before after : Engine) (task : TaskIndex) : Prop where
  elementsAt : ∀ level, after.queue.elementsAt level =
    before.queue.elementsAt level ++ if level = before.priority task then [task] else []
  contains : ∀ other, after.queue.contains other = (task == other || before.queue.contains other)
  rest : after = { before with
    queue := after.queue
    stats := before.stats.countRequeue
    chronicle := .requeued task :: .enqueued task (before.priority task) :: before.chronicle }

theorem requeue_refused (h : engine.refusal? task = some fault) : engine.requeue task =
    (some (.queue fault), engine.tell [.requeueRefused task (.queue fault)]) := by
  rw [refusal?] at h
  rw [requeue, enqueue, PriorityQueue.enqueue, PriorityQueue.checkPriority]
  split at h
  · next hle =>
    cases h
    rw [if_pos hle]
    rfl
  · next hlt =>
    split at h
    · next hqueued =>
      cases h
      obtain ⟨level, hlevel⟩ := PriorityQueue.contains_iff.mp hqueued
      rw [if_neg hlt, ShardMap.getThenInsertIfNew?, hlevel]
      rfl
    · cases h

theorem requeue_accepted (h : engine.refusal? task = none) :
    ∃ after, engine.requeue task = (none, after) ∧ engine.Requeues after task := by
  have hlt : engine.priority task < engine.queue.levels.size := by
    rw [refusal?] at h
    split at h
    · cases h
    · omega
  have hunqueued : engine.queue.levelOf.get? task = none := by
    rw [refusal?, if_neg (Nat.not_le.mpr hlt)] at h
    split at h
    · cases h
    · next hqueued =>
      rw [PriorityQueue.contains_iff] at hqueued
      exact Option.eq_none_iff_forall_ne_some.mpr fun level hlevel => hqueued ⟨level, hlevel⟩
  have hqueue := PriorityQueue.enqueue_eq_ok.mpr ⟨hlt, hunqueued, rfl⟩
  refine ⟨_, by rw [requeue, enqueue, hqueue], fun level => ?_, PriorityQueue.contains_enqueue hqueue, rfl⟩
  have hpush := PriorityQueue.elementsAt_push { engine.queue with
    levelOf := engine.queue.levelOf.put task (engine.priority task) } hlt task level
  refine hpush.trans ?_
  split
  · next heq => rw [heq]; rfl
  · exact (List.append_nil _).symm

end Engine

/-- What a task does with a failure. Without a handler it does nothing. -/
def World.hearing (world : World σ) (task : TaskIndex) (failure : Failure) : Script σ :=
  match world.code[task]?.bind Code.handler with
  | some handler => handler failure
  | none => .stop .normal

def World.notice (world : World σ) (task : TaskIndex) (failure : Failure) : List Occurrence :=
  match world.code[task]?.bind Code.handler with
  | some _ => [.reported task failure]
  | none => [.unheard task (world.engine.kind task) failure, .reported task failure]

theorem World.notice_congr {world after : World σ} (hcode : after.code = world.code)
    (htasks : after.engine.tasks = world.engine.tasks) (task : TaskIndex) (failure : Failure) :
    after.notice task failure = world.notice task failure := by
  rw [notice, notice, hcode, Engine.kind, Engine.kind, htasks]

def Ending.notice (worker : Option Nat) (task : TaskIndex) : Ending → List Occurrence
  | panicked payload => [.handlerPanicked worker task payload]
  | normal | failed _ => []

def Freeing.notice (freeing : Freeing σ) : List Occurrence :=
  match freeing.outcome with
  | .ok () => []
  | .error fault => [.releaseFailed freeing.task fault freeing.freed]

theorem Thread.deliver_eq (world : World σ) (task : TaskIndex) (failure : Failure) :
    deliver world task failure =
      ({ world with engine := world.engine.tell (world.notice task failure) },
        .script none (world.hearing task failure)) := by
  rw [deliver, World.notice, World.hearing]
  cases world.code[task]?.bind Code.handler <;> rfl

namespace Moment

variable {moment later last : Moment σ} {stack : List (Frame σ)} {rest freeing : Freeing σ}
  {task : TaskIndex} {waiters : List TaskIndex} {list : ListIndex} {lists : List ListIndex}

/-- A failure is handed to a task once: this is told, the handler is called, and when it has come back the
thread goes on with the frame below, having told of a panic if there was one. The engine is that to which
the failure is told. -/
structure Hears (moment later : Moment σ) (engine : Engine) (worker : Option Nat) (task : TaskIndex)
    (failure : Failure) (frame : Frame σ) (stack : List (Frame σ)) : Prop where
  told : moment.next.world =
    { moment.world with engine := engine.tell (moment.world.notice task failure) }
  called : moment.next.Doing (.script none (moment.world.hearing task failure)) (frame :: stack)
  back : ∃ ending back, moment.next.Back (frame :: stack) ending back ∧ back.next = later ∧
    later.world = { back.world with engine := back.engine.tell (ending.notice worker task) }

/-- A release treats a waiter: it is queued, if that is possible now, and otherwise it is handed the
refusal. What is left to be done by the release is `rest`. -/
inductive Treats (stack : List (Frame σ)) (rest : Freeing σ) (task : TaskIndex)
    (moment later : Moment σ) : Prop
  | queued (accepted : moment.engine.refusal? task = none)
      (requeues : moment.engine.Requeues later.engine task)
      (world : later.world = { moment.world with engine := later.engine })
      (next : moment.next = later)
  | rejected {fault : QueueFault} (refused : moment.engine.refusal? task = some fault)
      (hears : moment.Hears later (moment.engine.tell [.requeueRefused task (.queue fault)]) none task
        { cause := .rejected (.queue fault) } (.rejecting task rest) stack)

inductive TreatsAll (stack : List (Frame σ)) (rest : Freeing σ) :
    List TaskIndex → Moment σ → Moment σ → Prop
  | nil {moment : Moment σ} (doing : moment.Doing (.freeing { rest with waiters := [] }) stack) :
      TreatsAll stack rest [] moment moment
  | cons {task : TaskIndex} {waiters : List TaskIndex} {moment middle last : Moment σ}
      (doing : moment.Doing (.freeing { rest with waiters := task :: waiters }) stack)
      (first : Treats stack { rest with waiters } task moment middle)
      (others : TreatsAll stack rest waiters middle last) :
      TreatsAll stack rest (task :: waiters) moment last

structure Frees (moment : Moment σ) (list : ListIndex) : Prop where
  get : ∀ other, moment.next.engine.lists.get other =
    if other = list then { freed := true } else moment.engine.lists.get other
  world : moment.next.world =
    { moment.world with engine := { moment.engine with lists := moment.next.engine.lists } }

/-- A release frees these lists one after the other, and treats the waiters of each. -/
inductive FreesAll (stack : List (Frame σ)) (rest : Freeing σ) :
    List ListIndex → Moment σ → Moment σ → Prop
  | nil {moment : Moment σ}
      (doing : moment.Doing (.freeing { rest with waiters := [], lists := [] }) stack) :
      FreesAll stack rest [] moment moment
  | cons {list : ListIndex} {lists : List ListIndex} {moment middle last : Moment σ}
      (doing : moment.Doing (.freeing { rest with waiters := [], lists := list :: lists }) stack)
      (frees : moment.Frees list)
      (treated : TreatsAll stack { rest with lists } (moment.engine.lists.get list).waiters moment.next
        middle)
      (others : FreesAll stack rest lists middle last) :
      FreesAll stack rest (list :: lists) moment last

/-! ### In the middle of a release -/

/-- A release that these frames wait for has something left to do, or is in a handler. -/
inductive Releasing (moment : Moment σ) (stack : List (Frame σ)) : Prop
  | freeing {freeing : Freeing σ} (doing : moment.Doing (.freeing freeing) stack)
      (left : freeing.waiters ≠ [] ∨ freeing.lists ≠ [])
  | within {task : TaskIndex} {rest : Freeing σ} (within : moment.Within (.rejecting task rest :: stack))
  | returning {task : TaskIndex} {rest : Freeing σ}
      (stopped : moment.Stopped (.rejecting task rest :: stack))

theorem Releasing.not_runs (releasing : moment.Releasing stack) : ¬ moment.Runs stack := by
  cases releasing with
  | freeing doing left =>
    rintro ⟨handle, script, hdoing⟩
    cases doing.control.symm.trans hdoing.control
  | within within => exact within.not_runs
  | returning stopped => exact stopped.not_runs

theorem Hears.leadsBy {engine : Engine} {worker : Option Nat} {failure : Failure}
    (doing : moment.Doing (.freeing freeing) stack) (left : freeing.waiters ≠ [] ∨ freeing.lists ≠ [])
    (hears : moment.Hears later engine worker task failure (.rejecting task rest) stack) :
    moment.LeadsBy (·.Releasing stack) later := by
  obtain ⟨ending, back, hback, rfl, -⟩ := hears.back
  have hcall : moment.next.LeadsBy (·.Releasing stack) back :=
    hback.leads.mono fun _ within => .within within
  obtain ⟨handle, hstopped⟩ := hback.doing
  exact ((LeadsBy.single (.freeing doing left)).trans hcall).tail (.returning ⟨handle, ending, hstopped⟩)

theorem Treats.leadsBy (doing : moment.Doing (.freeing { rest with waiters := task :: waiters }) stack)
    (treats : Treats stack { rest with waiters } task moment later) :
    moment.LeadsBy (·.Releasing stack) later := by
  have hleft : (task :: waiters) ≠ [] ∨ rest.lists ≠ [] := .inl (List.cons_ne_nil _ _)
  cases treats with
  | queued _ _ _ next =>
    subst next
    exact .single (.freeing doing hleft)
  | rejected _ hears => exact hears.leadsBy doing hleft

theorem TreatsAll.leadsBy (treats : TreatsAll stack rest waiters moment last) :
    moment.LeadsBy (·.Releasing stack) last := by
  induction treats with
  | nil => exact .refl _
  | cons doing first others ih => exact (first.leadsBy doing).trans ih

theorem TreatsAll.doing_last (treats : TreatsAll stack rest waiters moment last) :
    last.Doing (.freeing { rest with waiters := [] }) stack := by
  induction treats with
  | nil doing => exact doing
  | cons _ _ _ ih => exact ih

theorem FreesAll.leadsBy (frees : FreesAll stack rest lists moment last) :
    moment.LeadsBy (·.Releasing stack) last := by
  induction frees with
  | nil => exact .refl _
  | @cons list lists _ _ _ doing _ treated others ih =>
    have hleft : ([] : List TaskIndex) ≠ [] ∨ list :: lists ≠ [] := .inr (List.cons_ne_nil _ _)
    exact ((LeadsBy.single (.freeing doing hleft)).trans treated.leadsBy).trans ih

theorem FreesAll.doing_last (frees : FreesAll stack rest lists moment last) :
    last.Doing (.freeing { rest with waiters := [], lists := [] }) stack := by
  induction frees with
  | nil doing => exact doing
  | cons _ _ _ _ ih => exact ih

/-! ### The steps of a release -/

/-- From a moment on, the handlers of waiters that a release from these frames rejects come back. -/
def HandlersReturn (moment : Moment σ) (stack : List (Frame σ)) : Prop :=
  moment.CallsReturn (fun frame => ∃ task rest, frame = .rejecting task rest) stack

/-- When the handler of a rejected waiter has ended, however it did, the release goes on. -/
theorem Doing.next_rejecting {handle : Option HandleIndex} {ending : Ending}
    (doing : moment.Doing (.script handle (.stop ending)) (.rejecting task rest :: stack)) :
    moment.next.Doing (.freeing rest) stack ∧ moment.next.world =
      { moment.world with engine := moment.engine.tell (ending.notice none task) } := by
  rw [doing.next_finish]
  cases ending <;> exact ⟨⟨rfl, rfl⟩, rfl⟩

/-- A failure that is handed to a task is heard, where its handler comes back and the frame below tells of a
panic. -/
theorem exists_hears {engine : Engine} {worker : Option Nat} {failure : Failure} {frame : Frame σ}
    {thread : Thread σ} {kind : Frame σ → Prop}
    (delivers : moment.next = ⟨(Thread.deliver { moment.world with engine } task failure).1,
      thread.calling frame (Thread.deliver { moment.world with engine } task failure).2⟩)
    (tasks : engine.tasks = moment.engine.tasks)
    (ended : ∀ (back : Moment σ) (handle : Option HandleIndex) (ending : Ending),
      back.Doing (.script handle (.stop ending)) (frame :: thread.stack) →
      back.next.world = { back.world with engine := back.engine.tell (ending.notice worker task) })
    (returns : moment.next.CallsReturn kind thread.stack) (hkind : kind frame) :
    ∃ ending back, moment.next.Back (frame :: thread.stack) ending back ∧
      moment.Hears back.next engine worker task failure frame thread.stack := by
  have hcode : ({ moment.world with engine } : World σ).code = moment.world.code := rfl
  rw [Thread.deliver_eq, World.notice_congr hcode tasks] at delivers
  have hcalled : moment.next.Doing (.script none (moment.world.hearing task failure))
      (frame :: thread.stack) := by
    rw [delivers]
    exact ⟨rfl, rfl⟩
  obtain ⟨ending, back, hback⟩ := returns.back hkind (.refl _) (Thread.suffix_of_eq hcalled.stack)
  obtain ⟨handle, hended⟩ := hback.doing
  refine ⟨ending, back, hback, ?_, hcalled, ending, back, hback, rfl, ended back handle ending hended⟩
  rw [delivers]

/-- The next waiter is treated, and then the release goes on with the others. -/
theorem Doing.treats (doing : moment.Doing (.freeing { rest with waiters := task :: waiters }) stack)
    (handlers : moment.HandlersReturn stack) :
    ∃ later, Treats stack { rest with waiters } task moment later ∧
      later.Doing (.freeing { rest with waiters }) stack := by
  have hnext := doing.next_freeing
  rw [Thread.stepFreeing] at hnext
  dsimp only at hnext
  cases hrefusal : moment.engine.refusal? task with
  | none =>
    obtain ⟨after, hrequeue, hrequeues⟩ := Engine.requeue_accepted hrefusal
    rw [show moment.world.engine.requeue task = _ from hrequeue] at hnext
    refine ⟨moment.next, .queued hrefusal ?_ ?_ rfl, ?_⟩
    · rw [hnext]
      exact hrequeues
    · rw [hnext]
      rfl
    · rw [hnext]
      exact ⟨rfl, doing.stack⟩
  | some fault =>
    rw [show moment.world.engine.requeue task = _ from Engine.requeue_refused hrefusal] at hnext
    dsimp only at hnext
    obtain rfl := doing.stack
    have hstep : moment.LeadsBy (¬ ·.Runs moment.thread.stack) moment.next :=
      .single (Releasing.freeing doing (.inl (List.cons_ne_nil _ _))).not_runs
    obtain ⟨ending, back, hback, hhears⟩ := exists_hears hnext rfl
      (fun _ _ _ hended => hended.next_rejecting.2) (CallsReturn.of_leadsBy handlers hstep) ⟨task, _, rfl⟩
    obtain ⟨handle, hended⟩ := hback.doing
    exact ⟨back.next, .rejected hrefusal hhears, hended.next_rejecting.1⟩

theorem HandlersReturn.of_leadsBy (handlers : moment.HandlersReturn stack)
    (leads : moment.LeadsBy (·.Releasing stack) later) : later.HandlersReturn stack :=
  CallsReturn.of_leadsBy handlers (leads.mono fun _ releasing => releasing.not_runs)

theorem Doing.treatsAll (doing : moment.Doing (.freeing { rest with waiters }) stack)
    (handlers : moment.HandlersReturn stack) :
    ∃ last, TreatsAll stack rest waiters moment last := by
  induction waiters generalizing moment with
  | nil => exact ⟨moment, .nil doing⟩
  | cons task waiters ih =>
    obtain ⟨middle, hfirst, hdoing⟩ := doing.treats handlers
    obtain ⟨last, hothers⟩ := ih hdoing (handlers.of_leadsBy (hfirst.leadsBy doing))
    exact ⟨last, .cons doing hfirst hothers⟩

theorem Doing.frees
    (doing : moment.Doing (.freeing { rest with waiters := [], lists := list :: lists }) stack) :
    moment.Frees list ∧ moment.next.Doing
      (.freeing { rest with waiters := (moment.engine.lists.get list).waiters, lists }) stack := by
  have hnext := doing.next_freeing
  rw [Thread.stepFreeing] at hnext
  dsimp only at hnext
  rw [hnext]
  refine ⟨⟨fun other => ?_, ?_⟩, rfl, doing.stack⟩
  · rw [hnext]
    exact WaitingLists.get_free moment.engine.lists list other
  · rw [hnext]
    rfl

/-- All lists of a release are freed, and their waiters treated. -/
theorem Doing.freesAll (doing : moment.Doing (.freeing { rest with waiters := [], lists }) stack)
    (handlers : moment.HandlersReturn stack) :
    ∃ last, FreesAll stack rest lists moment last := by
  induction lists generalizing moment with
  | nil => exact ⟨moment, .nil doing⟩
  | cons list lists ih =>
    obtain ⟨hfrees, hdoing⟩ := doing.frees
    have hfreed : moment.LeadsBy (·.Releasing stack) moment.next :=
      .single (.freeing doing (.inr (List.cons_ne_nil _ _)))
    obtain ⟨middle, htreated⟩ := @Doing.treatsAll _ moment.next stack { rest with lists } _ hdoing
      (handlers.of_leadsBy hfreed)
    obtain ⟨last, hothers⟩ := ih htreated.doing_last
      (handlers.of_leadsBy (hfreed.trans htreated.leadsBy))
    exact ⟨last, .cons doing hfrees htreated hothers⟩

theorem Doing.next_freed (doing : moment.Doing (.freeing { rest with waiters := [], lists := [] }) stack) :
    Thread.finishRelease { moment.world with engine := moment.engine.tell rest.notice } moment.thread
      rest.after rest.outcome = (moment.next.world, moment.next.thread) := by
  have hnext := doing.next_freeing
  rw [Thread.stepFreeing] at hnext
  dsimp only at hnext
  rw [hnext, Freeing.notice]
  cases rest.outcome <;> rfl

end Moment

/-- The release of a task, before any list has been freed: what leaves the table is settled by the tokens of
the task. -/
def World.releaseOf (world : World σ) (task : TaskIndex) (after : AfterRelease σ) : Freeing σ :=
  let tokens := Token.distinct (world.engine.tokens task)
  let lists := world.engine.table.listsOf (world.engine.table.leaving tokens)
  { task, waiters := [], lists, freed := lists.length, outcome := world.engine.table.verdict tokens, after }

/-! ### A run -/

/-- A world with holders of two tokens, a task that needs both and those that wait for them. One of them
panics when it is handed a failure. -/
def World.estranged : World Unit :=
  let task (tokens : List Token) : Task := { kind := .repeatable, priority := 0, tokens }
  let code : Code Unit := { work := .repeatable (.stop .normal) }
  let touchy : Code Unit := { code with handler := some fun _ => .stop (.panicked .other) }
  let queue : PriorityQueue TaskIndex := ⟨Array.replicate 1 .empty, .empty⟩
  let world := World.ofEngine (Engine.idle { levels := 1 } queue) ()
  let world := (world.addTask (task [.unique 0, .unique 1]) code).2
  let world := (world.addTask (task [.unique 0]) code).2
  let world := (world.addTask (task [.unique 1]) code).2
  let world := (world.addTask (task [.unique 0]) touchy).2
  let world := (world.addTask (task [.unique 0]) code).2
  (world.addTask (task [.unique 1]) code).2

/-- Both tokens are claimed, by different holders, and the others wait. The one that panics is queued again
meanwhile, and then the task that needs both is released. -/
def Moment.estranged : Moment Unit :=
  ⟨.estranged, .ofScript none (.claim 1 fun _ => .claim 2 fun _ => .claim 3 fun _ => .claim 4 fun _ =>
    .claim 5 fun _ => .schedule 3 fun _ => .releaseFor 0 fun _ => .stop .normal)⟩

def Moment.estrangedRelease : Freeing Unit :=
  (Moment.estranged.after 6).world.releaseOf 0 (.answer none fun _ => .stop .normal)

theorem Moment.HandlersReturn.estranged : (Moment.estranged.after 7).HandlersReturn [] := by
  have hover : ((Moment.estranged.after 7).after 7).Over := ⟨⟨none, .normal, rfl⟩, rfl⟩
  exact CallsReturn.of_over ⟨7, rfl⟩ hover

/-! ### What a release does -/

/-- A list that is freed is freed for good, and each of its waiters is treated once, in the order in which
they came, whatever the handlers do that are called for those before. The release goes on to its end and
tells its caller the outcome, also if a handler has panicked. -/
theorem waiters_treated {moment : Moment σ} {rest : Freeing σ} {list : ListIndex}
    {lists : List ListIndex} {stack : List (Frame σ)}
    (doing : moment.Doing (.freeing { rest with waiters := [], lists := list :: lists }) stack)
    (handlers : moment.HandlersReturn stack) : moment.Frees list ∧ ∃ treated,
      Moment.TreatsAll stack { rest with lists } (moment.engine.lists.get list).waiters moment.next treated ∧
      ∃ later, treated.Leads later ∧ later.Answered rest.after rest.outcome stack := by
  obtain ⟨last, hall⟩ := doing.freesAll handlers
  have hlast := hall.doing_last.next_freed
  cases hall with
  | @cons _ _ _ treated _ _ frees treats others =>
    have hlater := others.leadsBy.leads.tail
    exact ⟨frees, treated, treats, last.next, hlater, _, last.thread, others.doing_last.stack, hlast⟩

theorem waiters_treated_estranged :
    ((Moment.estranged.after 7).engine.lists.get 0).waiters = [3, 4] ∧
    (Moment.estranged.after 7).next.engine.refusal? 3 = some .duplicate ∧
    (Moment.estranged.after 7).Frees 0 ∧ ∃ treated,
      Moment.TreatsAll [] { Moment.estrangedRelease with lists := [1] }
        ((Moment.estranged.after 7).engine.lists.get 0).waiters (Moment.estranged.after 7).next treated ∧
      ∃ later, treated.Leads later ∧
        later.Answered Moment.estrangedRelease.after Moment.estrangedRelease.outcome [] := by
  have hdoing : (Moment.estranged.after 7).Doing (.freeing Moment.estrangedRelease) [] := ⟨rfl, rfl⟩
  exact ⟨by decide +kernel, by decide +kernel, waiters_treated hdoing .estranged⟩

/-- What the release of a task does from its first step on. -/
structure Releases (world : World σ) (task : TaskIndex) (handle : Option HandleIndex)
    (after : AfterRelease σ) (stack : List (Frame σ)) (begun : Moment σ) : Prop where
  /-- The tokens that are to leave the table have left it, and the others are held as before. -/
  holder? : ∀ token, begun.engine.table.holder? token =
    if token ∈ world.engine.table.leaving (Token.distinct (world.engine.tokens task)) then none
    else world.engine.table.holder? token
  /-- Nothing else has changed yet. -/
  rest : begun.world = { world with
    engine := { world.engine with table := begun.engine.table }.tell
      [.released task handle (world.releaseOf task after).outcome] }
  /-- The lists are freed and their waiters treated, and then the caller goes on with the outcome. -/
  freed : ∃ last, Moment.FreesAll stack (world.releaseOf task after) (world.releaseOf task after).lists
      begun last ∧
    Thread.finishRelease
      { last.world with engine := last.engine.tell (world.releaseOf task after).notice } last.thread after
      (world.releaseOf task after).outcome = (last.next.world, last.next.thread)

theorem Thread.beginRelease_eq (world : World σ) (thread : Thread σ) (task : TaskIndex)
    (handle : Option HandleIndex) (after : AfterRelease σ) :
    beginRelease world thread task handle after =
      ({ world with engine := (world.engine.takeTokens task handle).2.2 },
        thread.doing (.freeing (world.releaseOf task after))) := by
  obtain ⟨houtcome, hlists, -⟩ :=
    world.engine.table.take_exact (Token.nodup_distinct (world.engine.tokens task))
  simp only [World.releaseOf, ← houtcome, ← hlists]
  rfl

/-- A release takes out of the table the tokens that are held with the list of the first one, up to the first
token of which that is not true, and that one as well if it is held. It frees the lists of these tokens, and
fails if there is such a token. -/
theorem release_exact {world : World σ} {thread : Thread σ} {task : TaskIndex}
    {handle : Option HandleIndex} {after : AfterRelease σ} {begun : Moment σ}
    (begins : Thread.beginRelease world thread task handle after = (begun.world, begun.thread))
    (handlers : begun.HandlersReturn thread.stack) :
    Releases world task handle after thread.stack begun := by
  obtain ⟨houtcome, -, hholder⟩ :=
    world.engine.table.take_exact (Token.nodup_distinct (world.engine.tokens task))
  rw [Thread.beginRelease_eq] at begins
  obtain ⟨hworld, hthread⟩ := Prod.mk.inj begins
  have hdoing : begun.Doing (.freeing (world.releaseOf task after)) thread.stack := by
    constructor <;> rw [← hthread] <;> rfl
  obtain ⟨last, hall⟩ :=
    @Moment.Doing.freesAll _ begun thread.stack (world.releaseOf task after) _ hdoing handlers
  refine ⟨?_, ?_, last, hall, hall.doing_last.next_freed⟩
  · rw [Moment.engine, ← hworld]
    exact hholder
  · rw [Moment.engine, ← hworld, World.releaseOf, ← houtcome]
    rfl

theorem release_exact_estranged :
    (Moment.estranged.after 6).engine.table.leaving [.unique 0, .unique 1] = [.unique 0, .unique 1] ∧
    Moment.estrangedRelease.lists = [0, 1] ∧ Moment.estrangedRelease.outcome = .error .mixedHolders ∧
    Releases (Moment.estranged.after 6).world 0 none (.answer none fun _ => .stop .normal) []
      (Moment.estranged.after 7) := by
  have hbegins : Thread.beginRelease (Moment.estranged.after 6).world (Moment.estranged.after 6).thread 0
      none (.answer none fun _ => .stop .normal) =
        ((Moment.estranged.after 7).world, (Moment.estranged.after 7).thread) := rfl
  exact ⟨by decide +kernel, by decide +kernel, rfl, release_exact hbegins .estranged⟩

end Dispatch
