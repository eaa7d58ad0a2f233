import Dispatch.Proofs.Calls

/-!
# The execution of a task

Work is private if all it does to the engine is to release the tokens it runs with. A worker that executes
a task whose work and handler are private comes back to what it was doing, however they end (`executes`):
the work has been run once, to its end, the tokens have been given back once, nobody was waiting for them, and
the task is counted as executed or as failed. What work is run on the way from one moment to another is told by
`World.Performs`.
-/

namespace Dispatch

variable {σ : Type}

/-! ### The work of a task -/

/-- Whether there is work to be run for a task. A closure is run once. -/
def World.hasWork (world : World σ) (task : TaskIndex) : Bool :=
  match world.code[task]?.map Code.work with
  | none => false
  | some (.repeatable _) => true
  | some (.closure _) => !world.engine.isTaken task

theorem World.hasWork_of_untaken {world : World σ} {task : TaskIndex} {code : Code σ}
    (hcode : world.code[task]? = some code) (huntaken : world.engine.isTaken task = false) :
    world.hasWork task = true := by
  unfold hasWork
  rw [hcode]
  cases hkind : code.work <;> simp [hkind, huntaken]

namespace Work

def script : Work σ → Script σ
  | .closure script | .repeatable script => script

/-- The handle at hand for the work. A closure has none. -/
def handle? (own : HandleIndex) : Work σ → Option HandleIndex
  | .closure _ => none
  | .repeatable _ => some own

/-- What the thread goes on with after the work. The tokens are released after a closure. -/
def frames (own : HandleIndex) (stack : List (Frame σ)) : Work σ → List (Frame σ)
  | .closure _ => .closing own :: stack
  | .repeatable _ => stack

end Work

namespace Moment

def of (state : World σ × Thread σ) : Moment σ :=
  ⟨state.1, state.2⟩

/-- The task whose work is begun by the next step. -/
def begins? (moment : Moment σ) : Option TaskIndex :=
  match moment.thread.control with
  | .script _ (.execute _ task _) | .script _ (.run task _) =>
    if moment.world.hasWork task then some task else none
  | _ => none

def Idle (moment : Moment σ) : Prop :=
  moment.begins? = none

/-- The thread is in a call with these frames below it, and the next step begins no work. -/
structure Busy (moment : Moment σ) (frames : List (Frame σ)) : Prop where
  idle : moment.Idle
  within : moment.Within frames

/-- No work is run: the thread is at the script it was given, at the end of something, in a release or in the
report of a failure. -/
inductive Rests (moment : Moment σ) : Prop
  | own (stack : moment.thread.stack = []) (idle : moment.Idle)
  | ends {handle : Option HandleIndex} {ending : Ending}
      (control : moment.thread.control = .script handle (.stop ending))
  | releases {freeing : Freeing σ} (control : moment.thread.control = .freeing freeing)
  | reports {worker : Nat} {task : TaskIndex} (frame : .reporting worker task ∈ moment.thread.stack)
      (idle : moment.Idle)

def InRelease (moment : Moment σ) (frames : List (Frame σ)) : Prop :=
  ∃ freeing, moment.Doing (.freeing freeing) frames

variable {moment : Moment σ} {frames : List (Frame σ)} {frame : Frame σ}

theorem Busy.of_doing {control : Control σ} (doing : moment.Doing control frames) (idle : moment.Idle)
    (running : ∀ handle ending, control ≠ .script handle (.stop ending)) : moment.Busy frames := by
  refine ⟨idle, doing.stack ▸ List.suffix_refl _, ?_⟩
  rintro ⟨handle, ending, hdoing⟩
  exact running handle ending (doing.control.symm.trans hdoing.control)

theorem Busy.below (busy : moment.Busy (frame :: frames)) : moment.Busy frames :=
  ⟨busy.idle, (List.suffix_cons _ _).trans busy.within.suffix, fun ⟨handle, _, hdoing⟩ =>
    busy.within.not_runs ⟨handle, _, hdoing⟩⟩

theorem Stopped.busy (stopped : moment.Stopped (frame :: frames)) : moment.Busy frames := by
  obtain ⟨handle, ending, hdoing⟩ := stopped
  refine ⟨by simp [Idle, begins?, hdoing.control], hdoing.stack ▸ List.suffix_cons _ _, ?_⟩
  exact fun ⟨other, _, hother⟩ => Stopped.not_runs ⟨handle, ending, hdoing⟩ ⟨other, _, hother⟩

theorem Busy.rests {worker : Nat} {task : TaskIndex} (busy : moment.Busy (.reporting worker task :: frames)) :
    moment.Rests :=
  .reports (busy.within.suffix.subset List.mem_cons_self) busy.idle

theorem InRelease.idle (releasing : moment.InRelease frames) : moment.Idle := by
  obtain ⟨freeing, hdoing⟩ := releasing
  unfold Idle begins?
  rw [hdoing.control]

theorem InRelease.busy (releasing : moment.InRelease frames) : moment.Busy frames := by
  have hidle := releasing.idle
  obtain ⟨freeing, hdoing⟩ := releasing
  exact .of_doing hdoing hidle (by simp)

theorem InRelease.rests (releasing : moment.InRelease frames) : moment.Rests := by
  obtain ⟨freeing, hdoing⟩ := releasing
  exact .releases hdoing.control

end Moment

/-- Where there is work its script is what the thread runs next. -/
theorem Thread.beginWork_of_hasWork {world : World σ} {task : TaskIndex} (hwork : world.hasWork task = true)
    (thread : Thread σ) (own : HandleIndex) : ∃ code, world.code[task]? = some code ∧
      (Moment.of (beginWork world thread task own)).Doing (.script (code.work.handle? own) code.work.script)
        (code.work.frames own thread.stack) := by
  unfold World.hasWork at hwork
  cases hcode : world.code[task]? with
  | none => simp [hcode] at hwork
  | some code =>
    refine ⟨code, rfl, ?_⟩
    unfold beginWork
    cases hkind : code.work with
    | repeatable script =>
      simp only [hcode, hkind, Option.map_some]
      exact ⟨rfl, rfl⟩
    | closure script =>
      have huntaken : world.engine.isTaken task = false := by simpa [hcode, hkind] using hwork
      simp only [hcode, hkind, huntaken, Option.map_some]
      exact ⟨rfl, rfl⟩

namespace World

variable {base : World σ} {moment middle call finish later : Moment σ} {task : TaskIndex}
  {tasks more : List TaskIndex}

/-- The work that a task has in a world is run: the call begins it, its script is what the thread runs next,
with a new handle, and the script comes to its end. No other work is begun meanwhile. -/
structure Works (base : World σ) (call : Moment σ) (task : TaskIndex) (finish : Moment σ) : Prop where
  begins : call.begins? = some task
  script : ∃ code, base.code[task]? = some code ∧ call.next.thread.control =
    .script (code.work.handle? call.world.handles.size) code.work.script
  alone : call.next.LeadsBy (·.Busy call.next.thread.stack) finish
  ended : finish.Stopped call.next.thread.stack

/-- From the one moment to the other the work that these tasks have in a world is run, one after the other in
this order, and no other work is run. -/
inductive Performs (base : World σ) : Moment σ → List TaskIndex → Moment σ → Prop
  | rest {moment later : Moment σ} (leads : moment.LeadsBy (·.Rests) later) : Performs base moment [] later
  | work {moment call finish later : Moment σ} {task : TaskIndex} {tasks : List TaskIndex}
      (before : moment.LeadsBy (·.Rests) call) (works : base.Works call task finish)
      (rest : Performs base finish tasks later) : Performs base moment (task :: tasks) later

namespace Performs

theorem after_rest (before : moment.LeadsBy (·.Rests) middle) (performs : base.Performs middle tasks later) :
    base.Performs moment tasks later := by
  cases performs with
  | rest leads => exact .rest (before.trans leads)
  | work leads works rest => exact .work (before.trans leads) works rest

theorem trans (first : base.Performs moment tasks middle) (second : base.Performs middle more later) :
    base.Performs moment (tasks ++ more) later := by
  induction first with
  | rest leads => exact second.after_rest leads
  | work before works _ ih => exact .work before works (ih second)

end Performs

end World

/-! ### What private work leaves alone -/

/-- The second world is the first after things that touched neither the tasks nor the queue nor the
counters. -/
structure World.Steady (before after : World σ) : Prop where
  code : after.code = before.code
  tasks : after.engine.tasks = before.engine.tasks
  queue : after.engine.queue = before.engine.queue
  stats : after.engine.stats = before.engine.stats

theorem World.Steady.refl (world : World σ) : world.Steady world := ⟨rfl, rfl, rfl, rfl⟩

theorem World.Steady.trans {before middle after : World σ} (first : before.Steady middle)
    (second : middle.Steady after) : before.Steady after :=
  ⟨second.code.trans first.code, second.tasks.trans first.tasks, second.queue.trans first.queue,
    second.stats.trans first.stats⟩

/-- The tokens of a task are the only held ones until the handle made for it is used, then none is.
Nobody waits for them. -/
structure World.Holding (world : World σ) (task : TaskIndex) (own : HandleIndex) (released : Bool) :
    Prop where
  handle : world.handles[own]? = some { task, released }
  holder : ∃ list, ∀ token, world.engine.table.holder? token =
    if released = false ∧ token ∈ world.engine.tokens task then some list else none
  sound : world.engine.table.holders.Sound
  idle : world.engine.lists.waiting = []

namespace Thread

theorem finishRelease_doing (world : World σ) (thread : Thread σ) (control : Control σ)
    (after : AfterRelease σ) (outcome : Except Fault Unit) :
    finishRelease world (thread.doing control) after outcome =
      finishRelease world thread after outcome := by
  cases after with
  | answer handle next => rfl
  | closureEnd => cases outcome <;> rfl
  | execution worker task failure =>
    cases outcome with
    | ok done => cases failure <;> rfl
    | error fault => rfl

/-- A release comes back at once while nobody waits. -/
theorem freeing_leadsBy (world : World σ) (thread : Thread σ) {freeing : Freeing σ}
    (hidle : world.engine.lists.waiting = []) (hwaiters : freeing.waiters = [])
    (hok : freeing.outcome = .ok ()) :
    ∃ lists, lists.waiting = [] ∧
      Moment.LeadsBy ⟨world, thread.doing (.freeing freeing)⟩ (·.InRelease thread.stack)
        (.of (finishRelease { world with engine := { world.engine with lists } } thread
          freeing.after (.ok ()))) := by
  generalize hlists : freeing.lists = pending
  induction pending generalizing world freeing with
  | nil =>
    refine ⟨world.engine.lists, hidle, .step ?_ ⟨freeing, rfl, rfl⟩⟩
    unfold Moment.next step
    simp only [doing, stepFreeing, hwaiters, hlists, hok]
    exact congrArg Moment.of (finishRelease_doing world thread _ freeing.after (.ok ()))
  | cons list pending ih =>
    obtain ⟨hnone, hfreed⟩ := WaitingLists.free_of_waiting_eq_nil hidle list
    have hrest := @ih { world with engine := (world.engine.freeList list).2 }
      { freeing with waiters := [], lists := pending } hfreed rfl hok rfl
    obtain ⟨lists, hempty, hleads⟩ := hrest
    refine ⟨lists, hempty, .head ?_ ⟨freeing, rfl, rfl⟩ hleads⟩
    change (world.engine.freeList list).1 = [] at hnone
    unfold Moment.next step
    simp only [doing, stepFreeing, hwaiters, hlists, hnone, turn]

end Thread

namespace World.Holding

variable {world : World σ} {task : TaskIndex} {own : HandleIndex} {released : Bool}

theorem steady {after : World σ} (h : world.Holding task own released)
    (hhandles : after.handles = world.handles) (htasks : after.engine.tasks = world.engine.tasks)
    (htable : after.engine.table = world.engine.table)
    (hlists : after.engine.lists = world.engine.lists) : after.Holding task own released := by
  refine ⟨?_, ?_, ?_, ?_⟩
  · rw [hhandles]
    exact h.handle
  · rw [htable, Engine.tokens_congr htasks]
    exact h.holder
  · rw [htable]
    exact h.sound
  · rw [hlists]
    exact h.idle

/-- A release through the handle gives the tokens back, if it is the first, and comes back. -/
theorem release (h : world.Holding task own released) (thread : Thread σ)
    (after : AfterRelease σ) :
    ∃ later, world.Steady later ∧ later.Holding task own true ∧
      (Moment.of (Thread.releaseThrough world thread own after)).LeadsBy (·.InRelease thread.stack)
        (.of (Thread.finishRelease later thread after (.ok ()))) := by
  cases released with
  | true =>
    refine ⟨world, .refl world, h, ?_⟩
    rw [Thread.releaseThrough, h.handle]
    exact .refl _
  | false =>
    obtain ⟨list, hholder⟩ := h.holder
    simp only [true_and] at hholder
    obtain ⟨hok, -, hafter⟩ := HolderTable.take_of_held
      (Token.nodup_distinct (world.engine.tokens task)) fun token hmem => by
        rw [hholder, if_pos (Token.mem_distinct.mp hmem)]
    have hsound := HolderTable.sound_take h.sound (Token.distinct (world.engine.tokens task))
    have hfree (token : Token) : (world.engine.table.take
        (Token.distinct (world.engine.tokens task))).table.holder? token = none := by
      rw [hafter, hholder]
      simp only [Token.mem_distinct]
      split <;> rfl
    let handles := world.handles.setIfInBounds own { task, released := true }
    have hfreeing := @Thread.freeing_leadsBy σ
      { world with handles, engine := (world.engine.takeTokens task (some own)).2.2 } thread
      { task, waiters := [], lists := (world.engine.takeTokens task (some own)).1
        freed := (world.engine.takeTokens task (some own)).1.length
        outcome := (world.engine.takeTokens task (some own)).2.1, after } h.idle rfl hok
    obtain ⟨lists, hempty, hleads⟩ := hfreeing
    refine ⟨{ world with
        handles, engine := { (world.engine.takeTokens task (some own)).2.2 with lists } },
      ⟨rfl, rfl, rfl, rfl⟩, ⟨?_, ⟨0, fun token => ?_⟩, hsound, hempty⟩, ?_⟩
    · have hown := (Array.getElem?_eq_some_iff.mp h.handle).1
      simp [handles, hown]
    · rw [if_neg (by simp)]
      exact hfree token
    · rw [Thread.releaseThrough, h.handle]
      exact hleads

end World.Holding

/-! ### Private scripts -/

/-- A script that does nothing to the engine but release through the handle at hand, and waits for
nobody. -/
inductive Script.Private : Script σ → Prop
  | stop (ending : Ending) : Private (.stop ending)
  | remember {change : Engine → σ → σ} {next : Script σ} (rest : Private next) :
      Private (.remember change next)
  | look {next : Engine → σ → Script σ} (rest : ∀ engine memory, Private (next engine memory)) :
      Private (.recall next)
  | attempt {body : Script σ} {next : Ending → Script σ} (inner : Private body)
      (rest : ∀ ending, Private (next ending)) : Private (.attempt body next)
  | release {next : Except Fault Unit → Script σ} (rest : ∀ outcome, Private (next outcome)) :
      Private (.release next)
  | atHand {next : Option Handle → Script σ} (rest : ∀ handle, Private (next handle)) :
      Private (.atHand next)
  | signal {name : String} {next : Script σ} (rest : Private next) : Private (.signal name next)
  | whoAmI {next : Option Nat → Script σ} (rest : ∀ worker, Private (next worker)) :
      Private (.whoAmI next)

/-- What the thread is doing comes to an end in a script, without beginning other work. A handle that
has been used stays so. -/
def Moment.Ends (moment : Moment σ) (task : TaskIndex) (own : HandleIndex) (released : Bool) : Prop :=
  ∃ later released' handle ending, moment.world.Steady later ∧ later.Holding task own released' ∧
    (released = true → released' = true) ∧
      moment.LeadsBy (·.Busy moment.thread.stack)
        ⟨later, moment.thread.doing (.script handle (.stop ending))⟩

namespace Script.Private

variable {world : World σ} {task : TaskIndex} {own : HandleIndex} {released : Bool}
  {script : Script σ}

theorem ends_of_next {thread : Thread σ} {control control' : Control σ} {later : World σ}
    (hnext : Moment.next ⟨world, thread.doing control⟩ = ⟨later, thread.doing control'⟩)
    (idle : Moment.Idle ⟨world, thread.doing control⟩)
    (running : ∀ handle ending, control ≠ .script handle (.stop ending)) (hsteady : world.Steady later)
    (rest : Moment.Ends ⟨later, thread.doing control'⟩ task own released) :
    Moment.Ends ⟨world, thread.doing control⟩ task own released := by
  obtain ⟨last, released', handle, ending, hlast, hholding, hkept, hleads⟩ := rest
  exact ⟨last, released', handle, ending, hsteady.trans hlast, hholding, hkept,
    .head hnext (.of_doing ⟨rfl, rfl⟩ idle running) hleads⟩

/-- A private script ends, whatever it is that it is called from. -/
theorem ends (hprivate : script.Private) (thread : Thread σ) (handle : Option HandleIndex)
    (hhandle : ∀ other ∈ handle, other = own) (h : world.Holding task own released) :
    Moment.Ends ⟨world, thread.doing (.script handle script)⟩ task own released := by
  induction hprivate generalizing world released thread handle with
  | stop ending => exact ⟨world, released, handle, ending, .refl world, h, id, .refl _⟩
  | remember rest ih =>
    exact ends_of_next rfl rfl (by simp) ⟨rfl, rfl, rfl, rfl⟩
      (ih thread _ hhandle (h.steady rfl rfl rfl rfl))
  | look rest ih => exact ends_of_next rfl rfl (by simp) (.refl world) (ih _ _ thread _ hhandle h)
  | atHand rest ih => exact ends_of_next rfl rfl (by simp) (.refl world) (ih _ thread _ hhandle h)
  | whoAmI rest ih => exact ends_of_next rfl rfl (by simp) (.refl world) (ih _ thread _ hhandle h)
  | signal rest ih =>
    exact ends_of_next rfl rfl (by simp) ⟨rfl, rfl, rfl, rfl⟩
      (ih thread _ hhandle (h.steady rfl rfl rfl rfl))
  | @attempt body next inner rest ihbody ih =>
    obtain ⟨middle, released', handle', ending, hmiddle, hholding, hkept, hbody⟩ :=
      ihbody (thread.calling (.attempting handle next) (.script handle body)) _ hhandle h
    obtain ⟨later, released'', handle'', ending', hlater, hholding, hkept', hrest⟩ :=
      ih ending thread _ hhandle hholding
    refine ⟨later, released'', handle'', ending', hmiddle.trans hlater, hholding,
      hkept' ∘ hkept, ?_⟩
    have hbelow := hbody.mono fun _ busy => Moment.Busy.below busy
    exact .head rfl (.of_doing ⟨rfl, rfl⟩ rfl (by simp [Thread.doing]))
      (hbelow.trans (.head rfl (Moment.Stopped.busy ⟨handle', ending, rfl, rfl⟩) hrest))
  | @release next rest ih =>
    cases handle with
    | none => exact ends_of_next rfl rfl (by simp) (.refl world) (ih _ thread _ hhandle h)
    | some other =>
      obtain rfl := hhandle other rfl
      obtain ⟨middle, hmiddle, hholding, hreleased⟩ :=
        h.release (thread.doing (.script (some other) (.release next))) (.answer (some other) next)
      obtain ⟨later, released', handle', ending, hlater, hholding, hkept, hrest⟩ :=
        ih (.ok ()) thread _ hhandle hholding
      refine ⟨later, released', handle', ending, hmiddle.trans hlater, hholding,
        fun _ => hkept rfl, ?_⟩
      have hgivenBack := hreleased.mono fun _ releasing => Moment.InRelease.busy releasing
      exact .head rfl (.of_doing ⟨rfl, rfl⟩ rfl (by simp [Thread.doing])) (hgivenBack.trans hrest)

end Script.Private

/-! ### A task is executed -/

/-- Neither the work of a task nor its handler does anything to the engine but release its tokens. -/
structure Code.Private (code : Code σ) : Prop where
  work : code.work.script.Private
  handler : ∀ handler ∈ code.handler, ∀ failure, (handler failure).Private

theorem Code.Private.of_work {code : Code σ} (work : code.work.script.Private)
    (hnone : code.handler = none) : code.Private := by
  refine ⟨work, fun handler hhandler => ?_⟩
  rw [hnone] at hhandler
  cases hhandler

/-- The second world is the first after a number of tasks have been finished, with the queue as it was.
Of no task but this one a closure has been taken. -/
structure World.Serves (before after : World σ) (task : TaskIndex) (finished : Nat) : Prop where
  code : after.code = before.code
  queue : after.engine.queue = before.engine.queue
  tokens : after.engine.tokens = before.engine.tokens
  taken : ∀ other, other ≠ task → after.engine.isTaken other = before.engine.isTaken other
  scheduled : after.engine.stats.scheduled = before.engine.stats.scheduled
  contentions : after.engine.stats.contentions = before.engine.stats.contentions
  finished : after.engine.stats.finished = before.engine.stats.finished + finished

namespace World

variable {world before middle after : World σ} {task : TaskIndex} {own : HandleIndex}
  {released : Bool} {n k : Nat}

theorem Steady.serves (steady : before.Steady after) (task : TaskIndex) :
    before.Serves after task 0 := by
  obtain ⟨hcode, htasks, hqueue, hstats⟩ := steady
  refine ⟨hcode, hqueue, Engine.tokens_congr htasks, fun other _ => ?_, ?_, ?_, ?_⟩
  · rw [Engine.isTaken, htasks]
    rfl
  all_goals simp only [hstats, Nat.add_zero]

theorem Serves.trans (first : before.Serves middle task n) (second : middle.Serves after task k) :
    before.Serves after task (n + k) := by
  refine ⟨second.code.trans first.code, second.queue.trans first.queue,
    second.tokens.trans first.tokens, fun other hne => ?_,
    second.scheduled.trans first.scheduled, second.contentions.trans first.contentions, ?_⟩
  · rw [second.taken other hne, first.taken other hne]
  · rw [second.finished, first.finished, Nat.add_assoc]

theorem serves_takeClosure (world : World σ) (task : TaskIndex) :
    world.Serves { world with engine := world.engine.takeClosure task } task 0 := by
  refine ⟨rfl, rfl, ?_, fun other hne => ?_, rfl, rfl, rfl⟩
  · funext other
    simp only [Engine.tokens, Engine.takeClosure, Engine.record, Engine.modifyTask,
      Array.getElem?_modify]
    split
    · next he =>
      subst he
      cases world.engine.tasks[task]? <;> rfl
    · rfl
  · simp only [Engine.isTaken, Engine.takeClosure, Engine.record, Engine.modifyTask,
      Array.getElem?_modify, if_neg (Ne.symm hne)]

/-- The handler of a failure comes to its end, or there is none. -/
theorem Holding.deliver (h : world.Holding task own released) {code : Code σ}
    (hcode : world.code[task]? = some code) (hprivate : code.Private) (thread : Thread σ)
    (failure : Failure) :
    Moment.Ends ⟨(Thread.deliver world task failure).1,
      thread.doing (Thread.deliver world task failure).2⟩ task own released ∧
      world.Steady (Thread.deliver world task failure).1 := by
  unfold Thread.deliver
  rw [hcode]
  cases hhandler : code.handler with
  | none =>
    simp only [Option.bind_some, hhandler]
    exact ⟨(Script.Private.stop .normal).ends thread none (by simp) (h.steady rfl rfl rfl rfl),
      rfl, rfl, rfl, rfl⟩
  | some handler =>
    simp only [Option.bind_some, hhandler]
    exact ⟨(hprivate.handler handler hhandler failure).ends thread none (by simp)
      (h.steady rfl rfl rfl rfl), rfl, rfl, rfl, rfl⟩

/-- The work of a task that holds its tokens comes to its end, and so does the run of the task. -/
theorem Holding.beginWork (h : world.Holding task own released) {code : Code σ}
    (hcode : world.code[task]? = some code) (hprivate : code.Private)
    (huntaken : world.engine.isTaken task = false) (thread : Thread σ) :
    ∃ finish later released handle ending, world.Serves later task 0 ∧ later.Holding task own released ∧
      (Moment.of (Thread.beginWork world thread task own)).LeadsBy
        (·.Busy (code.work.frames own thread.stack)) finish ∧
      finish.Stopped (code.work.frames own thread.stack) ∧
      finish.LeadsBy (·.Rests) ⟨later, thread.doing (.script handle (.stop ending))⟩ := by
  have hwork := hprivate.work
  unfold Thread.beginWork
  rw [hcode]
  cases hkind : code.work with
  | repeatable script =>
    rw [hkind] at hwork
    obtain ⟨later, released, handle, ending, hsteady, hholding, -, hleads⟩ :=
      hwork.ends thread (some own) (by simp) h
    simp only [Option.map_some, hkind]
    exact ⟨_, later, released, handle, ending, hsteady.serves task, hholding, hleads,
      ⟨handle, ending, rfl, rfl⟩, .refl _⟩
  | closure script =>
    rw [hkind] at hwork
    -- the closure runs without the handle, which is used when it ends normally
    have htaken := world.serves_takeClosure task
    have hopened : World.Holding { world with engine := world.engine.takeClosure task } task own
        released := by
      refine ⟨h.handle, ?_, h.sound, h.idle⟩
      rw [htaken.tokens]
      exact h.holder
    obtain ⟨middle, released, handle, ending, hsteady, hholding, -, hleads⟩ :=
      hwork.ends (thread.calling (.closing own) (.script none script)) none (by simp) hopened
    have hserves := htaken.trans (hsteady.serves task)
    simp only [Option.map_some, hkind, huntaken]
    have hstopped : Moment.Stopped ⟨middle, (thread.calling (.closing own) (.script none script)).doing
        (.script handle (.stop ending))⟩ (.closing own :: thread.stack) := ⟨handle, ending, rfl, rfl⟩
    cases ending with
    | normal =>
      obtain ⟨later, hlater, hheld, hreleased⟩ := hholding.release
        (thread.doing (.script handle (.stop .normal))) .closureEnd
      exact ⟨_, later, true, none, .normal, hserves.trans (hlater.serves task), hheld, hleads, hstopped,
        .head rfl (.ends rfl) (hreleased.mono fun _ releasing => releasing.rests)⟩
    | failed report =>
      exact ⟨_, middle, released, none, .failed report, hserves, hholding, hleads, hstopped,
        .step rfl (.ends rfl)⟩
    | panicked payload =>
      exact ⟨_, middle, released, none, .panicked payload, hserves, hholding, hleads, hstopped,
        .step rfl (.ends rfl)⟩

theorem Holding.finishExecution (h : world.Holding task own true) {code : Code σ}
    (hcode : world.code[task]? = some code) (hprivate : code.Private) (thread : Thread σ)
    (worker : Nat) (failure : Option Failure) :
    ∃ later, world.Serves later task 1 ∧ later.Holding task own true ∧
      (Moment.of (Thread.finishExecution world thread worker task failure)).LeadsBy (·.Rests)
        ⟨later, thread.doing (.script none (.stop .normal))⟩ := by
  cases failure with
  | none =>
    let counted : World σ := { world with
      engine := { world.engine with stats := world.engine.stats.countExecuted }.record
        (.executed task) }
    refine ⟨counted, ⟨rfl, rfl, rfl, fun _ _ => rfl, rfl, rfl, ?_⟩,
      h.steady rfl rfl rfl rfl, .refl _⟩
    simp only [counted, Engine.record, Stats.finished, Stats.countExecuted]
    omega
  | some failure =>
    let counted : World σ := { world with
      engine := { world.engine with stats := world.engine.stats.countFailed }.record
        (.failed worker task failure) }
    have hcounted : world.Serves counted task 1 := by
      refine ⟨rfl, rfl, rfl, fun _ _ => rfl, rfl, rfl, ?_⟩
      simp only [counted, Engine.record, Stats.finished, Stats.countFailed]
      omega
    have hheld : counted.Holding task own true := h.steady rfl rfl rfl rfl
    obtain ⟨⟨later, released, handle, ending, hsteady, hholding, hkept, hleads⟩, hdelivered⟩ :=
      hheld.deliver hcode hprivate
        (thread.calling (.reporting worker task) (.script none (.stop .normal))) failure
    obtain rfl := hkept rfl
    have hserves := hcounted.trans ((hdelivered.trans hsteady).serves task)
    have hreported := hleads.mono fun _ busy => Moment.Busy.rests busy
    cases ending with
    | normal => exact ⟨later, hserves, hholding, hreported.trans (.step rfl (.ends rfl))⟩
    | failed report => exact ⟨later, hserves, hholding, hreported.trans (.step rfl (.ends rfl))⟩
    | panicked payload =>
      let told : World σ := { later with
        engine := later.engine.record (.handlerPanicked (some worker) task payload) }
      have htold : later.Steady told := ⟨rfl, rfl, rfl, rfl⟩
      exact ⟨told, hserves.trans (htold.serves task), hholding.steady rfl rfl rfl rfl,
        hreported.trans (.step rfl (.ends rfl))⟩

theorem works_of_leadsBy {base : World σ} {call finish : Moment σ} {code : Code σ} {thread : Thread σ}
    (hbase : base.code[task]? = some code) (hcode : call.world.code[task]? = some code)
    (huntaken : call.world.engine.isTaken task = false) (hbegins : call.begins? = some task)
    (hnext : call.next = .of (Thread.beginWork (call.world.makeHandle task).2 thread task
      call.world.handles.size))
    (leads : call.next.LeadsBy (·.Busy (code.work.frames call.world.handles.size thread.stack)) finish)
    (hfinish : finish.Stopped (code.work.frames call.world.handles.size thread.stack)) :
    base.Works call task finish := by
  have hwork : (call.world.makeHandle task).2.hasWork task = true := hasWork_of_untaken hcode huntaken
  obtain ⟨other, hother, hdoing⟩ :=
    Thread.beginWork_of_hasWork hwork thread call.world.handles.size
  obtain rfl : other = code := Option.some.inj (hother.symm.trans hcode)
  rw [← hnext] at hdoing
  rw [← hdoing.stack] at leads hfinish
  exact ⟨hbegins, ⟨other, hbase, hdoing.control⟩, leads, hfinish⟩

/-- A worker that executes a task that has claimed its tokens comes back, having run the work of the task and
given the tokens back. -/
theorem executes {base : World σ} {code : Code σ} (hbase : base.code[task]? = some code)
    (hcode : world.code[task]? = some code) (hprivate : code.Private)
    (huntaken : world.engine.isTaken task = false)
    (holder : ∃ list, ∀ token, world.engine.table.holder? token =
      if token ∈ world.engine.tokens task then some list else none)
    (sound : world.engine.table.holders.Sound) (idle : world.engine.lists.waiting = [])
    (thread : Thread σ) (worker : Nat) (next : Script σ) :
    ∃ later own, world.Serves later task 1 ∧ later.Holding task own true ∧
      base.Performs ⟨world, thread.doing (.script none (.execute worker task next))⟩ [task]
        ⟨later, thread.doing (.script none next)⟩ := by
  let own := world.handles.size
  let made := (world.makeHandle task).2
  have hheld : made.Holding task own false := by
    refine ⟨by simp [made, own, World.makeHandle], ?_, sound, idle⟩
    simp only [true_and]
    exact holder
  let frames : List (Frame σ) := .resume none next :: thread.stack
  -- the work runs, the worker releases, and the failure, if there is one, is handled
  obtain ⟨finish, first, released, handle, ending, hfirst, hholding, hworked, hfinish, hfrom⟩ :=
    hheld.beginWork hcode hprivate huntaken
      { thread with stack := .working worker task own :: frames }
  obtain ⟨second, hsecond, hgiven, hreleased⟩ := hholding.release
    { thread with stack := frames, control := .script handle (.stop ending) }
    (.execution worker task (Failure.ofEnding? ending))
  have hcode' : second.code[task]? = some code := by
    rw [hsecond.code, hfirst.code]
    exact hcode
  obtain ⟨later, hlater, hfinal, hfinished⟩ := hgiven.finishExecution hcode' hprivate
    { thread with stack := frames, control := .script handle (.stop ending) } worker
    (Failure.ofEnding? ending)
  have hmade : world.Steady made := ⟨rfl, rfl, rfl, rfl⟩
  refine ⟨later, own, ?_, hfinal, ?_⟩
  · exact (((hmade.serves task).trans hfirst).trans (hsecond.serves task)).trans hlater
  · let call : Moment σ := ⟨world, thread.doing (.script none (.execute worker task next))⟩
    have hbegins : call.begins? = some task := if_pos (hasWork_of_untaken hcode huntaken)
    have hworks := works_of_leadsBy hbase hcode huntaken hbegins rfl hworked hfinish
    have hgivenBack := hreleased.mono fun _ releasing => Moment.InRelease.rests releasing
    have hback : finish.LeadsBy (·.Rests) ⟨later, thread.doing (.script none next)⟩ :=
      hfrom.trans (.head rfl (.ends rfl)
        (hgivenBack.trans (hfinished.trans (.step rfl (.ends rfl)))))
    exact .work (.refl call) hworks (.rest hback)

end World

end Dispatch
