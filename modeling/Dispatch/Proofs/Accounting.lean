import Dispatch.Proofs.Handles
import Dispatch.Proofs.Release

/-!
# The account of an execution

A worker that executes a task runs its work, releases its tokens if the work has not, and counts the task as
executed or as failed. A failure is handed to the task (`execution_accounted`). The work, the handlers of
waiters that are rejected and the handler of the failure may do anything, other executions included, as long
as they come back.
-/

namespace Dispatch

variable {σ : Type}

/-! ### What is counted and reported -/

/-- The failure of a piece of work that is handed to its task. A rejection is none. -/
def Occurrence.complaint? : Occurrence → Option (TaskIndex × Failure)
  | reported task failure => if failure.isRejection then none else some (task, failure)
  | _ => none

def complaints (chronicle : List Occurrence) : List (TaskIndex × Failure) :=
  chronicle.filterMap Occurrence.complaint?

theorem Stats.ended_count {occurrence : Occurrence} (h : occurrence.isIncidental = true) (stats : Stats) :
    (stats.count occurrence).executed = stats.executed ∧ (stats.count occurrence).failed = stats.failed := by
  cases occurrence <;> first | exact ⟨rfl, rfl⟩ | cases h

theorem Occurrence.complaint?_eq_none {occurrence : Occurrence} (h : occurrence.isIncidental = true) :
    occurrence.complaint? = none := by
  cases occurrence <;> first | rfl | cases h

theorem complaints_append {news : List Occurrence}
    (h : ∀ occurrence ∈ news, occurrence.complaint? = none) (earlier : List Occurrence) :
    complaints (news ++ earlier) = complaints earlier := by
  rw [complaints, List.filterMap_append, List.filterMap_eq_nil_iff.mpr h]
  rfl

/-- A failure of work is handed to the task once. -/
theorem complaints_notice (world : World σ) (task : TaskIndex) {failure : Failure}
    (h : failure.isRejection = false) (earlier : List Occurrence) :
    complaints (world.notice task failure ++ earlier) = (task, failure) :: complaints earlier := by
  have hreported : Occurrence.complaint? (.reported task failure) = some (task, failure) := by
    rw [Occurrence.complaint?, h]
    rfl
  rw [World.notice]
  split
  · exact List.filterMap_cons_some hreported
  · exact (List.filterMap_cons_none rfl).trans (List.filterMap_cons_some hreported)

theorem complaint?_of_notice {world : World σ} {task : TaskIndex} {fault : Fault} :
    ∀ occurrence ∈ world.notice task { cause := .rejected fault }, occurrence.complaint? = none := by
  intro occurrence hmem
  rw [World.notice] at hmem
  split at hmem
  · obtain rfl := List.mem_singleton.mp hmem
    rfl
  · simp only [List.mem_cons, List.not_mem_nil, or_false] at hmem
    rcases hmem with rfl | rfl <;> rfl

namespace Engine

/-- The second engine is the first after things that were counted neither as an executed nor as a failed
task, and no failure of work has been handed to its task meanwhile. -/
structure Uncounted (engine after : Engine) : Prop where
  executed : after.stats.executed = engine.stats.executed
  failed : after.stats.failed = engine.stats.failed
  complaints : complaints after.chronicle = complaints engine.chronicle

namespace Uncounted

variable {engine middle after : Engine}

theorem refl (engine : Engine) : engine.Uncounted engine := ⟨rfl, rfl, rfl⟩

theorem trans (first : engine.Uncounted middle) (second : middle.Uncounted after) :
    engine.Uncounted after :=
  ⟨second.executed.trans first.executed, second.failed.trans first.failed,
    second.complaints.trans first.complaints⟩

/-- Something was told that is no failure of work. -/
theorem of_tell {news : List Occurrence} (h : ∀ occurrence ∈ news, occurrence.complaint? = none) :
    engine.Uncounted (engine.tell news) :=
  ⟨rfl, rfl, complaints_append h engine.chronicle⟩

theorem of_cons (occurrence : Occurrence) (hstats : after.stats = engine.stats)
    (hchronicle : after.chronicle = occurrence :: engine.chronicle)
    (h : occurrence.complaint? = none) : engine.Uncounted after := by
  refine ⟨by rw [hstats], by rw [hstats], ?_⟩
  rw [hchronicle]
  exact complaints_append (List.forall_mem_singleton.mpr h) engine.chronicle

theorem of_proceeds (proceeds : engine.Proceeds after) : engine.Uncounted after := by
  refine proceeds.preserves (fun after hstats hchronicle => ?_)
    fun middle after occurrence hlast hstats hchronicle ih => ih.trans ?_
  · exact ⟨by rw [hstats], by rw [hstats], by rw [hchronicle]⟩
  · obtain ⟨hexecuted, hfailed⟩ := Stats.ended_count hlast middle.stats
    refine ⟨by rw [hstats, hexecuted], by rw [hstats, hfailed], ?_⟩
    rw [hchronicle]
    have hnone := Occurrence.complaint?_eq_none hlast
    exact complaints_append (List.forall_mem_singleton.mpr hnone) middle.chronicle

/-- The end of a handler is not counted, however it ended. -/
theorem of_ending (engine : Engine) (worker : Option Nat) (task : TaskIndex) (ending : Ending) :
    engine.Uncounted (engine.tell (ending.notice worker task)) := by
  refine of_tell fun occurrence hmem => ?_
  cases ending with
  | panicked payload =>
    obtain rfl := List.mem_singleton.mp hmem
    rfl
  | normal | failed _ => cases hmem

end Uncounted

end Engine

/-! ### The failure of an execution -/

namespace Failure

/-- The failure of an execution: how the work ended, and the fault of the release after it, if that
failed. -/
def ofExecution? (ending : Ending) : Option Fault → Option Failure
  | none => ofEnding? ending
  | some fault =>
    match ofEnding? ending with
    | some earlier => some (earlier.suppress fault)
    | none => some { cause := .error (.ofFault fault) }

/-- A failure tells how the work ended, or which fault there was after work that ended well. A fault after
work that failed is kept beside. -/
structure Explains (failure : Failure) (ending : Ending) (refusal : Option Fault) : Prop where
  panic : ∀ message, failure.cause = .panic message ↔
    ∃ payload, ending = .panicked payload ∧ payload.message = message
  error : ∀ report, failure.cause = .error report ↔
    ending = .failed report ∨ ending = .normal ∧ ∃ fault, refusal = some fault ∧ report = .ofFault fault
  rejected : ∀ fault, failure.cause ≠ .rejected fault
  suppressed : failure.suppressed = if ending = .normal then [] else refusal.toList

theorem ofExecution?_eq_none {ending : Ending} {refusal : Option Fault} :
    ofExecution? ending refusal = none ↔ ending = .normal ∧ refusal = none := by
  cases refusal <;> cases ending <;> simp [ofExecution?, ofEnding?]

theorem explains_of_ofExecution? {ending : Ending} {refusal : Option Fault} {failure : Failure}
    (h : ofExecution? ending refusal = some failure) : failure.Explains ending refusal := by
  cases refusal <;> cases ending <;> cases h <;> constructor <;> simp [suppress, eq_comm]

theorem Explains.not_rejection {ending : Ending} {refusal : Option Fault} {failure : Failure}
    (h : failure.Explains ending refusal) : failure.isRejection = false := by
  rw [isRejection]
  split
  · next fault hcause => exact absurd hcause (h.rejected fault)
  · rfl
  · rfl

end Failure

theorem Freeing.incidental_notice (rest : Freeing σ) :
    ∀ occurrence ∈ rest.notice, occurrence.isIncidental = true := by
  intro occurrence hmem
  rw [notice] at hmem
  split at hmem
  · cases hmem
  · obtain rfl := List.mem_singleton.mp hmem
    rfl

/-! ### Between the call and the return -/

namespace Moment

variable {moment call later last : Moment σ} {base stack : List (Frame σ)} {frame : Frame σ}
  {rest freeing : Freeing σ} {worker : Nat} {task : TaskIndex} {ending : Ending} {own : HandleIndex}
  {refusal : Option Fault} {failure : Option Failure}

def Apart (moment : Moment σ) (base : List (Frame σ)) : Prop :=
  ∀ frame, ¬ moment.Within (frame :: base)

structure Uncounting (moment : Moment σ) (base : List (Frame σ)) : Prop where
  not_runs : ¬ moment.Runs base
  uncounted : moment.Apart base → moment.engine.Uncounted moment.next.engine

theorem Within.uncounting (within : moment.Within (frame :: base)) : moment.Uncounting base :=
  ⟨within.not_runs, fun apart => absurd within (apart frame)⟩

theorem Back.leadsBy_uncounting (back : call.Back (frame :: base) ending last) :
    call.LeadsBy (·.Uncounting base) last :=
  back.leads.mono fun _ within => within.uncounting

/-- In the middle of a release nothing is counted as executed or failed, and only rejections are
reported. -/
theorem Releasing.uncounting (releasing : moment.Releasing base) : moment.Uncounting base := by
  refine ⟨releasing.not_runs, fun apart => ?_⟩
  cases releasing with
  | within within => exact absurd within (apart _)
  | returning stopped =>
    obtain ⟨handle, ending, hdoing⟩ := stopped
    obtain ⟨-, hworld⟩ := hdoing.next_rejecting
    rw [Moment.engine, Moment.engine, hworld]
    exact .of_ending moment.engine none _ ending
  | @freeing freeing doing left =>
    have hnext := doing.next_freeing
    rw [Thread.stepFreeing] at hnext
    rw [Moment.engine, Moment.engine, hnext]
    split
    · next task waiters hwaiters =>
      dsimp only
      split
      · next engine hrequeue => exact .of_proceeds (Engine.Tells.requeue hrequeue).proceeds
      · next fault engine hrequeue =>
        have hrequeued : moment.world.engine.Uncounted engine :=
          .of_proceeds (Engine.Tells.requeue hrequeue).proceeds
        rw [Thread.deliver_eq]
        exact hrequeued.trans (.of_tell complaint?_of_notice)
    · next hwaiters =>
      split
      · exact ⟨rfl, rfl, rfl⟩
      · next hlists => exact absurd hlists (left.resolve_left fun h => h hwaiters)

/-! ### The end of an execution -/

/-- The execution of a task is counted by the next step, as that of a completed or of a failed task. A
failure is handed to the task, whose handler comes back. The engine is that at which it is counted. -/
inductive Concludes (moment later : Moment σ) (engine : Engine) (worker : Nat) (task : TaskIndex)
    (base : List (Frame σ)) : Option Failure → Prop
  | executed (world : moment.next.world = { moment.world with
        engine := { engine with stats := engine.stats.countExecuted }.tell [.executed task] })
      (next : moment.next = later) : Concludes moment later engine worker task base none
  | failed {failure : Failure} (hears : moment.Hears later
        ({ engine with stats := engine.stats.countFailed }.tell [.failed worker task failure]) (some worker)
        task failure (.reporting worker task) base) :
      Concludes moment later engine worker task base (some failure)

theorem Concludes.stats {engine : Engine}
    (concludes : moment.Concludes later engine worker task base failure) : moment.next.engine.stats =
      if failure.isNone then engine.stats.countExecuted else engine.stats.countFailed := by
  cases concludes with
  | executed world => rw [Moment.engine, world]; rfl
  | failed hears => rw [Moment.engine, hears.told]; rfl

theorem Concludes.complaints {engine : Engine}
    (concludes : moment.Concludes later engine worker task base failure)
    (h : ∀ own : Failure, failure = some own → own.isRejection = false) :
    complaints moment.next.engine.chronicle =
      failure.toList.map (Prod.mk task) ++ complaints engine.chronicle := by
  cases concludes with
  | executed world =>
    rw [Moment.engine, world]
    rfl
  | failed hears =>
    rw [Moment.engine, hears.told]
    exact complaints_notice moment.world task (h _ rfl) _

/-- When the handler of a failure has ended, however it did, the execution is over. -/
theorem Doing.next_reporting {handle : Option HandleIndex}
    (doing : moment.Doing (.script handle (.stop ending)) (.reporting worker task :: base)) :
    moment.next.Doing (.script none (.stop .normal)) base ∧ moment.next.world =
      { moment.world with engine := moment.engine.tell (ending.notice (some worker) task) } := by
  rw [doing.next_finish]
  cases ending <;> exact ⟨⟨rfl, rfl⟩, rfl⟩

/-- The next step counts the execution of a task, whose work has ended and whose tokens have been released.
The fault of the worker's own release is told before. -/
structure Settles (moment : Moment σ) (worker : Nat) (task : TaskIndex) (base : List (Frame σ))
    (news : List Occurrence) (failure : Option Failure) : Prop where
  not_runs : ¬ moment.Runs base
  incidental : ∀ occurrence ∈ news, occurrence.isIncidental = true
  finishes : ∃ thread, thread.stack = base ∧ Thread.finishExecution
    { moment.world with engine := moment.engine.tell news } thread worker task failure =
      (moment.next.world, moment.next.thread)

/-- An execution that is to be counted is over soon after that. -/
theorem Settles.exists_concludes {news : List Occurrence}
    (settles : moment.Settles worker task base news failure)
    (returns : moment.next.CallsReturn (fun _ => True) base) :
    ∃ later, moment.Concludes later (moment.engine.tell news) worker task base failure ∧
      later.Doing (.script none (.stop .normal)) base ∧ moment.next.LeadsBy (·.Uncounting base) later := by
  obtain ⟨thread, rfl, hfinishes⟩ := settles.finishes
  obtain ⟨hworld, hthread⟩ := Prod.mk.inj hfinishes.symm
  cases failure with
  | none =>
    refine ⟨moment.next, .executed hworld rfl, ⟨?_, ?_⟩, .refl _⟩
    · rw [hthread]
      rfl
    · rw [hthread]
      rfl
  | some failure =>
    let engine := moment.engine.tell news
    let failed := { engine with stats := engine.stats.countFailed }.tell [.failed worker task failure]
    have hdelivers : moment.next =
        ⟨(Thread.deliver { moment.world with engine := failed } task failure).1,
          thread.calling (.reporting worker task)
            (Thread.deliver { moment.world with engine := failed } task failure).2⟩ :=
      congrArg₂ Moment.mk hworld hthread
    obtain ⟨ending, back, hback, hhears⟩ := exists_hears hdelivers rfl
      (fun _ _ _ hended => hended.next_reporting.2) returns trivial
    obtain ⟨handle, hended⟩ := hback.doing
    obtain ⟨hdoing, htold⟩ := hended.next_reporting
    refine ⟨back.next, .failed hhears, hdoing, ?_⟩
    refine hback.leadsBy_uncounting.tail ⟨Stopped.not_runs ⟨_, _, hended⟩, fun _ => ?_⟩
    rw [Moment.engine, Moment.engine, htold]
    exact .of_ending back.engine (some worker) task ending

/-! ### The release after the work -/

/-- A worker whose task has ended goes on to release its tokens. -/
theorem Doing.next_working {handle : Option HandleIndex}
    (doing : moment.Doing (.script handle (.stop ending)) (.working worker task own :: base)) :
    Thread.releaseThrough moment.world { moment.thread with stack := base } own
      (.execution worker task (Failure.ofEnding? ending)) = (moment.next.world, moment.next.thread) := by
  rw [doing.next_finish]
  rfl

def refusedNews (worker : Nat) (task : TaskIndex) (ending : Ending) : Option Fault → List Occurrence
  | none => []
  | some fault => [.releaseRefused worker task (Failure.ofEnding? ending) fault]

theorem incidental_refusedNews (worker : Nat) (task : TaskIndex) (ending : Ending)
    (refusal : Option Fault) :
    ∀ occurrence ∈ refusedNews worker task ending refusal, occurrence.isIncidental = true := by
  intro occurrence hmem
  cases refusal with
  | none => cases hmem
  | some fault =>
    obtain rfl := List.mem_singleton.mp hmem
    rfl

/-- After the worker's own release the execution is counted. -/
theorem finishRelease_execution (world : World σ) (thread : Thread σ) (worker : Nat) (task : TaskIndex)
    (ending : Ending) (outcome : Except Fault Unit) : ∃ refusal,
      (∀ fault, refusal = some fault ↔ outcome = .error fault) ∧
      Thread.finishRelease world thread (.execution worker task (Failure.ofEnding? ending)) outcome =
        Thread.finishExecution
          { world with engine := world.engine.tell (refusedNews worker task ending refusal) } thread worker
          task (Failure.ofExecution? ending refusal) := by
  cases outcome with
  | ok done => exact ⟨none, by simp, rfl⟩
  | error fault =>
    refine ⟨some fault, by simp, ?_⟩
    cases ending <;> rfl

/-- Where the work has released the tokens, the worker counts the execution at once. -/
theorem Doing.settles_released {handle : Option HandleIndex}
    (doing : moment.Doing (.script handle (.stop ending)) (.working worker task own :: base))
    (held : moment.world.handles[own]? = some ⟨task, true⟩) :
    moment.Settles worker task base [] (Failure.ofEnding? ending) := by
  have hnext := doing.next_working
  rw [Thread.releaseThrough, held] at hnext
  exact ⟨Stopped.not_runs ⟨_, _, doing⟩, fun _ hmem => absurd hmem List.not_mem_nil, _, rfl, hnext⟩

/-- Where the work has not released the tokens, the worker does so before it counts the execution. -/
theorem Doing.settles_unreleased {handle : Option HandleIndex}
    (doing : moment.Doing (.script handle (.stop ending)) (.working worker task own :: base))
    (held : moment.world.handles[own]? = some ⟨task, false⟩)
    (returns : moment.CallsReturn (fun _ => True) base) :
    ∃ counted refusal news, moment.LeadsBy (·.Uncounting base) counted ∧
      (∀ fault, refusal = some fault ↔
        moment.engine.table.verdict (Token.distinct (moment.engine.tokens task)) = .error fault) ∧
      counted.Settles worker task base news (Failure.ofExecution? ending refusal) := by
  have hnext := doing.next_working
  rw [Thread.releaseThrough, held] at hnext
  dsimp only at hnext
  rw [if_neg Bool.false_ne_true, Thread.beginRelease_eq] at hnext
  obtain ⟨hworld, hthread⟩ := Prod.mk.inj hnext
  let rest : Freeing σ := World.releaseOf { moment.world with
    handles := moment.world.handles.setIfInBounds own ⟨task, true⟩ } task
    (.execution worker task (Failure.ofEnding? ending))
  have hdoing : moment.next.Doing (.freeing { rest with waiters := [], lists := rest.lists }) base := by
    constructor <;> rw [← hthread] <;> rfl
  have hstep : moment.LeadsBy (·.Uncounting base) moment.next := by
    refine .single ⟨Stopped.not_runs ⟨_, _, doing⟩, fun _ => ?_⟩
    rw [Moment.engine, Moment.engine, ← hworld]
    exact .of_cons (.released task (some own) _) rfl rfl rfl
  have hreturns : moment.next.HandlersReturn base :=
    (returns.of_leadsBy (hstep.mono fun _ other => other.not_runs)).mono fun _ _ => trivial
  obtain ⟨last, hall⟩ := hdoing.freesAll hreturns
  have hlast := hall.doing_last
  obtain ⟨refusal, hrefusal, hfinish⟩ := finishRelease_execution
    { last.world with engine := last.engine.tell rest.notice } last.thread worker task ending rest.outcome
  refine ⟨last, refusal, refusedNews worker task ending refusal ++ rest.notice,
    hstep.trans (hall.leadsBy.mono fun _ releasing => releasing.uncounting), hrefusal, ?_, ?_, last.thread,
    hlast.stack, ?_⟩
  · rintro ⟨handle, script, hruns⟩
    cases hlast.control.symm.trans hruns.control
  · intro occurrence hmem
    rcases List.mem_append.mp hmem with hmem | hmem
    · exact incidental_refusedNews worker task ending refusal occurrence hmem
    · exact rest.incidental_notice occurrence hmem
  · rw [Engine.tell_append, ← hfinish]
    exact hlast.next_freed

/-- When the work has ended, the execution gets to be counted. The worker's own release may have failed, if
the work has not released the tokens. -/
theorem Doing.settles {handle : Option HandleIndex} {released : Bool}
    (doing : moment.Doing (.script handle (.stop ending)) (.working worker task own :: base))
    (held : moment.world.handles[own]? = some ⟨task, released⟩)
    (returns : moment.CallsReturn (fun _ => True) base) :
    ∃ counted refusal news, moment.LeadsBy (·.Uncounting base) counted ∧
      (∀ fault, refusal = some fault ↔ released = false ∧
        moment.engine.table.verdict (Token.distinct (moment.engine.tokens task)) = .error fault) ∧
      counted.Settles worker task base news (Failure.ofExecution? ending refusal) := by
  cases released with
  | true => exact ⟨moment, none, [], .refl moment, by simp, doing.settles_released held⟩
  | false => simpa using doing.settles_unreleased held returns

/-! ### The call -/

theorem Doing.execute_suffix {handle : Option HandleIndex} {next : Script σ}
    (doing : moment.Doing (.script handle (.execute worker task next)) stack) :
    .working worker task moment.world.handles.size :: .resume handle next :: stack <:+
      moment.next.thread.stack := by
  rw [Moment.next, Thread.step, doing.control, ← doing.stack]
  exact Thread.suffix_beginWork _ { moment.thread with
    stack := .working worker task moment.world.handles.size :: .resume handle next :: moment.thread.stack }
    task moment.world.handles.size

/-- If there is work for the task, an execution runs its script. -/
theorem Doing.execute_works {handle : Option HandleIndex} {next : Script σ}
    (doing : moment.Doing (.script handle (.execute worker task next)) stack)
    (hwork : moment.world.hasWork task = true) : ∃ code, moment.world.code[task]? = some code ∧
      moment.next.Doing (.script (code.work.handle? moment.world.handles.size) code.work.script)
        (code.work.frames moment.world.handles.size
          (.working worker task moment.world.handles.size :: .resume handle next :: stack)) := by
  obtain ⟨hcontrol, rfl⟩ := doing
  have hmade : (moment.world.makeHandle task).2.hasWork task = true := hwork
  obtain ⟨code, hcode, hdoing⟩ := Thread.beginWork_of_hasWork hmade
    { moment.thread with
      stack := .working worker task moment.world.handles.size :: .resume handle next :: moment.thread.stack }
    moment.world.handles.size
  refine ⟨code, hcode, ?_⟩
  rw [Moment.next, Thread.step, hcontrol]
  exact hdoing

theorem beginWork_uncounted (world : World σ) (thread : Thread σ) (task : TaskIndex) (own : HandleIndex) :
    world.engine.Uncounted (Thread.beginWork world thread task own).1.engine := by
  have hreleased : world.engine.Uncounted (Thread.releaseThrough world thread own .closureEnd).1.engine := by
    rw [Thread.releaseThrough]
    split
    · exact .refl _
    · split
      · exact .refl _
      · exact .of_cons (.released _ (some own) _) rfl rfl rfl
  rw [Thread.beginWork]
  split
  · exact .refl _
  · exact .refl _
  · split
    · exact hreleased
    · exact .of_cons (.opened task) rfl rfl rfl

theorem Doing.execute_uncounting {handle : Option HandleIndex} {next : Script σ}
    (doing : moment.Doing (.script handle (.execute worker task next)) stack) :
    moment.Uncounting (.resume handle next :: stack) := by
  constructor
  · rintro ⟨own, script, hruns⟩
    exact absurd (congrArg List.length (doing.stack.symm.trans hruns.stack)) (by simp)
  · intro _
    rw [Moment.engine, Moment.engine, Moment.next, Thread.step, doing.control]
    exact beginWork_uncounted (moment.world.makeHandle task).2 _ task _

theorem Doing.working_asks {handle : Option HandleIndex}
    (doing : moment.Doing (.script handle (.stop ending)) (.working worker task own :: base)) :
    moment.asks? = some own := by
  rw [asks?, Thread.asks?, doing.control, doing.stack]
  rfl

theorem Doing.script_executions {handle : Option HandleIndex} {script : Script σ}
    (doing : moment.Doing (.script handle script) stack) :
    moment.thread.executions = moment.thread.called := by
  rw [Thread.executions, doing.control]
  rfl

/-- Of the executions that are called for in an execution, this one included, every one is counted. -/
theorem Doing.finished_over {handle own : Option HandleIndex} {next : Script σ} {n : Nat}
    (doing : moment.Doing (.script handle (.execute worker task next)) stack)
    (ended : (moment.after n).Doing (.script own (.stop .normal)) (.resume handle next :: stack)) :
    (moment.after n).engine.stats.finished = moment.engine.stats.finished + moment.calls n := by
  have hfinished := moment.finished_after n
  have hcalled : (moment.after n).thread.called = moment.thread.called := by
    rw [Thread.called, Thread.called, ended.stack, doing.stack, List.map_cons, List.sum_cons]
    exact Nat.zero_add _
  rw [ended.script_executions, doing.script_executions, hcalled] at hfinished
  omega

/-- The caller of an execution goes on when it is over. -/
theorem Doing.next_resume {handle own : Option HandleIndex} {next : Script σ}
    (doing : moment.Doing (.script own (.stop .normal)) (.resume handle next :: stack)) :
    moment.next.Doing (.script handle next) stack := by
  rw [doing.next_finish]
  exact ⟨rfl, rfl⟩

end Moment

/-! ### An execution, end to end -/

/-- An execution, in steps since it was called. -/
structure Execution where
  /-- The step that takes the tokens of the task out of the table. -/
  released : Nat
  /-- When the work has ended. -/
  ended : Nat
  /-- The step that counts the execution. -/
  counted : Nat
  /-- When the execution has ended. -/
  last : Nat
  /-- How the work ended. -/
  ending : Ending
  /-- The fault of the worker's own release, if it made one and that failed. -/
  refusal : Option Fault
  failure : Option Failure

/-- What happens in an execution: from the call of the worker on, whose frames are these, with a handle of
its own. -/
structure Execution.Describes (execution : Execution) (start : Moment σ) (worker : Nat)
    (task : TaskIndex) (own : HandleIndex) (base : List (Frame σ)) : Prop where
  /-- If there is work for the task, its script is what runs next. -/
  works : start.world.hasWork task = true → ∃ code, start.world.code[task]? = some code ∧
    start.next.Doing (.script (code.work.handle? own) code.work.script)
      (code.work.frames own (.working worker task own :: base))
  /-- The work comes back to the worker. -/
  ended : start.next.Back (.working worker task own :: base) execution.ending (start.after execution.ended)
  /-- The first step that asks for a release through the handle is taken by the work, or by the worker when
  the work has ended. -/
  asks : (start.after execution.released).asks? = some own
  first : ∀ n < execution.released, (start.after n).asks? ≠ some own
  released : execution.released ≤ execution.ended
  /-- This step takes the tokens of the task through the handle, and no other one does. -/
  taken : ∀ n, takings own (start.after n).engine.chronicle =
    (if execution.released < n then [task] else []) ++ takings own start.engine.chronicle
  refused : ∀ fault, execution.refusal = some fault ↔ execution.released = execution.ended ∧
    (start.after execution.ended).engine.table.verdict
      (Token.distinct ((start.after execution.ended).engine.tokens task)) = .error fault
  failure : execution.failure = none ↔ execution.ending = .normal ∧ execution.refusal = none
  explained : ∀ failure, execution.failure = some failure →
    failure.Explains execution.ending execution.refusal
  counted : execution.ended ≤ execution.counted ∧ execution.counted < execution.last
  /-- The execution is counted once, and a failure is handed to the task once. -/
  concludes : ∃ news, (∀ occurrence ∈ news, occurrence.isIncidental = true) ∧
    (start.after execution.counted).Concludes (start.after execution.last)
      ((start.after execution.counted).engine.tell news) worker task base execution.failure
  stats : (start.after execution.counted).next.engine.stats =
    if execution.failure.isNone then (start.after execution.counted).engine.stats.countExecuted
    else (start.after execution.counted).engine.stats.countFailed
  reported : complaints (start.after execution.counted).next.engine.chronicle =
    execution.failure.toList.map (Prod.mk task) ++
      complaints (start.after execution.counted).engine.chronicle
  /-- No other step counts or reports anything, but in the work and in handlers. -/
  uncounted : ∀ n < execution.last, n ≠ execution.counted → (start.after n).Apart base →
    (start.after n).engine.Uncounted (start.after n).next.engine
  /-- With the executions that are called for meanwhile they are all that is counted. -/
  finished : (start.after execution.last).engine.stats.finished =
    start.engine.stats.finished + start.calls execution.last
  returned : (start.after execution.last).Doing (.script none (.stop .normal)) base

/-- A world with one task, which panics, and panics again when it is handed the failure. -/
def World.hapless : World Unit :=
  let task : Task := { kind := .repeatable, priority := 0, tokens := [.unique 0] }
  let code : Code Unit := {
    work := .repeatable (.stop (.panicked .other))
    handler := some fun _ => .stop (.panicked .other) }
  let queue : PriorityQueue TaskIndex := ⟨Array.replicate 1 .empty, .empty⟩
  ((World.ofEngine (Engine.idle { levels := 1 } queue) ()).addTask task code).2

def Moment.hapless : Moment Unit :=
  ⟨.hapless, .ofScript none (.execute 0 0 (.stop .normal))⟩

/-- An execution releases the tokens of its task through its handle once, as soon as the work asks for it or
else when the work has ended. It counts the task once, and then comes back, whether the work or the handler
of the failure has panicked or not. -/
theorem execution_accounted {start : Moment σ} {handle : Option HandleIndex} {worker : Nat}
    {task : TaskIndex} {next : Script σ} {stack : List (Frame σ)}
    (doing : start.Doing (.script handle (.execute worker task next)) stack)
    (returns : start.next.CallsReturn (fun _ => True) (.resume handle next :: stack)) :
    ∃ execution : Execution, execution.Describes start worker task start.world.handles.size
        (.resume handle next :: stack) ∧
      (start.after execution.last).next.Doing (.script handle next) stack := by
  -- the work comes back
  obtain ⟨ending, last, hback⟩ := returns.back trivial (.refl _) doing.execute_suffix
  have hreturns := returns.of_leadsBy (hback.leadsBy_uncounting.mono fun _ other => other.not_runs)
  obtain ⟨⟨n, hlast, hwithin⟩, script, hended⟩ := id hback
  rw [← Moment.after_succ] at hlast
  -- whoever was the first to ask for the release, the handle tells whether it has been used by then
  have hasks : (start.after (n + 1)).asks? = some start.world.handles.size := by
    rw [hlast]
    exact hended.working_asks
  obtain ⟨released, hle, hasked, hfirst, hheld, htaken⟩ := doing.exists_taking hasks
  rw [hlast] at hheld
  obtain ⟨counted, refusal, news, hrelease, hrefusal, hsettles⟩ := hended.settles hheld hreturns
  have hreturned := hreturns.of_leadsBy
    ((hrelease.mono fun _ other => other.not_runs).tail hsettles.not_runs)
  obtain ⟨later, hconcludes, hover, d, hlater, hhandler⟩ := hsettles.exists_concludes hreturned
  obtain ⟨c, hcounted, hrelease⟩ := hrelease
  have hatCounted : start.after (n + 1 + c) = counted := by
    rw [Moment.after_add, hlast, hcounted]
  have hatOver : start.after (n + 1 + c + 1 + d) = later := by
    rw [Moment.after_add, Moment.after, hatCounted, hlater]
  -- the call itself, the work, the release after it, and the handler of the failure
  let uncounting (moment : Moment σ) : Prop := moment.Uncounting (.resume handle next :: stack)
  have hcall : ∀ k < 1, uncounting (start.after k) := by
    intro k hk
    obtain rfl := Nat.lt_one_iff.mp hk
    exact doing.execute_uncounting
  have hwork : ∀ k < 1 + n, uncounting (start.after k) :=
    Moment.forall_after_add uncounting hcall fun k hk => (hwithin k hk).uncounting
  have hbefore : ∀ k < n + 1 + c, uncounting (start.after k) := by
    rw [Nat.add_comm 1 n] at hwork
    refine Moment.forall_after_add uncounting hwork ?_
    rw [hlast]
    exact hrelease
  have hothers : ∀ k < n + 1 + c + 1 + d, k ≠ n + 1 + c → uncounting (start.after k) := by
    refine Moment.forall_after_except uncounting hbefore ?_
    rw [hatCounted]
    exact hhandler
  let execution : Execution := {
    released, ended := n + 1, counted := n + 1 + c, last := n + 1 + c + 1 + d, ending, refusal
    failure := Failure.ofExecution? ending refusal }
  have hexplained (failure : Failure) (h : execution.failure = some failure) :
      failure.Explains ending refusal := Failure.explains_of_ofExecution? h
  rw [← hatOver] at hover
  refine ⟨execution, ⟨doing.execute_works, ?_, hasked, hfirst, hle, htaken, fun fault => ?_,
    Failure.ofExecution?_eq_none, hexplained, ⟨?_, ?_⟩, ⟨news, hsettles.incidental, ?_⟩, ?_, ?_,
    fun time htime hne apart => (hothers time htime hne).uncounted apart, doing.finished_over hover,
    hover⟩, hover.next_resume⟩
  · rw [hlast]
    exact hback
  · rw [hrefusal, hlast, decide_eq_false_iff_not]
    have hlate : ¬ released ≤ n ↔ released = n + 1 := by omega
    rw [hlate]
  · exact Nat.le_add_right _ _
  · show n + 1 + c < n + 1 + c + 1 + d
    omega
  · rw [hatCounted, hatOver]
    exact hconcludes
  · rw [hatCounted]
    exact hconcludes.stats
  · rw [hatCounted, hconcludes.complaints fun failure h => (hexplained failure h).not_rejection]
    rw [Engine.tell, complaints_append fun occurrence hmem =>
      Occurrence.complaint?_eq_none (hsettles.incidental occurrence hmem)]

theorem execution_accounted_hapless : (Moment.hapless.after 5).engine.stats.failed = 1 ∧
    complaints (Moment.hapless.after 5).engine.chronicle = [(0, {
      cause := .panic "<non-string panic payload>", suppressed := [.notHeld (.unique 0)] })] ∧
    ∃ execution : Execution,
      execution.Describes Moment.hapless 0 0 0 [.resume none (.stop .normal)] ∧
        (Moment.hapless.after execution.last).next.Doing (.script none (.stop .normal)) [] := by
  have hdoing : Moment.hapless.Doing (.script none (.execute 0 0 (.stop .normal))) [] := ⟨rfl, rfl⟩
  have hover : (Moment.hapless.next.after 4).Over := ⟨⟨none, .normal, rfl⟩, rfl⟩
  exact ⟨by decide +kernel, by decide +kernel, execution_accounted hdoing (.of_over ⟨4, rfl⟩ hover)⟩

end Dispatch
