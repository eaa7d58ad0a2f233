import Dispatch.Proofs.Actions
import Dispatch.Proofs.HandleScope
import Dispatch.Proofs.Release

/-!
# The closure of a task is invoked once

The first run of a closure task takes the closure, and nothing else does (`Moment.next_opens`). It takes it
before the closure is called, so a run that comes while the closure is running finds it taken as well.
Whichever threads take the steps, the closure has therefore been invoked by the first run and by no other one,
and it is marked as taken from that run on (`World.Counts.mark`). That a closure is invoked is read off the
thread, which is in the closure then, and not off the mark.
-/

namespace Dispatch

variable {σ : Type}

/-! ### The mark of a taken closure -/

namespace World

/-- Of every task that has been made it is known what it does. -/
def Paired (world : World σ) : Prop :=
  world.code.size = world.engine.tasks.size

/-- The second world is the first after things that took no other closure than this one. What a task does is
never changed. -/
structure Opens (before : World σ) (opened : Option TaskIndex) (after : World σ) : Prop where
  code : ∀ (task : TaskIndex) (code : Code σ), before.code[task]? = some code → after.code[task]? = some code
  paired : before.Paired → after.Paired
  taken : ∀ task, after.engine.isTaken task =
    if opened = some task then true else before.engine.isTaken task

abbrev Keeps (before after : World σ) : Prop :=
  before.Opens none after

variable {world before middle after : World σ} {opened : Option TaskIndex} {task : TaskIndex}

namespace Keeps

theorem isTaken_eq (keeps : before.Keeps after) (task : TaskIndex) :
    after.engine.isTaken task = before.engine.isTaken task := by
  rw [keeps.taken task, if_neg nofun]

theorem of_isTaken_eq
    (code : ∀ (task : TaskIndex) (code : Code σ), before.code[task]? = some code →
      after.code[task]? = some code)
    (paired : before.Paired → after.Paired)
    (taken : ∀ task, after.engine.isTaken task = before.engine.isTaken task) : before.Keeps after := by
  refine ⟨code, paired, fun task => ?_⟩
  rw [if_neg nofun]
  exact taken task

theorem of_eq (hcode : after.code = before.code) (htasks : after.engine.tasks = before.engine.tasks) :
    before.Keeps after := by
  refine of_isTaken_eq (fun task code hknown => ?_) (fun paired => ?_) fun task => ?_
  · rw [hcode]
    exact hknown
  · rw [Paired, hcode, htasks]
    exact paired
  · rw [Engine.isTaken, htasks]
    rfl

theorem refl (world : World σ) : world.Keeps world :=
  of_eq rfl rfl

theorem opens (first : before.Keeps middle) (second : middle.Opens opened after) :
    before.Opens opened after := by
  refine ⟨fun task code hknown => ?_, fun paired => ?_, fun task => ?_⟩
  · exact second.code task code (first.code task code hknown)
  · exact second.paired (first.paired paired)
  · rw [second.taken task, first.isTaken_eq task]

/-- Something else than the mark is changed of what is known of a task. -/
theorem modifyTask (world : World σ) (task : TaskIndex) (change : Task → Task)
    (taken : ∀ known, (change known).taken = known.taken) :
    world.Keeps { world with engine := world.engine.modifyTask task change } := by
  refine of_isTaken_eq (fun other code hknown => hknown) (fun paired => ?_) fun other => ?_
  · show world.code.size = (world.engine.tasks.modify task change).size
    rw [Array.size_modify]
    exact paired
  · show ((world.engine.tasks.modify task change)[other]?.map Task.taken).getD false = _
    rw [Array.getElem?_modify]
    split
    · rw [Option.map_map]
      exact congrArg (fun read => (world.engine.tasks[other]?.map read).getD false) (funext taken)
    · rfl

/-- The closure of a new task has not been taken. -/
theorem addClosure (world : World σ) (draft : Draft) (code : Code σ) :
    world.Keeps (world.addClosure draft code).2 := by
  refine of_isTaken_eq (fun other known hknown => ?_) (fun paired => ?_) fun other => ?_
  · obtain ⟨hlt, hget⟩ := Array.getElem?_eq_some_iff.mp hknown
    show (world.code.push code)[other]? = some known
    rw [Array.getElem?_push_lt hlt, hget]
  · show (world.code.push code).size = (world.engine.tasks.push (draft.build world.engine.nextSerial)).size
    rw [Array.size_push, Array.size_push, paired]
  · show ((world.engine.tasks.push (draft.build world.engine.nextSerial))[other]?.map Task.taken).getD false =
      (world.engine.tasks[other]?.map Task.taken).getD false
    rw [Array.getElem?_push]
    split
    · next heq =>
      rw [heq, Array.getElem?_size]
      rfl
    · rfl

end Keeps

theorem known_of_work (world : World σ) {work : Work σ}
    (hwork : world.code[task]?.map Code.work = some work) : task < world.code.size := by
  obtain ⟨code, hcode, -⟩ := Option.map_eq_some_iff.mp hwork
  exact (Array.getElem?_eq_some_iff.mp hcode).1

/-- The closure of a task that is there is marked when it is taken. -/
theorem opens_takeClosure (paired : world.Paired) (known : task < world.code.size) :
    world.Opens (some task) { world with engine := world.engine.takeClosure task } := by
  have hsize : ((world.engine.takeClosure task).tasks).size = world.engine.tasks.size :=
    Array.size_modify ..
  refine ⟨fun other code hknown => hknown, fun paired => paired.trans hsize.symm, fun other => ?_⟩
  show ((world.engine.tasks.modify task fun known => { known with taken := true })[other]?.map
    Task.taken).getD false = _
  rw [Array.getElem?_modify]
  by_cases heq : task = other
  · subst heq
    rw [paired] at known
    rw [if_pos rfl, if_pos rfl, Array.getElem?_eq_getElem known]
    rfl
  · rw [if_neg heq, if_neg fun h => heq (Option.some.inj h)]
    rfl

theorem Fresh.paired (fresh : world.Fresh) : world.Paired := by
  induction fresh with
  | start memory ok =>
    rw [Engine.start] at ok
    split at ok
    · cases ok
    · split at ok
      · cases ok
      · cases ok
        rfl
  | @addTask world fresh task code ih =>
    show (world.code.push code).size = (world.engine.tasks.push task).size
    rw [Array.size_push, Array.size_push, ih]
  | addClosure fresh draft code ih => exact (Keeps.addClosure _ draft code).paired ih

end World

/-! ### Steps that run no task -/

def Script.runs? : Script σ → Option TaskIndex
  | run task _ | execute _ task _ => some task
  | stop _ | remember .. | «recall» _ | attempt .. | schedule .. | submit .. | poll _ | claim ..
  | releaseFor .. | release _ | atHand _ | withHandle .. | report .. | setPriority .. | setTokens ..
  | applyPriority .. | shutDown _ | join _ | signal .. | await .. | rest .. | whoAmI _ => none

def Control.runs? : Control σ → Option TaskIndex
  | script _ next => next.runs?
  | freeing _ | claiming .. | joining .. | resting .. => none

namespace Thread

open World (Keeps)

theorem deliver_keeps (world : World σ) (task : TaskIndex) (failure : Failure) :
    world.Keeps (deliver world task failure).1 := by
  rw [deliver]
  split <;> exact .of_eq rfl rfl

theorem finishExecution_keeps (world : World σ) (thread : Thread σ) (worker : Nat) (task : TaskIndex)
    (failure : Option Failure) : world.Keeps (finishExecution world thread worker task failure).1 := by
  cases failure with
  | none => exact .of_eq rfl rfl
  | some failure =>
    let failed : World σ := { world with
      engine := { world.engine with stats := world.engine.stats.countFailed }.record
        (.failed worker task failure) }
    have hfailed : world.Keeps failed := .of_eq rfl rfl
    exact hfailed.opens (deliver_keeps failed task failure)

theorem finishRelease_keeps (world : World σ) (thread : Thread σ) (after : AfterRelease σ)
    (outcome : Except Fault Unit) : world.Keeps (finishRelease world thread after outcome).1 := by
  cases after with
  | answer handle next => exact .refl world
  | closureEnd => cases outcome <;> exact .refl world
  | execution worker task failure =>
    cases outcome with
    | ok done => exact finishExecution_keeps world thread worker task failure
    | error fault =>
      let refused : World σ := { world with
        engine := world.engine.record (.releaseRefused worker task failure fault) }
      have hrefused : world.Keeps refused := .of_eq rfl rfl
      exact hrefused.opens (finishExecution_keeps refused thread worker task _)

theorem releaseThrough_keeps (world : World σ) (thread : Thread σ) (own : HandleIndex)
    (after : AfterRelease σ) : world.Keeps (releaseThrough world thread own after).1 := by
  rw [releaseThrough]
  split
  · exact finishRelease_keeps world thread after (.ok ())
  · split
    · exact finishRelease_keeps world thread after (.ok ())
    · exact .of_eq rfl rfl

theorem finish_keeps (world : World σ) (thread : Thread σ) (ending : Ending) (frame : Frame σ) :
    world.Keeps (finish world thread ending frame).1 := by
  cases frame with
  | working worker task own => exact releaseThrough_keeps world thread own _
  | closing own =>
    cases ending with
    | normal => exact releaseThrough_keeps world thread own .closureEnd
    | failed _ | panicked _ => exact .refl world
  | resume | attempting | running | holding | reporting | rejecting =>
    cases ending <;> exact .of_eq rfl rfl

theorem stepFreeing_keeps (world : World σ) (thread : Thread σ) (freeing : Freeing σ) :
    world.Keeps (stepFreeing world thread freeing).1 := by
  rw [stepFreeing]
  split
  · next task waiters hwaiters =>
    dsimp only
    split
    · next engine hrequeue => exact .of_eq rfl (Engine.tasks_of_requeue hrequeue)
    · next fault engine hrequeue =>
      have hrequeued : world.Keeps { world with engine } := .of_eq rfl (Engine.tasks_of_requeue hrequeue)
      exact hrequeued.opens (deliver_keeps { world with engine } task _)
  · split
    · exact .of_eq rfl rfl
    · refine World.Keeps.opens ?_ (finishRelease_keeps _ thread freeing.after freeing.outcome)
      split
      · exact .refl world
      · exact .of_eq rfl rfl

theorem afterPoll_keeps (world : World σ) (thread : Thread σ) (handle : Option HandleIndex)
    (next : Option TaskIndex → Script σ) {poll : Poll} (htasks : poll.engine.tasks = world.engine.tasks) :
    world.Keeps (afterPoll world thread handle next poll).world := by
  cases poll <;> exact .of_eq rfl htasks

theorem afterAttempt_keeps (world : World σ) (thread : Thread σ) (handle : Option HandleIndex)
    (task : TaskIndex) (after : AfterClaim σ) {admission : Admission}
    (htasks : admission.engine.tasks = world.engine.tasks) :
    world.Keeps (afterAttempt world thread handle task after admission).world := by
  cases admission with
  | acquired engine => cases after <;> exact .of_eq rfl htasks
  | waiting engine =>
    cases after with
    | answer next => exact .of_eq rfl htasks
    | poll next => exact afterPoll_keeps world thread handle next (engine.tasks_poll.trans htasks)
  | refused engine list => exact .of_eq rfl htasks

/-- A script that runs no task takes no closure. -/
theorem stepScript_keeps (world : World σ) (thread : Thread σ) (handle : Option HandleIndex)
    {script : Script σ} (hruns : script.runs? = none) :
    world.Keeps (stepScript world thread handle script).world := by
  cases script with
  | run task next | execute worker task next => cases hruns
  | stop ending =>
    rw [stepScript]
    split
    · exact .refl world
    · next frame stack hstack => exact finish_keeps world { thread with stack } ending frame
  | schedule task next =>
    rw [stepScript]
    split
    · next engine hschedule =>
      obtain ⟨queue, -, rfl⟩ := Engine.schedule_ok hschedule
      exact .of_eq rfl rfl
    · exact .refl world
  | submit priority closure next =>
    have hmade := Keeps.addClosure world { priority } { work := .closure closure }
    rw [stepScript]
    dsimp only
    split
    · next engine hschedule =>
      obtain ⟨queue, -, rfl⟩ := Engine.schedule_ok hschedule
      exact hmade.opens (Keeps.of_eq rfl rfl)
    · exact hmade
  | poll next => exact afterPoll_keeps world thread handle next world.engine.tasks_poll
  | claim task next =>
    have hclaimed := Engine.tasks_claimTokens world.engine task
    rw [stepScript]
    generalize world.engine.claimTokens task = admission at hclaimed ⊢
    cases admission <;> exact .of_eq rfl hclaimed
  | release next =>
    cases handle with
    | none => exact .refl world
    | some own => exact releaseThrough_keeps world thread own _
  | report task failure next => exact deliver_keeps world task failure
  | setPriority task priority next => exact .modifyTask world task _ fun _ => rfl
  | setTokens task tokens next => exact .modifyTask world task _ fun _ => rfl
  | applyPriority task next =>
    rw [stepScript]
    split
    · next moved engine hmove => exact .of_eq rfl (Engine.tasks_of_applyPriority hmove)
    · exact .refl world
  | shutDown next =>
    refine .of_eq rfl ?_
    show world.engine.shutDown.tasks = world.engine.tasks
    rw [Engine.shutDown]
    split <;> rfl
  | await name next =>
    rw [stepScript]
    split <;> exact .refl world
  | rest worker next =>
    rw [stepScript]
    split
    · exact .refl world
    · exact .of_eq rfl rfl
  | remember | «recall» | attempt | releaseFor | atHand | withHandle | join | signal | whoAmI =>
    exact .of_eq rfl rfl

/-- A step that runs no task takes no closure. -/
theorem step_keeps (world : World σ) (thread : Thread σ) (hruns : thread.control.runs? = none) :
    world.Keeps (thread.step world).world := by
  rw [step]
  cases hcontrol : thread.control with
  | script handle script =>
    rw [hcontrol] at hruns
    exact stepScript_keeps world thread handle hruns
  | freeing freeing => exact stepFreeing_keeps world thread freeing
  | claiming handle task list after =>
    exact afterAttempt_keeps world thread handle task after (Engine.tasks_attempt _ _ _ _)
  | joining handle workers next =>
    dsimp only
    split <;> exact .refl world
  | resting handle worker next =>
    dsimp only
    split
    · exact .of_eq rfl rfl
    · exact .refl world

end Thread

/-! ### Steps that run a task -/

/-- The first release through a handle takes the tokens of its task out of the table. -/
theorem Thread.releaseThrough_eq {world : World σ} {own : HandleIndex} {task : TaskIndex}
    (held : world.handles[own]? = some ⟨task, false⟩) (thread : Thread σ) (after : AfterRelease σ) :
    releaseThrough world thread own after =
      ({ world with
          handles := world.handles.setIfInBounds own ⟨task, true⟩
          engine := (world.engine.takeTokens task (some own)).2.2 },
        thread.doing (.freeing (world.releaseOf task after))) := by
  rw [releaseThrough, held]
  exact beginRelease_eq { world with handles := world.handles.setIfInBounds own ⟨task, true⟩ } thread task
    (some own) after

def Thread.inClosure (thread : Thread σ) : Bool :=
  match thread.stack with
  | .closing _ :: _ => true
  | _ => false

namespace Moment

def runs? (moment : Moment σ) : Option TaskIndex :=
  moment.thread.control.runs?.filter fun task => task < moment.world.code.size

/-- The task whose closure is invoked by the next step: the step runs the task, and behind it the thread is in
the closure. -/
def invokes? (moment : Moment σ) : Option TaskIndex :=
  if moment.next.thread.inClosure then moment.runs? else none

/-- The next step runs a task, with a new handle, and then the thread is to go on with these frames. -/
inductive Enters (moment : Moment σ) (task : TaskIndex) : List (Frame σ) → Prop
  | run {handle : Option HandleIndex} {next : Except Report Unit → Bool → Script σ}
      {stack : List (Frame σ)} (doing : moment.Doing (.script handle (.run task next)) stack) :
      Enters moment task (.running handle moment.world.handles.size next :: stack)
  | execute {handle : Option HandleIndex} {worker : Nat} {next : Script σ} {stack : List (Frame σ)}
      (doing : moment.Doing (.script handle (.execute worker task next)) stack) :
      Enters moment task
        (.working worker task moment.world.handles.size :: .resume handle next :: stack)

variable {moment : Moment σ} {task : TaskIndex} {frames : List (Frame σ)} {script : Script σ}

theorem exists_enters (hruns : moment.thread.control.runs? = some task) :
    ∃ frames, moment.Enters task frames := by
  cases hcontrol : moment.thread.control with
  | script handle script =>
    rw [hcontrol] at hruns
    cases script with
    | run other next =>
      cases hruns
      exact ⟨_, .run ⟨hcontrol, rfl⟩⟩
    | execute worker other next =>
      cases hruns
      exact ⟨_, .execute ⟨hcontrol, rfl⟩⟩
    | _ => cases hruns
  | freeing | claiming | joining | resting =>
    rw [hcontrol] at hruns
    cases hruns

namespace Enters

theorem runs?_eq (enters : moment.Enters task frames) (known : task < moment.world.code.size) :
    moment.runs? = some task := by
  have hruns : moment.thread.control.runs? = some task := by
    cases enters with
    | run doing | execute doing =>
      rw [doing.control]
      rfl
  rw [runs?, hruns, Option.filter_some, if_pos (decide_eq_true known)]

theorem next_eq (enters : moment.Enters task frames) :
    moment.next = .of (Thread.beginWork (moment.world.makeHandle task).2
      { moment.thread with stack := frames } task moment.world.handles.size) := by
  cases enters with
  | run doing | execute doing =>
    obtain ⟨hcontrol, rfl⟩ := doing
    rw [next, Thread.step, hcontrol]
    rfl

/-- The thread is not in a closure only because it is to run a task. -/
theorem not_inClosure (enters : moment.Enters task frames) {thread : Thread σ}
    (hstack : thread.stack = frames) : thread.inClosure = false := by
  rw [Thread.inClosure, hstack]
  cases enters <;> rfl

theorem held_made (moment : Moment σ) (task : TaskIndex) :
    (moment.world.makeHandle task).2.handles[moment.world.handles.size]? = some ⟨task, false⟩ :=
  Array.getElem?_push_size

/-- The first run of a closure task takes the closure and calls it. -/
theorem next_of_untaken (enters : moment.Enters task frames)
    (hwork : moment.world.code[task]?.map Code.work = some (.closure script))
    (untaken : moment.engine.isTaken task = false) :
    moment.next = ⟨{ (moment.world.makeHandle task).2 with engine := moment.engine.takeClosure task },
      { moment.thread with
        control := .script none script, stack := .closing moment.world.handles.size :: frames }⟩ := by
  have hmade : (moment.world.makeHandle task).2.code[task]?.map Code.work = some (.closure script) := hwork
  have huntaken : (moment.world.makeHandle task).2.engine.isTaken task = false := untaken
  rw [enters.next_eq, Thread.beginWork, hmade]
  dsimp only
  rw [huntaken]
  rfl

/-- A later run of a closure task begins with the release. -/
theorem next_of_taken (enters : moment.Enters task frames)
    (hwork : moment.world.code[task]?.map Code.work = some (.closure script))
    (taken : moment.engine.isTaken task = true) :
    moment.next = .of (Thread.releaseThrough (moment.world.makeHandle task).2
      { moment.thread with stack := frames } moment.world.handles.size .closureEnd) := by
  have hmade : (moment.world.makeHandle task).2.code[task]?.map Code.work = some (.closure script) := hwork
  have htaken : (moment.world.makeHandle task).2.engine.isTaken task = true := taken
  rw [enters.next_eq, Thread.beginWork, hmade]
  dsimp only
  rw [htaken]
  rfl

/-- Where there is no closure, running a task changes nothing by itself. -/
theorem next_of_none (enters : moment.Enters task frames)
    (hwork : ∀ script, moment.world.code[task]?.map Code.work ≠ some (.closure script)) :
    moment.next.world = (moment.world.makeHandle task).2 ∧ moment.next.thread.stack = frames := by
  have hsame : (moment.world.makeHandle task).2.code[task]? = moment.world.code[task]? := rfl
  rw [enters.next_eq, Thread.beginWork, hsame]
  cases hkind : moment.world.code[task]?.map Code.work with
  | none => exact ⟨rfl, rfl⟩
  | some work =>
    cases work with
    | repeatable script => exact ⟨rfl, rfl⟩
    | closure script => exact absurd hkind (hwork script)

theorem invokes?_of_untaken (enters : moment.Enters task frames)
    (hwork : moment.world.code[task]?.map Code.work = some (.closure script))
    (untaken : moment.engine.isTaken task = false) : moment.invokes? = some task := by
  have known := moment.world.known_of_work hwork
  rw [invokes?, enters.next_of_untaken hwork untaken]
  exact enters.runs?_eq known

theorem invokes?_of_stack (enters : moment.Enters task frames)
    (hstack : moment.next.thread.stack = frames) : moment.invokes? = none := by
  rw [invokes?, enters.not_inClosure hstack]
  rfl

theorem stack_of_taken (enters : moment.Enters task frames)
    (hwork : moment.world.code[task]?.map Code.work = some (.closure script))
    (taken : moment.engine.isTaken task = true) : moment.next.thread.stack = frames := by
  rw [enters.next_of_taken hwork taken, Thread.releaseThrough_eq (held_made moment task)]
  rfl

end Enters

/-- A step takes the closure that it invokes, and no other one. -/
theorem next_opens (moment : Moment σ) (paired : moment.world.Paired) :
    moment.world.Opens moment.invokes? moment.next.world := by
  cases hruns : moment.thread.control.runs? with
  | none =>
    have hinvokes : moment.invokes? = none := by
      rw [invokes?, runs?, hruns]
      exact ite_self none
    rw [hinvokes]
    exact Thread.step_keeps moment.world moment.thread hruns
  | some task =>
    obtain ⟨frames, henters⟩ := exists_enters hruns
    have hmade : moment.world.Keeps (moment.world.makeHandle task).2 := World.Keeps.of_eq rfl rfl
    by_cases hclosure : ∃ script, moment.world.code[task]?.map Code.work = some (.closure script)
    · obtain ⟨script, hwork⟩ := hclosure
      have known := moment.world.known_of_work hwork
      cases htaken : moment.engine.isTaken task with
      | false =>
        rw [henters.invokes?_of_untaken hwork htaken, henters.next_of_untaken hwork htaken]
        exact hmade.opens (World.opens_takeClosure (hmade.paired paired) known)
      | true =>
        rw [henters.invokes?_of_stack (henters.stack_of_taken hwork htaken),
          henters.next_of_taken hwork htaken]
        exact hmade.opens (Thread.releaseThrough_keeps _ _ _ _)
    · obtain ⟨hworld, hstack⟩ := henters.next_of_none fun script hwork => hclosure ⟨script, hwork⟩
      rw [henters.invokes?_of_stack hstack, hworld]
      exact hmade

end Moment

/-! ### What has been run so far -/

/-- How often a task has been run, and how often its closure was invoked, since the world was fresh. The next
step may always be that of another thread, whatever this one is in the middle of, and between two steps
anything may be done that takes no closure. The closure of a task that has been made at first is there. -/
inductive World.Counts (task : TaskIndex) : Nat → Nat → World σ → Prop
  | begin {world : World σ} (fresh : world.Fresh) (untaken : world.engine.isTaken task = false) :
      Counts task 0 0 world
  | step {runs invoked : Nat} {world : World σ} (prior : Counts task runs invoked world)
      (thread : Thread σ) :
      Counts task (runs + if Moment.runs? ⟨world, thread⟩ = some task then 1 else 0)
        (invoked + if Moment.invokes? ⟨world, thread⟩ = some task then 1 else 0) (thread.step world).world
  | aside {runs invoked : Nat} {world after : World σ} (prior : Counts task runs invoked world)
      (keeps : world.Keeps after) : Counts task runs invoked after

namespace World

variable {world after : World σ} {task : TaskIndex} {runs invoked : Nat}

def ClosureAt (world : World σ) (task : TaskIndex) : Prop :=
  ∀ code, world.code[task]? = some code → ∃ script, code.work = .closure script

theorem Opens.closureAt {opened : Option TaskIndex} (opens : world.Opens opened after)
    (closure : after.ClosureAt task) : world.ClosureAt task :=
  fun code hcode => closure code (opens.code task code hcode)

/-- A closure is invoked by the next step if that runs its task and the closure has not been taken. -/
theorem ClosureAt.invokes?_iff (closure : world.ClosureAt task) (thread : Thread σ) :
    Moment.invokes? ⟨world, thread⟩ = some task ↔
      Moment.runs? ⟨world, thread⟩ = some task ∧ world.engine.isTaken task = false := by
  have hentered (hruns : Moment.runs? ⟨world, thread⟩ = some task) : ∃ frames script,
      Moment.Enters ⟨world, thread⟩ task frames ∧
        world.code[task]?.map Code.work = some (.closure script) := by
    obtain ⟨hcontrol, hknown⟩ := Option.filter_eq_some_iff.mp hruns
    have hcode := Array.getElem?_eq_getElem (of_decide_eq_true hknown)
    obtain ⟨frames, henters⟩ := Moment.exists_enters hcontrol
    obtain ⟨script, hclosure⟩ := closure _ hcode
    exact ⟨frames, script, henters, Option.map_eq_some_iff.mpr ⟨_, hcode, hclosure⟩⟩
  refine ⟨fun hinvokes => ?_, fun ⟨hruns, huntaken⟩ => ?_⟩
  · have hruns : Moment.runs? ⟨world, thread⟩ = some task := by
      rw [Moment.invokes?] at hinvokes
      split at hinvokes
      · exact hinvokes
      · cases hinvokes
    obtain ⟨frames, script, henters, hwork⟩ := hentered hruns
    refine ⟨hruns, Bool.eq_false_iff.mpr fun htaken => ?_⟩
    rw [henters.invokes?_of_stack (henters.stack_of_taken hwork htaken)] at hinvokes
    cases hinvokes
  · obtain ⟨frames, script, henters, hwork⟩ := hentered hruns
    exact henters.invokes?_of_untaken hwork huntaken

/-- The closure of a task has been invoked once if the task has been run, and not otherwise. It is marked as
taken from the first run on. -/
theorem Counts.mark (counts : world.Counts task runs invoked) : world.Paired ∧
    (world.ClosureAt task → invoked = min runs 1 ∧ world.engine.isTaken task = decide (0 < runs)) := by
  induction counts with
  | begin fresh untaken => exact ⟨fresh.paired, fun _ => ⟨rfl, untaken⟩⟩
  | @step runs invoked world prior thread ih =>
    obtain ⟨paired, ih⟩ := ih
    have hopens := Moment.next_opens ⟨world, thread⟩ paired
    refine ⟨hopens.paired paired, fun closure => ?_⟩
    have hbefore := hopens.closureAt closure
    obtain ⟨hinvoked, htaken⟩ := ih hbefore
    have hiff := hbefore.invokes?_iff thread
    have hafter : (thread.step world).world.engine.isTaken task = _ := hopens.taken task
    by_cases hruns : Moment.runs? ⟨world, thread⟩ = some task
    · have hmarked : decide (0 < runs + 1) = true := decide_eq_true (Nat.succ_pos runs)
      rw [hafter, if_pos hruns, hmarked]
      cases hmark : world.engine.isTaken task with
      | true =>
        have hpos : 0 < runs := of_decide_eq_true (htaken.symm.trans hmark)
        have hinvokes : ¬ Moment.invokes? ⟨world, thread⟩ = some task := by
          intro h
          cases hmark.symm.trans (hiff.mp h).2
        rw [if_neg hinvokes, if_neg hinvokes]
        exact ⟨by omega, rfl⟩
      | false =>
        have hzero : ¬ 0 < runs := of_decide_eq_false (htaken.symm.trans hmark)
        have hinvokes : Moment.invokes? ⟨world, thread⟩ = some task := hiff.mpr ⟨hruns, hmark⟩
        rw [if_pos hinvokes, if_pos hinvokes]
        exact ⟨by omega, rfl⟩
    · have hinvokes : ¬ Moment.invokes? ⟨world, thread⟩ = some task := fun h => hruns (hiff.mp h).1
      rw [hafter, if_neg hruns, if_neg hinvokes, if_neg hinvokes]
      exact ⟨hinvoked, htaken⟩
  | aside prior keeps ih =>
    obtain ⟨paired, ih⟩ := ih
    refine ⟨keeps.paired paired, fun closure => ?_⟩
    rw [keeps.isTaken_eq task]
    exact ih (keeps.closureAt closure)

end World

end Dispatch
