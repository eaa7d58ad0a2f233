import Dispatch.Proofs.Drain
import Mathlib.Algebra.GroupWithZero.Nat

/-!
# The statistics tell what the chronicle tells

Every counter is raised where the chronicle is continued with the occurrence that it counts, and nowhere
else, so the statistics are those of the chronicle (`Engine.Honest`). An execution that has been called for
is counted as finished when its release is over; until then it is under way in the thread
(`Thread.executions`). Both are read off the steps once, as `Engine.GoesOn`.
-/

namespace Dispatch

variable {σ : Type}

def Stats.count (stats : Stats) : Occurrence → Stats
  | .submitted _ => stats.countScheduled
  | .executed _ => stats.countExecuted
  | .failed .. => stats.countFailed
  | .waiting .. | .retried _ => stats.countContention
  | .requeued _ => stats.countRequeue
  | .workerParked _ => stats.countPark
  | .started .. | .shuttingDown _ | .enqueued .. | .dequeued .. | .moved .. | .claimed ..
  | .handedOut _ | .released .. | .releaseFailed .. | .requeueRefused .. | .opened _
  | .releaseRefused .. | .reported .. | .unheard .. | .handlerPanicked .. | .initializerPanicked ..
  | .workerStarted _ | .workerStopped _ => stats

/-- Whether an occurrence neither ends an execution nor belongs to a release or to the report of a
failure. -/
def Occurrence.isIncidental : Occurrence → Bool
  | released .. | executed _ | failed .. | reported .. => false
  | started .. | shuttingDown _ | submitted _ | enqueued .. | dequeued .. | moved .. | claimed ..
  | retried _ | waiting .. | handedOut _ | releaseFailed .. | requeued _ | requeueRefused .. | opened _
  | releaseRefused .. | unheard .. | handlerPanicked .. | initializerPanicked .. | workerStarted _
  | workerParked _ | workerStopped _ => true

theorem Stats.finished_count {occurrence : Occurrence} (h : occurrence.isIncidental = true)
    (stats : Stats) : (stats.count occurrence).finished = stats.finished := by
  cases occurrence <;> first | rfl | cases h

def tally : List Occurrence → Stats
  | [] => {}
  | occurrence :: earlier => (tally earlier).count occurrence

namespace Engine

def Honest (engine : Engine) : Prop :=
  engine.stats = tally engine.chronicle

theorem Honest.cons {engine after : Engine} (h : engine.Honest) {occurrence : Occurrence}
    (hstats : after.stats = engine.stats.count occurrence)
    (hchronicle : after.chronicle = occurrence :: engine.chronicle) : after.Honest := by
  rw [Honest, hstats, hchronicle, tally, ← h]

/-- The second engine is the first after occurrences that have been counted, and no execution has ended
meanwhile. -/
structure Continues (engine after : Engine) : Prop where
  honest : engine.Honest → after.Honest
  finished : after.stats.finished = engine.stats.finished

namespace Continues

variable {engine middle after : Engine}

theorem refl (engine : Engine) : engine.Continues engine := ⟨id, rfl⟩

theorem trans (first : engine.Continues middle) (second : middle.Continues after) :
    engine.Continues after :=
  ⟨fun h => second.honest (first.honest h), second.finished.trans first.finished⟩

theorem of_eq (hstats : after.stats = engine.stats) (hchronicle : after.chronicle = engine.chronicle) :
    engine.Continues after := by
  refine ⟨fun h => ?_, by rw [hstats]⟩
  rw [Honest, hstats, hchronicle]
  exact h

theorem of_cons (occurrence : Occurrence) (hstats : after.stats = engine.stats.count occurrence)
    (hchronicle : after.chronicle = occurrence :: engine.chronicle)
    (hfinished : (engine.stats.count occurrence).finished = engine.stats.finished) :
    engine.Continues after :=
  ⟨fun h => h.cons hstats hchronicle, by rw [hstats, hfinished]⟩

end Continues

/-! ### What goes on between executions -/

/-- The second engine is the first after incidental occurrences, all of which have been counted. -/
def Proceeds (engine after : Engine) : Prop :=
  ∃ news, after.chronicle = news ++ engine.chronicle ∧
    after.stats = news.foldr (fun occurrence stats => stats.count occurrence) engine.stats ∧
    ∀ occurrence ∈ news, occurrence.isIncidental = true

namespace Proceeds

variable {engine middle after : Engine} {task : TaskIndex}

theorem refl (engine : Engine) : engine.Proceeds engine :=
  ⟨[], rfl, rfl, fun _ hmem => absurd hmem List.not_mem_nil⟩

theorem trans (first : engine.Proceeds middle) (second : middle.Proceeds after) :
    engine.Proceeds after := by
  obtain ⟨news, hnews, hstats, hincidental⟩ := first
  obtain ⟨later, hlater, hstats', hincidental'⟩ := second
  refine ⟨later ++ news, ?_, ?_, fun occurrence hmem => ?_⟩
  · rw [hlater, hnews, List.append_assoc]
  · rw [hstats', hstats, List.foldr_append]
  · rcases List.mem_append.mp hmem with hmem | hmem
    · exact hincidental' occurrence hmem
    · exact hincidental occurrence hmem

theorem of_eq (hstats : after.stats = engine.stats) (hchronicle : after.chronicle = engine.chronicle) :
    engine.Proceeds after :=
  ⟨[], hchronicle, hstats, fun _ hmem => absurd hmem List.not_mem_nil⟩

theorem of_cons (occurrence : Occurrence) (hstats : after.stats = engine.stats.count occurrence)
    (hchronicle : after.chronicle = occurrence :: engine.chronicle)
    (hincidental : occurrence.isIncidental = true) : engine.Proceeds after :=
  ⟨[occurrence], hchronicle, hstats, by simpa using hincidental⟩

/-- What one incidental occurrence preserves, any number of them do. -/
theorem preserves {Inv : Engine → Prop} (proceeds : engine.Proceeds after)
    (start : ∀ after : Engine, after.stats = engine.stats → after.chronicle = engine.chronicle → Inv after)
    (step : ∀ (middle after : Engine) (occurrence : Occurrence), occurrence.isIncidental = true →
      after.stats = middle.stats.count occurrence → after.chronicle = occurrence :: middle.chronicle →
      Inv middle → Inv after) : Inv after := by
  obtain ⟨news, hchronicle, hstats, hincidental⟩ := proceeds
  induction news generalizing after with
  | nil => exact start after hstats hchronicle
  | cons occurrence news ih =>
    let before := { engine with
      chronicle := news ++ engine.chronicle
      stats := news.foldr (fun occurrence stats => stats.count occurrence) engine.stats }
    have hbefore : Inv before :=
      ih rfl rfl fun other hmem => hincidental other (List.mem_cons_of_mem _ hmem)
    have hlast : occurrence.isIncidental = true := hincidental occurrence List.mem_cons_self
    exact step before after occurrence hlast hstats hchronicle hbefore

/-- Where no execution ends the statistics go on with the chronicle. -/
theorem continues (proceeds : engine.Proceeds after) : engine.Continues after := by
  refine proceeds.preserves (fun after => .of_eq) fun middle after occurrence hlast hstats hchronicle ih => ?_
  exact ih.trans (.of_cons occurrence hstats hchronicle (Stats.finished_count hlast middle.stats))

theorem schedule (ok : engine.schedule task = .ok after) : engine.Proceeds after := by
  obtain ⟨queue, -, rfl⟩ := schedule_ok ok
  have henqueued : engine.Proceeds
      ({ engine with queue }.record (.enqueued task (engine.priority task))) :=
    .of_cons _ rfl rfl rfl
  exact henqueued.trans (.of_cons (.submitted task) rfl rfl rfl)

theorem shutDown (engine : Engine) : engine.Proceeds engine.shutDown := by
  rw [Engine.shutDown]
  split
  · exact .refl engine
  · exact .of_cons _ rfl rfl rfl

end Proceeds

/-- The second engine is the first after incidental occurrences. Meanwhile no task has been accepted, and
the engine has not been shut down. -/
structure Tells (engine after : Engine) : Prop where
  proceeds : engine.Proceeds after
  halted : after.halted = engine.halted
  unsubmitted : submissions after.chronicle = submissions engine.chronicle

namespace Tells

variable {engine middle after : Engine} {task : TaskIndex}

theorem refl (engine : Engine) : engine.Tells engine := ⟨.refl engine, rfl, rfl⟩

theorem trans (first : engine.Tells middle) (second : middle.Tells after) : engine.Tells after :=
  ⟨first.proceeds.trans second.proceeds, second.halted.trans first.halted,
    second.unsubmitted.trans first.unsubmitted⟩

theorem of_eq (hstats : after.stats = engine.stats) (hchronicle : after.chronicle = engine.chronicle)
    (hhalted : after.halted = engine.halted) : engine.Tells after :=
  ⟨.of_eq hstats hchronicle, hhalted, congrArg submissions hchronicle⟩

theorem of_cons (occurrence : Occurrence) (hstats : after.stats = engine.stats.count occurrence)
    (hchronicle : after.chronicle = occurrence :: engine.chronicle)
    (hhalted : after.halted = engine.halted) (hincidental : occurrence.isIncidental = true)
    (hunsubmitted : occurrence.submission? = none) : engine.Tells after :=
  ⟨.of_cons occurrence hstats hchronicle hincidental, hhalted,
    (congrArg submissions hchronicle).trans (List.filterMap_cons_none hunsubmitted)⟩

theorem requeue {fault : Option Fault} (answer : engine.requeue task = (fault, after)) :
    engine.Tells after := by
  cases fault with
  | none =>
    obtain ⟨queue, -, rfl⟩ := requeue_none answer
    have henqueued : engine.Tells
        ({ engine with queue }.record (.enqueued task (engine.priority task))) :=
      .of_cons _ rfl rfl rfl rfl rfl
    exact henqueued.trans (.of_cons (.requeued task) rfl rfl rfl rfl rfl)
  | some fault =>
    obtain rfl := requeue_some answer
    exact .of_cons _ rfl rfl rfl rfl rfl

theorem applyPriority {moved : Bool} (ok : engine.applyPriority task = .ok (moved, after)) :
    engine.Tells after := by
  obtain ⟨source, queue, -, rfl | ⟨level, rfl⟩⟩ := applyPriority_ok ok
  · exact .of_eq rfl rfl rfl
  · exact .of_cons _ rfl rfl rfl rfl rfl

/-! ### Claims and searches -/

theorem attempt (engine : Engine) (task : TaskIndex) (tokens : List Token) (list : ListIndex) :
    engine.Tells (engine.attempt task tokens list).engine := by
  generalize hadmission : engine.attempt task tokens list = admission
  cases admission with
  | acquired after =>
    obtain ⟨table, -, rfl⟩ := attempt_acquired hadmission
    exact .of_cons _ rfl rfl rfl rfl rfl
  | waiting after =>
    obtain ⟨holder, table, lists, -, -, rfl⟩ := attempt_waiting hadmission
    exact .of_cons (.waiting task holder) rfl rfl rfl rfl rfl
  | refused after own =>
    obtain ⟨rfl, holder, table, -, -, rfl⟩ := attempt_refused hadmission
    exact .of_cons (.retried task) rfl rfl rfl rfl rfl

theorem claimTokens (engine : Engine) (task : TaskIndex) :
    engine.Tells (engine.claimTokens task).engine := by
  rcases claimTokens_cases engine task with ⟨-, hclaim⟩ | ⟨-, hclaim⟩
  · rw [hclaim]
    exact .refl engine
  · have hmade : engine.Tells { engine with lists := engine.lists.make.2 } := .of_eq rfl rfl rfl
    rw [hclaim]
    exact hmade.trans (attempt _ task _ _)

theorem serve (engine : Engine) (queue : PriorityQueue TaskIndex) (task : TaskIndex) (level : Nat) :
    engine.Tells ((engine.serve queue task level).claimTokens task).engine := by
  have hserved : engine.Tells (engine.serve queue task level) :=
    .of_cons (.dequeued task level) rfl rfl rfl rfl rfl
  exact hserved.trans (claimTokens _ task)

theorem skips (skips : engine.Skips after) : engine.Tells after := by
  induction skips with
  | refl => exact .refl engine
  | @tail middle after queue task level _ _ waits ih =>
    have hclaimed := serve middle queue task level
    rw [waits] at hclaimed
    exact ih.trans hclaimed

theorem poll (engine : Engine) : engine.Tells engine.poll.engine := by
  generalize hpoll : engine.poll = poll
  cases hpoll ▸ sought_poll engine with
  | @found middle _ queue task level hskips _ claims =>
    have hclaimed := serve middle queue task level
    rw [claims] at hclaimed
    exact ((skips hskips).trans hclaimed).trans (.of_cons (.handedOut task) rfl rfl rfl rfl rfl)
  | exhausted hskips => exact (skips hskips).trans (.of_eq rfl rfl rfl)
  | abandoned hskips => exact skips hskips
  | @refused middle _ queue task level _ hskips _ refuses =>
    have hclaimed := serve middle queue task level
    rw [refuses] at hclaimed
    exact (skips hskips).trans hclaimed

end Tells

end Engine

/-! ### Executions -/

def Script.executions : Script σ → Nat
  | execute .. => 1
  | stop _ | remember .. | «recall» _ | attempt .. | schedule .. | submit .. | poll _ | claim ..
  | releaseFor .. | release _ | atHand _ | run .. | withHandle .. | report .. | setPriority ..
  | setTokens .. | applyPriority .. | shutDown _ | join _ | signal .. | await .. | rest .. | whoAmI _ =>
    0

def AfterRelease.executions : AfterRelease σ → Nat
  | execution .. => 1
  | answer .. | closureEnd => 0

/-- The number of executions that go on after a call and have not been counted. -/
def Frame.executions : Frame σ → Nat
  | working .. => 1
  | rejecting _ own => own.after.executions
  | resume .. | attempting .. | running .. | holding .. | reporting .. | closing _ => 0

def Control.executions : Control σ → Nat
  | freeing own => own.after.executions
  | script .. | claiming .. | joining .. | resting .. => 0

def Control.calls : Control σ → Nat
  | script _ next => next.executions
  | freeing _ | claiming .. | joining .. | resting .. => 0

namespace Thread

def called (thread : Thread σ) : Nat :=
  (thread.stack.map Frame.executions).sum

/-- The number of executions that are under way and have not been counted. -/
def executions (thread : Thread σ) : Nat :=
  thread.called + thread.control.executions

end Thread

/-- An engine goes on: its statistics stay those of its chronicle, and of the executions that are due
every one ends or is under way. -/
structure Engine.GoesOn (engine : Engine) (due : Nat) (world : World σ) (thread : Thread σ) :
    Prop where
  honest : engine.Honest → world.engine.Honest
  executions : world.engine.stats.finished + thread.executions = engine.stats.finished + due

namespace Engine.GoesOn

variable {engine middle : Engine} {due : Nat} {world : World σ} {thread : Thread σ}

/-- Where no execution ends, those that are due are under way. -/
theorem of_continues (continues : engine.Continues world.engine) (hdue : thread.executions = due) :
    engine.GoesOn due world thread :=
  ⟨continues.honest, by rw [continues.finished, hdue]⟩

theorem head (continues : engine.Continues middle) (goesOn : middle.GoesOn due world thread) :
    engine.GoesOn due world thread :=
  ⟨fun h => goesOn.honest (continues.honest h), goesOn.executions.trans (by rw [continues.finished])⟩

/-- Where an execution ends, one less is due. -/
theorem counted (middle : Engine) (occurrence : Occurrence)
    (hstats : middle.stats = engine.stats.count occurrence)
    (hchronicle : middle.chronicle = occurrence :: engine.chronicle)
    (hfinished : (engine.stats.count occurrence).finished = engine.stats.finished + 1)
    (goesOn : middle.GoesOn due world thread) : engine.GoesOn (due + 1) world thread := by
  refine ⟨fun h => goesOn.honest (h.cons hstats hchronicle), ?_⟩
  rw [goesOn.executions, hstats, hfinished]
  omega

end Engine.GoesOn

namespace Thread

open Engine (Continues GoesOn Proceeds Tells)

variable {world : World σ} {thread : Thread σ}

theorem called_cons (thread : Thread σ) (frame : Frame σ) :
    called { thread with stack := frame :: thread.stack } = frame.executions + thread.called :=
  List.sum_cons

theorem executions_calling (thread : Thread σ) (frame : Frame σ) (control : Control σ) :
    (thread.calling frame control).executions =
      frame.executions + thread.called + control.executions := by
  rw [executions, ← called_cons]
  rfl

/-! ### The parts of a step -/

theorem deliver_continues (world : World σ) (task : TaskIndex) (failure : Failure) :
    world.engine.Continues (deliver world task failure).1.engine := by
  have hreported : world.engine.Continues (world.engine.record (.reported task failure)) :=
    .of_cons _ rfl rfl rfl
  rw [deliver]
  split
  · exact hreported
  · exact hreported.trans (.of_cons _ rfl rfl rfl)

theorem deliver_executions (world : World σ) (task : TaskIndex) (failure : Failure) :
    (deliver world task failure).2.executions = 0 := by
  obtain ⟨script, hscript⟩ := deliver_control world task failure
  rw [hscript]
  rfl

/-- An execution that ends is counted. -/
theorem finishExecution_goesOn (world : World σ) (thread : Thread σ) (worker : Nat) (task : TaskIndex)
    (failure : Option Failure) : world.engine.GoesOn (thread.called + 1)
      (finishExecution world thread worker task failure).1
      (finishExecution world thread worker task failure).2 := by
  cases failure with
  | none =>
    refine .counted _ (.executed task) rfl rfl ?_ (.of_continues (.refl _) rfl)
    show world.engine.stats.executed + 1 + world.engine.stats.failed =
      world.engine.stats.executed + world.engine.stats.failed + 1
    omega
  | some failure =>
    let counted := { world.engine with stats := world.engine.stats.countFailed }.record
      (.failed worker task failure)
    refine .counted counted (.failed worker task failure) rfl rfl rfl ?_
    refine .of_continues (deliver_continues { world with engine := counted } task failure) ?_
    rw [finishExecution, executions_calling, deliver_executions]
    exact Nat.zero_add _

theorem finishRelease_goesOn (world : World σ) (thread : Thread σ) (after : AfterRelease σ)
    (outcome : Except Fault Unit) : world.engine.GoesOn (thread.called + after.executions)
      (finishRelease world thread after outcome).1 (finishRelease world thread after outcome).2 := by
  cases after with
  | answer handle next => exact .of_continues (.refl _) rfl
  | closureEnd => cases outcome <;> exact .of_continues (.refl _) rfl
  | execution worker task failure =>
    cases outcome with
    | ok done => exact finishExecution_goesOn world thread worker task failure
    | error fault =>
      let refused := world.engine.record (.releaseRefused worker task failure fault)
      have hrefused : world.engine.Continues refused := .of_cons _ rfl rfl rfl
      exact .head hrefused
        (finishExecution_goesOn { world with engine := refused } thread worker task _)

theorem beginRelease_goesOn (world : World σ) (thread : Thread σ) (task : TaskIndex)
    (handle : Option HandleIndex) (after : AfterRelease σ) :
    world.engine.GoesOn (thread.called + after.executions)
      (beginRelease world thread task handle after).1
      (beginRelease world thread task handle after).2 :=
  .of_continues (.of_cons _ rfl rfl rfl) rfl

theorem releaseThrough_goesOn (world : World σ) (thread : Thread σ) (handle : HandleIndex)
    (after : AfterRelease σ) : world.engine.GoesOn (thread.called + after.executions)
      (releaseThrough world thread handle after).1 (releaseThrough world thread handle after).2 := by
  rw [releaseThrough]
  split
  · exact finishRelease_goesOn world thread after (.ok ())
  · next held _ =>
    split
    · exact finishRelease_goesOn world thread after (.ok ())
    · let handles := world.handles.setIfInBounds handle { held with released := true }
      exact beginRelease_goesOn { world with handles } thread held.task (some handle) after

theorem beginWork_goesOn (world : World σ) (thread : Thread σ) (task : TaskIndex)
    (handle : HandleIndex) : world.engine.GoesOn thread.called
      (beginWork world thread task handle).1 (beginWork world thread task handle).2 := by
  rw [beginWork]
  split
  · exact .of_continues (.refl _) rfl
  · exact .of_continues (.refl _) rfl
  · split
    · exact releaseThrough_goesOn world thread handle .closureEnd
    · refine .of_continues (.of_cons (.opened task) rfl rfl rfl) ?_
      rw [executions_calling]
      exact Nat.zero_add _

theorem finish_goesOn (world : World σ) (thread : Thread σ) (ending : Ending) (frame : Frame σ) :
    world.engine.GoesOn (thread.called + frame.executions)
      (finish world thread ending frame).1 (finish world thread ending frame).2 := by
  cases frame with
  | resume handle next => cases ending <;> exact .of_continues (.refl _) rfl
  | attempting handle next => exact .of_continues (.refl _) rfl
  | running handle own next => cases ending <;> exact .of_continues (.refl _) rfl
  | holding handle own next => cases ending <;> exact .of_continues (.refl _) rfl
  | working worker task own =>
    exact releaseThrough_goesOn world thread own (.execution worker task (Failure.ofEnding? ending))
  | reporting worker task =>
    cases ending with
    | panicked payload => exact .of_continues (.of_cons _ rfl rfl rfl) rfl
    | normal | failed _ => exact .of_continues (.refl _) rfl
  | closing own =>
    cases ending with
    | normal => exact releaseThrough_goesOn world thread own .closureEnd
    | failed _ | panicked _ => exact .of_continues (.refl _) rfl
  | rejecting task freeing =>
    cases ending with
    | panicked payload => exact .of_continues (.of_cons _ rfl rfl rfl) rfl
    | normal | failed _ => exact .of_continues (.refl _) rfl

theorem stepFreeing_goesOn (world : World σ) (thread : Thread σ) (freeing : Freeing σ) :
    world.engine.GoesOn (thread.called + freeing.after.executions)
      (stepFreeing world thread freeing).1 (stepFreeing world thread freeing).2 := by
  rw [stepFreeing]
  split
  · next task waiters hwaiters =>
    dsimp only
    split
    · next engine hrequeue => exact .of_continues (Tells.requeue hrequeue).proceeds.continues rfl
    · next fault engine hrequeue =>
      have hrequeued : world.engine.Continues engine := (Tells.requeue hrequeue).proceeds.continues
      refine .of_continues (hrequeued.trans (deliver_continues { world with engine } task _)) ?_
      rw [executions_calling, deliver_executions]
      exact Nat.add_comm freeing.after.executions thread.called
  · next hwaiters =>
    split
    · next list lists hlists => exact .of_continues (.of_eq rfl rfl) rfl
    · next hlists =>
      refine .head ?_ (finishRelease_goesOn _ thread freeing.after freeing.outcome)
      split
      · exact .refl _
      · exact .of_cons _ rfl rfl rfl

theorem afterPoll_goesOn (world : World σ) (thread : Thread σ) (handle : Option HandleIndex)
    (next : Option TaskIndex → Script σ) (poll : Poll) (continues : world.engine.Continues poll.engine) :
    world.engine.GoesOn thread.called (afterPoll world thread handle next poll).world
      (afterPoll world thread handle next poll).thread := by
  cases poll <;> exact .of_continues continues rfl

theorem afterAttempt_goesOn (world : World σ) (thread : Thread σ) (handle : Option HandleIndex)
    (task : TaskIndex) (after : AfterClaim σ) (admission : Admission)
    (continues : world.engine.Continues admission.engine) :
    world.engine.GoesOn thread.called (afterAttempt world thread handle task after admission).world
      (afterAttempt world thread handle task after admission).thread := by
  cases admission with
  | acquired engine =>
    cases after with
    | answer next => exact .of_continues continues rfl
    | poll next => exact .of_continues (.trans continues (.of_cons _ rfl rfl rfl)) rfl
  | waiting engine =>
    cases after with
    | answer next => exact .of_continues continues rfl
    | poll next =>
      have hpolled := continues.trans (Tells.poll engine).proceeds.continues
      exact afterPoll_goesOn world thread handle next engine.poll hpolled
  | refused engine list => exact .of_continues continues rfl

theorem stepScript_goesOn (world : World σ) {thread : Thread σ} {handle : Option HandleIndex}
    (script : Script σ) (hcontrol : thread.control = .script handle script) :
    world.engine.GoesOn (thread.executions + script.executions)
      (stepScript world thread handle script).world
      (stepScript world thread handle script).thread := by
  have hcalled : thread.executions = thread.called := by
    rw [executions, hcontrol]
    rfl
  have hstays (world : World σ) : world.engine.GoesOn thread.called world thread :=
    .of_continues (.refl _) hcalled
  rw [hcalled]
  cases script with
  | stop ending =>
    rw [stepScript]
    split
    · exact hstays world
    · next frame stack hstack =>
      have hframe : thread.called = called { thread with stack } + frame.executions := by
        rw [called, hstack, List.map_cons, List.sum_cons, Nat.add_comm]
        rfl
      rw [hframe]
      exact finish_goesOn world { thread with stack } ending frame
  | remember change next => exact .of_continues (.refl _) rfl
  | «recall» next => exact .of_continues (.refl _) rfl
  | attempt body next =>
    exact .of_continues (.refl _) ((executions_calling thread _ _).trans (Nat.zero_add _))
  | schedule task next =>
    rw [stepScript]
    split
    · next engine hschedule => exact .of_continues (Proceeds.schedule hschedule).continues rfl
    · exact .of_continues (.refl _) rfl
  | submit priority closure next =>
    rw [stepScript]
    dsimp only
    have hmade : world.engine.Continues
        (world.addClosure { priority } { work := .closure closure }).2.engine :=
      .of_eq rfl rfl
    split
    · next engine hschedule => exact .of_continues (hmade.trans (Proceeds.schedule hschedule).continues) rfl
    · exact .of_continues hmade rfl
  | poll next => exact afterPoll_goesOn world thread handle next _ (Tells.poll _).proceeds.continues
  | claim task next =>
    have hclaimed := (Tells.claimTokens world.engine task).proceeds.continues
    rw [stepScript]
    generalize world.engine.claimTokens task = admission at hclaimed ⊢
    cases admission <;> exact .of_continues hclaimed rfl
  | releaseFor task next =>
    exact beginRelease_goesOn world thread task none (.answer handle next)
  | release next =>
    cases handle with
    | none => exact .of_continues (.refl _) rfl
    | some own => exact releaseThrough_goesOn world thread own (.answer (some own) next)
  | atHand next => exact .of_continues (.refl _) rfl
  | run task next =>
    have hwork := beginWork_goesOn (world.makeHandle task).2
      { thread with stack := .running handle (world.makeHandle task).1 next :: thread.stack } task
      (world.makeHandle task).1
    rw [called_cons, Frame.executions, Nat.zero_add] at hwork
    exact hwork
  | execute worker task next =>
    let resumed := { thread with stack := .resume handle next :: thread.stack }
    have hwork := beginWork_goesOn (world.makeHandle task).2
      { resumed with stack := .working worker task (world.makeHandle task).1 :: resumed.stack } task
      (world.makeHandle task).1
    rw [called_cons, called_cons, Frame.executions, Frame.executions, Nat.zero_add,
      Nat.add_comm] at hwork
    exact hwork
  | withHandle task body next =>
    exact .of_continues (.refl _) ((executions_calling thread _ _).trans (Nat.zero_add _))
  | report task failure next =>
    refine .of_continues (deliver_continues world task failure) ?_
    show (thread.calling _ (deliver world task failure).2).executions = _
    rw [executions_calling, deliver_executions]
    exact Nat.zero_add _
  | setPriority task priority next => exact .of_continues (.of_eq rfl rfl) rfl
  | setTokens task tokens next => exact .of_continues (.of_eq rfl rfl) rfl
  | applyPriority task next =>
    rw [stepScript]
    split
    · next moved engine hmove => exact .of_continues (Tells.applyPriority hmove).proceeds.continues rfl
    · exact .of_continues (.refl _) rfl
  | shutDown next => exact .of_continues (Proceeds.shutDown world.engine).continues rfl
  | join next => exact .of_continues (.refl _) rfl
  | signal name next => exact .of_continues (.refl _) rfl
  | await name next =>
    rw [stepScript]
    split
    · exact .of_continues (.refl _) rfl
    · exact hstays world
  | rest worker next =>
    rw [stepScript]
    split
    · exact .of_continues (.refl _) rfl
    · exact .of_continues (.of_cons (.workerParked worker) rfl rfl rfl) rfl
  | whoAmI next => exact .of_continues (.refl _) rfl

/-- Every step goes on so, and one that calls for an execution adds it to those that are due. -/
theorem step_goesOn (world : World σ) (thread : Thread σ) :
    world.engine.GoesOn (thread.executions + thread.control.calls) (thread.step world).world
      (thread.step world).thread := by
  rw [step]
  cases hcontrol : thread.control with
  | script handle script =>
    exact stepScript_goesOn world script hcontrol
  | freeing freeing =>
    rw [executions, hcontrol]
    exact stepFreeing_goesOn world thread freeing
  | claiming handle task list after =>
    rw [executions, hcontrol]
    exact afterAttempt_goesOn world thread handle task after _ (Tells.attempt _ _ _ _).proceeds.continues
  | joining handle workers next =>
    have hcalled : thread.executions = thread.called := by
      rw [executions, hcontrol]
      rfl
    dsimp only
    rw [hcalled]
    split
    · exact .of_continues (.refl _) rfl
    · exact .of_continues (.refl _) hcalled
  | resting handle worker next =>
    have hcalled : thread.executions = thread.called := by
      rw [executions, hcontrol]
      rfl
    dsimp only
    rw [hcalled]
    split
    · exact .of_continues (.of_eq rfl rfl) rfl
    · exact .of_continues (.refl _) hcalled

end Thread

/-! ### Counted runs -/

/-- The moments of the runs that take allowed steps only, with the number of executions called for. -/
inductive Ran (allowed : Moment σ → Prop) : Nat → Moment σ → Prop
  | begin {world : World σ} (fresh : world.Fresh) (worker : Option Nat) (script : Script σ) :
      Ran allowed 0 ⟨world, .ofScript worker script⟩
  | step {calls : Nat} {moment : Moment σ} (prior : Ran allowed calls moment) (ok : allowed moment) :
      Ran allowed (calls + moment.thread.control.calls) moment.next
  | again {calls : Nat} {moment : Moment σ} (prior : Ran allowed calls moment) (ended : moment.Over)
      (worker : Option Nat) (script : Script σ) :
      Ran allowed calls ⟨moment.world, .ofScript worker script⟩

def Moment.calls (moment : Moment σ) : Nat → Nat
  | 0 => 0
  | n + 1 => moment.calls n + (moment.after n).thread.control.calls

/-- Of the executions that were under way, or have been called for since, every one has ended or is under
way. -/
theorem Moment.finished_after (moment : Moment σ) (n : Nat) :
    (moment.after n).engine.stats.finished + (moment.after n).thread.executions =
      moment.engine.stats.finished + moment.thread.executions + moment.calls n := by
  induction n with
  | zero => rfl
  | succ n ih =>
    have hstep := Thread.step_goesOn (moment.after n).world (moment.after n).thread
    have hexecutions : (moment.after (n + 1)).engine.stats.finished +
        (moment.after (n + 1)).thread.executions = (moment.after n).engine.stats.finished +
          ((moment.after n).thread.executions + (moment.after n).thread.control.calls) := hstep.executions
    rw [Moment.calls]
    omega

namespace Ran

variable {allowed : Moment σ → Prop} {calls : Nat} {moment : Moment σ}

theorem reached (ran : Ran allowed calls moment) : Reached allowed moment := by
  induction ran with
  | begin fresh worker script => exact .begin fresh worker script
  | step _ ok ih => exact .step ih ok
  | again _ ended worker script ih => exact .again ih ended worker script

theorem steps {n : Nat} (ran : Ran allowed calls moment) (ok : ∀ k < n, allowed (moment.after k)) :
    Ran allowed (calls + moment.calls n) (moment.after n) := by
  induction n with
  | zero => exact ran
  | succ n ih =>
    rw [Moment.calls, ← Nat.add_assoc]
    exact .step (ih fun k hk => ok k (Nat.lt_succ_of_lt hk)) (ok n (Nat.lt_succ_self n))

/-- The statistics are those of the chronicle, and every execution that was called for has ended or is
under way. -/
theorem balance (ran : Ran allowed calls moment) : moment.engine.Honest ∧
    moment.engine.stats.finished + moment.thread.executions = calls := by
  induction ran with
  | begin fresh worker script =>
    obtain ⟨workers, levels, hchronicle⟩ := fresh.blank.chronicle
    refine ⟨?_, ?_⟩
    · rw [Engine.Honest, Moment.engine, hchronicle, fresh.unused.stats]
      rfl
    · rw [Moment.engine, fresh.unused.stats]
      rfl
  | @step calls moment _ ok ih =>
    have hstep := Thread.step_goesOn moment.world moment.thread
    refine ⟨hstep.honest ih.1, ?_⟩
    have hexecutions := hstep.executions
    rw [← ih.2, Nat.add_assoc]
    exact hexecutions
  | @again calls moment _ ended worker script ih =>
    obtain ⟨⟨handle, ending, hcontrol⟩, hstack⟩ := ended
    rw [Thread.executions, Thread.called, hcontrol, hstack] at ih
    exact ih

end Ran

end Dispatch
