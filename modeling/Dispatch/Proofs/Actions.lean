import Dispatch.Proofs.Tally
import Mathlib.Logic.Relation

/-!
# What the steps of threads do to the engine

Whatever a step does to the engine is made of a few actions (`Engine.Act`): it goes on with what it has under
way, tells of something, accepts a task, makes one known, changes what is known of one, or shuts the engine
down. Tasks are accepted, and their priorities set, only when a script asks for it. That every step of every
thread is made of such actions is said once (`Thread.step_acts`); what each action preserves is then preserved
by all steps.
-/

namespace Dispatch

variable {σ : Type}

namespace Engine

section Known

variable {engine after : Engine} {task : TaskIndex}

/-! ### What is known of the tasks -/

theorem tasks_of_requeue {fault : Option Fault} (answer : engine.requeue task = (fault, after)) :
    after.tasks = engine.tasks := by
  cases fault with
  | none =>
    obtain ⟨queue, -, rfl⟩ := requeue_none answer
    rfl
  | some fault =>
    obtain rfl := requeue_some answer
    rfl

theorem tasks_of_applyPriority {moved : Bool} (ok : engine.applyPriority task = .ok (moved, after)) :
    after.tasks = engine.tasks := by
  obtain ⟨source, queue, -, rfl | ⟨level, rfl⟩⟩ := applyPriority_ok ok <;> rfl

theorem tasks_attempt (engine : Engine) (task : TaskIndex) (tokens : List Token) (list : ListIndex) :
    (engine.attempt task tokens list).engine.tasks = engine.tasks := by
  unfold attempt
  split
  · rfl
  · dsimp only
    split <;> rfl

theorem tasks_claimTokens (engine : Engine) (task : TaskIndex) :
    (engine.claimTokens task).engine.tasks = engine.tasks := by
  rcases claimTokens_cases engine task with ⟨-, hclaim⟩ | ⟨-, hclaim⟩
  · rw [hclaim]
    rfl
  · rw [hclaim, tasks_attempt]

theorem tasks_of_claim {admission : Admission} {queue : PriorityQueue TaskIndex} {level : Nat}
    (claims : (engine.serve queue task level).claimTokens task = admission) :
    admission.engine.tasks = engine.tasks := by
  rw [← claims, tasks_claimTokens]
  rfl

theorem tasks_of_skips (skips : engine.Skips after) : after.tasks = engine.tasks := by
  induction skips with
  | refl => rfl
  | tail _ _ waits ih => exact (tasks_of_claim waits).trans ih

theorem tasks_poll (engine : Engine) : engine.poll.engine.tasks = engine.tasks := by
  have hsought := sought_poll engine
  generalize engine.poll = poll at hsought
  cases hsought with
  | found skips dequeued claims => exact (tasks_of_claim claims).trans (tasks_of_skips skips)
  | exhausted skips dequeued =>
    have htasks := tasks_of_skips skips
    exact htasks
  | abandoned skips => exact tasks_of_skips skips
  | refused skips dequeued refuses => exact (tasks_of_claim refuses).trans (tasks_of_skips skips)

end Known

/-! ### Actions -/

/-- One thing that a step does to an engine. Only scripts hand in tasks and set priorities: which tasks one
hands in, and whether it sets a priority, is told by `accepts` and `sets`. -/
inductive Act (accepts : TaskIndex → Prop) (sets : Prop) (engine : Engine) : Engine → Prop
  /-- It is told of something else than that a task has been accepted. -/
  | told {after : Engine} (occurrence : Occurrence) (unsubmitted : occurrence.submission? = none)
      (halted : after.halted = engine.halted) (tasks : after.tasks = engine.tasks)
      (chronicle : after.chronicle = occurrence :: engine.chronicle) : Act accepts sets engine after
  /-- What has been begun before goes on. -/
  | tells {after : Engine} (tells : engine.Tells after) (tasks : after.tasks = engine.tasks) :
      Act accepts sets engine after
  /-- A task is accepted. -/
  | accepted {after : Engine} {task : TaskIndex} (asked : accepts task ∨ task < engine.tasks.size)
      (ok : engine.schedule task = .ok after) : Act accepts sets engine after
  /-- A closure task is made known. -/
  | made (draft : Draft) : Act accepts sets engine (engine.addClosure draft).2
  /-- Something else than the priority is changed of what is known of a task. -/
  | changed (task : TaskIndex) (change : Task → Task)
      (priority : ∀ known, (change known).priority = known.priority) :
      Act accepts sets engine (engine.modifyTask task change)
  | prioritised (asked : sets) (task : TaskIndex) (priority : Nat) :
      Act accepts sets engine (engine.setPriority task priority)
  | shutDown : Act accepts sets engine engine.shutDown

abbrev Acts (accepts : TaskIndex → Prop) (sets : Prop) (engine after : Engine) : Prop :=
  Relation.ReflTransGen (Act accepts sets) engine after

end Engine

def Control.handsIn? : Control σ → Option TaskIndex
  | script _ (.schedule task _) => some task
  | script .. | freeing _ | claiming .. | joining .. | resting .. => none

def Control.prioritises : Control σ → Bool
  | script _ (.setPriority ..) => true
  | script .. | freeing _ | claiming .. | joining .. | resting .. => false

namespace Thread

open Engine (Acts Tells)

variable {accepts : TaskIndex → Prop} {sets : Prop} {world : World σ}

/-- To tell of something is an action. -/
theorem acts_of_cons {engine after : Engine} (occurrence : Occurrence)
    (hhalted : after.halted = engine.halted) (htasks : after.tasks = engine.tasks)
    (hchronicle : after.chronicle = occurrence :: engine.chronicle)
    (h : occurrence.submission? = none) : Acts accepts sets engine after :=
  .single (.told occurrence h hhalted htasks hchronicle)

theorem acts_of_tells {engine after : Engine} (tells : engine.Tells after)
    (tasks : after.tasks = engine.tasks) : Acts accepts sets engine after :=
  .single (.tells tells tasks)

theorem deliver_acts (world : World σ) (task : TaskIndex) (failure : Failure) :
    Acts accepts sets world.engine (deliver world task failure).1.engine := by
  have hreported : Acts accepts sets world.engine (world.engine.record (.reported task failure)) :=
    acts_of_cons _ rfl rfl rfl rfl
  rw [deliver]
  split
  · exact hreported
  · exact hreported.trans (acts_of_cons _ rfl rfl rfl rfl)

theorem finishExecution_acts (world : World σ) (thread : Thread σ) (worker : Nat) (task : TaskIndex)
    (failure : Option Failure) :
    Acts accepts sets world.engine (finishExecution world thread worker task failure).1.engine := by
  cases failure with
  | none => exact acts_of_cons (.executed task) rfl rfl rfl rfl
  | some failure =>
    have hfailed : Acts accepts sets world.engine
        ({ world.engine with stats := world.engine.stats.countFailed }.record
          (.failed worker task failure)) := acts_of_cons _ rfl rfl rfl rfl
    exact hfailed.trans (deliver_acts { world with engine := _ } task failure)

theorem finishRelease_acts (world : World σ) (thread : Thread σ) (after : AfterRelease σ)
    (outcome : Except Fault Unit) :
    Acts accepts sets world.engine (finishRelease world thread after outcome).1.engine := by
  cases after with
  | answer handle next => exact .refl
  | closureEnd => cases outcome <;> exact .refl
  | execution worker task failure =>
    cases outcome with
    | ok done => exact finishExecution_acts world thread worker task failure
    | error fault =>
      let refused := world.engine.record (.releaseRefused worker task failure fault)
      have hrefused : Acts accepts sets world.engine refused := acts_of_cons _ rfl rfl rfl rfl
      exact hrefused.trans (finishExecution_acts { world with engine := refused } thread worker task _)

theorem beginRelease_acts (world : World σ) (thread : Thread σ) (task : TaskIndex)
    (handle : Option HandleIndex) (after : AfterRelease σ) :
    Acts accepts sets world.engine (beginRelease world thread task handle after).1.engine :=
  acts_of_cons (.released task handle _) rfl rfl rfl rfl

theorem releaseThrough_acts (world : World σ) (thread : Thread σ) (handle : HandleIndex)
    (after : AfterRelease σ) :
    Acts accepts sets world.engine (releaseThrough world thread handle after).1.engine := by
  rw [releaseThrough]
  split
  · exact finishRelease_acts world thread after (.ok ())
  · next held _ =>
    split
    · exact finishRelease_acts world thread after (.ok ())
    · exact beginRelease_acts { world with handles := _ } thread held.task (some handle) after

theorem beginWork_acts (world : World σ) (thread : Thread σ) (task : TaskIndex)
    (handle : HandleIndex) :
    Acts accepts sets world.engine (beginWork world thread task handle).1.engine := by
  rw [beginWork]
  split
  · exact .refl
  · exact .refl
  · split
    · exact releaseThrough_acts world thread handle .closureEnd
    · have htaken : Acts accepts sets world.engine
          (world.engine.modifyTask task fun known => { known with taken := true }) :=
        .single (.changed task _ fun _ => rfl)
      exact htaken.trans (acts_of_cons (.opened task) rfl rfl rfl rfl)

theorem finish_acts (world : World σ) (thread : Thread σ) (ending : Ending) (frame : Frame σ) :
    Acts accepts sets world.engine (finish world thread ending frame).1.engine := by
  cases frame with
  | resume handle next => cases ending <;> exact .refl
  | attempting handle next => exact .refl
  | running handle own next => cases ending <;> exact .refl
  | holding handle own next => cases ending <;> exact .refl
  | working worker task own =>
    exact releaseThrough_acts world thread own (.execution worker task (Failure.ofEnding? ending))
  | reporting worker task =>
    cases ending with
    | panicked payload => exact acts_of_cons _ rfl rfl rfl rfl
    | normal | failed _ => exact .refl
  | closing own =>
    cases ending with
    | normal => exact releaseThrough_acts world thread own .closureEnd
    | failed _ | panicked _ => exact .refl
  | rejecting task freeing =>
    cases ending with
    | panicked payload => exact acts_of_cons _ rfl rfl rfl rfl
    | normal | failed _ => exact .refl

theorem stepFreeing_acts (world : World σ) (thread : Thread σ) (freeing : Freeing σ) :
    Acts accepts sets world.engine (stepFreeing world thread freeing).1.engine := by
  rw [stepFreeing]
  split
  · next task waiters hwaiters =>
    dsimp only
    split
    · next engine hrequeue =>
      exact acts_of_tells (.requeue hrequeue) (Engine.tasks_of_requeue hrequeue)
    · next fault engine hrequeue =>
      have hrequeued : Acts accepts sets world.engine engine :=
        acts_of_tells (.requeue hrequeue) (Engine.tasks_of_requeue hrequeue)
      exact hrequeued.trans (deliver_acts { world with engine } task _)
  · next hwaiters =>
    split
    · next list lists hlists => exact acts_of_tells (.of_eq rfl rfl rfl) rfl
    · next hlists =>
      refine .trans ?_ (finishRelease_acts _ thread freeing.after freeing.outcome)
      split
      · exact .refl
      · exact acts_of_cons _ rfl rfl rfl rfl

theorem afterPoll_acts (thread : Thread σ) (handle : Option HandleIndex)
    (next : Option TaskIndex → Script σ) {poll : Poll} (acts : Acts accepts sets world.engine poll.engine) :
    Acts accepts sets world.engine (afterPoll world thread handle next poll).world.engine := by
  cases poll <;> exact acts

theorem poll_acts (engine : Engine) : Acts accepts sets engine engine.poll.engine :=
  acts_of_tells (.poll engine) engine.tasks_poll

theorem afterAttempt_acts (thread : Thread σ) (handle : Option HandleIndex) (task : TaskIndex)
    (after : AfterClaim σ) {admission : Admission}
    (acts : Acts accepts sets world.engine admission.engine) :
    Acts accepts sets world.engine (afterAttempt world thread handle task after admission).world.engine := by
  cases admission with
  | acquired engine =>
    cases after with
    | answer next => exact acts
    | poll next => exact acts.trans (acts_of_cons (.handedOut task) rfl rfl rfl rfl)
  | waiting engine =>
    cases after with
    | answer next => exact acts
    | poll next => exact afterPoll_acts thread handle next (acts.trans (poll_acts engine))
  | refused engine list => exact acts

theorem stepScript_acts (world : World σ) (thread : Thread σ) (handle : Option HandleIndex)
    (script : Script σ)
    (haccepts : ∀ task ∈ (Control.script handle script).handsIn?, accepts task)
    (hsets : (Control.script handle script).prioritises = true → sets) :
    Acts accepts sets world.engine (stepScript world thread handle script).world.engine := by
  cases script with
  | stop ending =>
    rw [stepScript]
    split
    · exact .refl
    · next frame stack _ => exact finish_acts world { thread with stack } ending frame
  | schedule task next =>
    rw [stepScript]
    split
    · next engine hschedule => exact .single (.accepted (.inl (haccepts task rfl)) hschedule)
    · exact .refl
  | submit priority closure next =>
    rw [stepScript]
    have hmade : Acts accepts sets world.engine
        (world.addClosure { priority } { work := .closure closure }).2.engine := .single (.made _)
    have hknown : world.engine.tasks.size <
        (world.addClosure { priority } { work := .closure closure }).2.engine.tasks.size := by
      show _ < (world.engine.tasks.push _).size
      rw [Array.size_push]
      omega
    dsimp only
    split
    · next engine hschedule => exact hmade.tail (.accepted (.inr hknown) hschedule)
    · exact hmade
  | poll next => exact afterPoll_acts thread handle next (poll_acts world.engine)
  | claim task next =>
    have hclaimed : Acts accepts sets world.engine (world.engine.claimTokens task).engine :=
      acts_of_tells (Tells.claimTokens world.engine task) (Engine.tasks_claimTokens world.engine task)
    rw [stepScript]
    generalize world.engine.claimTokens task = admission at hclaimed ⊢
    cases admission <;> exact hclaimed
  | releaseFor task next => exact beginRelease_acts world thread task none (.answer handle next)
  | release next =>
    cases handle with
    | none => exact .refl
    | some own => exact releaseThrough_acts world thread own (.answer (some own) next)
  | run task next | execute worker task next =>
    exact beginWork_acts (world.makeHandle task).2 _ task _
  | report task failure next => exact deliver_acts world task failure
  | applyPriority task next =>
    rw [stepScript]
    split
    · next moved engine hmove =>
      exact acts_of_tells (.applyPriority hmove) (Engine.tasks_of_applyPriority hmove)
    · exact .refl
  | shutDown next => exact .single .shutDown
  | await name next =>
    rw [stepScript]
    split <;> exact .refl
  | rest worker next =>
    rw [stepScript]
    split
    · exact .refl
    · exact acts_of_cons (.workerParked worker) rfl rfl rfl rfl
  | setPriority task priority next => exact .single (.prioritised (hsets rfl) task priority)
  | setTokens task tokens next => exact .single (.changed task _ fun _ => rfl)
  | remember change next | «recall» next | attempt body next | atHand next
  | withHandle task body next | join next | signal name next | whoAmI next => exact .refl

/-- Every step of every thread is made of actions. -/
theorem step_acts (world : World σ) (thread : Thread σ) :
    Acts (· ∈ thread.control.handsIn?) (thread.control.prioritises = true) world.engine
      (thread.step world).world.engine := by
  rw [step]
  cases thread.control with
  | script handle script => exact stepScript_acts world thread handle script (fun _ h => h) id
  | freeing freeing => exact stepFreeing_acts world thread freeing
  | claiming handle task list after =>
    exact afterAttempt_acts thread handle task after
      (acts_of_tells (.attempt _ _ _ _) (Engine.tasks_attempt _ _ _ _))
  | joining handle workers next =>
    dsimp only
    split <;> exact .refl
  | resting handle worker next =>
    dsimp only
    split
    · exact acts_of_tells (.of_eq rfl rfl rfl) rfl
    · exact .refl

end Thread

end Dispatch
