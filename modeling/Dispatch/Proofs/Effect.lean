import Dispatch.Engine.Step
import Dispatch.Proofs.Engine

/-!
# What a step of a thread does to the engine

Of a thread the engine is concerned only with the releases it is in the middle of and with a claim that it
is to try again; with the engine itself they make up a ledger. `Effect` lists what a step can do to a
ledger, and `step_effect` says that every step of every thread does one of these things. What is proved of
all runs is proved of the effects one by one, and never of the steps.
-/

namespace Dispatch

variable {σ : Type}

structure Retry where
  task : TaskIndex
  list : ListIndex
  /-- Whether the task was taken from the queue for it. -/
  polled : Bool

namespace Poll

def engine : Poll → Engine
  | found _ engine | exhausted engine | refused _ engine _ => engine

def retry : Poll → Option Retry
  | found .. | exhausted _ => none
  | refused task _ list => some ⟨task, list, true⟩

end Poll

namespace Admission

def engine : Admission → Engine
  | acquired engine | waiting engine | refused engine _ => engine

def retry (task : TaskIndex) : Admission → Option Retry
  | acquired _ | waiting _ => none
  | refused _ list => some ⟨task, list, false⟩

end Admission

/-- Whether what follows a release is free of rejected failures: no worker has one of them to report. -/
def AfterRelease.Proper : AfterRelease σ → Prop
  | execution _ _ (some failure) => failure.isRejection = false
  | execution _ _ none | answer .. | closureEnd => True

def Frame.releases : Frame σ → List (Freeing σ)
  | rejecting _ own => [own]
  | resume .. | attempting .. | running .. | holding .. | working .. | reporting .. | closing _ => []

namespace Control

def releases : Control σ → List (Freeing σ)
  | freeing own => [own]
  | script .. | claiming .. | joining .. | resting .. => []

def retry : Control σ → Option Retry
  | claiming _ task list (.poll _) => some ⟨task, list, true⟩
  | claiming _ task list (.answer _) => some ⟨task, list, false⟩
  | script .. | freeing _ | joining .. | resting .. => none

end Control

namespace Thread

/-- The releases that are interrupted by the call a thread is in. -/
def below (thread : Thread σ) : List (Freeing σ) :=
  thread.stack.flatMap Frame.releases

/-- The releases a thread is in the middle of, the innermost first. -/
def releases (thread : Thread σ) : List (Freeing σ) :=
  thread.control.releases ++ thread.below

end Thread

/-- An engine and what a thread has under way in it. -/
structure Ledger (σ : Type) where
  engine : Engine
  /-- The releases that are under way, the innermost first. -/
  releases : List (Freeing σ)
  retry : Option Retry

def Thread.ledger (world : World σ) (thread : Thread σ) : Ledger σ :=
  ⟨world.engine, thread.releases, thread.control.retry⟩

/-- What a step can do to a ledger. A claim on its own and the report of a failure are done only by
scripts that ask for them: whether one does is told by `tries` and `reports`. -/
inductive Effect (tries : Prop) (reports : Failure → Prop) : Ledger σ → Ledger σ → Prop
  | quiet {engine after : Engine} {releases : List (Freeing σ)} (quiet : engine.Quiet after) :
      Effect tries reports ⟨engine, releases, none⟩ ⟨after, releases, none⟩
  | reported {engine after : Engine} {releases : List (Freeing σ)} {task : TaskIndex}
      {failure : Failure} (asked : reports failure)
      (quiet : (engine.record (.reported task failure)).Quiet after) :
      Effect tries reports ⟨engine, releases, none⟩ ⟨after, releases, none⟩
  /-- A task is accepted, after things that change nothing. -/
  | scheduled {engine middle after : Engine} {releases : List (Freeing σ)} {task : TaskIndex}
      (quiet : engine.Quiet middle) (ok : middle.schedule task = .ok after) :
      Effect tries reports ⟨engine, releases, none⟩ ⟨after, releases, none⟩
  | moved {engine after : Engine} {releases : List (Freeing σ)} {task : TaskIndex} {moved : Bool}
      (ok : engine.applyPriority task = .ok (moved, after)) :
      Effect tries reports ⟨engine, releases, none⟩ ⟨after, releases, none⟩
  | polled {engine : Engine} {releases : List (Freeing σ)} :
      Effect tries reports ⟨engine, releases, none⟩
        ⟨engine.poll.engine, releases, engine.poll.retry⟩
  | tried {engine : Engine} {releases : List (Freeing σ)} {task : TaskIndex} (asked : tries) :
      Effect tries reports ⟨engine, releases, none⟩
        ⟨(engine.claimTokens task).engine, releases, (engine.claimTokens task).retry task⟩
  /-- A claim is tried again and refused again. -/
  | refused {engine after : Engine} {releases : List (Freeing σ)} (retry : Retry)
      {list : ListIndex} (again : engine.attempt retry.task
        (Token.distinct (engine.tokens retry.task)) retry.list = .refused after list) :
      Effect tries reports ⟨engine, releases, some retry⟩
        ⟨after, releases, some { retry with list }⟩
  /-- A claim is tried again and succeeds. -/
  | acquired {engine after : Engine} {releases : List (Freeing σ)} (retry : Retry)
      (again : engine.attempt retry.task (Token.distinct (engine.tokens retry.task)) retry.list =
        .acquired after) :
      Effect tries reports ⟨engine, releases, some retry⟩
        ⟨if retry.polled then after.record (.handedOut retry.task) else after, releases, none⟩
  /-- A claim is tried again and the task waits, whereupon a search goes on. -/
  | waiting {engine after : Engine} {releases : List (Freeing σ)} (retry : Retry)
      (again : engine.attempt retry.task (Token.distinct (engine.tokens retry.task)) retry.list =
        .waiting after) :
      Effect tries reports ⟨engine, releases, some retry⟩
        ⟨if retry.polled then after.poll.engine else after, releases,
          if retry.polled then after.poll.retry else none⟩
  /-- Tokens are taken out of the table. -/
  | begun {engine : Engine} {releases : List (Freeing σ)} {task : TaskIndex}
      {handle : Option HandleIndex} {after : AfterRelease σ} (proper : after.Proper) :
      Effect tries reports ⟨engine, releases, none⟩
        ⟨(engine.takeTokens task handle).2.2,
          { task, waiters := [], lists := (engine.takeTokens task handle).1
            freed := (engine.takeTokens task handle).1.length
            outcome := (engine.takeTokens task handle).2.1, after } :: releases, none⟩
  /-- A list that was taken out of the table is freed. -/
  | freed {engine : Engine} {releases : List (Freeing σ)} {freeing : Freeing σ} {list : ListIndex}
      {lists : List ListIndex} (idle : freeing.waiters = []) (next : freeing.lists = list :: lists) :
      Effect tries reports ⟨engine, freeing :: releases, none⟩
        ⟨(engine.freeList list).2,
          { freeing with waiters := (engine.freeList list).1, lists } :: releases, none⟩
  /-- A waiter of a freed list is queued again. -/
  | requeued {engine after : Engine} {releases : List (Freeing σ)} {freeing : Freeing σ}
      {task : TaskIndex} {waiters : List TaskIndex} (next : freeing.waiters = task :: waiters)
      (ok : engine.requeue task = (none, after)) :
      Effect tries reports ⟨engine, freeing :: releases, none⟩
        ⟨after, { freeing with waiters } :: releases, none⟩
  /-- A waiter of a freed list is rejected, and told so. -/
  | rejected {engine middle after : Engine} {releases : List (Freeing σ)} {freeing : Freeing σ}
      {task : TaskIndex} {waiters : List TaskIndex} {fault : Fault}
      (next : freeing.waiters = task :: waiters)
      (refusal : engine.requeue task = (some fault, middle))
      (quiet : (middle.record (.reported task { cause := .rejected fault })).Quiet after) :
      Effect tries reports ⟨engine, freeing :: releases, none⟩
        ⟨after, { freeing with waiters } :: releases, none⟩
  | finished {engine after : Engine} {releases : List (Freeing σ)} {freeing : Freeing σ}
      (idle : freeing.waiters = []) (done : freeing.lists = [])
      (quiet : freeing.after.Proper → engine.Quiet after) :
      Effect tries reports ⟨engine, freeing :: releases, none⟩ ⟨after, releases, none⟩

theorem Effect.of_quiet {tries : Prop} {reports : Failure → Prop} {engine : Engine}
    {releases : List (Freeing σ)} {ledger : Ledger σ} (quiet : engine.Quiet ledger.engine)
    (hreleases : ledger.releases = releases) (hretry : ledger.retry = none) :
    Effect tries reports ⟨engine, releases, none⟩ ledger := by
  obtain ⟨after, releases', retry⟩ := ledger
  subst hreleases
  subst hretry
  exact .quiet quiet

namespace Thread

variable {tries : Prop} {reports : Failure → Prop} {world : World σ} {thread : Thread σ}

/-! ### The parts of a step -/

theorem deliver_quiet (world : World σ) (task : TaskIndex) (failure : Failure) :
    (world.engine.record (.reported task failure)).Quiet (deliver world task failure).1.engine := by
  rw [deliver]
  split
  · exact .refl _
  · exact (Engine.Quiet.refl _).record _ rfl

theorem deliver_control (world : World σ) (task : TaskIndex) (failure : Failure) :
    ∃ script, (deliver world task failure).2 = .script none script := by
  rw [deliver]
  split
  · exact ⟨_, rfl⟩
  · exact ⟨_, rfl⟩

theorem finishExecution_quiet (world : World σ) (thread : Thread σ) (worker : Nat)
    (task : TaskIndex) {failure : Option Failure}
    (proper : ∀ known, failure = some known → known.isRejection = false) :
    world.engine.Quiet (finishExecution world thread worker task failure).1.engine := by
  cases failure with
  | none => exact .of_cons (.executed task) rfl rfl rfl rfl rfl
  | some failure =>
    refine .trans ?_ (deliver_quiet _ task failure)
    refine ⟨rfl, rfl, rfl, [.reported task failure, .failed worker task failure], rfl, ?_⟩
    simp [Occurrence.isQuiet, proper failure rfl]

theorem finishExecution_thread (world : World σ) (thread : Thread σ) (worker : Nat)
    (task : TaskIndex) (failure : Option Failure) :
    (finishExecution world thread worker task failure).2.releases = thread.below ∧
      (finishExecution world thread worker task failure).2.control.retry = none := by
  cases failure with
  | none => exact ⟨rfl, rfl⟩
  | some failure =>
    simp only [finishExecution]
    generalize hdelivered : deliver _ task failure = delivered
    obtain ⟨script, hscript⟩ : ∃ script, delivered.2 = .script none script :=
      hdelivered ▸ deliver_control _ task failure
    rw [hscript]
    exact ⟨rfl, rfl⟩

theorem finishRelease_quiet (world : World σ) (thread : Thread σ) {after : AfterRelease σ}
    (outcome : Except Fault Unit) (proper : after.Proper) :
    world.engine.Quiet (finishRelease world thread after outcome).1.engine := by
  cases after with
  | answer handle next => exact .refl _
  | closureEnd => cases outcome <;> exact .refl _
  | execution worker task failure =>
    cases outcome with
    | ok done =>
      refine finishExecution_quiet world thread worker task fun known hknown => ?_
      subst hknown
      exact proper
    | error fault =>
      refine ((Engine.Quiet.refl world.engine).record
        (.releaseRefused worker task failure fault) rfl).trans
        (finishExecution_quiet { world with engine := world.engine.record _ } thread worker task
          fun known hknown => ?_)
      cases failure with
      | none =>
        cases hknown
        rfl
      | some earlier =>
        cases hknown
        exact proper

theorem finishRelease_thread (world : World σ) (thread : Thread σ) (after : AfterRelease σ)
    (outcome : Except Fault Unit) :
    (finishRelease world thread after outcome).2.releases = thread.below ∧
      (finishRelease world thread after outcome).2.control.retry = none := by
  cases after with
  | answer handle next => exact ⟨rfl, rfl⟩
  | closureEnd => cases outcome <;> exact ⟨rfl, rfl⟩
  | execution worker task failure =>
    cases outcome with
    | ok done => exact finishExecution_thread world thread worker task failure
    | error fault => exact finishExecution_thread _ thread worker task _

theorem beginRelease_effect (world : World σ) (thread : Thread σ) (task : TaskIndex)
    (handle : Option HandleIndex) {after : AfterRelease σ} (proper : after.Proper) :
    Effect tries reports ⟨world.engine, thread.below, none⟩
      (ledger (beginRelease world thread task handle after).1
        (beginRelease world thread task handle after).2) :=
  .begun proper

theorem releaseThrough_effect (world : World σ) (thread : Thread σ) (handle : HandleIndex)
    {after : AfterRelease σ} (proper : after.Proper) :
    Effect tries reports ⟨world.engine, thread.below, none⟩
      (ledger (releaseThrough world thread handle after).1
        (releaseThrough world thread handle after).2) := by
  have hdone : Effect tries reports ⟨world.engine, thread.below, none⟩
      (ledger (finishRelease world thread after (.ok ())).1
        (finishRelease world thread after (.ok ())).2) :=
    .of_quiet (finishRelease_quiet world thread _ proper)
      (finishRelease_thread world thread after _).1 (finishRelease_thread world thread after _).2
  rw [releaseThrough]
  split
  · exact hdone
  · next held _ =>
    split
    · exact hdone
    · exact beginRelease_effect { world with handles := _ } thread held.task (some handle) proper

theorem beginWork_effect (world : World σ) (thread : Thread σ) (task : TaskIndex)
    (handle : HandleIndex) :
    Effect tries reports ⟨world.engine, thread.below, none⟩
      (ledger (beginWork world thread task handle).1 (beginWork world thread task handle).2) := by
  rw [beginWork]
  split
  · exact .quiet (.refl _)
  · exact .quiet (.refl _)
  · split
    · exact releaseThrough_effect world thread handle trivial
    · exact .quiet (.of_cons (.opened task) rfl rfl rfl rfl rfl)

theorem finish_effect (world : World σ) (thread : Thread σ) (ending : Ending) (frame : Frame σ) :
    Effect tries reports ⟨world.engine, frame.releases ++ thread.below, none⟩
      (ledger (finish world thread ending frame).1 (finish world thread ending frame).2) := by
  cases frame with
  | resume handle next => cases ending <;> exact .quiet (.refl _)
  | attempting handle next => exact .quiet (.refl _)
  | running handle own next => cases ending <;> exact .quiet (.refl _)
  | holding handle own next => cases ending <;> exact .quiet (.refl _)
  | working worker task own =>
    refine releaseThrough_effect world thread own ?_
    cases hfailure : Failure.ofEnding? ending with
    | none => exact trivial
    | some failure => exact Failure.isRejection_of_ofEnding? hfailure
  | reporting worker task =>
    cases ending with
    | panicked payload =>
      exact .quiet (.of_cons (.handlerPanicked (some worker) task payload) rfl rfl rfl rfl rfl)
    | normal | failed _ => exact .quiet (.refl _)
  | closing own =>
    cases ending with
    | normal => exact releaseThrough_effect world thread own trivial
    | failed _ | panicked _ => exact .quiet (.refl _)
  | rejecting task freeing =>
    cases ending with
    | panicked payload =>
      exact .quiet (.of_cons (.handlerPanicked none task payload) rfl rfl rfl rfl rfl)
    | normal | failed _ => exact .quiet (.refl _)

theorem stepFreeing_effect (world : World σ) (thread : Thread σ) (freeing : Freeing σ) :
    Effect tries reports ⟨world.engine, freeing :: thread.below, none⟩
      (ledger (stepFreeing world thread freeing).1 (stepFreeing world thread freeing).2) := by
  rw [stepFreeing]
  split
  · next task waiters hwaiters =>
    dsimp only
    split
    · next engine hrequeue => exact .requeued hwaiters hrequeue
    · next fault engine hrequeue =>
      generalize hdelivered : deliver { world with engine } task { cause := .rejected fault } =
        delivered
      obtain ⟨script, hscript⟩ : ∃ script, delivered.2 = .script none script :=
        hdelivered ▸ deliver_control _ task _
      have hquiet := deliver_quiet { world with engine } task { cause := .rejected fault }
      rw [hdelivered] at hquiet
      dsimp only
      rw [hscript]
      exact .rejected hwaiters hrequeue hquiet
  · next hwaiters =>
    split
    · next list lists hlists => exact .freed hwaiters hlists
    · next hlists =>
      have hthread (world : World σ) := finishRelease_thread world thread freeing.after
        freeing.outcome
      rw [ledger, (hthread _).1, (hthread _).2]
      refine .finished hwaiters hlists fun proper => ?_
      refine .trans ?_ (finishRelease_quiet _ thread _ proper)
      split
      · exact .refl _
      · next fault _ =>
        exact .of_cons (.releaseFailed freeing.task fault freeing.freed) rfl rfl rfl rfl rfl

theorem afterPoll_ledger (world : World σ) (thread : Thread σ) (handle : Option HandleIndex)
    (next : Option TaskIndex → Script σ) (poll : Poll) :
    ledger (afterPoll world thread handle next poll).world
      (afterPoll world thread handle next poll).thread =
        ⟨poll.engine, thread.below, poll.retry⟩ := by
  cases poll <;> rfl

theorem afterAttempt_effect (world : World σ) (thread : Thread σ) (handle : Option HandleIndex)
    (task : TaskIndex) (list : ListIndex) (after : AfterClaim σ) :
    Effect tries reports
      ⟨world.engine, thread.below, Control.retry (.claiming handle task list after)⟩
      (ledger (afterAttempt world thread handle task after (world.engine.attempt task
          (Token.distinct (world.engine.tokens task)) list)).world
        (afterAttempt world thread handle task after (world.engine.attempt task
          (Token.distinct (world.engine.tokens task)) list)).thread) := by
  generalize hadmission : world.engine.attempt task
    (Token.distinct (world.engine.tokens task)) list = admission
  cases admission with
  | acquired engine =>
    cases after with
    | answer next => exact .acquired ⟨task, list, false⟩ hadmission
    | poll next => exact .acquired ⟨task, list, true⟩ hadmission
  | waiting engine =>
    cases after with
    | answer next => exact .waiting ⟨task, list, false⟩ hadmission
    | poll next =>
      rw [afterAttempt, afterPoll_ledger]
      exact .waiting ⟨task, list, true⟩ hadmission
  | refused engine list' =>
    cases after with
    | answer next => exact .refused ⟨task, list, false⟩ hadmission
    | poll next => exact .refused ⟨task, list, true⟩ hadmission

theorem claim_effect (world : World σ) (thread : Thread σ) (handle : Option HandleIndex)
    (task : TaskIndex) (next : Bool → Script σ) (asked : tries) :
    Effect tries reports ⟨world.engine, thread.below, none⟩
      (ledger (stepScript world thread handle (.claim task next)).world
        (stepScript world thread handle (.claim task next)).thread) := by
  have htried : Effect tries reports ⟨world.engine, thread.below, none⟩
      ⟨(world.engine.claimTokens task).engine, thread.below,
        (world.engine.claimTokens task).retry task⟩ := .tried asked
  rw [stepScript]
  generalize world.engine.claimTokens task = admission at htried ⊢
  cases admission <;> exact htried

/-- A thread that runs a script has no release under way but those it has interrupted. -/
theorem ledger_of_script {handle : Option HandleIndex} {script : Script σ}
    (h : thread.control = .script handle script) :
    ledger world thread = ⟨world.engine, thread.below, none⟩ := by
  rw [ledger, releases, h]
  rfl

theorem stepScript_effect (world : World σ) {thread : Thread σ} {handle : Option HandleIndex}
    {script : Script σ} (hcontrol : thread.control = .script handle script)
    (htries : ∀ task next, script = .claim task next → tries)
    (hreports : ∀ task failure next, script = .report task failure next → reports failure) :
    Effect tries reports ⟨world.engine, thread.below, none⟩
      (ledger (stepScript world thread handle script).world
        (stepScript world thread handle script).thread) := by
  have hstays : Effect tries reports ⟨world.engine, thread.below, none⟩ (ledger world thread) := by
    rw [ledger_of_script hcontrol]
    exact .quiet (.refl _)
  cases script with
  | stop ending =>
    rw [stepScript]
    split
    · exact hstays
    · next frame stack hstack =>
      have hbelow : thread.below = frame.releases ++ below { thread with stack } := by
        rw [below, hstack]
        rfl
      rw [hbelow]
      exact finish_effect world { thread with stack } ending frame
  | remember change next => exact .quiet (.refl _)
  | «recall» next => exact .quiet (.refl _)
  | attempt body next => exact .quiet (.refl _)
  | schedule task next =>
    rw [stepScript]
    split
    · next engine hschedule => exact .scheduled (.refl _) hschedule
    · exact .quiet (.refl _)
  | submit priority closure next =>
    rw [stepScript]
    dsimp only
    have hmade : world.engine.Quiet
        (world.addClosure { priority } { work := .closure closure }).2.engine :=
      .of_eq rfl rfl rfl rfl
    split
    · next engine hschedule => exact .scheduled hmade hschedule
    · exact .quiet hmade
  | poll next =>
    rw [stepScript, afterPoll_ledger]
    exact .polled
  | claim task next => exact claim_effect world thread handle task next (htries task next rfl)
  | releaseFor task next => exact .begun trivial
  | release next =>
    cases handle with
    | none => exact .quiet (.refl _)
    | some own => exact releaseThrough_effect world thread own trivial
  | atHand next => exact .quiet (.refl _)
  | run task next =>
    exact beginWork_effect (world.makeHandle task).2
      { thread with stack := .running handle _ next :: thread.stack } task _
  | execute worker task next =>
    exact beginWork_effect (world.makeHandle task).2
      { thread with stack := .working worker task _ :: .resume handle next :: thread.stack } task _
  | withHandle task body next => exact .quiet (.refl _)
  | report task failure next =>
    obtain ⟨script, hscript⟩ := deliver_control world task failure
    have hquiet := deliver_quiet world task failure
    rw [stepScript]
    dsimp only
    rw [hscript]
    exact .reported (hreports task failure next rfl) hquiet
  | setPriority task priority next => exact .quiet (.of_eq rfl rfl rfl rfl)
  | setTokens task tokens next => exact .quiet (.of_eq rfl rfl rfl rfl)
  | applyPriority task next =>
    rw [stepScript]
    split
    · next moved engine hmove => exact .moved hmove
    · exact .quiet (.refl _)
  | shutDown next => exact .quiet (Engine.shutDown_quiet world.engine)
  | join next => exact .quiet (.refl _)
  | signal name next => exact .quiet (.refl _)
  | await name next =>
    rw [stepScript]
    split
    · exact .quiet (.refl _)
    · exact hstays
  | rest worker next =>
    rw [stepScript]
    split
    · exact .quiet (.refl _)
    · exact .quiet (.of_cons (.workerParked worker) rfl rfl rfl rfl rfl)
  | whoAmI next => exact .quiet (.refl _)

/-- Whether a thread is about to claim the tokens of a task outside a search. -/
def Tries (thread : Thread σ) : Prop :=
  match thread.control with
  | .script _ (.claim ..) => True
  | _ => False

/-- Whether a thread is about to hand a failure to a task on behalf of a script. -/
def Reports (thread : Thread σ) (failure : Failure) : Prop :=
  match thread.control with
  | .script _ (.report _ given _) => given = failure
  | _ => False

/-- Every step of every thread has one of the effects. -/
theorem step_effect (world : World σ) (thread : Thread σ) :
    Effect thread.Tries thread.Reports (ledger world thread)
      (ledger (thread.step world).world (thread.step world).thread) := by
  cases hcontrol : thread.control with
  | script handle script =>
    rw [ledger_of_script hcontrol, step]
    simp only [hcontrol]
    refine stepScript_effect world hcontrol (fun task next he => ?_) fun task failure next he => ?_
    · rw [Tries, hcontrol, he]
      trivial
    · rw [Reports, hcontrol, he]
  | freeing freeing =>
    have hledger : ledger world thread = ⟨world.engine, freeing :: thread.below, none⟩ := by
      rw [ledger, releases, hcontrol]
      rfl
    rw [hledger, step]
    simp only [hcontrol]
    exact stepFreeing_effect world thread freeing
  | claiming handle task list after =>
    have hledger : ledger world thread =
        ⟨world.engine, thread.below, Control.retry (.claiming handle task list after)⟩ := by
      rw [ledger, releases, hcontrol]
      rfl
    rw [hledger, step]
    simp only [hcontrol]
    exact afterAttempt_effect world thread handle task list after
  | joining handle workers next =>
    have hledger : ledger world thread = ⟨world.engine, thread.below, none⟩ := by
      rw [ledger, releases, hcontrol]
      rfl
    rw [step]
    simp only [hcontrol]
    split
    · rw [hledger]
      exact .quiet (.refl _)
    · exact hledger ▸ .quiet (.refl _)
  | resting handle worker next =>
    have hledger : ledger world thread = ⟨world.engine, thread.below, none⟩ := by
      rw [ledger, releases, hcontrol]
      rfl
    rw [step]
    simp only [hcontrol]
    split
    · rw [hledger]
      exact .quiet (.of_eq rfl rfl rfl rfl)
    · exact hledger ▸ .quiet (.refl _)

end Thread

end Dispatch
