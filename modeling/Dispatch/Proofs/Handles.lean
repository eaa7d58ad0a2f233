import Mathlib.Data.Nat.Find
import Dispatch.Proofs.Tally

/-!
# Releases through a handle

A step may ask for a release through a handle: a script does, a closure that comes to its end, a worker when
the work of its task has ended (`Moment.asks?`). The first of these steps takes the tokens of the task out of
the table, and no other one does, whoever they are taken for and whatever goes on in between
(`Moment.Doing.taken_once`).
-/

namespace Dispatch

variable {σ : Type}

/-! ### What is taken through a handle -/

/-- The task whose tokens are taken out of the table through this handle. -/
def Occurrence.taking? (own : HandleIndex) : Occurrence → Option TaskIndex
  | released task handle _ => if handle = some own then some task else none
  | _ => none

def takings (own : HandleIndex) (chronicle : List Occurrence) : List TaskIndex :=
  chronicle.filterMap (Occurrence.taking? own)

namespace Engine

/-- The second engine is the first after things that took no tokens out of the table through a handle. -/
def Untaken (engine after : Engine) : Prop :=
  ∀ own, takings own after.chronicle = takings own engine.chronicle

namespace Untaken

variable {engine middle after : Engine}

theorem refl (engine : Engine) : engine.Untaken engine := fun _ => rfl

theorem trans (first : engine.Untaken middle) (second : middle.Untaken after) : engine.Untaken after :=
  fun own => (second own).trans (first own)

theorem of_cons (occurrence : Occurrence) (hchronicle : after.chronicle = occurrence :: engine.chronicle)
    (h : ∀ own, occurrence.taking? own = none) : engine.Untaken after := by
  intro own
  rw [takings, hchronicle, List.filterMap_cons_none (h own)]
  rfl

theorem of_proceeds (proceeds : engine.Proceeds after) : engine.Untaken after := by
  refine proceeds.preserves (fun after _ hchronicle own => ?_)
    fun middle after occurrence hlast _ hchronicle ih => ih.trans (.of_cons occurrence hchronicle fun own => ?_)
  · rw [hchronicle]
  · cases occurrence <;> first | rfl | cases hlast

end Untaken

end Engine

/-! ### Who asks for a release -/

/-- Whether a run of a task does nothing but release, since its closure has been taken. -/
def World.isSpent (world : World σ) (task : TaskIndex) : Bool :=
  match world.code[task]?.map Code.work with
  | some (.closure _) => world.engine.isTaken task
  | some (.repeatable _) | none => false

def Frame.asks? (ending : Ending) : Frame σ → Option HandleIndex
  | working _ _ own => some own
  | closing own => if ending = .normal then some own else none
  | resume .. | attempting .. | running .. | holding .. | reporting .. | rejecting .. => none

def Script.asks? (world : World σ) (handle : Option HandleIndex) : Script σ → Option HandleIndex
  | release _ => handle
  | run task _ | execute _ task _ => if world.isSpent task then some world.handles.size else none
  | stop _ | remember .. | «recall» _ | attempt .. | schedule .. | submit .. | poll _ | claim ..
  | releaseFor .. | atHand _ | withHandle .. | report .. | setPriority .. | setTokens ..
  | applyPriority .. | shutDown _ | join _ | signal .. | await .. | rest .. | whoAmI _ => none

def Thread.asks? (world : World σ) (thread : Thread σ) : Option HandleIndex :=
  match thread.control with
  | .script handle script =>
    match script with
    | .stop ending => thread.stack.head?.bind (Frame.asks? ending)
    | script => script.asks? world handle
  | .freeing _ | .claiming .. | .joining .. | .resting .. => none

/-- The handle through which the next step asks for a release. -/
def Moment.asks? (moment : Moment σ) : Option HandleIndex :=
  moment.thread.asks? moment.world

/-! ### What a step does with a handle -/

/-- The second world is the first after things that touched no handle and took nothing out through one. -/
structure World.Spares (before after : World σ) : Prop where
  handles : after.handles = before.handles
  untaken : before.engine.Untaken after.engine

namespace World.Spares

variable {world middle after : World σ}

theorem refl (world : World σ) : world.Spares world := ⟨rfl, .refl _⟩

theorem trans (first : world.Spares middle) (second : middle.Spares after) : world.Spares after :=
  ⟨second.handles.trans first.handles, first.untaken.trans second.untaken⟩

/-- Occurrences that are no release. -/
theorem of_cons (occurrence : Occurrence) (hhandles : after.handles = world.handles)
    (hchronicle : after.engine.chronicle = occurrence :: world.engine.chronicle)
    (h : ∀ own, occurrence.taking? own = none) : world.Spares after :=
  ⟨hhandles, .of_cons occurrence hchronicle h⟩

theorem of_proceeds (hhandles : after.handles = world.handles)
    (proceeds : world.engine.Proceeds after.engine) : world.Spares after :=
  ⟨hhandles, .of_proceeds proceeds⟩

end World.Spares

/-- What becomes of the handle of a task when a release is asked for through it, or not. -/
structure World.Uses (before : World σ) (own : HandleIndex) (task : TaskIndex) (released asked : Bool)
    (after : World σ) : Prop where
  handle : after.handles[own]? = some ⟨task, released || asked⟩
  takings : takings own after.engine.chronicle =
    (if asked && !released then [task] else []) ++ takings own before.engine.chronicle

namespace World.Uses

variable {world after : World σ} {own : HandleIndex} {task : TaskIndex} {released : Bool}

theorem of_spares (held : world.handles[own]? = some ⟨task, released⟩) (spares : world.Spares after) :
    world.Uses own task released false after := by
  refine ⟨?_, spares.untaken own⟩
  rw [spares.handles, Bool.or_false]
  exact held

end World.Uses

namespace Thread

open Engine (Proceeds Tells)

variable {world : World σ} {own : HandleIndex} {task : TaskIndex} {released : Bool}

theorem deliver_spares (world : World σ) (task : TaskIndex) (failure : Failure) :
    world.Spares (deliver world task failure).1 := by
  have hreported : world.Spares { world with engine := world.engine.record (.reported task failure) } :=
    .of_cons _ rfl rfl fun _ => rfl
  rw [deliver]
  split
  · exact hreported
  · exact hreported.trans (.of_cons _ rfl rfl fun _ => rfl)

theorem finishExecution_spares (world : World σ) (thread : Thread σ) (worker : Nat) (task : TaskIndex)
    (failure : Option Failure) :
    world.Spares (finishExecution world thread worker task failure).1 := by
  cases failure with
  | none => exact .of_cons (.executed task) rfl rfl fun _ => rfl
  | some failure =>
    let failed := { world.engine with stats := world.engine.stats.countFailed }.record
      (.failed worker task failure)
    have hfailed : world.Spares { world with engine := failed } :=
      .of_cons (.failed worker task failure) rfl rfl fun _ => rfl
    exact hfailed.trans (deliver_spares { world with engine := failed } task failure)

theorem finishRelease_spares (world : World σ) (thread : Thread σ) (after : AfterRelease σ)
    (outcome : Except Fault Unit) : world.Spares (finishRelease world thread after outcome).1 := by
  cases after with
  | answer handle next => exact .refl _
  | closureEnd => cases outcome <;> exact .refl _
  | execution worker task failure =>
    cases outcome with
    | ok done => exact finishExecution_spares world thread worker task failure
    | error fault =>
      let refused := world.engine.record (.releaseRefused worker task failure fault)
      have hrefused : world.Spares { world with engine := refused } := .of_cons _ rfl rfl fun _ => rfl
      exact hrefused.trans (finishExecution_spares { world with engine := refused } thread worker task _)

theorem beginRelease_takings (world : World σ) (thread : Thread σ) (task : TaskIndex)
    (handle : Option HandleIndex) (after : AfterRelease σ) (own : HandleIndex) :
    takings own (beginRelease world thread task handle after).1.engine.chronicle =
      (if handle = some own then [task] else []) ++ takings own world.engine.chronicle := by
  rw [beginRelease, Engine.takeTokens, Engine.record, takings, List.filterMap_cons, Occurrence.taking?]
  by_cases heq : handle = some own
  · rw [if_pos heq, if_pos heq]
    rfl
  · rw [if_neg heq, if_neg heq]
    rfl

/-- Only the first release through a handle takes tokens, those of its task. -/
theorem releaseThrough_uses (held : world.handles[own]? = some ⟨task, released⟩) (thread : Thread σ)
    (handle : HandleIndex) (after : AfterRelease σ) :
    world.Uses own task released (handle == own) (releaseThrough world thread handle after).1 := by
  have hspares := finishRelease_spares world thread after (.ok ())
  rw [releaseThrough]
  by_cases heq : handle = own
  · subst heq
    rw [held, beq_self_eq_true]
    cases released with
    | true =>
      refine ⟨?_, hspares.untaken handle⟩
      exact (congrArg (·[handle]?) hspares.handles).trans held
    | false =>
      obtain ⟨hlt, -⟩ := Array.getElem?_eq_some_iff.mp held
      refine ⟨?_, ?_⟩
      · exact Array.getElem?_setIfInBounds_self_of_lt hlt
      · exact (beginRelease_takings _ thread task (some handle) after handle).trans (by rw [if_pos rfl]; rfl)
  · rw [beq_false_of_ne heq]
    split
    · exact .of_spares held hspares
    · next other _ =>
      split
      · exact .of_spares held hspares
      · refine ⟨?_, ?_⟩
        · rw [Bool.or_false]
          exact (Array.getElem?_setIfInBounds_ne heq).trans held
        · exact (beginRelease_takings _ thread other.task (some handle) after own).trans
            (by rw [if_neg fun h => heq (Option.some.inj h)]; rfl)

/-- The work of a task asks for a release where it begins if nothing else is left of it. -/
theorem beginWork_uses (held : world.handles[own]? = some ⟨task, released⟩) (thread : Thread σ)
    (other : TaskIndex) (handle : HandleIndex) :
    world.Uses own task released (world.isSpent other && handle == own)
      (beginWork world thread other handle).1 := by
  rw [beginWork, World.isSpent]
  cases world.code[other]?.map Code.work with
  | none => exact .of_spares held (.refl _)
  | some work =>
    cases work with
    | repeatable script => exact .of_spares held (.refl _)
    | closure script =>
      cases htaken : world.engine.isTaken other with
      | true => exact releaseThrough_uses held thread handle .closureEnd
      | false => exact .of_spares held (.of_cons (.opened other) rfl rfl fun _ => rfl)

theorem finish_uses (held : world.handles[own]? = some ⟨task, released⟩) (thread : Thread σ)
    (ending : Ending) (frame : Frame σ) :
    world.Uses own task released (frame.asks? ending == some own) (finish world thread ending frame).1 := by
  have hstill : world.Uses own task released false world := .of_spares held (.refl _)
  cases frame with
  | resume handle next => cases ending <;> exact hstill
  | attempting handle next => exact hstill
  | running handle own next => cases ending <;> exact hstill
  | holding handle own next => cases ending <;> exact hstill
  | working worker other handle => exact releaseThrough_uses held thread handle _
  | reporting worker other =>
    cases ending with
    | panicked payload => exact .of_spares held (.of_cons _ rfl rfl fun _ => rfl)
    | normal | failed _ => exact hstill
  | closing handle =>
    cases ending with
    | normal => exact releaseThrough_uses held thread handle .closureEnd
    | failed _ | panicked _ => exact hstill
  | rejecting other freeing =>
    cases ending with
    | panicked payload => exact .of_spares held (.of_cons _ rfl rfl fun _ => rfl)
    | normal | failed _ => exact hstill

theorem stepFreeing_spares (world : World σ) (thread : Thread σ) (freeing : Freeing σ) :
    world.Spares (stepFreeing world thread freeing).1 := by
  rw [stepFreeing]
  split
  · next task waiters hwaiters =>
    dsimp only
    split
    · next engine hrequeue => exact .of_proceeds rfl (Tells.requeue hrequeue).proceeds
    · next fault engine hrequeue =>
      have hrequeued : world.Spares { world with engine } :=
        .of_proceeds rfl (Tells.requeue hrequeue).proceeds
      exact hrequeued.trans (deliver_spares { world with engine } task _)
  · next hwaiters =>
    split
    · next list lists hlists => exact .of_proceeds rfl (.of_eq rfl rfl)
    · next hlists =>
      refine .trans ?_ (finishRelease_spares _ thread freeing.after freeing.outcome)
      split
      · exact .refl _
      · exact .of_cons _ rfl rfl fun _ => rfl

theorem afterPoll_spares (world : World σ) (thread : Thread σ) (handle : Option HandleIndex)
    (next : Option TaskIndex → Script σ) (poll : Poll) (proceeds : world.engine.Proceeds poll.engine) :
    world.Spares (afterPoll world thread handle next poll).world := by
  cases poll <;> exact .of_proceeds rfl proceeds

theorem afterAttempt_spares (world : World σ) (thread : Thread σ) (handle : Option HandleIndex)
    (task : TaskIndex) (after : AfterClaim σ) (admission : Admission)
    (proceeds : world.engine.Proceeds admission.engine) :
    world.Spares (afterAttempt world thread handle task after admission).world := by
  cases admission with
  | acquired engine =>
    cases after with
    | answer next => exact .of_proceeds rfl proceeds
    | poll next => exact .of_proceeds rfl (.trans proceeds (.of_cons _ rfl rfl rfl))
  | waiting engine =>
    cases after with
    | answer next => exact .of_proceeds rfl proceeds
    | poll next =>
      have hpolled := proceeds.trans (Tells.poll engine).proceeds
      exact afterPoll_spares world thread handle next engine.poll hpolled
  | refused engine list => exact .of_proceeds rfl proceeds

/-- A new handle is another one. -/
theorem getElem?_makeHandle (held : world.handles[own]? = some ⟨task, released⟩) (other : TaskIndex) :
    (world.makeHandle other).2.handles[own]? = some ⟨task, released⟩ ∧ world.handles.size ≠ own := by
  obtain ⟨hlt, hget⟩ := Array.getElem?_eq_some_iff.mp held
  refine ⟨?_, by omega⟩
  rw [World.makeHandle, Array.getElem?_push_lt hlt, hget]

/-- The work of a task does not ask for a release through a handle that was there before. -/
theorem beginWork_made_uses (held : world.handles[own]? = some ⟨task, released⟩) (thread : Thread σ)
    (other : TaskIndex) : world.Uses own task released
      ((if world.isSpent other then some world.handles.size else none) == some own)
      (beginWork (world.makeHandle other).2 thread other world.handles.size).1 := by
  obtain ⟨hmade, hne⟩ := getElem?_makeHandle held other
  have huses := beginWork_uses hmade thread other world.handles.size
  rw [beq_false_of_ne hne, Bool.and_false] at huses
  have hasked : ((if world.isSpent other then some world.handles.size else none) == some own) = false := by
    split
    · exact beq_false_of_ne fun h => hne (Option.some.inj h)
    · rfl
  rw [hasked]
  exact ⟨huses.handle, huses.takings⟩

theorem stepScript_uses (held : world.handles[own]? = some ⟨task, released⟩) (thread : Thread σ)
    (handle : Option HandleIndex) {script : Script σ} (unended : ∀ ending, script ≠ .stop ending) :
    world.Uses own task released (script.asks? world handle == some own)
      (stepScript world thread handle script).world := by
  have hspared {after : World σ} (hspares : world.Spares after) :
      world.Uses own task released false after := .of_spares held hspares
  have hstill : world.Uses own task released false world := hspared (.refl _)
  cases script with
  | stop ending => exact absurd rfl (unended ending)
  | remember change next => exact hspared (.of_proceeds rfl (.refl _))
  | «recall» next => exact hstill
  | attempt body next => exact hstill
  | schedule other next =>
    rw [stepScript]
    split
    · next engine hschedule => exact hspared (.of_proceeds rfl (Proceeds.schedule hschedule))
    · exact hstill
  | submit priority closure next =>
    have hmade : world.Spares (world.addClosure { priority } { work := .closure closure }).2 :=
      .of_proceeds rfl (.of_eq rfl rfl)
    rw [stepScript]
    dsimp only
    split
    · next engine hschedule =>
      exact hspared (hmade.trans (.of_proceeds rfl (Proceeds.schedule hschedule)))
    · exact hspared hmade
  | poll next => exact hspared (afterPoll_spares world thread handle next _ (Tells.poll _).proceeds)
  | claim other next =>
    have hclaimed := (Tells.claimTokens world.engine other).proceeds
    rw [stepScript]
    generalize world.engine.claimTokens other = admission at hclaimed ⊢
    cases admission <;> exact hspared (.of_proceeds rfl hclaimed)
  | releaseFor other next =>
    exact hspared ⟨rfl, fun own => beginRelease_takings world thread other none (.answer handle next) own⟩
  | release next =>
    cases handle with
    | none => exact hstill
    | some handle => exact releaseThrough_uses held thread handle (.answer (some handle) next)
  | atHand next => exact hstill
  | run other next => exact beginWork_made_uses held _ other
  | execute worker other next => exact beginWork_made_uses held _ other
  | withHandle other body next =>
    obtain ⟨hmade, -⟩ := getElem?_makeHandle held other
    have huses := World.Uses.of_spares hmade (.refl _)
    exact ⟨huses.handle, huses.takings⟩
  | report other failure next => exact hspared (deliver_spares world other failure)
  | setPriority other priority next => exact hspared (.of_proceeds rfl (.of_eq rfl rfl))
  | setTokens other tokens next => exact hspared (.of_proceeds rfl (.of_eq rfl rfl))
  | applyPriority other next =>
    rw [stepScript]
    split
    · next moved engine hmove => exact hspared (.of_proceeds rfl (Tells.applyPriority hmove).proceeds)
    · exact hstill
  | shutDown next => exact hspared (.of_proceeds rfl (Proceeds.shutDown world.engine))
  | join next => exact hspared (.of_proceeds rfl (.refl _))
  | signal name next => exact hspared (.of_proceeds rfl (.refl _))
  | await name next =>
    rw [stepScript]
    split <;> exact hstill
  | rest worker next =>
    rw [stepScript]
    split
    · exact hstill
    · exact hspared (.of_cons (.workerParked worker) rfl rfl fun _ => rfl)
  | whoAmI next => exact hstill

/-- A step uses a handle if it asks for a release through it, and otherwise leaves it as it is. -/
theorem step_uses (held : world.handles[own]? = some ⟨task, released⟩) (thread : Thread σ) :
    world.Uses own task released (thread.asks? world == some own) (thread.step world).world := by
  have hspared {after : World σ} (hspares : world.Spares after) :
      world.Uses own task released false after := .of_spares held hspares
  have hstill : world.Uses own task released false world := hspared (.refl _)
  rw [step, asks?]
  cases hcontrol : thread.control with
  | script handle script =>
    by_cases hended : ∃ ending, script = .stop ending
    · obtain ⟨ending, rfl⟩ := hended
      dsimp only
      rw [stepScript]
      cases hstack : thread.stack with
      | nil => exact hstill
      | cons frame stack => exact finish_uses held { thread with stack } ending frame
    · have hunended : ∀ ending, script ≠ .stop ending := fun ending heq => hended ⟨ending, heq⟩
      have huses := stepScript_uses held thread handle hunended
      cases script with
      | stop ending => exact absurd ⟨ending, rfl⟩ hended
      | _ => exact huses
  | freeing freeing => exact hspared (stepFreeing_spares world thread freeing)
  | claiming handle other list after =>
    exact hspared (afterAttempt_spares world thread handle other after _ (Tells.attempt _ _ _ _).proceeds)
  | joining handle workers next =>
    dsimp only
    split <;> exact hstill
  | resting handle worker next =>
    dsimp only
    split
    · exact hspared (.of_proceeds rfl (.of_eq rfl rfl))
    · exact hstill

end Thread

/-! ### Through a whole run -/

namespace Moment

variable {start : Moment σ} {handle : Option HandleIndex} {worker k : Nat} {task : TaskIndex}
  {next : Script σ} {stack : List (Frame σ)}

/-- An execution makes a handle for its task. -/
theorem Doing.execute_uses (doing : start.Doing (.script handle (.execute worker task next)) stack) :
    (start.world.makeHandle task).2.Uses start.world.handles.size task false
      (start.asks? == some start.world.handles.size) start.next.world := by
  have hmade : (start.world.makeHandle task).2.handles[start.world.handles.size]? = some ⟨task, false⟩ :=
    Array.getElem?_push_size
  have huses := Thread.beginWork_uses hmade { start.thread with
    stack := .working worker task start.world.handles.size :: .resume handle next :: start.thread.stack } task
    start.world.handles.size
  have hasks : (start.asks? == some start.world.handles.size) =
      (start.world.isSpent task && start.world.handles.size == start.world.handles.size) := by
    rw [asks?, Thread.asks?, doing.control]
    dsimp only
    rw [Script.asks?]
    cases start.world.isSpent task <;> simp
  rw [hasks, Moment.next, Thread.step, doing.control]
  exact huses

/-- The tokens of the task of an execution are taken out of the table through its handle by the first step
that asks for that, and by no other one. -/
theorem Doing.taken_once (doing : start.Doing (.script handle (.execute worker task next)) stack)
    (before : ∀ i < k, (start.after i).asks? ≠ some start.world.handles.size)
    (asks : (start.after k).asks? = some start.world.handles.size) (n : Nat) :
    (start.after (n + 1)).world.handles[start.world.handles.size]? = some ⟨task, decide (k ≤ n)⟩ ∧
      takings start.world.handles.size (start.after (n + 1)).engine.chronicle =
        (if k ≤ n then [task] else []) ++ takings start.world.handles.size start.engine.chronicle := by
  induction n with
  | zero =>
    obtain ⟨hhandle, htakings⟩ := doing.execute_uses
    have hasked : (start.asks? == some start.world.handles.size) = decide (k ≤ 0) := by
      rcases Nat.eq_zero_or_pos k with rfl | hpos
      · exact beq_iff_eq.mpr asks
      · rw [decide_eq_false (Nat.not_le.mpr hpos)]
        exact beq_false_of_ne (before 0 hpos)
    rw [hasked] at hhandle htakings
    exact ⟨hhandle, htakings.trans (by simp; rfl)⟩
  | succ n ih =>
    obtain ⟨hheld, htaken⟩ := ih
    have huses := Thread.step_uses hheld (start.after (n + 1)).thread
    change World.Uses _ _ task _ ((start.after (n + 1)).asks? == some start.world.handles.size)
      (start.after (n + 1)).next.world at huses
    obtain ⟨hhandle, htakings⟩ := huses
    change _ = _ ++ takings _ (start.after (n + 1)).engine.chronicle at htakings
    rw [htaken] at htakings
    rcases Nat.lt_trichotomy (n + 1) k with hearlier | rfl | hlater
    · rw [beq_false_of_ne (before (n + 1) hearlier)] at hhandle htakings
      have hle : ¬ k ≤ n + 1 := Nat.not_le.mpr hearlier
      have hle' : ¬ k ≤ n := fun h => hle (Nat.le_succ_of_le h)
      simp only [hle, hle', decide_false] at hhandle htakings ⊢
      exact ⟨hhandle, htakings⟩
    · rw [beq_iff_eq.mpr asks] at hhandle htakings
      have hle : ¬ n + 1 ≤ n := Nat.not_succ_le_self n
      simp only [hle, Nat.le_refl, decide_false, decide_true] at hhandle htakings ⊢
      exact ⟨hhandle, htakings⟩
    · -- the handle has been used, and so it does not matter whether it is asked for again
      have hle : k ≤ n := Nat.le_of_lt_succ hlater
      simp only [hle, Nat.le_succ_of_le hle, decide_true, Bool.not_true, Bool.and_false, Bool.true_or]
        at hhandle htakings ⊢
      exact ⟨hhandle, htakings⟩

/-- Where a release has been asked for through the handle of an execution, the tokens of the task have been
taken by the first step that asked for it. -/
theorem Doing.exists_taking {n : Nat}
    (doing : start.Doing (.script handle (.execute worker task next)) stack)
    (asks : (start.after (n + 1)).asks? = some start.world.handles.size) :
    ∃ k ≤ n + 1, (start.after k).asks? = some start.world.handles.size ∧
      (∀ i < k, (start.after i).asks? ≠ some start.world.handles.size) ∧
      (start.after (n + 1)).world.handles[start.world.handles.size]? = some ⟨task, decide (k ≤ n)⟩ ∧
      ∀ time, takings start.world.handles.size (start.after time).engine.chronicle =
        (if k < time then [task] else []) ++ takings start.world.handles.size start.engine.chronicle := by
  have hever : ∃ k, (start.after k).asks? = some start.world.handles.size := ⟨n + 1, asks⟩
  have hasked := Nat.find_spec hever
  have hfirst : ∀ i < Nat.find hever, (start.after i).asks? ≠ some start.world.handles.size :=
    fun i hi => Nat.find_min hever hi
  refine ⟨Nat.find hever, Nat.find_min' hever asks, hasked, hfirst,
    (doing.taken_once hfirst hasked n).1, fun time => ?_⟩
  cases time with
  | zero => rfl
  | succ time =>
    have htaken := (doing.taken_once hfirst hasked time).2
    simp only [Nat.lt_succ_iff]
    exact htaken

end Moment

end Dispatch
