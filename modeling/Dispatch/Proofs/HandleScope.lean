import Dispatch.Proofs.Calls
import Dispatch.Proofs.Handles

/-!
# A handle is used only by those who have it

A thread asks for a release through a handle only if it has that handle at hand, or goes on with it in one of
its frames (`Moment.asks_ne`). A step hands on the handles that are there, and makes new ones, so a call
that does not begin with a handle does not come to have it (`Moment.lacks_next`). The frames below the call may
keep the handle, since they are not looked at before the call has ended: until then it stays unused, also if
other threads take steps meanwhile (`Moment.Meanwhile.unreleased`).
-/

namespace Dispatch

variable {σ : Type}

/-! ### Threads without a handle -/

def AfterRelease.Lacks (own : HandleIndex) : AfterRelease σ → Prop
  | answer handle _ => handle ≠ some own
  | closureEnd | execution .. => True

def Frame.Lacks (own : HandleIndex) : Frame σ → Prop
  | resume handle _ | attempting handle _ => handle ≠ some own
  | running handle other _ | holding handle other _ => handle ≠ some own ∧ other ≠ own
  | working _ _ other | closing other => other ≠ own
  | reporting .. => True
  | rejecting _ freeing => freeing.after.Lacks own

def Control.Lacks (own : HandleIndex) : Control σ → Prop
  | script handle _ | claiming handle .. | joining handle .. | resting handle .. => handle ≠ some own
  | freeing release => release.after.Lacks own

def Above (own : HandleIndex) (base stack : List (Frame σ)) : Prop :=
  ∃ above, stack = above ++ base ∧ ∀ frame ∈ above, frame.Lacks own

/-- What a thread does above some frames is done without the handle. -/
structure Thread.Lacks (thread : Thread σ) (own : HandleIndex) (base : List (Frame σ)) : Prop where
  control : thread.control.Lacks own
  above : Above own base thread.stack

variable {own : HandleIndex} {base stack : List (Frame σ)} {frame : Frame σ}

/-- What runs without any handle lacks each of them. -/
theorem Control.lacks_none (script : Script σ) : (Control.script none script).Lacks own :=
  (Option.some_ne_none own).symm

theorem Above.refl (own : HandleIndex) (base : List (Frame σ)) : Above own base base :=
  ⟨[], rfl, fun _ hmem => absurd hmem List.not_mem_nil⟩

theorem Above.push (above : Above own base stack) (frame : Frame σ) (lacks : frame.Lacks own) :
    Above own base (frame :: stack) := by
  obtain ⟨frames, rfl, hframes⟩ := above
  exact ⟨frame :: frames, rfl, List.forall_mem_cons.mpr ⟨lacks, hframes⟩⟩

/-- Where the base has not been reached, the topmost frame is above it. -/
theorem Above.pop (above : Above own base (frame :: stack)) (hne : frame :: stack ≠ base) :
    frame.Lacks own ∧ Above own base stack := by
  obtain ⟨frames, hstack, hframes⟩ := above
  cases frames with
  | nil => exact absurd hstack hne
  | cons first frames =>
    obtain ⟨rfl, rfl⟩ := List.cons.inj hstack
    obtain ⟨hfirst, hframes⟩ := List.forall_mem_cons.mp hframes
    exact ⟨hfirst, frames, rfl, hframes⟩

namespace Thread

variable {world : World σ} {thread : Thread σ} {task : TaskIndex} {handle : Option HandleIndex}

theorem lacks_deliver (world : World σ) (task : TaskIndex) (failure : Failure) :
    (deliver world task failure).2.Lacks own := by
  rw [deliver]
  split <;> exact Control.lacks_none _

theorem lacks_finishExecution (above : Above own base thread.stack) (world : World σ) (worker : Nat)
    (task : TaskIndex) (failure : Option Failure) :
    (finishExecution world thread worker task failure).2.Lacks own base := by
  cases failure with
  | none => exact ⟨Control.lacks_none _, above⟩
  | some failure => exact ⟨lacks_deliver _ task failure, above.push (.reporting worker task) trivial⟩

theorem lacks_finishRelease (above : Above own base thread.stack) (after : AfterRelease σ)
    (hafter : after.Lacks own) (world : World σ) (outcome : Except Fault Unit) :
    (finishRelease world thread after outcome).2.Lacks own base := by
  cases after with
  | answer handle next => exact ⟨hafter, above⟩
  | closureEnd => cases outcome <;> exact ⟨Control.lacks_none _, above⟩
  | execution worker task failure =>
    cases outcome with
    | ok done => exact lacks_finishExecution above world worker task failure
    | error fault => exact lacks_finishExecution above _ worker task _

theorem lacks_releaseThrough (above : Above own base thread.stack) (after : AfterRelease σ)
    (hafter : after.Lacks own) (world : World σ) (other : HandleIndex) :
    (releaseThrough world thread other after).2.Lacks own base := by
  rw [releaseThrough]
  split
  · exact lacks_finishRelease above after hafter world (.ok ())
  · split
    · exact lacks_finishRelease above after hafter world (.ok ())
    · exact ⟨hafter, above⟩

theorem lacks_beginWork (above : Above own base thread.stack) (world : World σ) (task : TaskIndex)
    {other : HandleIndex} (hother : other ≠ own) :
    (beginWork world thread task other).2.Lacks own base := by
  rw [beginWork]
  split
  · exact ⟨Control.lacks_none _, above⟩
  · exact ⟨fun heq => hother (Option.some.inj heq), above⟩
  · split
    · exact lacks_releaseThrough above .closureEnd trivial world other
    · exact ⟨Control.lacks_none _, above.push (.closing other) hother⟩

theorem lacks_finish (above : Above own base thread.stack) (hframe : frame.Lacks own) (world : World σ)
    (ending : Ending) : (finish world thread ending frame).2.Lacks own base := by
  have honwards : (thread.doing (.script none (.stop ending))).Lacks own base := ⟨Control.lacks_none _, above⟩
  cases frame with
  | resume handle next =>
    cases ending with
    | panicked payload => exact honwards
    | normal | failed _ => exact ⟨hframe, above⟩
  | attempting handle next => exact ⟨hframe, above⟩
  | running handle other next =>
    cases ending with
    | panicked payload => exact honwards
    | normal | failed _ => exact ⟨hframe.1, above⟩
  | holding handle other next =>
    cases ending with
    | normal => exact ⟨hframe.1, above⟩
    | failed _ | panicked _ => exact honwards
  | working worker task other =>
    exact lacks_releaseThrough above (.execution worker task (Failure.ofEnding? ending)) trivial world other
  | reporting worker task => cases ending <;> exact ⟨Control.lacks_none _, above⟩
  | closing other =>
    cases ending with
    | normal => exact lacks_releaseThrough above .closureEnd trivial world other
    | failed _ | panicked _ => exact honwards
  | rejecting task freeing => cases ending <;> exact ⟨hframe, above⟩

theorem lacks_stepFreeing (above : Above own base thread.stack) {freeing : Freeing σ}
    (hfreeing : freeing.after.Lacks own) (world : World σ) :
    (stepFreeing world thread freeing).2.Lacks own base := by
  rw [stepFreeing]
  split
  · dsimp only
    split
    · exact ⟨hfreeing, above⟩
    · exact ⟨lacks_deliver _ _ _, above.push (.rejecting _ _) hfreeing⟩
  · split
    · exact ⟨hfreeing, above⟩
    · exact lacks_finishRelease above freeing.after hfreeing _ freeing.outcome

theorem lacks_afterPoll (above : Above own base thread.stack) (hhandle : handle ≠ some own)
    (world : World σ) (next : Option TaskIndex → Script σ) (poll : Poll) :
    (afterPoll world thread handle next poll).thread.Lacks own base := by
  cases poll <;> exact ⟨hhandle, above⟩

theorem lacks_afterAttempt (above : Above own base thread.stack) (hhandle : handle ≠ some own)
    (world : World σ) (task : TaskIndex) (after : AfterClaim σ) (admission : Admission) :
    (afterAttempt world thread handle task after admission).thread.Lacks own base := by
  cases admission with
  | acquired engine => cases after <;> exact ⟨hhandle, above⟩
  | waiting engine =>
    cases after with
    | answer next => exact ⟨hhandle, above⟩
    | poll next => exact lacks_afterPoll above hhandle world next engine.poll
  | refused engine list => exact ⟨hhandle, above⟩

/-- A script hands on the handle it has at hand, and those it makes. -/
theorem lacks_stepScript (lacks : thread.Lacks own base) {script : Script σ}
    (hcontrol : thread.control = .script handle script) (known : own < world.handles.size)
    (unended : ∀ ending, script ≠ .stop ending) :
    (stepScript world thread handle script).thread.Lacks own base := by
  have above := lacks.above
  have hhandle : handle ≠ some own := by
    have hlacks := lacks.control
    rw [hcontrol] at hlacks
    exact hlacks
  have hmade : world.handles.size ≠ own := Nat.ne_of_gt known
  have hgoes (next : Script σ) : (thread.doing (.script handle next)).Lacks own base := ⟨hhandle, above⟩
  cases script with
  | stop ending => exact absurd rfl (unended ending)
  | attempt body next => exact ⟨hhandle, above.push (.attempting handle next) hhandle⟩
  | schedule task next =>
    rw [stepScript]
    split <;> exact hgoes _
  | submit priority closure next =>
    rw [stepScript]
    dsimp only
    split <;> exact hgoes _
  | poll next => exact lacks_afterPoll above hhandle world next _
  | claim task next =>
    rw [stepScript]
    split
    · exact ⟨hhandle, above⟩
    · exact lacks_afterAttempt above hhandle world task _ _
  | releaseFor task next => exact ⟨hhandle, above⟩
  | release next =>
    cases handle with
    | none => exact hgoes _
    | some other => exact lacks_releaseThrough above (.answer (some other) next) hhandle world other
  | run task next =>
    have hframes := above.push (.running handle world.handles.size next) ⟨hhandle, hmade⟩
    exact lacks_beginWork hframes _ task hmade
  | execute worker task next =>
    have hframes := (above.push (.resume handle next) hhandle).push
      (.working worker task world.handles.size) hmade
    exact lacks_beginWork hframes _ task hmade
  | withHandle task body next =>
    refine ⟨?_, above.push (.holding handle world.handles.size next) ⟨hhandle, hmade⟩⟩
    exact fun heq => hmade (Option.some.inj heq)
  | report task failure next =>
    exact ⟨lacks_deliver world task failure, above.push (.resume handle next) hhandle⟩
  | applyPriority task next =>
    rw [stepScript]
    split <;> exact hgoes _
  | join next => exact ⟨hhandle, above⟩
  | await name next =>
    rw [stepScript]
    split
    · exact hgoes _
    · exact lacks
  | rest worker next =>
    rw [stepScript]
    split
    · exact hgoes _
    · exact ⟨hhandle, above⟩
  | remember change next | «recall» next | atHand next | setPriority task priority next
  | setTokens task tokens next | shutDown next | signal name next | whoAmI next => exact hgoes _

end Thread

namespace Moment

variable {moment : Moment σ}

/-- A thread that lacks a handle does not ask for a release through it. -/
theorem asks_ne (lacks : moment.thread.Lacks own base) (known : own < moment.world.handles.size)
    (unstopped : ¬ moment.Stopped base) : moment.asks? ≠ some own := by
  have hmade : moment.world.handles.size ≠ own := Nat.ne_of_gt known
  have hnone : none ≠ some own := (Option.some_ne_none own).symm
  have hlacks := lacks.control
  rw [asks?, Thread.asks?]
  cases hcontrol : moment.thread.control with
  | script handle script =>
    rw [hcontrol] at hlacks
    cases script with
    | stop ending =>
      dsimp only
      cases hstack : moment.thread.stack with
      | nil => exact hnone
      | cons frame stack =>
        have hne : frame :: stack ≠ base := by
          intro hbase
          exact unstopped ⟨handle, ending, hcontrol, hstack.trans hbase⟩
        have habove := lacks.above
        rw [hstack] at habove
        obtain ⟨hframe, -⟩ := habove.pop hne
        cases frame with
        | working worker task other => exact fun hasks => hframe (Option.some.inj hasks)
        | closing other =>
          show (if ending = .normal then some other else none) ≠ some own
          split
          · exact fun hasks => hframe (Option.some.inj hasks)
          · exact hnone
        | resume | attempting | running | holding | reporting | rejecting => exact hnone
    | release next => exact hlacks
    | run task next | execute worker task next =>
      show (if moment.world.isSpent task then some moment.world.handles.size else none) ≠ some own
      split
      · exact fun hasks => hmade (Option.some.inj hasks)
      · exact hnone
    | _ => exact hnone
  | freeing | claiming | joining | resting => exact hnone

/-- A step of a call that was begun without a handle does not come to have it. -/
theorem lacks_next (lacks : moment.thread.Lacks own base) (known : own < moment.world.handles.size)
    (unstopped : ¬ moment.Stopped base) : moment.next.thread.Lacks own base := by
  have habove := lacks.above
  have hlacks := lacks.control
  rw [next, Thread.step]
  cases hcontrol : moment.thread.control with
  | script handle script =>
    by_cases hended : ∃ ending, script = .stop ending
    · obtain ⟨ending, rfl⟩ := hended
      dsimp only
      rw [Thread.stepScript]
      split
      · exact lacks
      · next frame stack hstack =>
        have hne : frame :: stack ≠ base := by
          intro hbase
          exact unstopped ⟨handle, ending, hcontrol, hstack.trans hbase⟩
        rw [hstack] at habove
        obtain ⟨hframe, hbelow⟩ := habove.pop hne
        exact @Thread.lacks_finish σ own base frame { moment.thread with stack } hbelow hframe _ ending
    · exact Thread.lacks_stepScript lacks hcontrol known fun ending heq => hended ⟨ending, heq⟩
  | freeing freeing =>
    rw [hcontrol] at hlacks
    exact Thread.lacks_stepFreeing habove hlacks moment.world
  | claiming handle task list after =>
    rw [hcontrol] at hlacks
    exact Thread.lacks_afterAttempt habove hlacks moment.world task after _
  | joining handle workers next =>
    rw [hcontrol] at hlacks
    dsimp only
    split
    · exact ⟨hlacks, habove⟩
    · exact lacks
  | resting handle worker next =>
    rw [hcontrol] at hlacks
    dsimp only
    split
    · exact ⟨hlacks, habove⟩
    · exact lacks

end Moment

/-! ### While a call lasts -/

namespace Moment

variable {call moment last : Moment σ} {frames : List (Frame σ)} {ending : Ending} {task : TaskIndex}

/-- The thread gets from a call to a moment by steps of its own inside the call. In between, other threads may
change whatever they share, this handle excepted. -/
inductive Meanwhile (own : HandleIndex) (frames : List (Frame σ)) (call : Moment σ) : Moment σ → Prop
  | refl : call.Meanwhile own frames call
  | step {moment : Moment σ} (prior : call.Meanwhile own frames moment) (within : moment.Within frames) :
      call.Meanwhile own frames moment.next
  | others {moment : Moment σ} (prior : call.Meanwhile own frames moment) {world : World σ}
      (same : world.handles[own]? = moment.world.handles[own]?) :
      call.Meanwhile own frames ⟨world, moment.thread⟩

/-- Nobody else needs to take a step. -/
theorem Back.meanwhile (back : call.Back frames ending last) : call.Meanwhile own frames last := by
  obtain ⟨n, rfl, hwithin⟩ := back.leads
  clear back
  induction n with
  | zero => exact .refl
  | succ n ih => exact .step (ih fun k hk => hwithin k (Nat.lt_succ_of_lt hk)) (hwithin n (Nat.lt_succ_self n))

/-- A handle that a call was begun without stays as it is while the call lasts. -/
theorem Meanwhile.unreleased (meanwhile : call.Meanwhile own frames last) {released : Bool}
    (held : call.world.handles[own]? = some ⟨task, released⟩) (lacks : call.thread.Lacks own frames) :
    last.world.handles[own]? = some ⟨task, released⟩ ∧ last.thread.Lacks own frames := by
  induction meanwhile with
  | refl => exact ⟨held, lacks⟩
  | @step moment _ within ih =>
    obtain ⟨hheld, hlacks⟩ := ih
    obtain ⟨hknown, -⟩ := Array.getElem?_eq_some_iff.mp hheld
    have hasks : (moment.thread.asks? moment.world == some own) = false :=
      beq_false_of_ne (asks_ne hlacks hknown within.unstopped)
    have huses := (Thread.step_uses hheld moment.thread).handle
    rw [hasks, Bool.or_false] at huses
    exact ⟨huses, lacks_next hlacks hknown within.unstopped⟩
  | others _ same ih => exact ⟨same.trans ih.1, ih.2⟩

end Moment

end Dispatch
