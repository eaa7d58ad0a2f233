import Dispatch.Proofs.SignalHistory

/-!
# The listeners of a signal

A signal is completed once, by the first call that says how (`settled`). The listeners that wait are told by
that call, in their order, and later ones when they are registered (`notified`). It is cancelled once, and
only that call runs its cancel handler (`cancelled`). This holds of every signal a run makes, whatever
listeners and cancel handlers do: they may complete and cancel signals, register listeners of their own, and
panic (`signal_kept`).

The listeners of a run are told apart by its roll (`Caller.roll`), which knows each by the number of the step
that registers it.
-/

namespace Dispatch

variable {σ : Type}

namespace SignalThread

variable {start thread : SignalThread σ} {made : Nat} {signal : SignalIndex}
  {handler : SignalIndex → SignalScript σ}

/-- The listener that a step calls, known by the time it was registered at. -/
abbrev called (start : SignalThread σ) (time : Nat) : Option Nat :=
  caller.called start time

def ListensTo (thread : SignalThread σ) (signal : SignalIndex)
    (listener : Completion → SignalScript σ) : Prop :=
  ∃ next, thread.script = .listen signal listener next

/-- A call that is made at this time comes back, and the thread goes on with this script. -/
def Answers (start : SignalThread σ) (call : Nat) (next : SignalScript σ) : Prop :=
  ∃ back, caller.Returned start call back ∧ (start.after back).script = next

/-- A call that is made at this time changes nothing, and the thread goes on with this script. -/
def Refused (start : SignalThread σ) (call : Nat) (next : SignalScript σ) : Prop :=
  start.after (call + 1) = (start.after call).doing next

structure Settled (start : SignalThread σ) (made : Nat) (signal : SignalIndex) : Prop where
  /-- One call at most completes it. -/
  winner : ∀ {call call' result result'}, (start.after call).Completes signal result →
    (start.after call').Completes signal result' → call = call'
  /-- It has completed as that call said, from then on and not before. -/
  finished : ∀ {time result}, made < time →
    (((start.after time).world.get signal).finished = some result ↔
      ∃ call, call < time ∧ (start.after call).Completes signal result)
  /-- That call tells that it did. -/
  won : ∀ {call result next}, (start.after call).script = .complete signal result next →
    (start.after call).Completes signal result → start.Answers call (next true)
  /-- Every other call tells that it did not, and changes nothing. -/
  lost : ∀ {call result next}, (start.after call).script = .complete signal result next →
    ¬ (start.after call).Completes signal result → start.Refused call (next false)

structure Notified (start : SignalThread σ) (made : Nat) (signal : SignalIndex) : Prop where
  /-- The listeners that are run are the ones that are called. -/
  starts : ∀ time, (start.after time).starts? =
    (start.called time).bind fun r => (start.after r).registers?
  /-- Nobody is called twice. -/
  once : ∀ {time time' r}, start.called time = some r → start.called time' = some r → time = time'
  /-- One that is called is told how the signal was completed, which it has been before or is now. -/
  told : ∀ {time r listener}, made < r → (start.after r).ListensTo signal listener →
    start.called time = some r → ∃ call result, call ≤ time ∧
      (start.after call).Completes signal result ∧ (start.after (time + 1)).script = listener result
  /-- One that was registered before is called during the call that completes the signal. -/
  before : ∀ {r call listener result}, made < r → (start.after r).ListensTo signal listener →
    r < call → (start.after call).Completes signal result →
      ∃ time, start.called time = some r ∧ caller.During start call time
  /-- Those that were registered before are called in the order they were registered in. -/
  inOrder : ∀ {r r' call listener listener' result time time'}, made < r → r < r' → r' < call →
    (start.after r).ListensTo signal listener → (start.after r').ListensTo signal listener' →
      (start.after call).Completes signal result → start.called time = some r →
        start.called time' = some r' → time < time'
  /-- One that is registered after that is called at once, and the registration goes on after it. -/
  later : ∀ {r call listener result}, (start.after r).ListensTo signal listener →
    call < r → (start.after call).Completes signal result → start.called r = some r ∧
      ∃ frame, (start.after (r + 1)).stack = frame :: (start.after r).stack
  /-- Nobody waits once the signal has completed. -/
  emptied : ∀ {call result time}, (start.after call).Completes signal result → call < time →
    ((start.after time).world.get signal).listeners = []

structure Cancelled (start : SignalThread σ) (made : Nat) (signal : SignalIndex)
    (handler : SignalScript σ) : Prop where
  /-- It has been cancelled if that was asked for. -/
  cancelled : ∀ {time}, made < time → (((start.after time).world.get signal).cancelled = true ↔
    ∃ call, made < call ∧ call < time ∧ (start.after call).script.cancels signal)
  /-- The first call that cancels it calls the cancel handler, and tells that it did. -/
  first : ∀ {call next}, made < call → (start.after call).script = .cancel signal next →
    (∀ earlier, made < earlier → earlier < call → ¬ (start.after earlier).script.cancels signal) →
      (start.after (call + 1)).script = handler ∧
        (start.after (call + 1)).stack = .cancelling (next true) :: (start.after call).stack ∧
        start.Answers call (next true)
  /-- Every other call tells that it did not, and changes nothing. -/
  again : ∀ {call next earlier}, (start.after call).script = .cancel signal next →
    made < earlier → earlier < call → (start.after earlier).script.cancels signal →
      start.Refused call (next false)
  /-- Cancel handlers are called by calls that cancel. -/
  handled : ∀ {time next}, (start.after (time + 1)).stack = .cancelling next :: (start.after time).stack →
    ∃ other answer, (start.after time).script = .cancel other answer ∧
      ((start.after time).world.get other).cancelled = false
  /-- A call that cancels a signal does not complete one. -/
  apart : ∀ {time other}, made < time → (start.after time).script.cancels other →
    ((start.after (time + 1)).world.get signal).finished =
      ((start.after time).world.get signal).finished

/-! ### Completion -/

/-- A frame that has nothing left to call goes on with its script. -/
theorem advance_frame {ending : Ending} {frame : SignalFrame σ} {stack : List (SignalFrame σ)}
    {next : SignalScript σ} (hscript : thread.script = .stop ending)
    (hstack : thread.stack = frame :: stack)
    (hframe : frame = .cancelling next ∨ ∃ result, frame = .notifying result [] next) :
    (advance step thread).script = next ∧ (advance step thread).stack = stack := by
  obtain ⟨world, script, frames⟩ := thread
  cases hscript
  cases hstack
  obtain rfl | ⟨result, rfl⟩ := hframe <;> cases ending <;> exact ⟨rfl, rfl⟩

/-- The call that completes a signal calls the listeners that wait, if there are any. -/
theorem advance_complete {result : Completion} {next : Bool → SignalScript σ}
    (hscript : thread.script = .complete signal result next)
    (hfinished : (thread.world.get signal).finished = none) :
    ((advance step thread).script = next true ∧ (advance step thread).stack = thread.stack) ∨
      ∃ due, (advance step thread).stack = .notifying result due (next true) :: thread.stack := by
  obtain ⟨world, script, frames⟩ := thread
  cases hscript
  unfold advance step Signal.complete?
  dsimp only at hfinished ⊢
  rw [hfinished]
  dsimp only
  cases (world.get signal).listeners with
  | nil => exact .inl ⟨rfl, rfl⟩
  | cons listener due => exact .inr ⟨due, rfl⟩

/-- A call that comes too late changes nothing. -/
theorem advance_late {result winner : Completion} {next : Bool → SignalScript σ}
    (hscript : thread.script = .complete signal result next)
    (hfinished : (thread.world.get signal).finished = some winner) :
    advance step thread = thread.doing (next false) := by
  obtain ⟨world, script, frames⟩ := thread
  cases hscript
  unfold advance step Signal.complete?
  dsimp only at hfinished ⊢
  rw [hfinished]

/-- A call comes back when the frame on top of its own level is left. -/
theorem answers_of_back {call back : Nat} {frame : SignalFrame σ} {next : SignalScript σ}
    (hlt : call < back) (hreturns : caller.Returns (start.after back))
    (hstack : (start.after back).stack = frame :: (start.after call).stack)
    (hframe : frame = .cancelling next ∨ ∃ result, frame = .notifying result [] next)
    (hwithin : ∀ time, call < time → time ≤ back →
      ∃ frame, frame :: (start.after call).stack <:+ (start.after time).stack) :
    start.Answers call next := by
  obtain ⟨ending, hscript⟩ := hreturns
  obtain ⟨hnext, hlevel⟩ := advance_frame hscript hstack hframe
  refine ⟨back + 1, ⟨Nat.lt_succ_of_lt hlt, hlevel, fun time hafter hbefore => ?_⟩, hnext⟩
  exact hwithin time hafter (Nat.le_of_lt_succ hbefore)

theorem settled (h : start.MadeAt made signal handler) : start.Settled made signal := by
  refine ⟨h.completes_inj, fun hlt => h.finished_iff hlt, fun {call result next} hscript hcompletes => ?_,
    fun {call result next} hscript hnot => ?_⟩
  · obtain ⟨hnext, hlevel⟩ | ⟨due, hlevel⟩ := advance_complete hscript hcompletes.2
    · exact ⟨call + 1, ⟨Nat.lt_succ_self call, hlevel, fun time hafter hbefore => by omega⟩, hnext⟩
    · have hframe : caller.stack (caller.after start (call + 1)) =
          caller.frame due (result, next true) :: (start.after call).stack := hlevel
      obtain ⟨back, hle, hreturns, hback, hwithin⟩ := lawful.frame_left (ends start) hframe
      exact answers_of_back hle hreturns hback (.inr ⟨result, rfl⟩) hwithin
  · have hfinished : ((start.after call).world.get signal).finished ≠ none :=
      fun hnone => hnot ⟨⟨next, hscript⟩, hnone⟩
    obtain ⟨winner, hwinner⟩ := Option.ne_none_iff_exists'.mp hfinished
    exact advance_late hscript hwinner

/-! ### Listeners -/

theorem distinct_events (start : SignalThread σ) : Roll.Distinct (caller.events start) := by
  intro time places h
  obtain ⟨signal, result, -, rfl⟩ := event_eq_take.mp h
  exact List.nodup_singleton signal

theorem takes_of_completes {time : Nat} {result : Completion}
    (h : (start.after time).Completes signal result) : (caller.events start time).Takes signal :=
  ⟨[signal], event_eq_take.mpr ⟨signal, result, h, rfl⟩, List.mem_singleton_self signal⟩

theorem completes_of_takes {time : Nat} (h : (caller.events start time).Takes signal) :
    ∃ result, (start.after time).Completes signal result := by
  obtain ⟨places, hevent, hmem⟩ := h
  obtain ⟨other, result, hcompletes, rfl⟩ := event_eq_take.mp hevent
  rw [List.mem_singleton.mp hmem]
  exact ⟨result, hcompletes⟩

theorem taken_of_completes {time : Nat} {result : Completion}
    (h : (start.after time).Completes signal result) :
    Roll.taken (caller.events start) time = (caller.roll start time).waiting signal := by
  have hevent : caller.events start time = .take [signal] := event_eq_take.mpr ⟨signal, result, h, rfl⟩
  rw [Roll.taken_of_take hevent]
  exact List.flatMap_singleton _ _

/-- One that is registered before its signal completes is taken off by the call that completes it. -/
theorem mem_taken_of_before (h : start.MadeAt made signal handler) {r call : Nat} {result : Completion}
    {listener : Completion → SignalScript σ} (hmade : made < r)
    (hlistens : (start.after r).ListensTo signal listener) (hlt : r < call)
    (hcompletes : (start.after call).Completes signal result) :
    r ∈ Roll.taken (caller.events start) call := by
  have hnone : ((start.after r).world.get signal).finished = none := by
    by_contra hfinished
    obtain ⟨winner, hwinner⟩ := Option.ne_none_iff_exists'.mp hfinished
    obtain ⟨earlier, hearlier, hwon⟩ := (h.finished_iff hmade).mp hwinner
    have := h.completes_inj hwon hcompletes
    omega
  obtain ⟨next, hscript⟩ := hlistens
  rw [taken_of_completes hcompletes]
  refine Roll.mem_waiting_after.mpr ⟨hlt, waitsAt_iff.mpr ⟨listener, next, hscript, hnone⟩,
    fun t hr ht hclears => ?_⟩
  obtain htakes | hsupplant := hclears
  · obtain ⟨other, hother⟩ := completes_of_takes htakes
    have := h.completes_inj hother hcompletes
    omega
  · obtain ⟨_, _, hother, hnone⟩ := waitsAt_iff.mp (.inr hsupplant)
    have hevent : (start.after t).event = .supplant signal := hsupplant
    simp [event, hother, hnone] at hevent

def fresh (memory : σ) (script : SignalScript σ) : SignalThread σ :=
  { world := { memory }, script }

theorem reflects_fresh (memory : σ) (script : SignalScript σ) (time : Nat) :
    caller.Reflects (fresh memory script) time :=
  lawful.reflects (fun _ => rfl) rfl time

theorem result_of_resume {result : Completion} {due : List (Completion → SignalScript σ)}
    {next : SignalScript σ} {stack : List (SignalFrame σ)} (h : thread.event = .resume)
    (hstack : thread.stack = .notifying result due next :: stack) : thread.result? = some result := by
  obtain ⟨world, script, frames⟩ := thread
  cases hstack
  cases script with
  | stop _ => rfl
  | complete _ _ _ | listen _ _ _ =>
    unfold event at h
    dsimp only at h
    split at h <;> cases h
  | remember _ _ | «recall» _ | attempt _ _ | make _ _ | makeCompleted _ | cancel _ _ | look _ _
  | makeFlag _ | raise _ _ | isRaised _ _ => cases h

/-- One that is called is told how its signal was completed. -/
theorem result_of_called (hreflects : ∀ time, caller.Reflects start time)
    (h : start.MadeAt made signal handler) {time r : Nat} {listener : Completion → SignalScript σ}
    (hmade : made < r) (hlistens : (start.after r).ListensTo signal listener)
    (hcalled : start.called time = some r) :
    ∃ call result, call ≤ time ∧ (start.after call).Completes signal result ∧
      (start.after time).result? = some result := by
  obtain ⟨next, hscript⟩ := hlistens
  obtain ⟨hcall, rfl⟩ | ⟨call, due, hdue, -, hbefore⟩ := Roll.called_cases hcalled
  · obtain ⟨other, _, _, result, hother, hfinished⟩ := event_eq_call hcall
    cases hscript.symm.trans hother
    obtain ⟨call, hlt, hcompletes⟩ := (h.finished_iff hmade).mp hfinished
    refine ⟨call, result, Nat.le_of_lt hlt, hcompletes, ?_⟩
    rw [result?, hscript]
    exact hfinished
  · have htaken := hdue.mem List.mem_cons_self
    obtain ⟨hlt, place, hwaits, htakes, -⟩ := Roll.waits_of_taken htaken
    obtain ⟨_, _, hother, -⟩ := waitsAt_iff.mp hwaits
    cases hscript.symm.trans hother
    obtain ⟨result, hcompletes⟩ := completes_of_takes htakes
    obtain ⟨goal, hgoal⟩ := hcompletes.1
    obtain rfl | ⟨due, aim, hevent, hlevel, haim⟩ :=
      lawful.goal_of_called hreflects hcalled htaken
    · refine ⟨call, result, Nat.le_refl call, hcompletes, ?_⟩
      rw [result?, hgoal]
    · have hmeant : (start.after call).goal? = some (result, goal true) := by rw [goal?, hgoal]
      cases haim.symm.trans hmeant
      exact ⟨call, result, Roll.le_of_called_taken hcalled htaken, hcompletes,
        result_of_resume hevent hlevel⟩

theorem notified (hreflects : ∀ time, caller.Reflects start time)
    (h : start.MadeAt made signal handler) : start.Notified made signal := by
  refine ⟨fun time => (lawful.reflects_step (hreflects time)).2,
    fun hcalled hcalled' => Roll.called_inj (distinct_events start) hcalled hcalled',
    fun {time r listener} hmade hlistens hcalled => ?_,
    fun {r call listener result} hmade hlistens hlt hcompletes => ?_,
    fun {r r' call listener listener' result time time'} hmade hlt hlt' hlistens hlistens' hcompletes
      hcalled hcalled' => ?_,
    fun {r call listener result} hlistens hlt hcompletes => ?_,
    fun {call result time} hcompletes hlt => ?_⟩
  · obtain ⟨call, result, hle, hcompletes, hresult⟩ := result_of_called hreflects h hmade hlistens hcalled
    have hstarts := (lawful.reflects_step (hreflects time)).2
    have hlistener : caller.registers? (start.after r) = some listener := by
      obtain ⟨next, hscript⟩ := hlistens
      show (start.after r).registers? = _
      rw [registers?, hscript]
    have hwho : caller.called start time = some r := hcalled
    rw [hwho, Option.bind_some, hlistener] at hstarts
    obtain ⟨told, htold, hscript⟩ := script_of_starts hstarts
    cases htold.symm.trans hresult
    exact ⟨call, result, hle, hcompletes, hscript⟩
  · have htaken := mem_taken_of_before h hmade hlistens hlt hcompletes
    exact lawful.called_during (ends start) hreflects htaken
  · have htaken := mem_taken_of_before h hmade hlistens (Nat.lt_trans hlt hlt') hcompletes
    have htaken' := mem_taken_of_before h (Nat.lt_trans hmade hlt) hlistens' hlt' hcompletes
    refine Roll.called_lt_called (distinct_events start) ?_ htaken htaken' hlt hcalled hcalled'
    rw [taken_of_completes hcompletes]
    exact Roll.sorted_waiting _ call signal
  · obtain ⟨next, hscript⟩ := hlistens
    have hfinished := (h.finished_iff (Nat.lt_trans (h.lt_of_completes hcompletes) hlt)).mpr
      ⟨call, hlt, hcompletes⟩
    have hcall : caller.event (start.after r) = .call := event_of_finished hscript hfinished
    exact ⟨Roll.called_of_call hcall, lawful.stack_of_call hcall⟩
  · -- whoever waits was registered before the signal completed, and was taken off then
    have hnobody : (caller.roll start time).waiting signal = [] := by
      refine List.eq_nil_iff_forall_not_mem.mpr fun r hmem => ?_
      obtain ⟨hbefore, hwaits, hkept⟩ := Roll.mem_waiting_after.mp hmem
      obtain ⟨_, _, hscript, hnone⟩ := waitsAt_iff.mp hwaits
      obtain hr | rfl | hr := Nat.lt_trichotomy r call
      · exact hkept call hr hlt (.inl (takes_of_completes hcompletes))
      · obtain ⟨next, hcall⟩ := hcompletes.1
        cases hscript.symm.trans hcall
      · have hfinished := (h.finished_iff (Nat.lt_trans (h.lt_of_completes hcompletes) hr)).mpr
          ⟨call, hr, hcompletes⟩
        cases hnone.symm.trans hfinished
    have hwaiting := (hreflects time).waiting signal
    rw [hnobody] at hwaiting
    exact List.forall₂_nil_left_iff.mp hwaiting

/-! ### Cancelling -/

theorem cancels_iff {script : SignalScript σ} :
    script.cancels signal ↔ ∃ next, script = .cancel signal next := by
  cases script with
  | cancel other next =>
    unfold SignalScript.cancels
    dsimp only
    rw [decide_eq_true_iff]
    constructor
    · rintro rfl
      exact ⟨next, rfl⟩
    · rintro ⟨_, h⟩
      cases h
      rfl
  | stop _ | remember _ _ | «recall» _ | attempt _ _ | make _ _ | makeCompleted _ | complete _ _ _
  | listen _ _ _ | look _ _ | makeFlag _ | raise _ _ | isRaised _ _ => simp [SignalScript.cancels]

theorem advance_cancel {next : Bool → SignalScript σ} (hscript : thread.script = .cancel signal next) :
    (advance step thread) = if (thread.world.get signal).cancelled then thread.doing (next false) else
      (thread.within (thread.world.set signal
        { thread.world.get signal with cancelled := true })).calling (.cancelling (next true))
          (thread.world.get signal).cancelHandler := by
  obtain ⟨world, script, frames⟩ := thread
  cases hscript
  unfold advance step
  dsimp only
  cases (world.get signal).cancelled <;> rfl

theorem length_finish (thread : SignalThread σ) (ending : Ending) (frame : SignalFrame σ) :
    (thread.finish ending frame).stack.length ≤ thread.stack.length + 1 := by
  cases frame with
  | resume next | cancelling next => cases ending <;> exact Nat.le_succ _
  | attempting next => exact Nat.le_succ _
  | notifying result due next =>
    cases due with
    | nil => cases ending <;> exact Nat.le_succ _
    | cons listener due => cases ending <;> exact Nat.le_refl _

/-- Only a call that cancels a signal calls a cancel handler. -/
theorem script_of_cancelling {next : SignalScript σ}
    (h : (advance step thread).stack = .cancelling next :: thread.stack) :
    ∃ other answer, thread.script = .cancel other answer ∧
      (thread.world.get other).cancelled = false := by
  obtain ⟨world, script, frames⟩ := thread
  have hself (h : frames = .cancelling next :: frames) : False := by
    have hlength := congrArg List.length h
    simp at hlength
  cases script with
  | cancel other answer =>
    rw [advance_cancel rfl] at h
    cases hcancelled : (world.get other).cancelled with
    | false => exact ⟨other, answer, rfl, hcancelled⟩
    | true =>
      rw [if_pos hcancelled] at h
      exact (hself h).elim
  | stop ending =>
    cases frames with
    | nil => cases h
    | cons frame frames =>
      have hlength := length_finish ⟨world, .stop ending, frames⟩ ending frame
      have hmore := congrArg List.length h
      simp only [List.length_cons] at hmore hlength
      have hnext : (advance step ⟨world, .stop ending, frame :: frames⟩).stack.length =
          (finish ⟨world, .stop ending, frames⟩ ending frame).stack.length := rfl
      omega
  | attempt _ _ => cases h
  | remember _ _ | «recall» _ | make _ _ | makeCompleted _ | look _ _ | makeFlag _ | raise _ _
  | isRaised _ _ => exact (hself h).elim
  | complete other result answer =>
    cases hfinished : (world.get other).finished with
    | none =>
      obtain ⟨-, hlevel⟩ | ⟨due, hlevel⟩ :=
        @advance_complete σ ⟨world, .complete other result answer, frames⟩ other result answer rfl hfinished
      · exact (hself (hlevel.symm.trans h)).elim
      · cases hlevel.symm.trans h
    | some winner =>
      rw [advance_late rfl hfinished] at h
      exact (hself h).elim
  | listen other listener answer =>
    unfold advance step at h
    dsimp only at h
    cases hfinished : (world.get other).finished with
    | none =>
      rw [hfinished] at h
      exact (hself h).elim
    | some winner =>
      rw [hfinished] at h
      cases h

theorem cancelled (h : start.MadeAt made signal handler) :
    start.Cancelled made signal (handler signal) := by
  refine ⟨fun hlt => h.cancelled_iff hlt, fun {call next} hmade hscript hfirst => ?_,
    fun {call next earlier} hscript hmade hlt hcancels => ?_, fun hstack => script_of_cancelling hstack,
    fun {time other} hmade hcancels => ?_⟩
  · have hfresh : ¬ ((start.after call).world.get signal).cancelled = true := fun hcancelled => by
      obtain ⟨earlier, hearlier, hlt, hcancels⟩ := (h.cancelled_iff hmade).mp hcancelled
      exact hfirst earlier hearlier hlt hcancels
    have hnext : start.after (call + 1) = advance step (start.after call) := rfl
    have hcalling := advance_cancel hscript
    rw [if_neg hfresh, ← hnext] at hcalling
    have hstack : (start.after (call + 1)).stack = .cancelling (next true) :: (start.after call).stack :=
      congrArg SignalThread.stack hcalling
    refine ⟨(congrArg SignalThread.script hcalling).trans (h.cancelHandler hmade), hstack, ?_⟩
    obtain ⟨back, hback⟩ := lawful.stacked.comes_back (ends start) (call + 1)
    refine answers_of_back hback.le hback.returns (hback.level.trans hstack) (.inl rfl)
      fun time hafter hle => ⟨.cancelling (next true), ?_⟩
    rw [← hstack]
    exact hback.within time hafter hle
  · have hcancelled := (h.cancelled_iff (Nat.lt_trans hmade hlt)).mpr ⟨earlier, hmade, hlt, hcancels⟩
    exact (advance_cancel hscript).trans (if_pos hcancelled)
  · obtain ⟨next, hscript⟩ := cancels_iff.mp hcancels
    have hevolves := evolves_after start (h.lt_size hmade)
    rw [hevolves.finished, hscript]
    exact Option.or_none

/-- A signal is completed once, tells all its listeners, and is cancelled once, whatever its listeners and its
cancel handler do and however they end. -/
theorem signal_kept (memory : σ) (script : SignalScript σ)
    (h : (fresh memory script).MadeAt made signal handler) :
    (fresh memory script).Settled made signal ∧ (fresh memory script).Notified made signal ∧
      (fresh memory script).Cancelled made signal (handler signal) :=
  ⟨settled h, notified (reflects_fresh memory script) h, cancelled h⟩

/-- A cancel handler that cancels the signal again, completes it and panics. -/
def stubborn (signal : SignalIndex) : SignalScript Unit :=
  .cancel signal fun _ => .complete signal .succeeded fun _ => .stop (.panicked .other)

/-- A signal with this cancel handler, and with a listener that registers another one and panics. -/
def quarrel : SignalScript Unit :=
  .make stubborn fun signal => .listen signal
    (fun _ => .listen signal (fun _ => .stop .normal) (.stop (.panicked .other)))
    (.cancel signal fun _ => .stop .normal)

theorem signal_kept_quarrel : (fresh () quarrel).MadeAt 0 0 stubborn ∧
    (fresh () quarrel).Settled 0 0 ∧ (fresh () quarrel).Notified 0 0 ∧
      (fresh () quarrel).Cancelled 0 0 (stubborn 0) := by
  have made : (fresh () quarrel).MadeAt 0 0 stubborn := ⟨⟨_, rfl⟩, rfl⟩
  exact ⟨made, signal_kept () quarrel made⟩

/-- The first listener is called by the fifth step, and the one that it registers by the next. -/
example : ((fresh () quarrel).called 4, (fresh () quarrel).called 5) = (some 1, some 5) := by
  rfl

end SignalThread

end Dispatch
