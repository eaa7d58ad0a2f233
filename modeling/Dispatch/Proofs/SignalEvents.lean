import Dispatch.Proofs.Caller
import Dispatch.Proofs.SignalEnding

/-!
# What signals do to their listeners

The users of signals are threads that call listeners. A listener waits at its signal, and is called at once if
the signal has completed. All that wait at a signal are taken off by the call that completes it.
-/

namespace Dispatch

variable {σ : Type}

namespace SignalThread

def starts? (thread : SignalThread σ) : Option (Completion → SignalScript σ) :=
  match thread.script with
  | .stop _ =>
    match thread.stack with
    | .notifying _ due _ :: _ => due.head?
    | [] | .resume _ :: _ | .attempting _ :: _ | .cancelling _ :: _ => none
  | .listen signal listener _ =>
    if (thread.world.get signal).finished.isSome then some listener else none
  | .complete signal _ _ =>
    if (thread.world.get signal).finished.isSome then none else (thread.world.get signal).listeners.head?
  | .remember _ _ | .recall _ | .attempt _ _ | .make _ _ | .makeCompleted _ | .cancel _ _ | .look _ _
  | .makeFlag _ | .raise _ _ | .isRaised _ _ => none

/-- How the signal was completed, as the listener is told that the next step calls. -/
def result? (thread : SignalThread σ) : Option Completion :=
  match thread.script with
  | .stop _ =>
    match thread.stack with
    | .notifying result _ _ :: _ => some result
    | [] | .resume _ :: _ | .attempting _ :: _ | .cancelling _ :: _ => none
  | .listen signal _ _ => (thread.world.get signal).finished
  | .complete _ result _ => some result
  | .remember _ _ | .recall _ | .attempt _ _ | .make _ _ | .makeCompleted _ | .cancel _ _ | .look _ _
  | .makeFlag _ | .raise _ _ | .isRaised _ _ => none

def registers? (thread : SignalThread σ) : Option (Completion → SignalScript σ) :=
  match thread.script with
  | .listen _ listener _ => some listener
  | .stop _ | .remember _ _ | .recall _ | .attempt _ _ | .make _ _ | .makeCompleted _ | .complete _ _ _
  | .cancel _ _ | .look _ _ | .makeFlag _ | .raise _ _ | .isRaised _ _ => none

/-- What the thread does when the listeners have been called that the next step takes off. -/
def goal? (thread : SignalThread σ) : Option (Completion × SignalScript σ) :=
  match thread.script with
  | .complete _ result next => some (result, next true)
  | .stop _ | .remember _ _ | .recall _ | .attempt _ _ | .make _ _ | .makeCompleted _ | .listen _ _ _
  | .cancel _ _ | .look _ _ | .makeFlag _ | .raise _ _ | .isRaised _ _ => none

def event (thread : SignalThread σ) : Roll.Event SignalIndex :=
  match thread.script with
  | .stop _ =>
    match thread.stack with
    | .notifying _ _ _ :: _ => .resume
    | [] | .resume _ :: _ | .attempting _ :: _ | .cancelling _ :: _ => .pass
  | .listen signal _ _ =>
    if (thread.world.get signal).finished.isSome then .call else .wait signal
  | .complete signal _ _ =>
    if (thread.world.get signal).finished.isSome then .pass else .take [signal]
  | .remember _ _ | .recall _ | .attempt _ _ | .make _ _ | .makeCompleted _ | .cancel _ _ | .look _ _
  | .makeFlag _ | .raise _ _ | .isRaised _ _ => .pass

def caller : Caller (SignalThread σ) (SignalFrame σ) (Completion → SignalScript σ)
    (Completion × SignalScript σ) SignalIndex where
  step := step
  stack := stack
  Returns thread := ∃ ending, thread.script = .stop ending
  waiting thread signal := (thread.world.get signal).listeners
  frame due goal := .notifying goal.1 due goal.2
  event := event
  registers? := registers?
  goal? := goal?
  starts? := starts?
  Runs goal listener thread := thread.script = listener goal.1

end SignalThread

/-! ### Signals that change -/

namespace SignalWorld

variable (world : SignalWorld σ) {signal other : SignalIndex} {changed : Signal σ}

theorem get_set_self (h : signal < world.signals.size) :
    (world.set signal changed).get signal = changed := by
  rw [get, set, Array.getD_eq_getD_getElem?, Array.getElem?_setIfInBounds_self_of_lt h]
  rfl

theorem get_set_of_ne (h : other ≠ signal) : (world.set signal changed).get other = world.get other := by
  rw [get, set, Array.getD_eq_getD_getElem?, Array.getElem?_setIfInBounds_ne (Ne.symm h),
    ← Array.getD_eq_getD_getElem?]
  rfl

theorem get_push (made : Signal σ) :
    ({ world with signals := world.signals.push made } : SignalWorld σ).get signal =
      if signal = world.signals.size then made else world.get signal := by
  rw [get, Array.getD_eq_getD_getElem?, Array.getElem?_push]
  split
  · rfl
  · rw [← Array.getD_eq_getD_getElem?]
    rfl

theorem listeners_push {made : Signal σ} (h : made.listeners = []) (signal : SignalIndex) :
    (({ world with signals := world.signals.push made } : SignalWorld σ).get signal).listeners =
      (world.get signal).listeners := by
  rw [get_push]
  split
  · next heq =>
    rw [h, get_of_size_le (Nat.le_of_eq heq.symm)]
    rfl
  · rfl

/-- What a change leaves alone, it leaves alone of every signal. -/
theorem map_get_set {β : Type} (f : Signal σ → β) (h : f changed = f (world.get signal)) :
    f ((world.set signal changed).get other) = f (world.get other) := by
  by_cases hne : other = signal
  · subst hne
    by_cases hlt : other < world.signals.size
    · rw [get_set_self world hlt, h]
    · have hsame : world.set other changed = world := by
        rw [set, Array.setIfInBounds_eq_of_size_le (Nat.le_of_not_lt hlt)]
      rw [hsame]
  · rw [get_set_of_ne world hne]

theorem size_set : (world.set signal changed).signals.size = world.signals.size :=
  Array.size_setIfInBounds

end SignalWorld

namespace SignalThread

variable {thread later : SignalThread σ}

theorem world_notify (thread : SignalThread σ) (result : Completion) (next : SignalScript σ)
    (due : List (Completion → SignalScript σ)) : (thread.notify result next due).world = thread.world := by
  cases due <;> rfl

theorem fires_notify (thread : SignalThread σ) {stack : List (SignalFrame σ)}
    (hstack : thread.stack = stack) (result : Completion) (next : SignalScript σ)
    (due : List (Completion → SignalScript σ)) :
    caller.Fires (result, next) stack (thread.notify result next due) due := by
  subst hstack
  cases due with
  | nil => exact .done rfl
  | cons listener due => exact .first rfl rfl

theorem plain_resume (next : SignalScript σ) : caller.Plain (.resume next) :=
  fun _ _ h => nomatch h

theorem plain_attempting (next : Ending → SignalScript σ) : caller.Plain (.attempting next) :=
  fun _ _ h => nomatch h

theorem plain_cancelling (next : SignalScript σ) : caller.Plain (.cancelling next) :=
  fun _ _ h => nomatch h

/-- Every step does to the listeners what its event says. -/
theorem moves (h : thread.step = .inr later) : caller.Moves thread later := by
  obtain ⟨world, script, stack⟩ := thread
  cases script with
  | stop ending =>
    cases stack with
    | nil => cases h
    | cons frame stack =>
      cases h
      have hplain (hplain : caller.Plain frame) {later : SignalThread σ}
          (hstarts : starts? ⟨world, .stop ending, frame :: stack⟩ = none)
          (hevent : event ⟨world, .stop ending, frame :: stack⟩ = .pass)
          (hworld : later.world.signals = world.signals) (hstack : later.stack = stack) :
          caller.Moves ⟨world, .stop ending, frame :: stack⟩ later := by
        have hget : later.world.get = world.get := by
          funext signal
          rw [SignalWorld.get, SignalWorld.get, hworld]
        exact .pass hevent hstarts (congrArg (fun get signal => (get signal).listeners) hget)
          (.inr (.inr ⟨frame, ⟨ending, rfl⟩, hplain, congrArg (frame :: ·) hstack.symm⟩))
      cases frame with
      | resume next => cases ending <;> exact hplain (plain_resume next) rfl rfl rfl rfl
      | attempting next => exact hplain (plain_attempting next) rfl rfl rfl rfl
      | cancelling next => cases ending <;> exact hplain (plain_cancelling next) rfl rfl rfl rfl
      | notifying result due next =>
        have hresume (log : List LogEntry) :
            caller.Moves ⟨world, .stop ending, .notifying result due next :: stack⟩
              (notify ⟨{ world with log }, .stop ending, stack⟩ result next due) := by
          have hworld := world_notify ⟨{ world with log }, .stop ending, stack⟩ result next due
          have hwaiting := congrArg (fun world signal => (SignalWorld.get world signal).listeners) hworld
          exact .resume rfl rfl ⟨ending, rfl⟩ rfl hwaiting
            (fires_notify ⟨{ world with log }, .stop ending, stack⟩ rfl result next due)
        cases ending <;> exact hresume _
  | remember change next => cases h; exact .pass rfl rfl rfl (.inl rfl)
  | «recall» next => cases h; exact .pass rfl rfl rfl (.inl rfl)
  | attempt body next =>
    cases h
    exact .pass rfl rfl rfl (.inr (.inl ⟨_, plain_attempting next, rfl⟩))
  | make handler next =>
    cases h
    exact .pass rfl rfl (funext fun signal => world.listeners_push rfl signal) (.inl rfl)
  | makeCompleted next =>
    cases h
    exact .pass rfl rfl (funext fun signal => world.listeners_push rfl signal) (.inl rfl)
  | complete signal result next =>
    unfold step Signal.complete? at h
    dsimp only at h
    cases hfinished : (world.get signal).finished with
    | some winner =>
      rw [hfinished] at h
      cases h
      exact .pass (by simp [caller, event, hfinished]) (by simp [caller, starts?, hfinished]) rfl (.inl rfl)
    | none =>
      rw [hfinished] at h
      cases h
      have hlt : signal < world.signals.size :=
        SignalWorld.lt_of_get fun heq => by rw [heq] at hfinished; cases hfinished
      let completed : Signal σ := { world.get signal with finished := some result, listeners := [] }
      let taken : SignalThread σ := ⟨world.set signal completed, .complete signal result next, stack⟩
      have hworld := world_notify taken result (next true) (world.get signal).listeners
      have hfires := fires_notify taken rfl result (next true) (world.get signal).listeners
      have hevent : event ⟨world, .complete signal result next, stack⟩ = .take [signal] := by
        simp [event, hfinished]
      have hstarts : starts? ⟨world, .complete signal result next, stack⟩ =
          (world.get signal).listeners.head? := by simp [starts?, hfinished]
      rw [← List.flatMap_singleton (fun signal => (world.get signal).listeners)] at hstarts
      refine .take hevent hstarts rfl (fun place hmem => ?_) (fun place hnot => ?_) ?_
      · rw [List.mem_singleton.mp hmem]
        exact (congrArg (fun world => (SignalWorld.get world signal).listeners) hworld).trans
          (congrArg Signal.listeners (world.get_set_self hlt))
      · have hne : place ≠ signal := fun heq => hnot (List.mem_singleton.mpr heq)
        exact (congrArg (fun world => (SignalWorld.get world place).listeners) hworld).trans
          (congrArg Signal.listeners (world.get_set_of_ne hne))
      · rw [List.flatMap_singleton]
        exact hfires
  | listen signal listener next =>
    unfold step at h
    dsimp only at h
    cases hfinished : (world.get signal).finished with
    | some result =>
      rw [hfinished] at h
      cases h
      exact .call (by simp [caller, event, hfinished]) (by simp [caller, starts?, registers?, hfinished]) rfl
        (plain_resume next) rfl
    | none =>
      rw [hfinished] at h
      cases h
      have hlt : signal < world.signals.size :=
        SignalWorld.lt_of_get fun heq => by rw [heq] at hfinished; cases hfinished
      have hevent : event ⟨world, .listen signal listener next, stack⟩ = .wait signal := by
        simp [event, hfinished]
      refine .wait hevent (by simp [caller, starts?, hfinished]) rfl ?_ (fun other hne => ?_) rfl
      · exact congrArg Signal.listeners (world.get_set_self hlt)
      · exact congrArg Signal.listeners (world.get_set_of_ne hne)
  | cancel signal next =>
    unfold step at h
    dsimp only at h
    split at h
    · cases h
      exact .pass rfl rfl rfl (.inl rfl)
    · cases h
      refine .pass rfl rfl (funext fun other => ?_) (.inr (.inl ⟨_, plain_cancelling (next true), rfl⟩))
      exact world.map_get_set Signal.listeners rfl
  | look signal next => cases h; exact .pass rfl rfl rfl (.inl rfl)
  | makeFlag next => cases h; exact .pass rfl rfl rfl (.inl rfl)
  | raise flag next => cases h; exact .pass rfl rfl rfl (.inl rfl)
  | isRaised flag next => cases h; exact .pass rfl rfl rfl (.inl rfl)

/-- A thread ends when its script has and nothing is left on the stack. -/
theorem ended {ending : Ending} (h : thread.step = .inl ending) :
    thread.script = .stop ending ∧ thread.stack = [] := by
  obtain ⟨world, script, stack⟩ := thread
  cases script with
  | stop _ =>
    cases stack with
    | nil => cases h; exact ⟨rfl, rfl⟩
    | cons frame stack => cases h
  | remember _ _ | «recall» _ | attempt _ _ | make _ _ | makeCompleted _ | look _ _ | makeFlag _
  | raise _ _ | isRaised _ _ => cases h
  | complete _ _ _ | listen _ _ _ | cancel _ _ =>
    unfold step at h
    dsimp only at h
    split at h <;> cases h

theorem lawful : (caller (σ := σ)).Lawful := by
  refine ⟨fun {due due' goal goal'} h => ?_, moves,
    fun {thread due goal stack} hreturns hstack => ?_, fun {thread ending} h => ?_⟩
  · obtain ⟨result, next⟩ := goal
    obtain ⟨result', next'⟩ := goal'
    cases h
    exact ⟨rfl, rfl⟩
  · obtain ⟨world, script, frames⟩ := thread
    obtain ⟨ending, hscript⟩ := hreturns
    cases hscript
    cases hstack
    rfl
  · obtain ⟨hscript, hstack⟩ := ended h
    obtain ⟨world, script, frames⟩ := thread
    cases hscript
    cases hstack
    exact ⟨rfl, rfl, ⟨ending, rfl⟩, rfl⟩

/-! ### What is known of the events -/

def Completes (thread : SignalThread σ) (signal : SignalIndex) (result : Completion) : Prop :=
  (∃ next, thread.script = .complete signal result next) ∧ (thread.world.get signal).finished = none

/-- Listeners are taken off when their signal is completed. -/
theorem event_eq_take {places : List SignalIndex} : thread.event = .take places ↔
    ∃ signal result, thread.Completes signal result ∧ places = [signal] := by
  obtain ⟨world, script, stack⟩ := thread
  cases script with
  | complete signal result next =>
    cases hfinished : (world.get signal).finished with
    | some winner =>
      have hevent : event ⟨world, .complete signal result next, stack⟩ = .pass := by
        simp [event, hfinished]
      rw [hevent]
      constructor
      · intro h
        cases h
      · rintro ⟨_, _, ⟨⟨_, hscript⟩, hnone⟩, -⟩
        cases hscript
        cases hfinished.symm.trans hnone
    | none =>
      have hevent : event ⟨world, .complete signal result next, stack⟩ = .take [signal] := by
        simp [event, hfinished]
      rw [hevent]
      constructor
      · intro h
        cases h
        exact ⟨signal, result, ⟨⟨next, rfl⟩, hfinished⟩, rfl⟩
      · rintro ⟨_, _, ⟨⟨_, hscript⟩, -⟩, rfl⟩
        cases hscript
        rfl
  | stop _ =>
    cases stack with
    | nil => simp [event, Completes]
    | cons frame stack => cases frame <;> simp [event, Completes]
  | listen _ _ _ =>
    unfold event
    dsimp only
    split <;> simp [Completes]
  | remember _ _ | «recall» _ | attempt _ _ | make _ _ | makeCompleted _ | cancel _ _ | look _ _
  | makeFlag _ | raise _ _ | isRaised _ _ => simp [event, Completes]

/-- Nobody waits anywhere unless registered there. -/
theorem waitsAt_iff {signal : SignalIndex} : thread.event.WaitsAt signal ↔
    ∃ listener next, thread.script = .listen signal listener next ∧
      (thread.world.get signal).finished = none := by
  obtain ⟨world, script, stack⟩ := thread
  cases script with
  | listen other listener next =>
    cases hfinished : (world.get other).finished with
    | some result =>
      have hevent : event ⟨world, .listen other listener next, stack⟩ = .call := by
        simp [event, hfinished]
      rw [hevent]
      constructor
      · intro h
        obtain h | h := h <;> cases h
      · rintro ⟨_, _, hscript, hnone⟩
        cases hscript
        cases hfinished.symm.trans hnone
    | none =>
      have hevent : event ⟨world, .listen other listener next, stack⟩ = .wait other := by
        simp [event, hfinished]
      rw [hevent]
      constructor
      · intro h
        obtain h | h := h <;> cases h
        exact ⟨listener, next, rfl, hfinished⟩
      · rintro ⟨_, _, hscript, -⟩
        cases hscript
        exact .inl rfl
  | stop _ =>
    cases stack with
    | nil => simp [event, Roll.Event.WaitsAt]
    | cons frame stack => cases frame <;> simp [event, Roll.Event.WaitsAt]
  | complete _ _ _ =>
    unfold event
    dsimp only
    split <;> simp [Roll.Event.WaitsAt]
  | remember _ _ | «recall» _ | attempt _ _ | make _ _ | makeCompleted _ | cancel _ _ | look _ _
  | makeFlag _ | raise _ _ | isRaised _ _ => simp [event, Roll.Event.WaitsAt]

/-- A listener is called at once if its signal has completed. -/
theorem event_of_finished {signal : SignalIndex} {listener : Completion → SignalScript σ}
    {next : SignalScript σ} {result : Completion} (h : thread.script = .listen signal listener next)
    (hfinished : (thread.world.get signal).finished = some result) : thread.event = .call := by
  rw [event, h]
  simp [hfinished]

theorem event_eq_call (h : thread.event = .call) : ∃ signal listener next result,
    thread.script = .listen signal listener next ∧
      (thread.world.get signal).finished = some result := by
  obtain ⟨world, script, stack⟩ := thread
  cases script with
  | listen signal listener next =>
    cases hfinished : (world.get signal).finished with
    | some result => exact ⟨signal, listener, next, result, rfl, hfinished⟩
    | none => simp [event, hfinished] at h
  | stop _ =>
    cases stack with
    | nil => cases h
    | cons frame stack => cases frame <;> cases h
  | complete _ _ _ =>
    unfold event at h
    dsimp only at h
    split at h <;> cases h
  | remember _ _ | «recall» _ | attempt _ _ | make _ _ | makeCompleted _ | cancel _ _ | look _ _
  | makeFlag _ | raise _ _ | isRaised _ _ => cases h

theorem script_notify (thread : SignalThread σ) (result : Completion) (next : SignalScript σ)
    {due : List (Completion → SignalScript σ)} {listener : Completion → SignalScript σ}
    (h : due.head? = some listener) : (thread.notify result next due).script = listener result := by
  cases due with
  | nil => cases h
  | cons first due => exact congrArg (fun listener => listener result) (Option.some.inj h)

/-- The listener that a step calls is what the thread does next. -/
theorem script_of_starts {listener : Completion → SignalScript σ} (h : thread.starts? = some listener) :
    ∃ result, thread.result? = some result ∧ (advance step thread).script = listener result := by
  obtain ⟨world, script, stack⟩ := thread
  cases script with
  | stop ending =>
    cases stack with
    | nil => cases h
    | cons frame stack =>
      cases frame with
      | resume _ | attempting _ | cancelling _ => cases h
      | notifying result due next =>
        refine ⟨result, rfl, ?_⟩
        cases ending <;> exact script_notify _ result next h
  | listen signal first next =>
    cases hfinished : (world.get signal).finished with
    | none => simp [starts?, hfinished] at h
    | some result =>
      have hfirst : first = listener := by simpa [starts?, hfinished] using h
      refine ⟨result, hfinished, ?_⟩
      rw [advance, step]
      simp only [hfinished]
      exact congrArg (fun listener => listener result) hfirst
  | complete signal result next =>
    cases hfinished : (world.get signal).finished with
    | some winner => simp [starts?, hfinished] at h
    | none =>
      have hhead : (world.get signal).listeners.head? = some listener := by
        simpa [starts?, hfinished] using h
      refine ⟨result, rfl, ?_⟩
      rw [advance, step]
      simp only [Signal.complete?, hfinished]
      exact script_notify _ result (next true) hhead
  | remember _ _ | «recall» _ | attempt _ _ | make _ _ | makeCompleted _ | cancel _ _ | look _ _
  | makeFlag _ | raise _ _ | isRaised _ _ => cases h

end SignalThread

end Dispatch
