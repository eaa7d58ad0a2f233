import Dispatch.Proofs.CounterListeners
import Dispatch.Proofs.SignalListeners

/-!
# How far the panic of a listener gets

Whoever gives a reference back or completes a signal calls all listeners that are due, one after the other,
and then goes on, however each of them ends; whoever cancels a signal goes on when the cancel handler has
ended, however it does. The panic of a listener gets no further than that, and the only panic of these calls
is that of a decrement without a reference. The one way for the panic of a listener to reach a caller is the
registration that calls its listener at once, because the counter is idle or the signal has completed: there
nobody stands between the two (`panics_contained`).

This holds of any thread, whatever waits and whatever is on its stack, since every run ends and so every
call comes back.
-/

namespace Dispatch

variable {σ : Type}

theorem Caller.CallsAll.returned {α φ Listener Goal ι : Type} {caller : Caller α φ Listener Goal ι}
    {start : α} {goal : Goal} {due : List Listener} {call last : Nat}
    (h : caller.CallsAll start goal (caller.stack (caller.after start call)) due call last)
    (level : caller.stack (caller.after start (last + 1)) = caller.stack (caller.after start call)) :
    caller.Returned start call (last + 1) :=
  ⟨Nat.lt_succ_of_le h.le, level, fun time hafter hbefore =>
    h.within time hafter (Nat.le_of_lt_succ hbefore)⟩

theorem Caller.returned_next {α φ Listener Goal ι : Type} {caller : Caller α φ Listener Goal ι} {start : α}
    {call : Nat}
    (level : caller.stack (caller.after start (call + 1)) = caller.stack (caller.after start call)) :
    caller.Returned start call (call + 1) :=
  ⟨Nat.lt_succ_self call, level, fun _ hafter hbefore =>
    absurd hafter (Nat.not_lt.mpr (Nat.le_of_lt_succ hbefore))⟩

/-- A call that calls something at once comes back to its frame when that does, and goes on from there. -/
theorem Caller.Lawful.called_back {α φ Listener Goal ι : Type} {caller : Caller α φ Listener Goal ι}
    (lawful : caller.Lawful) {start : α} (ends : Ends caller.step start) {call : Nat} {frame : φ}
    (hframe : caller.stack (caller.after start (call + 1)) =
      frame :: caller.stack (caller.after start call)) :
    ∃ back, caller.Returns (caller.after start back) ∧
      caller.stack (caller.after start back) = frame :: caller.stack (caller.after start call) ∧
        (caller.stack (caller.after start (back + 1)) = caller.stack (caller.after start call) →
          caller.Returned start call (back + 1)) := by
  obtain ⟨back, hback⟩ := lawful.stacked.comes_back ends (call + 1)
  refine ⟨back, hback.returns, hback.level.trans hframe, fun level => ?_⟩
  refine ⟨Nat.lt_succ_of_le (Nat.le_of_succ_le hback.le), level, fun time hafter hbefore => ?_⟩
  exact ⟨frame, hframe ▸ hback.within time hafter (Nat.le_of_lt_succ hbefore)⟩

/-! ### Counters -/

def ReferenceCounter.due (counter : ReferenceCounter σ) : List (CounterScript σ) :=
  if counter.count = 1 then counter.listeners ++ counter.once.toList else []

/-- What a registration goes on with when the listener it called at once has ended. -/
def CounterScript.unlessPanicked (next : CounterScript σ) (ending : Ending) : CounterScript σ :=
  match ending with
  | .panicked _ => .stop ending
  | .normal | .failed _ => next

/-- What a script goes on with when it has registered this listener, if that is what it is about to do. -/
def CounterScript.Registers (script listener next : CounterScript σ) : Prop :=
  script = .listen listener next ∨ script = .listenOnce listener next

namespace CounterThread

variable {start thread : CounterThread σ} {call : Nat} {listener next : CounterScript σ}

/-- A call that is made at the first time comes back at the last, and its caller goes on with this. -/
def Resumes (start : CounterThread σ) (first last : Nat) (next : CounterScript σ) : Prop :=
  caller.Returned start first last ∧ (start.after last).script = next

structure Contains (start : CounterThread σ) (call : Nat) : Prop where
  /-- Whoever gives a reference back goes on when all listeners that are due have been run, however they
  end. -/
  goesOn : ∀ {next}, (start.after call).givesBack? = some next →
    (start.after call).world.counter.count ≠ 0 → ∃ last,
      caller.CallsAll start next (start.after call).stack (start.after call).world.counter.due call last ∧
        start.Resumes call (last + 1) next
  /-- Whoever gives back what is not out panics. -/
  underflow : ∀ {next}, (start.after call).givesBack? = some next →
    (start.after call).world.counter.count = 0 →
      start.Resumes call (call + 1) (.stop (.panicked underflow))
  /-- A registration that lets a listener wait goes on at once. -/
  waits : ∀ {listener next}, (start.after call).script.Registers listener next →
    (start.after call).world.counter.count ≠ 0 → start.Resumes call (call + 1) next
  /-- A registration that calls its listener goes on when that has ended, unless it has panicked. -/
  atOnce : ∀ {listener next}, (start.after call).script.Registers listener next →
    (start.after call).world.counter.count = 0 → (start.after (call + 1)).script = listener ∧
      ∃ back ending, (start.after back).script = .stop ending ∧
        start.Resumes call (back + 1) (next.unlessPanicked ending)

theorem advance_return {ending : Ending} {frame : CounterFrame σ} {stack : List (CounterFrame σ)}
    (hscript : thread.script = .stop ending) (hstack : thread.stack = frame :: stack) :
    advance step thread = ({ thread with stack } : CounterThread σ).finish ending frame := by
  obtain ⟨world, script, frames⟩ := thread
  cases hscript
  cases hstack
  rfl

def setGuards (thread : CounterThread σ) (guards : List GuardRef) : CounterThread σ :=
  { thread with world := { thread.world with guards } }

theorem advance_givesBack (h : thread.givesBack? = some next) :
    ∃ guards, advance step thread = (thread.setGuards guards).decrement next := by
  obtain ⟨world, script, stack⟩ := thread
  cases script with
  | decrement _ =>
    cases h
    exact ⟨world.guards, rfl⟩
  | letGo guard _ =>
    unfold givesBack? at h
    dsimp only at h
    split at h
    · next hguard =>
      cases h
      refine ⟨world.guards.erase guard, ?_⟩
      rw [advance, step]
      simp only [hguard]
      rfl
    · cases h
  | stop _ | remember _ _ | «recall» _ | attempt _ _ | increment _ | listen _ _ | listenOnce _ _
  | hold _ => cases h

theorem decrement_of_busy (hbusy : thread.world.counter.count ≠ 0) (next : CounterScript σ) :
    ∃ counter, thread.decrement next = (thread.setCounter counter).fire next thread.world.counter.due := by
  unfold decrement ReferenceCounter.decrement? ReferenceCounter.due
  cases hcount : thread.world.counter.count with
  | zero => exact absurd hcount hbusy
  | succ count =>
    cases count with
    | zero => exact ⟨{}, rfl⟩
    | succ count => exact ⟨{ thread.world.counter with count := count + 1 }, rfl⟩

theorem starts_of_givesBack (h : thread.givesBack? = some next) :
    thread.starts? = thread.world.counter.due.head? := by
  rw [(event_of_givesBack h).2, crosses, h, ReferenceCounter.due]
  by_cases hcount : thread.world.counter.count = 1 <;> simp [hcount]

/-- A frame that has called all its listeners goes on as was meant. -/
theorem resumes_of_callsAll {due : List (CounterScript σ)} {last : Nat}
    (hall : caller.CallsAll start next (start.after call).stack due call last)
    (hnone : due = [] → (start.after (call + 1)).script = next ∧
      (start.after (call + 1)).stack = (start.after call).stack) :
    start.Resumes call (last + 1) next := by
  have hlast : (start.after (last + 1)).script = next ∧
      (start.after (last + 1)).stack = (start.after call).stack := by
    obtain ⟨rfl, rfl⟩ | ⟨⟨ending, hscript⟩, hstack⟩ := hall.at_last
    · exact hnone rfl
    · have hadvance : start.after (last + 1) = _ := advance_return hscript hstack
      rw [hadvance]
      cases ending <;> exact ⟨rfl, rfl⟩
  exact ⟨hall.returned hlast.2, hlast.1⟩

theorem goesOn (h : (start.after call).givesBack? = some next)
    (hbusy : (start.after call).world.counter.count ≠ 0) : ∃ last,
      caller.CallsAll start next (start.after call).stack (start.after call).world.counter.due call last ∧
        start.Resumes call (last + 1) next := by
  obtain ⟨guards, hdecrement⟩ := advance_givesBack h
  obtain ⟨counter, hfire⟩ := @decrement_of_busy σ ((start.after call).setGuards guards) hbusy next
  have hnext : start.after (call + 1) = (((start.after call).setGuards guards).setCounter counter).fire
      next (start.after call).world.counter.due := hdecrement.trans hfire
  have hfires : caller.Fires next (start.after call).stack (start.after (call + 1))
      (start.after call).world.counter.due := by
    rw [hnext]
    exact fires_fire (((start.after call).setGuards guards).setCounter counter) rfl next _
  obtain ⟨last, hall⟩ := lawful.callsAll (ends start) (starts_of_givesBack h) hfires
  refine ⟨last, hall, resumes_of_callsAll hall fun hnone => ?_⟩
  rw [hnone] at hnext
  rw [hnext]
  exact ⟨rfl, rfl⟩

theorem advance_underflows (h : thread.givesBack? = some next)
    (hnone : thread.world.counter.count = 0) : ∃ guards, advance step thread =
      (thread.setGuards guards).doing (.stop (.panicked CounterThread.underflow)) := by
  obtain ⟨guards, hdecrement⟩ := advance_givesBack h
  refine ⟨guards, hdecrement.trans ?_⟩
  unfold decrement ReferenceCounter.decrement? setGuards
  simp only [hnone]

theorem underflows (h : (start.after call).givesBack? = some next)
    (hnone : (start.after call).world.counter.count = 0) :
    start.Resumes call (call + 1) (.stop (.panicked CounterThread.underflow)) := by
  obtain ⟨guards, hnext⟩ := advance_underflows h hnone
  have hpanics : start.after (call + 1) = ((start.after call).setGuards guards).doing
      (.stop (.panicked CounterThread.underflow)) := hnext
  have hlevel : (start.after (call + 1)).stack = (start.after call).stack := by
    rw [hpanics]
    rfl
  exact ⟨Caller.returned_next hlevel, congrArg CounterThread.script hpanics⟩

theorem advance_waits (h : thread.script.Registers listener next)
    (hbusy : thread.world.counter.count ≠ 0) :
    (advance step thread).script = next ∧ (advance step thread).stack = thread.stack := by
  have hisBusy : thread.world.counter.isBusy = true := by simpa [ReferenceCounter.isBusy] using hbusy
  obtain ⟨world, script, stack⟩ := thread
  obtain heq | heq := h <;> cases heq <;> simp only [advance, step, hisBusy] <;> exact ⟨rfl, rfl⟩

theorem advance_atOnce (h : thread.script.Registers listener next)
    (hidle : thread.world.counter.count = 0) :
    advance step thread = thread.calling (.resume next) listener := by
  have hisBusy : thread.world.counter.isBusy = false := by simpa [ReferenceCounter.isBusy] using hidle
  obtain ⟨world, script, stack⟩ := thread
  obtain heq | heq := h <;> cases heq <;> simp only [advance, step, hisBusy] <;> rfl

theorem atOnce (h : (start.after call).script.Registers listener next)
    (hidle : (start.after call).world.counter.count = 0) : (start.after (call + 1)).script = listener ∧
      ∃ back ending, (start.after back).script = .stop ending ∧
        start.Resumes call (back + 1) (next.unlessPanicked ending) := by
  have hnext : start.after (call + 1) = _ := advance_atOnce h hidle
  have hstack : (start.after (call + 1)).stack = .resume next :: (start.after call).stack := by
    rw [hnext]
    rfl
  obtain ⟨back, ⟨ending, hscript⟩, hback, hreturned⟩ := lawful.called_back (ends start) hstack
  have hlater : start.after (back + 1) = _ := advance_return hscript hback
  have hlast : (start.after (back + 1)).script = next.unlessPanicked ending ∧
      (start.after (back + 1)).stack = (start.after call).stack := by
    rw [hlater]
    cases ending with
    | panicked payload => exact ⟨hscript, rfl⟩
    | normal | failed _ => exact ⟨rfl, rfl⟩
  exact ⟨congrArg CounterThread.script hnext, back, ending, hscript, hreturned hlast.2, hlast.1⟩

theorem contains (start : CounterThread σ) (call : Nat) : start.Contains call := by
  refine ⟨goesOn, underflows, fun {listener next} h hbusy => ?_, atOnce⟩
  obtain ⟨hscript, hstack⟩ := advance_waits h hbusy
  exact ⟨Caller.returned_next hstack, hscript⟩

end CounterThread

/-! ### Signals -/

def SignalScript.unlessPanicked (next : SignalScript σ) (ending : Ending) : SignalScript σ :=
  match ending with
  | .panicked _ => .stop ending
  | .normal | .failed _ => next

namespace SignalThread

variable {start thread : SignalThread σ} {call : Nat} {signal : SignalIndex} {result : Completion}

def Resumes (start : SignalThread σ) (first last : Nat) (next : SignalScript σ) : Prop :=
  caller.Returned start first last ∧ (start.after last).script = next

structure Contains (start : SignalThread σ) (call : Nat) : Prop where
  /-- Whoever completes a signal goes on when all listeners that wait have been run, however they end. -/
  goesOn : ∀ {signal result next}, (start.after call).script = .complete signal result next →
    ((start.after call).world.get signal).finished = none → ∃ last,
      caller.CallsAll start (result, next true) (start.after call).stack
        ((start.after call).world.get signal).listeners call last ∧
          start.Resumes call (last + 1) (next true)
  /-- Whoever comes too late to complete it goes on at once. -/
  late : ∀ {signal result next}, (start.after call).script = .complete signal result next →
    ((start.after call).world.get signal).finished ≠ none → start.Resumes call (call + 1) (next false)
  /-- Whoever cancels a signal goes on when the cancel handler has ended, however it does. -/
  cancels : ∀ {signal next}, (start.after call).script = .cancel signal next →
    ((start.after call).world.get signal).cancelled = false →
      (start.after (call + 1)).script = ((start.after call).world.get signal).cancelHandler ∧
        ∃ back, start.Resumes call (back + 1) (next true)
  /-- Whoever comes too late to cancel it goes on at once. -/
  again : ∀ {signal next}, (start.after call).script = .cancel signal next →
    ((start.after call).world.get signal).cancelled = true → start.Resumes call (call + 1) (next false)
  /-- A registration that lets a listener wait goes on at once. -/
  waits : ∀ {signal listener next}, (start.after call).script = .listen signal listener next →
    ((start.after call).world.get signal).finished = none → start.Resumes call (call + 1) next
  /-- A registration that calls its listener goes on when that has ended, unless it has panicked. -/
  atOnce : ∀ {signal listener next result}, (start.after call).script = .listen signal listener next →
    ((start.after call).world.get signal).finished = some result →
      (start.after (call + 1)).script = listener result ∧
        ∃ back ending, (start.after back).script = .stop ending ∧
          start.Resumes call (back + 1) (next.unlessPanicked ending)

theorem advance_return {ending : Ending} {frame : SignalFrame σ} {stack : List (SignalFrame σ)}
    (hscript : thread.script = .stop ending) (hstack : thread.stack = frame :: stack) :
    advance step thread = ({ thread with stack } : SignalThread σ).finish ending frame := by
  obtain ⟨world, script, frames⟩ := thread
  cases hscript
  cases hstack
  rfl

theorem advance_completes {next : Bool → SignalScript σ}
    (hscript : thread.script = .complete signal result next)
    (hfinished : (thread.world.get signal).finished = none) :
    thread.starts? = (thread.world.get signal).listeners.head? ∧ ∃ world, advance step thread =
      (thread.within world).notify result (next true) (thread.world.get signal).listeners := by
  obtain ⟨world, script, frames⟩ := thread
  cases hscript
  dsimp only at hfinished
  refine ⟨by simp [starts?, hfinished], world.set signal
    { world.get signal with finished := some result, listeners := [] }, ?_⟩
  unfold advance step Signal.complete?
  dsimp only
  rw [hfinished]

theorem goesOn {next : Bool → SignalScript σ}
    (hscript : (start.after call).script = .complete signal result next)
    (hfinished : ((start.after call).world.get signal).finished = none) : ∃ last,
      caller.CallsAll start (result, next true) (start.after call).stack
        ((start.after call).world.get signal).listeners call last ∧
          start.Resumes call (last + 1) (next true) := by
  obtain ⟨hstarts, world, hadvance⟩ := advance_completes hscript hfinished
  have hnext : start.after (call + 1) = _ := hadvance
  have hfires : caller.Fires (result, next true) (start.after call).stack (start.after (call + 1))
      ((start.after call).world.get signal).listeners := by
    rw [hnext]
    exact fires_notify ((start.after call).within world) rfl result (next true) _
  obtain ⟨last, hall⟩ := lawful.callsAll (ends start) hstarts hfires
  have hlast : (start.after (last + 1)).script = next true ∧
      (start.after (last + 1)).stack = (start.after call).stack := by
    obtain ⟨hnone, rfl⟩ | ⟨⟨ending, hstop⟩, hstack⟩ := hall.at_last
    · rw [hnext, hnone]
      exact ⟨rfl, rfl⟩
    · exact advance_frame hstop hstack (.inr ⟨result, rfl⟩)
  exact ⟨last, hall, hall.returned hlast.2, hlast.1⟩

theorem cancels {next : Bool → SignalScript σ} (hscript : (start.after call).script = .cancel signal next)
    (hfresh : ((start.after call).world.get signal).cancelled = false) :
    (start.after (call + 1)).script = ((start.after call).world.get signal).cancelHandler ∧
      ∃ back, start.Resumes call (back + 1) (next true) := by
  have hadvance := advance_cancel hscript
  rw [if_neg (by simp [hfresh])] at hadvance
  have hnext : start.after (call + 1) = _ := hadvance
  have hstack : (start.after (call + 1)).stack = .cancelling (next true) :: (start.after call).stack := by
    rw [hnext]
    rfl
  obtain ⟨back, ⟨ending, hstop⟩, hback, hreturned⟩ := lawful.called_back (ends start) hstack
  have hlast : (start.after (back + 1)).script = next true ∧
      (start.after (back + 1)).stack = (start.after call).stack := advance_frame hstop hback (.inl rfl)
  exact ⟨congrArg SignalThread.script hnext, back, hreturned hlast.2, hlast.1⟩

theorem advance_listen {listener : Completion → SignalScript σ} {next : SignalScript σ}
    (hscript : thread.script = .listen signal listener next) : advance step thread =
      match (thread.world.get signal).finished with
      | some result => thread.calling (.resume next) (listener result)
      | none => (thread.within
          (thread.world.set signal ((thread.world.get signal).listen listener))).doing next := by
  obtain ⟨world, script, frames⟩ := thread
  cases hscript
  unfold advance step
  dsimp only
  cases (world.get signal).finished <;> rfl

theorem atOnce {listener : Completion → SignalScript σ} {next : SignalScript σ}
    (hscript : (start.after call).script = .listen signal listener next)
    (hfinished : ((start.after call).world.get signal).finished = some result) :
    (start.after (call + 1)).script = listener result ∧ ∃ back ending,
      (start.after back).script = .stop ending ∧
        start.Resumes call (back + 1) (next.unlessPanicked ending) := by
  have hadvance := advance_listen hscript
  rw [hfinished] at hadvance
  have hnext : start.after (call + 1) = _ := hadvance
  have hstack : (start.after (call + 1)).stack = .resume next :: (start.after call).stack := by
    rw [hnext]
    rfl
  obtain ⟨back, ⟨ending, hstop⟩, hback, hreturned⟩ := lawful.called_back (ends start) hstack
  have hlater : start.after (back + 1) = _ := advance_return hstop hback
  have hlast : (start.after (back + 1)).script = next.unlessPanicked ending ∧
      (start.after (back + 1)).stack = (start.after call).stack := by
    rw [hlater]
    cases ending with
    | panicked payload => exact ⟨hstop, rfl⟩
    | normal | failed _ => exact ⟨rfl, rfl⟩
  exact ⟨congrArg SignalThread.script hnext, back, ending, hstop, hreturned hlast.2, hlast.1⟩

theorem resumes_next {world : SignalWorld σ} {next : SignalScript σ}
    (h : advance step (start.after call) = ((start.after call).within world).doing next) :
    start.Resumes call (call + 1) next := by
  have hnext : start.after (call + 1) = _ := h
  have hlevel : (start.after (call + 1)).stack = (start.after call).stack := by
    rw [hnext]
    rfl
  exact ⟨Caller.returned_next hlevel, congrArg SignalThread.script hnext⟩

theorem contains (start : SignalThread σ) (call : Nat) : start.Contains call := by
  refine ⟨goesOn, fun {signal result next} hscript hfinished => ?_, cancels,
    fun {signal next} hscript hcancelled => ?_, fun {signal listener next} hscript hfinished => ?_, atOnce⟩
  · obtain ⟨winner, hwinner⟩ := Option.ne_none_iff_exists'.mp hfinished
    exact resumes_next (advance_late hscript hwinner)
  · exact resumes_next ((advance_cancel hscript).trans (if_pos hcancelled))
  · have hadvance := advance_listen hscript
    rw [hfinished] at hadvance
    exact resumes_next hadvance

end SignalThread

/-- The panic of a listener or of a cancel handler goes no further than the call that runs it, and the others
that are due are run all the same, at any time of any run of a counter or of signals; but a registration that
calls its listener at once hands its panic on. -/
theorem panics_contained (counter : CounterThread σ) (signals : SignalThread σ) (call : Nat) :
    counter.Contains call ∧ signals.Contains call :=
  ⟨counter.contains call, signals.contains call⟩

/-- The panic of a listener that is called at once, at an idle counter and at a signal that has completed, is
how the caller of the registration ends. -/
theorem panic_of_listener_at_once :
    (CounterThread.run 4 (.fresh () (.listen (.stop (.panicked (.text "boom"))) (.stop .normal)))).1 =
        some (.panicked (.text "boom")) ∧
      (SignalThread.run 4 (.fresh () (.makeCompleted fun signal =>
        .listen signal (fun _ => .stop (.panicked (.text "boom"))) (.stop .normal)))).1 =
          some (.panicked (.text "boom")) :=
  ⟨rfl, rfl⟩

end Dispatch
