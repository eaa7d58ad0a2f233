import Dispatch.Proofs.Caller
import Dispatch.Proofs.CounterEnding

/-!
# What a counter does to its listeners

The users of a counter are threads that call listeners. Those that wait do so in two places: with the others,
or as the one-shot listener, whose place the next one takes. A listener is called at once if no reference is
out. All that wait are taken off when the last reference is given back, by a decrement or by the drop of a
guard.
-/

namespace Dispatch

variable {σ : Type}

inductive CounterPlace where
  | listeners
  | once
  deriving DecidableEq

/-- The places where listeners wait, in the order they are called in. -/
def CounterPlace.all : List CounterPlace :=
  [.listeners, .once]

theorem CounterPlace.flatMap_all {α : Type} (waiting : CounterPlace → List α) :
    all.flatMap waiting = waiting .listeners ++ waiting .once := by
  rw [all, List.flatMap_cons, List.flatMap_singleton]

def ReferenceCounter.waitingAt (counter : ReferenceCounter σ) : CounterPlace → List (CounterScript σ)
  | .listeners => counter.listeners
  | .once => counter.once.toList

def CounterScript.registers? : CounterScript σ → Option (CounterPlace × CounterScript σ)
  | .listen listener _ => some (.listeners, listener)
  | .listenOnce listener _ => some (.once, listener)
  | .stop _ | .remember _ _ | .recall _ | .attempt _ _ | .increment _ | .decrement _ | .hold _
  | .letGo _ _ => none

namespace CounterThread

/-- The script a thread will go on with when it has given a reference back, if that is what it is about to
do. -/
def givesBack? (thread : CounterThread σ) : Option (CounterScript σ) :=
  match thread.script with
  | .decrement next => some next
  | .letGo guard next => if thread.world.guards.contains guard then some next else none
  | .stop _ | .remember _ _ | .recall _ | .attempt _ _ | .increment _ | .listen _ _
  | .listenOnce _ _ | .hold _ => none

def crosses (thread : CounterThread σ) : Bool :=
  thread.givesBack?.isSome && thread.world.counter.count == 1

def starts? (thread : CounterThread σ) : Option (CounterScript σ) :=
  match thread.script with
  | .stop _ =>
    match thread.stack with
    | .firing due _ :: _ => due.head?
    | [] | .resume _ :: _ | .attempting _ :: _ => none
  | .listen listener _ | .listenOnce listener _ =>
    if thread.world.counter.isBusy then none else some listener
  | .decrement _ | .letGo _ _ =>
    if thread.crosses then
      (thread.world.counter.listeners ++ thread.world.counter.once.toList).head?
    else none
  | .remember _ _ | .recall _ | .attempt _ _ | .increment _ | .hold _ => none

def event (thread : CounterThread σ) : Roll.Event CounterPlace :=
  match thread.script with
  | .stop _ =>
    match thread.stack with
    | .firing _ _ :: _ => .resume
    | [] | .resume _ :: _ | .attempting _ :: _ => .pass
  | .listen _ _ => if thread.world.counter.isBusy then .wait .listeners else .call
  | .listenOnce _ _ => if thread.world.counter.isBusy then .supplant .once else .call
  | .decrement _ | .letGo _ _ => if thread.crosses then .take CounterPlace.all else .pass
  | .remember _ _ | .recall _ | .attempt _ _ | .increment _ | .hold _ => .pass

def caller : Caller (CounterThread σ) (CounterFrame σ) (CounterScript σ) (CounterScript σ)
    CounterPlace where
  step := step
  stack := stack
  Returns thread := ∃ ending, thread.script = .stop ending
  waiting thread := thread.world.counter.waitingAt
  frame := .firing
  event := event
  registers? thread := thread.script.registers?.map Prod.snd
  goal? := givesBack?
  starts? := starts?
  Runs _ listener thread := thread.script = listener

variable {thread later : CounterThread σ}

theorem fires_fire (thread : CounterThread σ) {stack : List (CounterFrame σ)}
    (hstack : thread.stack = stack) (next : CounterScript σ) (due : List (CounterScript σ)) :
    caller.Fires next stack (thread.fire next due) due := by
  subst hstack
  cases due with
  | nil => exact .done rfl
  | cons listener due => exact .first rfl rfl

theorem counter_fire (thread : CounterThread σ) (next : CounterScript σ)
    (due : List (CounterScript σ)) :
    (thread.fire next due).world.counter = thread.world.counter := by
  cases due <;> rfl

theorem flatMap_waitingAt (counter : ReferenceCounter σ) :
    CounterPlace.all.flatMap counter.waitingAt = counter.listeners ++ counter.once.toList :=
  CounterPlace.flatMap_all counter.waitingAt

theorem plain_resume (next : CounterScript σ) : caller.Plain (.resume next) :=
  fun _ _ h => nomatch h

theorem plain_attempting (next : Ending → CounterScript σ) : caller.Plain (.attempting next) :=
  fun _ _ h => nomatch h

theorem event_of_givesBack {next : CounterScript σ} (h : thread.givesBack? = some next) :
    thread.event = (if thread.crosses then .take CounterPlace.all else .pass) ∧ thread.starts? =
      if thread.crosses then
        (thread.world.counter.listeners ++ thread.world.counter.once.toList).head?
      else none := by
  obtain ⟨world, script, stack⟩ := thread
  cases script with
  | decrement _ | letGo _ _ => exact ⟨rfl, rfl⟩
  | stop _ | remember _ _ | «recall» _ | attempt _ _ | increment _ | listen _ _ | listenOnce _ _
  | hold _ => cases h

theorem moves_decrement {next : CounterScript σ} (hnext : thread.givesBack? = some next)
    (guards : List GuardRef) :
    caller.Moves thread
      (({ thread with world := { thread.world with guards } } : CounterThread σ).decrement next) := by
  obtain ⟨hevent, hstarts⟩ := event_of_givesBack hnext
  have hcrosses : thread.crosses = (thread.world.counter.count == 1) := by
    rw [crosses, hnext]
    rfl
  rw [hcrosses] at hevent hstarts
  unfold decrement ReferenceCounter.decrement?
  cases hcount : thread.world.counter.count with
  | zero =>
    rw [hcount] at hevent hstarts
    exact .pass hevent hstarts rfl (.inl rfl)
  | succ count =>
    cases count with
    | zero =>
      rw [hcount] at hevent hstarts
      let crossing : CounterThread σ :=
        { thread with world := { thread.world with guards, counter := {} } }
      let due := thread.world.counter.listeners ++ thread.world.counter.once.toList
      have hwaiting (place : CounterPlace) :
          (crossing.fire next due).world.counter.waitingAt place = [] := by
        rw [counter_fire]
        cases place <;> rfl
      have hfires : caller.Fires next thread.stack (crossing.fire next due)
          (CounterPlace.all.flatMap thread.world.counter.waitingAt) := by
        rw [flatMap_waitingAt]
        exact fires_fire crossing rfl next due
      rw [← flatMap_waitingAt] at hstarts
      exact .take hevent hstarts hnext (fun place _ => hwaiting place)
        (fun place hnot => absurd (by cases place <;> decide) hnot) hfires
    | succ count =>
      rw [hcount] at hevent hstarts
      have hmany : (count + 1 + 1 == 1) = false := by simp
      rw [hmany] at hevent hstarts
      exact .pass hevent hstarts rfl (.inl rfl)

/-- Every step does to the listeners what its event says. -/
theorem moves (h : thread.step = .inr later) : caller.Moves thread later := by
  obtain ⟨world, script, stack⟩ := thread
  cases script with
  | stop ending =>
    cases stack with
    | nil => cases h
    | cons frame stack =>
      cases h
      have hplain (hplain : caller.Plain frame) {later : CounterThread σ}
          (hstarts : starts? ⟨world, .stop ending, frame :: stack⟩ = none)
          (hevent : event ⟨world, .stop ending, frame :: stack⟩ = .pass)
          (hworld : later.world = world) (hstack : later.stack = stack) :
          caller.Moves ⟨world, .stop ending, frame :: stack⟩ later :=
        .pass hevent hstarts (congrArg (fun world => world.counter.waitingAt) hworld)
          (.inr (.inr ⟨frame, ⟨ending, rfl⟩, hplain, congrArg (frame :: ·) hstack.symm⟩))
      cases frame with
      | resume next => cases ending <;> exact hplain (plain_resume next) rfl rfl rfl rfl
      | attempting next => exact hplain (plain_attempting next) rfl rfl rfl rfl
      | firing due next =>
        have hresume (log : List LogEntry) :
            caller.Moves ⟨world, .stop ending, .firing due next :: stack⟩
              (fire ⟨{ world with log }, .stop ending, stack⟩ next due) := by
          have hcounter := counter_fire ⟨{ world with log }, .stop ending, stack⟩ next due
          exact .resume rfl rfl ⟨ending, rfl⟩ rfl (congrArg ReferenceCounter.waitingAt hcounter)
            (fires_fire ⟨{ world with log }, .stop ending, stack⟩ rfl next due)
        cases ending <;> exact hresume _
  | remember change next => cases h; exact .pass rfl rfl rfl (.inl rfl)
  | «recall» next => cases h; exact .pass rfl rfl rfl (.inl rfl)
  | attempt body next =>
    cases h
    exact .pass rfl rfl rfl (.inr (.inl ⟨_, plain_attempting next, rfl⟩))
  | increment next => cases h; exact .pass rfl rfl rfl (.inl rfl)
  | decrement next => cases h; exact moves_decrement rfl world.guards
  | listen listener next =>
    unfold step at h
    dsimp only at h
    split at h
    · next hbusy =>
      cases h
      refine .wait (if_pos hbusy) (if_pos hbusy) rfl rfl (fun other hne => ?_) rfl
      cases other with
      | listeners => exact absurd rfl hne
      | once => rfl
    · next hbusy =>
      cases h
      exact .call (if_neg hbusy) (if_neg hbusy) rfl (plain_resume next) rfl
  | listenOnce listener next =>
    unfold step at h
    dsimp only at h
    split at h
    · next hbusy =>
      cases h
      refine .supplant (if_pos hbusy) (if_pos hbusy) rfl rfl (fun other hne => ?_) rfl
      cases other with
      | listeners => rfl
      | once => exact absurd rfl hne
    · next hbusy =>
      cases h
      exact .call (if_neg hbusy) (if_neg hbusy) rfl (plain_resume next) rfl
  | hold next => cases h; exact .pass rfl rfl rfl (.inl rfl)
  | letGo guard next =>
    unfold step at h
    dsimp only at h
    split at h
    · next hguard =>
      cases h
      have hgives : givesBack? ⟨world, .letGo guard next, stack⟩ = some next := if_pos hguard
      exact moves_decrement hgives (world.guards.erase guard)
    · next hguard =>
      cases h
      have hgives : givesBack? ⟨world, .letGo guard next, stack⟩ = none := if_neg hguard
      have hcrosses : crosses ⟨world, .letGo guard next, stack⟩ = false := by
        rw [crosses, hgives]
        rfl
      have hevent : event ⟨world, .letGo guard next, stack⟩ = .pass := by simp [event, hcrosses]
      have hstarts : starts? ⟨world, .letGo guard next, stack⟩ = none := by simp [starts?, hcrosses]
      exact .pass hevent hstarts rfl (.inl rfl)

/-- A thread ends when its script has and nothing is left on the stack. -/
theorem ended {ending : Ending} (h : thread.step = .inl ending) :
    thread.script = .stop ending ∧ thread.stack = [] := by
  obtain ⟨world, script, stack⟩ := thread
  cases script with
  | stop _ =>
    cases stack with
    | nil => cases h; exact ⟨rfl, rfl⟩
    | cons frame stack => cases h
  | remember _ _ | «recall» _ | attempt _ _ | increment _ | decrement _ | hold _ => cases h
  | listen _ _ | listenOnce _ _ | letGo _ _ =>
    unfold step at h
    dsimp only at h
    split at h <;> cases h

theorem lawful : (caller (σ := σ)).Lawful := by
  refine ⟨fun h => ?_, moves, fun {thread due goal stack} hreturns hstack => ?_, fun {thread ending} h => ?_⟩
  · cases h
    exact ⟨rfl, rfl⟩
  · obtain ⟨world, script, frames⟩ := thread
    obtain ⟨ending, hscript⟩ := hreturns
    cases hscript
    cases hstack
    rfl
  · obtain ⟨hscript, hstack⟩ := ended h
    obtain ⟨world, script, frames⟩ := thread
    cases hscript
    cases hstack
    exact ⟨rfl, rfl, ⟨ending, rfl⟩, rfl⟩

/-! ### What is known of the events -/

/-- Listeners are taken off when the last reference is given back, and then all of them are. -/
theorem event_eq_take {places : List CounterPlace} :
    thread.event = .take places ↔ thread.crosses ∧ places = CounterPlace.all := by
  obtain ⟨world, script, stack⟩ := thread
  cases script with
  | decrement _ | letGo _ _ =>
    show (if crosses _ then Roll.Event.take CounterPlace.all else .pass) = _ ↔ _
    split
    · next hcrosses => simp [hcrosses, eq_comm]
    · next hcrosses => simp [hcrosses]
  | stop _ =>
    cases stack with
    | nil => simp [event, crosses, givesBack?]
    | cons frame stack => cases frame <;> simp [event, crosses, givesBack?]
  | listen _ _ | listenOnce _ _ =>
    unfold event
    dsimp only
    split <;> simp [crosses, givesBack?]
  | remember _ _ | «recall» _ | attempt _ _ | increment _ | hold _ => simp [event, crosses, givesBack?]

/-- A crossing takes off all that wait, wherever they do. -/
theorem takes_of_crosses (h : thread.crosses) (place : CounterPlace) : thread.event.Takes place :=
  ⟨_, event_eq_take.mpr ⟨h, rfl⟩, by cases place <;> decide⟩

/-- A listener is called at once if no reference is out, and waits at its place otherwise. -/
theorem event_of_registers {place : CounterPlace} {listener : CounterScript σ}
    (h : thread.script.registers? = some (place, listener)) :
    thread.event = if thread.world.counter.count = 0 then .call else
      match place with
      | .listeners => .wait .listeners
      | .once => .supplant .once := by
  have hbusy : thread.world.counter.isBusy = !decide (thread.world.counter.count = 0) := by
    rw [ReferenceCounter.isBusy, bne, beq_eq_decide]
  obtain ⟨world, script, stack⟩ := thread
  cases script with
  | listen _ _ | listenOnce _ _ =>
    cases h
    simp only [event, hbusy]
    split <;> simp_all
  | stop _ | remember _ _ | «recall» _ | attempt _ _ | increment _ | decrement _ | hold _ | letGo _ _ =>
    cases h

theorem waitsAt_of_busy {place : CounterPlace} {listener : CounterScript σ}
    (h : thread.script.registers? = some (place, listener)) (hbusy : thread.world.counter.count ≠ 0) :
    thread.event.WaitsAt place := by
  rw [event_of_registers h, if_neg hbusy]
  cases place with
  | listeners => exact .inl rfl
  | once => exact .inr rfl

/-- Only a registration lets somebody wait or calls somebody at once. -/
theorem registers_of_event (h : thread.event = .call ∨ ∃ place, thread.event.WaitsAt place) :
    ∃ place listener, thread.script.registers? = some (place, listener) := by
  obtain ⟨world, script, stack⟩ := thread
  cases script with
  | listen listener _ => exact ⟨_, listener, rfl⟩
  | listenOnce listener _ => exact ⟨_, listener, rfl⟩
  | stop _ =>
    cases stack with
    | nil => simp [event, Roll.Event.WaitsAt] at h
    | cons frame _ => cases frame <;> simp [event, Roll.Event.WaitsAt] at h
  | decrement _ | letGo _ _ =>
    unfold event at h
    dsimp only at h
    split at h <;> simp [Roll.Event.WaitsAt] at h
  | remember _ _ | «recall» _ | attempt _ _ | increment _ | hold _ =>
    simp [event, Roll.Event.WaitsAt] at h

/-- Whoever waits at a place registered for it while a reference was out. -/
theorem registers_of_waitsAt {place : CounterPlace} (h : thread.event.WaitsAt place) :
    thread.world.counter.count ≠ 0 ∧
      ∃ listener, thread.script.registers? = some (place, listener) := by
  obtain ⟨other, listener, hregisters⟩ := registers_of_event (.inr ⟨place, h⟩)
  have hbusy : thread.world.counter.count ≠ 0 := by
    intro hidle
    rw [event_of_registers hregisters, if_pos hidle] at h
    obtain heq | heq := h <;> cases heq
  obtain rfl := (waitsAt_of_busy hregisters hbusy).unique h
  exact ⟨hbusy, listener, hregisters⟩

theorem script_fire (thread : CounterThread σ) (next : CounterScript σ) {due : List (CounterScript σ)}
    {listener : CounterScript σ} (h : due.head? = some listener) :
    (thread.fire next due).script = listener := by
  cases due with
  | nil => cases h
  | cons first due => exact Option.some.inj h

theorem script_decrement {next listener : CounterScript σ} (guards : List GuardRef)
    (hcount : thread.world.counter.count = 1)
    (h : (thread.world.counter.listeners ++ thread.world.counter.once.toList).head? = some listener) :
    (({ thread with world := { thread.world with guards } } : CounterThread σ).decrement next).script =
      listener := by
  unfold decrement ReferenceCounter.decrement?
  simp only [hcount]
  exact script_fire _ next h

/-- The listener that a step calls is what the thread does next. -/
theorem script_of_starts {listener : CounterScript σ} (h : thread.starts? = some listener) :
    (advance step thread).script = listener := by
  obtain ⟨world, script, stack⟩ := thread
  cases script with
  | stop ending =>
    cases stack with
    | nil => cases h
    | cons frame stack =>
      cases frame with
      | resume next | attempting next => cases h
      | firing due next => cases ending <;> exact script_fire _ next h
  | remember _ _ | «recall» _ | attempt _ _ | increment _ | hold _ => cases h
  | listen first next | listenOnce first next =>
    unfold starts? at h
    dsimp only at h
    split at h
    · cases h
    · next hidle =>
      cases h
      rw [advance, step]
      simp only [hidle]
      rfl
  | decrement next =>
    unfold starts? at h
    dsimp only at h
    split at h
    · next hcrosses =>
      have hcount : world.counter.count = 1 := by simpa [crosses, givesBack?] using hcrosses
      exact script_decrement world.guards hcount h
    · cases h
  | letGo guard next =>
    unfold starts? at h
    dsimp only at h
    split at h
    · next hcrosses =>
      obtain ⟨hguard, hcount⟩ : guard ∈ world.guards ∧ world.counter.count = 1 := by
        simpa [crosses, givesBack?] using hcrosses
      rw [advance, step]
      simp only [List.contains_iff_mem.mpr hguard]
      exact @script_decrement σ ⟨world, .letGo guard next, stack⟩ next listener
        (world.guards.erase guard) hcount h
    · cases h

theorem counter_finish (thread : CounterThread σ) (ending : Ending) (frame : CounterFrame σ) :
    (thread.finish ending frame).world.counter = thread.world.counter := by
  cases frame with
  | resume next => cases ending <;> rfl
  | attempting next => rfl
  | firing due next => cases ending <;> exact counter_fire _ next due

theorem idle_decrement {next : CounterScript σ} (hnext : thread.givesBack? = some next)
    (guards : List GuardRef) (hidle : (({ thread with
      world := { thread.world with guards } } : CounterThread σ).decrement next).world.counter.count = 0) :
    thread.world.counter.count = 0 ∨ thread.crosses := by
  unfold decrement ReferenceCounter.decrement? at hidle
  cases hcount : thread.world.counter.count with
  | zero => exact .inl rfl
  | succ count =>
    cases count with
    | zero => exact .inr (by simp [crosses, hnext, hcount])
    | succ count =>
      rw [hcount] at hidle
      cases hidle

/-- The counter becomes idle only when the last reference is given back. -/
theorem idle_step (h : thread.step = .inr later) (hidle : later.world.counter.count = 0) :
    thread.world.counter.count = 0 ∨ thread.crosses := by
  obtain ⟨world, script, stack⟩ := thread
  cases script with
  | stop ending =>
    cases stack with
    | nil => cases h
    | cons frame stack =>
      cases h
      rw [counter_finish] at hidle
      exact .inl hidle
  | remember _ _ | «recall» _ | attempt _ _ => cases h; exact .inl hidle
  | increment _ | hold _ => cases h; cases hidle
  | decrement next => cases h; exact idle_decrement rfl world.guards hidle
  | listen _ _ | listenOnce _ _ =>
    unfold step at h
    dsimp only at h
    split at h <;> cases h <;> exact .inl hidle
  | letGo guard next =>
    unfold step at h
    dsimp only at h
    split at h
    · next hguard =>
      cases h
      have hgives : givesBack? ⟨world, .letGo guard next, stack⟩ = some next := if_pos hguard
      exact idle_decrement hgives (world.guards.erase guard) hidle
    · cases h
      exact .inl hidle

end CounterThread

end Dispatch
