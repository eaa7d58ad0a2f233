import Mathlib.Data.Nat.Count
import Dispatch.Proofs.Containment

/-!
# The count of a counter

Guards and plain calls share one count. Every guard that is live holds a reference, and so does every plain
increment until a plain decrement gives it back (`balanced_fresh`). A plain decrement may also give back the
reference of a guard. The drop of that guard finds none and panics: the guard is gone, and the count is as it
was. So the guards whose drop panicked still stand on the side of the references that were taken. It takes
more plain decrements than plain increments to get there: otherwise nobody who gives a reference back panics.
-/

namespace Dispatch

variable {σ : Type}

/-- What a step does to the references that are out: a plain call, or that of a guard. -/
inductive Dealing where
  | none
  | increment
  | decrement
  | hold
  | letGo
  deriving DecidableEq

namespace CounterThread

variable {thread : CounterThread σ} {next : CounterScript σ}

def dealing (thread : CounterThread σ) : Dealing :=
  match thread.script with
  | .increment _ => .increment
  | .decrement _ => .decrement
  | .hold _ => .hold
  | .letGo guard _ => if thread.world.guards.contains guard then .letGo else .none
  | .stop _ | .remember _ _ | .recall _ | .attempt _ _ | .listen _ _ | .listenOnce _ _ => .none

def DecrementSucceeds (thread : CounterThread σ) : Prop :=
  thread.dealing = .decrement ∧ thread.world.counter.count ≠ 0

def DropPanics (thread : CounterThread σ) : Prop :=
  thread.dealing = .letGo ∧ thread.world.counter.count = 0

instance : DecidablePred (DecrementSucceeds (σ := σ)) :=
  fun _ => inferInstanceAs (Decidable (_ ∧ _))

instance : DecidablePred (DropPanics (σ := σ)) :=
  fun _ => inferInstanceAs (Decidable (_ ∧ _))

def increments (start : CounterThread σ) (time : Nat) : Nat :=
  Nat.count (fun k => (start.after k).dealing = .increment) time

/-- The plain decrements before a time, those that panicked among them. -/
def decrements (start : CounterThread σ) (time : Nat) : Nat :=
  Nat.count (fun k => (start.after k).dealing = .decrement) time

def decrementSuccesses (start : CounterThread σ) (time : Nat) : Nat :=
  Nat.count (fun k => (start.after k).DecrementSucceeds) time

def dropPanics (start : CounterThread σ) (time : Nat) : Nat :=
  Nat.count (fun k => (start.after k).DropPanics) time

theorem increments_succ (start : CounterThread σ) (time : Nat) : start.increments (time + 1) =
    start.increments time + if (start.after time).dealing = .increment then 1 else 0 :=
  Nat.count_succ _ time

theorem decrements_succ (start : CounterThread σ) (time : Nat) : start.decrements (time + 1) =
    start.decrements time + if (start.after time).dealing = .decrement then 1 else 0 :=
  Nat.count_succ _ time

theorem decrementSuccesses_succ (start : CounterThread σ) (time : Nat) :
    start.decrementSuccesses (time + 1) =
      start.decrementSuccesses time + if (start.after time).DecrementSucceeds then 1 else 0 :=
  Nat.count_succ _ time

theorem dropPanics_succ (start : CounterThread σ) (time : Nat) : start.dropPanics (time + 1) =
    start.dropPanics time + if (start.after time).DropPanics then 1 else 0 :=
  Nat.count_succ _ time

theorem decrementSuccesses_le (start : CounterThread σ) (time : Nat) :
    start.decrementSuccesses time ≤ start.decrements time :=
  Nat.count_mono_left fun _ _ h => h.1

/-! ### A step -/

theorem guards_fire (thread : CounterThread σ) (next : CounterScript σ) (due : List (CounterScript σ)) :
    (thread.fire next due).world.guards = thread.world.guards := by
  cases due <;> rfl

theorem guards_finish (thread : CounterThread σ) (ending : Ending) (frame : CounterFrame σ) :
    (thread.finish ending frame).world.guards = thread.world.guards := by
  cases frame with
  | resume next => cases ending <;> rfl
  | attempting next => rfl
  | firing due next => cases ending <;> exact guards_fire _ next due

theorem guards_decrement (thread : CounterThread σ) (next : CounterScript σ) :
    (thread.decrement next).world.guards = thread.world.guards := by
  unfold decrement
  split
  · rfl
  · exact guards_fire _ next _

theorem count_decrement (thread : CounterThread σ) (next : CounterScript σ) :
    (thread.decrement next).world.counter.count = thread.world.counter.count - 1 := by
  unfold decrement ReferenceCounter.decrement?
  cases hcount : thread.world.counter.count with
  | zero => exact hcount
  | succ count =>
    cases count with
    | zero => exact congrArg ReferenceCounter.count (counter_fire (thread.setCounter {}) next _)
    | succ count =>
      exact congrArg ReferenceCounter.count
        (counter_fire (thread.setCounter { thread.world.counter with count := count + 1 }) next [])

theorem advance_letGo {guard : GuardRef} (hscript : thread.script = .letGo guard next)
    (hguard : guard ∈ thread.world.guards) :
    advance step thread = (thread.setGuards (thread.world.guards.erase guard)).decrement next := by
  obtain ⟨world, script, stack⟩ := thread
  cases hscript
  have hcontains : world.guards.contains guard = true := List.contains_iff_mem.mpr hguard
  simp only [advance, step, hcontains]
  rfl

theorem count_advance (thread : CounterThread σ) : (advance step thread).world.counter.count =
    match thread.dealing with
    | .none => thread.world.counter.count
    | .increment | .hold => thread.world.counter.count + 1
    | .decrement | .letGo => thread.world.counter.count - 1 := by
  obtain ⟨world, script, stack⟩ := thread
  cases script with
  | stop ending =>
    cases stack with
    | nil => rfl
    | cons frame stack =>
      exact congrArg ReferenceCounter.count (counter_finish ⟨world, .stop ending, stack⟩ ending frame)
  | remember _ _ | «recall» _ | attempt _ _ | increment _ | hold _ => rfl
  | decrement next => exact count_decrement ⟨world, .decrement next, stack⟩ next
  | listen _ _ | listenOnce _ _ =>
    simp only [advance, step, dealing]
    cases world.counter.isBusy <;> rfl
  | letGo guard next =>
    by_cases hguard : guard ∈ world.guards
    · rw [advance_letGo rfl hguard]
      simp only [dealing, List.contains_iff_mem.mpr hguard]
      exact count_decrement _ next
    · simp [advance, step, dealing, hguard, doing]

theorem guards_advance (thread : CounterThread σ) : (advance step thread).world.guards.length =
    match thread.dealing with
    | .none | .increment | .decrement => thread.world.guards.length
    | .hold => thread.world.guards.length + 1
    | .letGo => thread.world.guards.length - 1 := by
  obtain ⟨world, script, stack⟩ := thread
  cases script with
  | stop ending =>
    cases stack with
    | nil => rfl
    | cons frame stack =>
      exact congrArg List.length (guards_finish ⟨world, .stop ending, stack⟩ ending frame)
  | remember _ _ | «recall» _ | attempt _ _ | increment _ | hold _ => rfl
  | decrement next => exact congrArg List.length (guards_decrement ⟨world, .decrement next, stack⟩ next)
  | listen _ _ | listenOnce _ _ =>
    simp only [advance, step, dealing]
    cases world.counter.isBusy <;> rfl
  | letGo guard next =>
    by_cases hguard : guard ∈ world.guards
    · rw [advance_letGo rfl hguard, guards_decrement]
      simp only [dealing, List.contains_iff_mem.mpr hguard]
      exact List.length_erase_of_mem hguard
    · simp [advance, step, dealing, hguard, doing]

theorem guards_of_letGo (h : thread.dealing = .letGo) : 0 < thread.world.guards.length := by
  obtain ⟨world, script, stack⟩ := thread
  cases script with
  | letGo guard next =>
    unfold dealing at h
    dsimp only at h
    split at h
    · next hguard => exact List.length_pos_of_mem (List.contains_iff_mem.mp hguard)
    · cases h
  | stop _ | remember _ _ | «recall» _ | attempt _ _ | increment _ | decrement _ | listen _ _
  | listenOnce _ _ | hold _ => cases h

/-- Giving a reference back is a plain decrement or the drop of a guard. -/
theorem dealing_of_givesBack (h : thread.givesBack? = some next) :
    thread.dealing = .decrement ∨ thread.dealing = .letGo := by
  obtain ⟨world, script, stack⟩ := thread
  cases script with
  | decrement _ => exact .inl rfl
  | letGo guard _ =>
    unfold givesBack? at h
    dsimp only at h
    split at h
    · next hguard => exact .inr (if_pos hguard)
    · cases h
  | stop _ | remember _ _ | «recall» _ | attempt _ _ | increment _ | listen _ _ | listenOnce _ _
  | hold _ => cases h

/-- A reference that is taken goes to a guard or to nobody, and one that is given back comes from there. -/
theorem balance_advance (thread : CounterThread σ) :
    (advance step thread).world.counter.count + (if thread.DecrementSucceeds then 1 else 0) +
        thread.world.guards.length =
      thread.world.counter.count + (advance step thread).world.guards.length +
        (if thread.dealing = .increment then 1 else 0) + (if thread.DropPanics then 1 else 0) := by
  have hguards (h : thread.dealing = .letGo) : 0 < thread.world.guards.length := guards_of_letGo h
  rw [count_advance, guards_advance]
  cases hdealing : thread.dealing <;> grind [DecrementSucceeds, DropPanics]

/-! ### A run -/

/-- The references that are out are those of the guards, and those of the plain increments but for what
plain decrements gave back. A guard whose drop panicked had lost its reference to such a decrement. -/
theorem balance (memory : σ) (script : CounterScript σ) (time : Nat) :
    ((fresh memory script).after time).world.counter.count + (fresh memory script).decrementSuccesses time =
      ((fresh memory script).after time).world.guards.length + (fresh memory script).increments time +
        (fresh memory script).dropPanics time := by
  induction time with
  | zero => rfl
  | succ time ih =>
    have hstep := balance_advance ((fresh memory script).after time)
    have hnext : (fresh memory script).after (time + 1) =
      advance step ((fresh memory script).after time) := rfl
    rw [decrementSuccesses_succ, increments_succ, dropPanics_succ, hnext]
    omega

structure Balanced (start : CounterThread σ) : Prop where
  /-- The references that are out are accounted for. -/
  count : ∀ time, (start.after time).world.counter.count + start.decrementSuccesses time =
    (start.after time).world.guards.length + start.increments time + start.dropPanics time
  /-- Whoever gives back what is not out panics, and the counter is as it was. -/
  underflow : ∀ {call next}, (start.after call).givesBack? = some next →
    (start.after call).world.counter.count = 0 →
      start.Resumes call (call + 1) (.stop (.panicked underflow)) ∧
        (start.after (call + 1)).world.counter = (start.after call).world.counter
  /-- Nobody else who gives a reference back does. -/
  goesOn : ∀ {call next}, (start.after call).givesBack? = some next →
    (start.after call).world.counter.count ≠ 0 → ∃ back, start.Resumes call back next
  /-- If there are at no time more plain decrements than plain increments, all who give references back go
  on. -/
  safe : (∀ time, start.decrements time ≤ start.increments time) →
    ∀ {call next}, (start.after call).givesBack? = some next →
      (start.after call).world.counter.count ≠ 0 ∧ ∃ back, start.Resumes call back next

/-- Where no more is given back by plain calls than was taken by them, a guard still has its reference. -/
theorem count_ne_zero (memory : σ) (script : CounterScript σ) (time : Nat)
    (hnow : (fresh memory script).decrements time ≤ (fresh memory script).increments time)
    (hnext : (fresh memory script).decrements (time + 1) ≤ (fresh memory script).increments (time + 1))
    (h : ((fresh memory script).after time).givesBack? = some next) :
    ((fresh memory script).after time).world.counter.count ≠ 0 := by
  have hbalance := balance memory script time
  have hsuccesses := decrementSuccesses_le (fresh memory script) time
  obtain hdecrement | hletGo := dealing_of_givesBack h
  · -- this decrement is one of those that are made up for
    rw [decrements_succ, increments_succ, hdecrement] at hnext
    simp only [reduceCtorEq, if_true, if_false] at hnext
    omega
  · have hguards := guards_of_letGo hletGo
    omega

/-- The count of a fresh counter is made up of its guards and of plain calls, whatever its users do: a plain
decrement or the drop of a guard panics if and only if nothing is out, and it never does if plain decrements
are always made up for. -/
theorem balanced_fresh (memory : σ) (script : CounterScript σ) : (fresh memory script).Balanced := by
  have hgoesOn {call : Nat} {next : CounterScript σ}
      (h : ((fresh memory script).after call).givesBack? = some next)
      (hbusy : ((fresh memory script).after call).world.counter.count ≠ 0) :
      ∃ back, (fresh memory script).Resumes call back next := by
    obtain ⟨last, -, hresumes⟩ := goesOn h hbusy
    exact ⟨last + 1, hresumes⟩
  refine ⟨balance memory script, ?_, hgoesOn, ?_⟩
  · intro call next h hnone
    obtain ⟨guards, hnext⟩ := advance_underflows h hnone
    exact ⟨underflows h hnone, congrArg (fun thread => thread.world.counter) hnext⟩
  · intro hmade call next h
    have hbusy := count_ne_zero memory script call (hmade call) (hmade (call + 1)) h
    exact ⟨hbusy, hgoesOn h hbusy⟩

/-- A plain decrement gives back the reference of a guard, whose drop panics. The guard is gone and the
count is as it was, so after another increment it is one and not none. -/
theorem count_of_panicked_drop :
    let start : CounterThread Unit := fresh () (.hold fun guard => .decrement
      (.attempt (.letGo guard (.stop .normal)) fun _ => .increment (.stop .normal)))
    (start.after 6).world.counter.count = 1 ∧ (start.after 6).world.guards.length = 0 ∧
      start.increments 6 = 1 ∧ start.decrementSuccesses 6 = 1 ∧
        ¬ ∀ time, (start.after time).world.counter.count + start.decrementSuccesses time =
          (start.after time).world.guards.length + start.increments time := by
  refine ⟨rfl, rfl, rfl, rfl, ?_⟩
  intro h
  have hlate := h 6
  revert hlate
  decide

end CounterThread

end Dispatch
