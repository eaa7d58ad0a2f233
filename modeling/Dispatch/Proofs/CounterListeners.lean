import Dispatch.Proofs.CounterEvents

/-!
# The listeners of a counter

Every listener that is registered at a fresh counter is called once at most: at once if no reference is out,
and otherwise while the last reference is given back for the first time after that, unless another one-shot
listener took its place (`served_fresh`). This holds whatever the listeners do. They may take references,
register other listeners, give the last reference back again while the others of a batch are still due, and
panic.

A counter does not know its listeners apart, but the roll of the run does (`Caller.roll`). A listener is
known there by the number of the step that registers it.
-/

namespace Dispatch

variable {σ : Type}

namespace CounterThread

variable {start : CounterThread σ}

abbrev after (start : CounterThread σ) (time : Nat) : CounterThread σ :=
  caller.after start time

/-- The listener that a step calls, known by the time it was registered at. -/
abbrev called (start : CounterThread σ) (time : Nat) : Option Nat :=
  caller.called start time

/-- The last reference is given back at this time, and was not since the first time. -/
structure FirstCrossing (start : CounterThread σ) (first time : Nat) : Prop where
  lt : first < time
  crosses : (start.after time).crosses
  none_before : ∀ t, first < t → t < time → ¬ (start.after t).crosses

def Replaced (start : CounterThread σ) (first last : Nat) : Prop :=
  ∃ time listener, first < time ∧ time < last ∧
    (start.after time).script.registers? = some (.once, listener)

structure Served (start : CounterThread σ) : Prop where
  /-- While no reference is out, nobody waits. -/
  idle : ∀ time, (start.after time).world.counter.count = 0 →
    (start.after time).world.counter.listeners = [] ∧ (start.after time).world.counter.once = none
  /-- The listeners that are run are the ones that are called. -/
  starts : ∀ time, (start.after time).starts? = (start.called time).bind fun r =>
    (start.after r).script.registers?.map Prod.snd
  runs : ∀ {time r}, start.called time = some r → ∃ place listener,
    (start.after r).script.registers? = some (place, listener) ∧
      (start.after (time + 1)).script = listener
  /-- Nobody is called twice. -/
  once : ∀ {time time' r}, start.called time = some r → start.called time' = some r → time = time'
  /-- A listener that is registered while no reference is out is called at once, and the registration goes
  on after it. -/
  atOnce : ∀ {r place listener}, (start.after r).script.registers? = some (place, listener) →
    (start.after r).world.counter.count = 0 → start.called r = some r ∧
      ∃ frame, (start.after (r + 1)).stack = frame :: (start.after r).stack
  /-- Any other is called while the last reference is given back for the first time, or never. -/
  crossing : ∀ {time r}, start.called time = some r → (start.after r).world.counter.count ≠ 0 →
    ∃ crossing, start.FirstCrossing r crossing ∧ caller.During start crossing time
  /-- It is called then unless it was replaced. -/
  served : ∀ {r crossing place listener},
    (start.after r).script.registers? = some (place, listener) →
      (start.after r).world.counter.count ≠ 0 → start.FirstCrossing r crossing →
        place = .listeners ∨ ¬ start.Replaced r crossing → ∃ time, start.called time = some r
  /-- One that was replaced is never called. -/
  replaced : ∀ {r crossing listener}, (start.after r).script.registers? = some (.once, listener) →
    (start.after r).world.counter.count ≠ 0 → start.FirstCrossing r crossing →
      start.Replaced r crossing → ∀ time, start.called time ≠ some r

def fresh (memory : σ) (script : CounterScript σ) : CounterThread σ :=
  { world := { memory }, script }

theorem reflects_fresh (memory : σ) (script : CounterScript σ) (time : Nat) :
    caller.Reflects (fresh memory script) time :=
  lawful.reflects (fun place => by cases place <;> rfl) rfl time

theorem idle_fresh (memory : σ) (script : CounterScript σ) (time : Nat)
    (h : ((fresh memory script).after time).world.counter.count = 0) (place : CounterPlace) :
    ((fresh memory script).after time).world.counter.waitingAt place = [] := by
  induction time with
  | zero => cases place <;> rfl
  | succ time ih =>
    cases hstep : CounterThread.step ((fresh memory script).after time) with
    | inl ending =>
      have hsame : (fresh memory script).after (time + 1) = (fresh memory script).after time :=
        advance_of_inl hstep
      rw [hsame] at h ⊢
      exact ih h
    | inr later =>
      have hlater : (fresh memory script).after (time + 1) = later := advance_of_inr hstep
      rw [hlater] at h ⊢
      have hbefore {event : Roll.Event CounterPlace}
          (hevent : ((fresh memory script).after time).event = event)
          (hother : ∀ places, event ≠ .take places) :
          ((fresh memory script).after time).world.counter.count = 0 :=
        (idle_step hstep h).resolve_right fun hcrosses =>
          hother _ (hevent.symm.trans (event_eq_take.mpr ⟨hcrosses, rfl⟩))
      -- nobody begins to wait while no reference is out
      have hnobody {here : CounterPlace} (hidle : ((fresh memory script).after time).world.counter.count = 0)
          (hwaits : ((fresh memory script).after time).event.WaitsAt here) : False := by
        obtain ⟨other, listener, hregisters⟩ := registers_of_event (.inr ⟨here, hwaits⟩)
        rw [event_of_registers hregisters, if_pos hidle] at hwaits
        obtain heq | heq := hwaits <;> cases heq
      cases moves hstep with
      | pass event starts waiting stack =>
        exact (congrFun waiting place).trans (ih (hbefore event fun _ h => nomatch h))
      | call event starts waiting plain stack =>
        exact (congrFun waiting place).trans (ih (hbefore event fun _ h => nomatch h))
      | wait event => exact (hnobody (hbefore event fun _ h => nomatch h) (.inl event)).elim
      | supplant event => exact (hnobody (hbefore event fun _ h => nomatch h) (.inr event)).elim
      | take event starts aims taken left fires =>
        obtain ⟨-, rfl⟩ := event_eq_take.mp event
        exact taken place (by cases place <;> decide)
      | resume event starts returns level waiting fires =>
        exact (congrFun waiting place).trans (ih (hbefore event fun _ h => nomatch h))

theorem distinct_events (start : CounterThread σ) : Roll.Distinct (caller.events start) := by
  intro time places h
  rw [(event_eq_take.mp h).2]
  decide

theorem busy_until (start : CounterThread σ) {first last : Nat} (hle : first ≤ last)
    (hbusy : (start.after first).world.counter.count ≠ 0)
    (hnone : ∀ t, first ≤ t → t < last → ¬ (start.after t).crosses) :
    (start.after last).world.counter.count ≠ 0 := by
  induction last, hle using Nat.le_induction with
  | base => exact hbusy
  | succ last hle ih =>
    have hbefore := ih fun t hge hlt => hnone t hge (Nat.lt_succ_of_lt hlt)
    cases hstep : CounterThread.step (start.after last) with
    | inl ending =>
      have hsame : start.after (last + 1) = start.after last := advance_of_inl hstep
      rw [hsame]
      exact hbefore
    | inr later =>
      have hlater : start.after (last + 1) = later := advance_of_inr hstep
      rw [hlater]
      intro hidle
      exact (idle_step hstep hidle).elim hbefore (hnone last hle (Nat.lt_succ_self last))

/-- Those that are taken off are at their first crossing. -/
theorem firstCrossing_of_taken {r m : Nat} (h : r ∈ Roll.taken (caller.events start) m) :
    start.FirstCrossing r m := by
  obtain ⟨hlt, place, -, ⟨places, hevent, -⟩, hkept⟩ := Roll.waits_of_taken h
  exact ⟨hlt, (event_eq_take.mp hevent).1, fun t hr ht hcrosses =>
    hkept t hr ht (.inl (takes_of_crosses hcrosses place))⟩

theorem FirstCrossing.unique {r m k : Nat} (h : start.FirstCrossing r m)
    (h' : start.FirstCrossing r k) : m = k := by
  obtain hlt | heq | hlt := Nat.lt_trichotomy m k
  · exact absurd h.crosses (h'.none_before m h.lt hlt)
  · exact heq
  · exact absurd h'.crosses (h.none_before k h'.lt hlt)

/-- One that waits is taken off at its first crossing unless it was replaced. -/
theorem taken_of_firstCrossing {r m : Nat} {place : CounterPlace} {listener : CounterScript σ}
    (h : (start.after r).script.registers? = some (place, listener))
    (hbusy : (start.after r).world.counter.count ≠ 0) (hfirst : start.FirstCrossing r m)
    (hkept : place = .listeners ∨ ¬ start.Replaced r m) : r ∈ Roll.taken (caller.events start) m := by
  refine Roll.mem_taken.mpr ⟨place, takes_of_crosses hfirst.crosses place,
    Roll.mem_waiting_after.mpr ⟨hfirst.lt, waitsAt_of_busy h hbusy, fun t hr ht hclears => ?_⟩⟩
  obtain ⟨places, hevent, -⟩ | hevent := hclears
  · exact hfirst.none_before t hr ht (event_eq_take.mp hevent).1
  · obtain ⟨other, replacing, hregisters⟩ := registers_of_event (.inr ⟨place, .inr hevent⟩)
    have hother : (start.after t).event = .supplant place := hevent
    rw [event_of_registers hregisters] at hother
    split at hother
    · cases hother
    · cases other with
      | listeners => cases hother
      | once =>
        cases hother
        obtain hplace | hreplaced := hkept
        · cases hplace
        · exact hreplaced ⟨t, replacing, hr, ht, hregisters⟩

theorem registers_of_called {time r : Nat} (h : start.called time = some r) :
    ∃ place listener, (start.after r).script.registers? = some (place, listener) := by
  obtain ⟨hcall, rfl⟩ | ⟨m, due, htaken, -⟩ := Roll.called_cases h
  · exact registers_of_event (.inl hcall)
  · obtain ⟨-, place, hwaits, -⟩ := Roll.waits_of_taken (htaken.mem List.mem_cons_self)
    exact registers_of_event (.inr ⟨place, hwaits⟩)

/-- Every listener of a fresh counter is called once, as it was promised, whatever the listeners do and
however they end. -/
theorem served_fresh (memory : σ) (script : CounterScript σ) : (fresh memory script).Served := by
  have hreflects := reflects_fresh memory script
  refine ⟨fun time hidle => ?_, fun time => (lawful.reflects_step (hreflects time)).2,
    fun {time r} h => ?_, fun h h' => Roll.called_inj (distinct_events _) h h', fun h hidle => ?_,
    fun {time r} h hbusy => ?_, fun h hbusy hfirst hkept => ?_,
    fun {r m listener} h hbusy hfirst hreplaced time hcalled => ?_⟩
  · have hnone := idle_fresh memory script time hidle
    exact ⟨hnone .listeners, Option.toList_eq_nil_iff.mp (hnone .once)⟩
  · obtain ⟨place, listener, hregisters⟩ := registers_of_called h
    have hstarts := (lawful.reflects_step (hreflects time)).2
    have hlistener : caller.registers? ((fresh memory script).after r) = some listener :=
      congrArg (Option.map Prod.snd) hregisters
    have hcalled : caller.called (fresh memory script) time = some r := h
    rw [hcalled, Option.bind_some, hlistener] at hstarts
    exact ⟨place, listener, hregisters, script_of_starts hstarts⟩
  · have hcall := (event_of_registers h).trans (if_pos hidle)
    exact ⟨Roll.called_of_call hcall, lawful.stack_of_call hcall⟩
  · obtain ⟨place, listener, hregisters⟩ := registers_of_called h
    obtain ⟨m, htaken, hduring⟩ :=
      Caller.during_of_called hreflects h (waitsAt_of_busy hregisters hbusy)
    exact ⟨m, firstCrossing_of_taken htaken, hduring⟩
  · exact lawful.called_of_taken (ends _) hreflects (taken_of_firstCrossing h hbusy hfirst hkept)
  · obtain ⟨m', htaken, -⟩ := Caller.during_of_called hreflects hcalled (waitsAt_of_busy h hbusy)
    obtain rfl := hfirst.unique (firstCrossing_of_taken htaken)
    obtain ⟨t, replacing, hr, ht, hregisters⟩ := hreplaced
    obtain ⟨-, place, hwaits, -, hkept⟩ := Roll.waits_of_taken htaken
    obtain rfl := hwaits.unique (waitsAt_of_busy h hbusy)
    have hstill : ((fresh memory script).after t).world.counter.count ≠ 0 := by
      refine busy_until _ (Nat.le_of_lt hr) hbusy fun j hge hj hcrosses => ?_
      obtain heq | hlt := Nat.eq_or_lt_of_le hge
      · obtain ⟨places, hevent, -⟩ := takes_of_crosses (heq ▸ hcrosses) .once
        obtain hwait | hwait := hwaits <;> cases hevent.symm.trans hwait
      · exact hfirst.none_before j hlt (Nat.lt_trans hj ht) hcrosses
    refine hkept t hr ht (.inr ?_)
    exact (event_of_registers hregisters).trans (if_neg hstill)

/-- A listener that takes a reference again and gives it back calls the one it registered meanwhile before
the one-shot listener of its own batch. -/
example :
    let again : CounterScript Unit :=
      .increment (.listen (.stop (.panicked .other)) (.decrement (.stop .normal)))
    let script : CounterScript Unit :=
      .increment (.listen again (.listenOnce (.stop .normal) (.decrement (.stop .normal))))
    (List.range 12).filterMap (fresh () script).called = [1, 5, 2] := by
  rfl

end CounterThread

end Dispatch
