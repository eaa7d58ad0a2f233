import Dispatch.Proofs.Containment

/-!
# What happens when the last reference is given back

Whoever gives the last reference back calls those that wait at that moment, first the ordinary listeners in
the order they were registered in and then the one-shot listener, and goes on when the last of them has come
back (`fires_pending`). They have been taken off before the first of them begins, which finds the counter idle
and nobody waiting. A listener may take references and register others meanwhile. Those wait for a crossing of
their own, which may come while some of the first batch are still due: it is gone through before these are
called.
-/

namespace Dispatch

variable {σ : Type}

namespace CounterThread

variable {start thread : CounterThread σ} {time call last r : Nat} {next : CounterScript σ}
  {place : CounterPlace}

/-- Those that wait at a place at a time, known by the times they were registered at, in that order. -/
structure Pending (start : CounterThread σ) (time : Nat) (place : CounterPlace) (names : List Nat) :
    Prop where
  listeners : List.Forall₂ (fun r listener => (start.after r).script.registers? = some (place, listener))
    names ((start.after time).world.counter.waitingAt place)
  inOrder : names.Pairwise (· < ·)
  busy : ∀ r ∈ names, (start.after r).world.counter.count ≠ 0

/-- The listener that was registered at the first time is called at the second, and is what the thread does
next. -/
def Runs (start : CounterThread σ) (r time : Nat) : Prop :=
  start.called time = some r ∧ ∃ place listener,
    (start.after r).script.registers? = some (place, listener) ∧
      (start.after (time + 1)).script = listener

/-- What happens from the time at which the last reference is given back, with these listeners waiting, until
the last of them has come back. -/
structure Firing (start : CounterThread σ) (call last : Nat) (next : CounterScript σ) (batch : List Nat) :
    Prop where
  /-- All of them are run, one after the other, and none of them twice. -/
  inTurn : ∃ times, List.Forall₂ start.Runs batch times ∧ times.Pairwise (· < ·) ∧
    (∀ time ∈ times, call ≤ time ∧ time ≤ last) ∧
      ∀ {time r}, r ∈ batch → start.called time = some r → time ∈ times
  /-- The first of them finds the counter idle and nobody waiting. -/
  first : start.called call = batch.head? ∧ (start.after (call + 1)).world.counter = {}
  /-- Each of the others begins when the one before has come back, however that ended. -/
  comesBack : caller.CallsAll start next (start.after call).stack (start.after call).world.counter.due
    call last
  resumes : start.Resumes call (last + 1) next
  /-- Nobody else is called who was registered before. -/
  nobodyElse : ∀ {time r}, call ≤ time → time ≤ last → start.called time = some r →
    r ∈ batch ∨ call < r
  /-- Whoever begins to wait meanwhile is not one of them, and is called at another crossing only. -/
  later : ∀ {r}, call < r → (start.after r).world.counter.count ≠ 0 → r ∉ batch ∧
    ∀ {time}, start.called time = some r →
      ∃ crossing, call < crossing ∧ start.FirstCrossing r crossing ∧ caller.During start crossing time

/-! ### Those that wait -/

theorem pending (hreflects : caller.Reflects start time) (place : CounterPlace) :
    start.Pending time place ((caller.roll start time).waiting place) := by
  have hwaits : ∀ r ∈ (caller.roll start time).waiting place, (start.after r).event.WaitsAt place := by
    intro r hmem
    exact (Roll.mem_waiting_after.mp hmem).2.1
  refine ⟨?_, Roll.sorted_waiting _ time place, ?_⟩
  · have hboth := (List.forall₂_and_left _ _).mpr ⟨hwaits, hreflects.waiting place⟩
    apply hboth.imp
    rintro r listener ⟨hevent, hregistered⟩
    obtain ⟨-, waiting, hregisters⟩ := registers_of_waitsAt hevent
    have hsame : (start.after r).script.registers?.map Prod.snd = some listener := hregistered
    rw [hregisters] at hsame
    cases Option.some.inj hsame
    exact hregisters
  · intro r hmem
    exact (registers_of_waitsAt (hwaits r hmem)).1

theorem taken_of_crosses (h : (start.after call).crosses) : Roll.taken (caller.events start) call =
    (caller.roll start call).waiting .listeners ++ (caller.roll start call).waiting .once := by
  have hevent : caller.events start call = .take CounterPlace.all := event_eq_take.mpr ⟨h, rfl⟩
  rw [Roll.taken_of_take hevent]
  exact CounterPlace.flatMap_all (caller.roll start call).waiting

/-! ### The calls -/

theorem runs_of_called (hreflects : ∀ time, caller.Reflects start time)
    (h : start.called time = some r) : start.Runs r time := by
  obtain ⟨place, listener, hregisters⟩ := registers_of_called h
  have hstarts := (lawful.reflects_step (hreflects time)).2
  have hlistener : caller.registers? (start.after r) = some listener :=
    congrArg (Option.map Prod.snd) hregisters
  have hcalled : caller.called start time = some r := h
  rw [hcalled, Option.bind_some, hlistener] at hstarts
  exact ⟨h, place, listener, hregisters, script_of_starts hstarts⟩

/-- One that is taken off is called before whoever took it off goes on. -/
theorem called_of_taken (hreflects : ∀ time, caller.Reflects start time)
    (hresumes : start.Resumes call (last + 1) next) (h : r ∈ Roll.taken (caller.events start) call) :
    ∃ time, start.called time = some r ∧ call ≤ time ∧ time ≤ last := by
  obtain ⟨time, hcalled, hduring⟩ := lawful.called_during (ends start) hreflects h
  exact ⟨time, hcalled, hduring.1, Nat.le_of_lt_succ (hresumes.1.lt_of_during hduring)⟩

theorem inTurn (hreflects : ∀ time, caller.Reflects start time)
    (hresumes : start.Resumes call (last + 1) next) : ∃ times,
      List.Forall₂ start.Runs (Roll.taken (caller.events start) call) times ∧ times.Pairwise (· < ·) ∧
        (∀ time ∈ times, call ≤ time ∧ time ≤ last) ∧
          ∀ {time r}, r ∈ Roll.taken (caller.events start) call → start.called time = some r →
            time ∈ times := by
  have hcalled : ∀ r, ∃ time, r ∈ Roll.taken (caller.events start) call →
      start.called time = some r ∧ call ≤ time ∧ time ≤ last := by
    intro r
    by_cases hmem : r ∈ Roll.taken (caller.events start) call
    · obtain ⟨time, htime⟩ := called_of_taken hreflects hresumes hmem
      exact ⟨time, fun _ => htime⟩
    · exact ⟨0, fun h => absurd h hmem⟩
  choose timeOf htimeOf using hcalled
  refine ⟨(Roll.taken (caller.events start) call).map timeOf, ?_, ?_, ?_, ?_⟩
  · rw [List.forall₂_map_right_iff, List.forall₂_same]
    intro r hmem
    exact runs_of_called hreflects (htimeOf r hmem).1
  · rw [List.pairwise_map]
    apply (Roll.called_in_order (distinct_events start) call).imp_of_mem
    intro r r' hr hr' horder
    exact horder _ _ (htimeOf r hr).1 (htimeOf r' hr').1
  · intro time hmem
    obtain ⟨r, hr, rfl⟩ := List.mem_map.mp hmem
    exact (htimeOf r hr).2
  · intro time r hmem hcalled
    obtain rfl := Roll.called_inj (distinct_events start) hcalled (htimeOf r hmem).1
    exact List.mem_map_of_mem hmem

/-- Whoever is called before all of them have come back is one of them, or was registered meanwhile. -/
theorem nobodyElse (hreflects : ∀ time, caller.Reflects start time)
    (hcrosses : (start.after call).crosses) (hduring : caller.During start call time)
    (h : start.called time = some r) : r ∈ Roll.taken (caller.events start) call ∨ call < r := by
  have hevent : caller.events start call = .take CounterPlace.all := event_eq_take.mpr ⟨hcrosses, rfl⟩
  obtain rfl | hlt := Nat.eq_or_lt_of_le hduring.1
  · exact .inl (List.mem_of_mem_head? ((Roll.called_of_take hevent).symm.trans h))
  · obtain ⟨-, rfl⟩ | ⟨_, due, hdue, -⟩ := Roll.called_cases h
    · exact .inr hlt
    · obtain ⟨-, place, hwaits, -⟩ := Roll.waits_of_taken (hdue.mem List.mem_cons_self)
      obtain ⟨m, hle, htaken, -⟩ := lawful.called_within hreflects hduring hlt h hwaits
      obtain rfl | hnested := Nat.eq_or_lt_of_le hle
      · exact .inl htaken
      · -- it was not there yet, since it waited for the nested crossing
        right
        by_contra hnot
        obtain rfl | hbefore := Nat.eq_or_lt_of_le (Nat.le_of_not_lt hnot)
        · obtain heq | heq := hwaits <;> cases hevent.symm.trans heq
        · exact (firstCrossing_of_taken htaken).none_before call hbefore hnested hcrosses

theorem later (hreflects : ∀ time, caller.Reflects start time) (hlt : call < r)
    (hbusy : (start.after r).world.counter.count ≠ 0) (h : start.called time = some r) :
    ∃ crossing, call < crossing ∧ start.FirstCrossing r crossing ∧ caller.During start crossing time := by
  obtain ⟨place, listener, hregisters⟩ := registers_of_called h
  obtain ⟨m, htaken, hduring⟩ :=
    Caller.during_of_called hreflects h (waitsAt_of_busy hregisters hbusy)
  have hfirst := firstCrossing_of_taken htaken
  exact ⟨m, Nat.lt_trans hlt hfirst.lt, hfirst, hduring⟩

/-- When the last reference is given back, nothing is left of what the counter held. -/
theorem counter_of_crosses (h : thread.givesBack? = some next) (hlast : thread.world.counter.count = 1) :
    (advance step thread).world.counter = {} := by
  obtain ⟨guards, hnext⟩ := advance_givesBack h
  rw [hnext]
  unfold decrement ReferenceCounter.decrement? setGuards
  simp only [hlast]
  exact counter_fire _ next _

/-- Whoever gives the last reference back calls exactly those that wait at that moment, the ordinary listeners
in the order they were registered in and then the one-shot listener, and goes on when the last of them has
come back, however each of them ends and whatever they do to the counter. -/
theorem fires_pending (memory : σ) (script : CounterScript σ)
    (h : ((fresh memory script).after call).givesBack? = some next)
    (hlast : ((fresh memory script).after call).world.counter.count = 1) :
    ∃ ordinary oneShot last, (fresh memory script).Pending call .listeners ordinary ∧
      (fresh memory script).Pending call .once oneShot ∧
        (fresh memory script).Firing call last next (ordinary ++ oneShot) := by
  have hreflects := reflects_fresh memory script
  have hcrosses : ((fresh memory script).after call).crosses := by simp [crosses, h, hlast]
  have hevent : caller.events (fresh memory script) call = .take CounterPlace.all :=
    event_eq_take.mpr ⟨hcrosses, rfl⟩
  obtain ⟨last, hall, hresumes⟩ := goesOn h (by rw [hlast]; exact Nat.one_ne_zero)
  refine ⟨_, _, last, pending (hreflects call) .listeners, pending (hreflects call) .once, ?_⟩
  rw [← taken_of_crosses hcrosses]
  refine ⟨inTurn hreflects hresumes, ⟨Roll.called_of_take hevent, counter_of_crosses h hlast⟩, hall,
    hresumes, ?_, ?_⟩
  · intro time r hle hbefore hcalled
    exact nobodyElse hreflects hcrosses (hresumes.1.during hle (by omega)) hcalled
  · intro r hlt hbusy
    refine ⟨?_, later hreflects hlt hbusy⟩
    intro hmem
    have hbefore := (Roll.waits_of_taken hmem).1
    omega

/-- The first listener takes a reference, registers a listener that panics and gives the reference back, while
the one-shot listener is still due. -/
theorem fires_pending_nested :
    let again : CounterScript Unit :=
      .increment (.listen (.stop (.panicked .other)) (.decrement (.stop .normal)))
    let start : CounterThread Unit :=
      fresh () (.increment (.listen again (.listenOnce (.stop .normal) (.decrement (.stop .normal)))))
    (start.after 3).givesBack? = some (.stop .normal) ∧ (start.after 3).world.counter.count = 1 ∧
      ∃ ordinary oneShot last, start.Pending 3 .listeners ordinary ∧ start.Pending 3 .once oneShot ∧
        start.Firing 3 last (.stop .normal) (ordinary ++ oneShot) :=
  ⟨rfl, rfl, fires_pending () _ rfl rfl⟩

end CounterThread

end Dispatch
