import Mathlib.Data.List.Forall2
import Dispatch.Proofs.Course
import Dispatch.Proofs.Roll

/-!
# Threads that call listeners

A thread that registers listeners and calls them keeps those that wait in its world and those that are due in
a frame of its stack. Nothing in there tells when a listener was registered, and the same listener may be
registered twice. The roll of a course tells them apart: it is kept beside the thread, by what each step does
to the listeners, and it is right about all that wait and all that are due (`Lawful.reflects`). So what is
known of rolls is known of the thread: all that are taken off are called before the call that took them off
comes back (`Lawful.called_during`), and nobody else who was taken off before (`Lawful.called_within`).
-/

namespace Dispatch

/-- What is to be known of threads that register listeners at places and call them. -/
structure Caller (α φ Listener Goal ι : Type) where
  step : α → Ending ⊕ α
  stack : α → List φ
  /-- The thread is about to go on with the frame on top. -/
  Returns : α → Prop
  /-- The listeners that wait at a place. -/
  waiting : α → ι → List Listener
  /-- The frame that calls the listeners that are due and then does something else. -/
  frame : List Listener → Goal → φ
  /-- What the next step does to the listeners. -/
  event : α → Roll.Event ι
  /-- The listener that the next step registers. -/
  registers? : α → Option Listener
  /-- What the thread does when those that the next step takes off have been called. -/
  goal? : α → Option Goal
  /-- The listener that the next step calls. -/
  starts? : α → Option Listener
  /-- The thread is about to run this listener, which has been called on the way to this goal. -/
  Runs : Goal → Listener → α → Prop

namespace Caller

variable {α φ Listener Goal ι : Type} (caller : Caller α φ Listener Goal ι)

/-- A frame that calls no listeners. -/
def Plain (frame : φ) : Prop :=
  ∀ due goal, frame ≠ caller.frame due goal

/-- The first of those that are due is run, and a frame will call the others. -/
inductive Fires (goal : Goal) (stack : List φ) (later : α) : List Listener → Prop
  | done (level : caller.stack later = stack) : Fires goal stack later []
  | first {listener : Listener} {due : List Listener}
      (level : caller.stack later = caller.frame due goal :: stack) (runs : caller.Runs goal listener later) :
      Fires goal stack later (listener :: due)

inductive Moves (thread later : α) : Prop
  | pass (event : caller.event thread = .pass) (starts : caller.starts? thread = none)
      (waiting : caller.waiting later = caller.waiting thread)
      (stack : caller.stack later = caller.stack thread ∨
        (∃ frame, caller.Plain frame ∧ caller.stack later = frame :: caller.stack thread) ∨
        ∃ frame, caller.Returns thread ∧ caller.Plain frame ∧
          caller.stack thread = frame :: caller.stack later)
  | call {frame : φ} (event : caller.event thread = .call)
      (starts : caller.starts? thread = caller.registers? thread)
      (waiting : caller.waiting later = caller.waiting thread) (plain : caller.Plain frame)
      (stack : caller.stack later = frame :: caller.stack thread)
  | wait {place : ι} {listener : Listener} (event : caller.event thread = .wait place)
      (starts : caller.starts? thread = none) (registers : caller.registers? thread = some listener)
      (here : caller.waiting later place = caller.waiting thread place ++ [listener])
      (elsewhere : ∀ other, other ≠ place → caller.waiting later other = caller.waiting thread other)
      (stack : caller.stack later = caller.stack thread)
  | supplant {place : ι} {listener : Listener} (event : caller.event thread = .supplant place)
      (starts : caller.starts? thread = none) (registers : caller.registers? thread = some listener)
      (here : caller.waiting later place = [listener])
      (elsewhere : ∀ other, other ≠ place → caller.waiting later other = caller.waiting thread other)
      (stack : caller.stack later = caller.stack thread)
  | take {places : List ι} {goal : Goal} (event : caller.event thread = .take places)
      (starts : caller.starts? thread = (places.flatMap (caller.waiting thread)).head?)
      (aims : caller.goal? thread = some goal)
      (taken : ∀ place ∈ places, caller.waiting later place = [])
      (left : ∀ place, place ∉ places → caller.waiting later place = caller.waiting thread place)
      (fires : caller.Fires goal (caller.stack thread) later (places.flatMap (caller.waiting thread)))
  | resume {goal : Goal} {due : List Listener} {stack : List φ} (event : caller.event thread = .resume)
      (starts : caller.starts? thread = due.head?) (returns : caller.Returns thread)
      (level : caller.stack thread = caller.frame due goal :: stack)
      (waiting : caller.waiting later = caller.waiting thread)
      (fires : caller.Fires goal stack later due)

structure Lawful : Prop where
  frame_inj : ∀ {due due' goal goal'}, caller.frame due goal = caller.frame due' goal' →
    due = due' ∧ goal = goal'
  moves : ∀ {thread later}, caller.step thread = .inr later → caller.Moves thread later
  resumes : ∀ {thread due goal stack}, caller.Returns thread →
    caller.stack thread = caller.frame due goal :: stack → caller.event thread = .resume
  ended : ∀ {thread ending}, caller.step thread = .inl ending →
    caller.event thread = .pass ∧ caller.starts? thread = none ∧ caller.Returns thread ∧
      caller.stack thread = []

variable {caller}

/-- The calls of such threads come back. -/
theorem Lawful.stacked (lawful : caller.Lawful) :
    Stacked caller.step caller.stack caller.Returns := by
  refine ⟨fun {thread later} h => ?_, fun h => ⟨(lawful.ended h).2.2.1, (lawful.ended h).2.2.2⟩⟩
  have hfires {goal : Goal} {due : List Listener} {stack : List φ}
      (h : caller.Fires goal stack later due) : stack <:+ caller.stack later := by
    cases h with
    | done level => exact level ▸ List.suffix_refl _
    | first level runs => exact level ▸ List.suffix_cons _ _
  cases lawful.moves h with
  | pass event starts waiting stack =>
    obtain heq | ⟨frame, -, heq⟩ | ⟨frame, hreturns, -, heq⟩ := stack
    · exact .inl (heq ▸ List.suffix_refl _)
    · exact .inl (heq ▸ List.suffix_cons _ _)
    · exact .inr ⟨hreturns, heq ▸ List.suffix_refl _⟩
  | call event starts waiting plain stack => exact .inl (stack ▸ List.suffix_cons _ _)
  | wait event starts registers here elsewhere stack => exact .inl (stack ▸ List.suffix_refl _)
  | supplant event starts registers here elsewhere stack => exact .inl (stack ▸ List.suffix_refl _)
  | take event starts aims taken left fires => exact .inl (hfires fires)
  | resume event starts returns level waiting fires =>
    exact .inr ⟨returns, level ▸ hfires fires⟩

/-! ### The roll of a course -/

variable (caller) (start : α)

def after : Nat → α :=
  course caller.step start

def Registered (r : Nat) (listener : Listener) : Prop :=
  caller.registers? (caller.after start r) = some listener

/-- The frame calls the rest of a batch, and then goes on as was meant when it was taken off. -/
def Shows (frame : φ) (batch : Batch) : Prop :=
  ∃ due goal, frame = caller.frame due goal ∧
    caller.goal? (caller.after start batch.since) = some goal ∧
    List.Forall₂ (caller.Registered start) batch.due due

def Stacks (stack : List φ) (batches : List Batch) : Prop :=
  Stands caller.Plain (caller.Shows start) (fun m => caller.stack (caller.after start m)) stack batches

variable {caller start} {time : Nat}

theorem Fires.goOn {since : Nat} {names : List Nat} {batches : List Batch} {goal : Goal}
    {due : List Listener} {stack : List φ} {later : α} (h : caller.Fires goal stack later due)
    (hgoal : caller.goal? (caller.after start since) = some goal)
    (hdue : List.Forall₂ (caller.Registered start) names due)
    (hplace : caller.stack (caller.after start since) = stack)
    (hrest : caller.Stacks start stack batches) :
    caller.Stacks start (caller.stack later) (Batch.goOn (⟨since, names⟩ :: batches)).2 ∧
      due.head? = (Batch.goOn (⟨since, names⟩ :: batches)).1.bind fun r =>
        caller.registers? (caller.after start r) := by
  cases h with
  | done level =>
    cases hdue
    exact ⟨level ▸ hrest, rfl⟩
  | first level runs =>
    cases hdue with
    | cons hfirst hothers =>
      refine ⟨?_, hfirst.symm⟩
      rw [level]
      exact .cons ⟨_, goal, rfl, hgoal, hothers⟩ hplace hrest

theorem Lawful.frame_of_resume (lawful : caller.Lawful) {thread : α}
    (h : caller.event thread = .resume) :
    ∃ due goal stack, caller.stack thread = caller.frame due goal :: stack := by
  cases hstep : caller.step thread with
  | inl ending =>
    rw [(lawful.ended hstep).1] at h
    cases h
  | inr later =>
    cases lawful.moves hstep with
    | resume event starts returns level waiting fires => exact ⟨_, _, _, level⟩
    | pass event | call event | wait event | supplant event | take event =>
      rw [event] at h
      cases h

/-- One that is called when it is registered is called before the registration goes on. -/
theorem Lawful.stack_of_call (lawful : caller.Lawful)
    (h : caller.event (caller.after start time) = .call) :
    ∃ frame, caller.stack (caller.after start (time + 1)) =
      frame :: caller.stack (caller.after start time) := by
  cases hstep : caller.step (caller.after start time) with
  | inl ending =>
    rw [(lawful.ended hstep).1] at h
    cases h
  | inr later =>
    have hlater : caller.after start (time + 1) = later := advance_of_inr hstep
    rw [hlater]
    cases lawful.moves hstep with
    | call event starts waiting plain stack => exact ⟨_, stack⟩
    | pass event | wait event | supplant event | take event | resume event =>
      rw [event] at h
      cases h

variable (caller start) in
/-- The thread comes back at the last time from the call it makes at the first. -/
structure Returned (first last : Nat) : Prop where
  lt : first < last
  level : caller.stack (caller.after start last) = caller.stack (caller.after start first)
  within : ∀ time, first < time → time < last →
    ∃ frame, frame :: caller.stack (caller.after start first) <:+ caller.stack (caller.after start time)

theorem Lawful.resumed (lawful : caller.Lawful) {due : List Listener} {goal : Goal} {stack : List φ}
    (hreturns : caller.Returns (caller.after start time))
    (h : caller.stack (caller.after start time) = caller.frame due goal :: stack) :
    caller.starts? (caller.after start time) = due.head? ∧
      caller.Fires goal stack (caller.after start (time + 1)) due := by
  have hevent : caller.event (caller.after start time) = .resume := lawful.resumes hreturns h
  cases hstep : caller.step (caller.after start time) with
  | inl ending =>
    rw [(lawful.ended hstep).2.2.2] at h
    cases h
  | inr later =>
    have hlater : caller.after start (time + 1) = later := advance_of_inr hstep
    rw [hlater]
    cases lawful.moves hstep with
    | resume event starts returns level waiting fires =>
      obtain ⟨hframe, rfl⟩ := List.cons.inj (level.symm.trans h)
      obtain ⟨rfl, rfl⟩ := lawful.frame_inj hframe
      exact ⟨starts, fires⟩
    | pass event | call event | wait event | supplant event | take event =>
      rw [event] at hevent
      cases hevent

variable (caller start) in
/-- The listeners that are due are called one after the other: the first by the step at the first time, and
each of the others when the thread comes back from the one before, however that one ended. What the thread does
when a listener has been called is to run it. -/
inductive CallsAll (goal : Goal) (stack : List φ) : List Listener → Nat → Nat → Prop
  | done {time : Nat} : CallsAll goal stack [] time time
  | call {listener : Listener} {due : List Listener} {time back last : Nat}
      (starts : caller.starts? (caller.after start time) = some listener)
      (level : caller.stack (caller.after start (time + 1)) = caller.frame due goal :: stack)
      (runs : caller.Runs goal listener (caller.after start (time + 1)))
      (comes : Stacked.Back caller.step caller.stack caller.Returns start (time + 1) back)
      (rest : CallsAll goal stack due back last) : CallsAll goal stack (listener :: due) time last

theorem Lawful.callsAll (lawful : caller.Lawful) (ends : Ends caller.step start) {due : List Listener}
    {goal : Goal} {stack : List φ} (starts : caller.starts? (caller.after start time) = due.head?)
    (fires : caller.Fires goal stack (caller.after start (time + 1)) due) :
    ∃ last, caller.CallsAll start goal stack due time last := by
  induction due generalizing time with
  | nil => exact ⟨time, .done⟩
  | cons listener due ih =>
    cases fires with
    | first level runs =>
      obtain ⟨back, hback⟩ := lawful.stacked.comes_back ends (time + 1)
      obtain ⟨hnext, hfires⟩ := lawful.resumed hback.returns (hback.level.trans level)
      obtain ⟨last, hrest⟩ := ih hnext hfires
      exact ⟨last, .call starts level runs hback hrest⟩

namespace CallsAll

variable {goal : Goal} {stack : List φ} {due : List Listener} {last : Nat}

theorem le (h : caller.CallsAll start goal stack due time last) : time ≤ last := by
  induction h with
  | done => exact Nat.le_refl _
  | call _ _ _ comes _ ih => exact Nat.le_trans (Nat.le_of_succ_le comes.le) ih

/-- Until the last of them comes back there is a frame above what was on the stack. -/
theorem within (h : caller.CallsAll start goal stack due time last) :
    ∀ t, time < t → t ≤ last → ∃ frame, frame :: stack <:+ caller.stack (caller.after start t) := by
  induction h with
  | done => exact fun t hlt hle => absurd hlt (Nat.not_lt.mpr hle)
  | @call _ _ _ back _ _ level _ hback _ ih =>
    intro t hlt hle
    obtain hafter | hbefore := Nat.lt_or_ge back t
    · exact ih t hafter hle
    · exact ⟨_, level ▸ hback.within t hlt hbefore⟩

/-- If any was due, the thread has come back from the last of them to a frame with none left. -/
theorem at_last (h : caller.CallsAll start goal stack due time last) :
    due = [] ∧ last = time ∨ caller.Returns (caller.after start last) ∧
      caller.stack (caller.after start last) = caller.frame [] goal :: stack := by
  induction h with
  | done => exact .inl ⟨rfl, rfl⟩
  | call _ level _ comes _ ih =>
    obtain ⟨rfl, rfl⟩ | hlast := ih
    · exact .inr ⟨comes.returns, comes.level.trans level⟩
    · exact .inr hlast

end CallsAll

theorem Lawful.frame_left (lawful : caller.Lawful) (ends : Ends caller.step start) {first : Nat}
    {due : List Listener} {goal : Goal} {stack : List φ}
    (h : caller.stack (caller.after start first) = caller.frame due goal :: stack) :
    ∃ back, first ≤ back ∧ caller.Returns (caller.after start back) ∧
      caller.stack (caller.after start back) = caller.frame [] goal :: stack ∧
      ∀ time, first ≤ time → time ≤ back →
        ∃ frame, frame :: stack <:+ caller.stack (caller.after start time) := by
  obtain ⟨back, hback⟩ := lawful.stacked.comes_back ends first
  have hlevel := hback.level.trans h
  obtain ⟨hnext, hfires⟩ := lawful.resumed hback.returns hlevel
  obtain ⟨last, hall⟩ := lawful.callsAll ends hnext hfires
  refine ⟨last, Nat.le_trans hback.le hall.le, ?_⟩
  have hwithin (time : Nat) (hge : first ≤ time) (hle : time ≤ last) :
      ∃ frame, frame :: stack <:+ caller.stack (caller.after start time) := by
    obtain hafter | hbefore := Nat.lt_or_ge back time
    · exact hall.within time hafter hle
    · exact ⟨_, h ▸ hback.within time hge hbefore⟩
  obtain ⟨rfl, rfl⟩ | ⟨hreturns, hlast⟩ := hall.at_last
  · exact ⟨hback.returns, hlevel, hwithin⟩
  · exact ⟨hreturns, hlast, hwithin⟩

variable (caller start) in
/-- The roll is right about those that wait and those that are due, if the thread has become this. -/
structure Follows (now : Roll ι) (thread : α) : Prop where
  waiting : ∀ place, List.Forall₂ (caller.Registered start) (now.waiting place)
    (caller.waiting thread place)
  stack : caller.Stacks start (caller.stack thread) now.batches

variable {now : Roll ι} {thread later : α}

namespace Follows

theorem flatMap (h : caller.Follows start now thread) (places : List ι) :
    List.Forall₂ (caller.Registered start) (places.flatMap now.waiting)
      (places.flatMap (caller.waiting thread)) := by
  induction places with
  | nil => exact .nil
  | cons place places ih =>
    rw [List.flatMap_cons, List.flatMap_cons]
    exact List.rel_append (h.waiting place) ih

theorem keep (h : caller.Follows start now thread) {batches : List Batch}
    (hwaiting : caller.waiting later = caller.waiting thread)
    (hstack : caller.Stacks start (caller.stack later) batches) :
    caller.Follows start { now with batches } later := by
  refine ⟨?_, hstack⟩
  intro place
  rw [hwaiting]
  exact h.waiting place

theorem stacks_of_plain (h : caller.Follows start now thread)
    (hstack : caller.stack later = caller.stack thread ∨
      (∃ frame, caller.Plain frame ∧ caller.stack later = frame :: caller.stack thread) ∨
      ∃ frame, caller.Returns thread ∧ caller.Plain frame ∧
        caller.stack thread = frame :: caller.stack later) :
    caller.Stacks start (caller.stack later) now.batches := by
  have hold := h.stack
  rcases hstack with heq | ⟨frame, hplain, heq⟩ | ⟨frame, -, hplain, heq⟩
  · exact heq ▸ hold
  · exact heq ▸ .skip hplain hold
  · rw [heq] at hold
    refine hold.tail ?_
    rintro batch ⟨due, goal, hframe, -⟩
    exact hplain due goal hframe

end Follows

theorem Lawful.goOn_of_resume (lawful : caller.Lawful) (h : caller.Follows start now thread)
    {goal : Goal} {due : List Listener} {stack : List φ}
    (level : caller.stack thread = caller.frame due goal :: stack)
    (fires : caller.Fires goal stack later due) :
    caller.Stacks start (caller.stack later) (Batch.goOn now.batches).2 ∧
      due.head? = (Batch.goOn now.batches).1.bind fun r =>
        caller.registers? (caller.after start r) := by
  have hstack := h.stack
  rw [level] at hstack
  obtain ⟨⟨since, names⟩, rest, hbatches, ⟨due', goal', hframe, hgoal, hdue⟩, hplace, hrest⟩ :=
    Stands.head hstack fun hplain => hplain _ _ rfl
  obtain ⟨rfl, rfl⟩ := lawful.frame_inj hframe
  rw [hbatches]
  exact fires.goOn hgoal hdue hplace hrest

variable [DecidableEq ι]

variable (caller start)

def events : Nat → Roll.Event ι :=
  fun time => caller.event (caller.after start time)

def roll : Nat → Roll ι :=
  Roll.after (caller.events start)

def called : Nat → Option Nat :=
  Roll.called (caller.events start)

abbrev Reflects (time : Nat) : Prop :=
  caller.Follows start (caller.roll start time) (caller.after start time)

variable {caller start}

namespace Follows

theorem update (h : caller.Follows start now thread) {place : ι} {names : List Nat}
    (here : List.Forall₂ (caller.Registered start) names (caller.waiting later place))
    (elsewhere : ∀ other, other ≠ place → caller.waiting later other = caller.waiting thread other)
    (hstack : caller.stack later = caller.stack thread) :
    caller.Follows start { now with waiting := Function.update now.waiting place names } later := by
  refine ⟨?_, hstack ▸ h.stack⟩
  intro other
  by_cases heq : other = place
  · subst heq
    simpa using here
  · rw [elsewhere other heq]
    simpa [Function.update_of_ne heq] using h.waiting other

theorem take (h : caller.Follows start now thread) {places : List ι} {batches : List Batch}
    (taken : ∀ place ∈ places, caller.waiting later place = [])
    (left : ∀ place, place ∉ places → caller.waiting later place = caller.waiting thread place)
    (hstack : caller.Stacks start (caller.stack later) batches) :
    caller.Follows start
      { waiting := fun place => if place ∈ places then [] else now.waiting place, batches } later := by
  refine ⟨?_, hstack⟩
  intro place
  by_cases hmem : place ∈ places
  · simp [hmem, taken place hmem]
  · simpa [hmem, left place hmem] using h.waiting place

end Follows

/-- The roll stays right, and those that are called are those it says. -/
theorem reflects_of_moves (lawful : caller.Lawful) (h : caller.Reflects start time)
    (hmoves : caller.Moves (caller.after start time) later) :
    caller.Follows start (caller.roll start (time + 1)) later ∧
      caller.starts? (caller.after start time) =
        (caller.called start time).bind fun r => caller.registers? (caller.after start r) := by
  change caller.Follows start
      ((caller.roll start time).step time (caller.event (caller.after start time))).2 later ∧
    _ = ((caller.roll start time).step time (caller.event (caller.after start time))).1.bind _
  cases hmoves with
  | pass event starts waiting stack =>
    rw [event]
    exact ⟨h.keep waiting (h.stacks_of_plain stack), starts⟩
  | call event starts waiting plain stack =>
    rw [event]
    exact ⟨h.keep waiting (stack ▸ .skip plain h.stack), starts⟩
  | wait event starts registers here elsewhere stack =>
    rw [event]
    refine ⟨h.update ?_ elsewhere stack, starts⟩
    rw [here]
    exact List.rel_append (h.waiting _) (.cons registers .nil)
  | supplant event starts registers here elsewhere stack =>
    rw [event]
    refine ⟨h.update ?_ elsewhere stack, starts⟩
    rw [here]
    exact .cons registers .nil
  | @take places goal event starts aims taken left fires =>
    rw [event]
    obtain ⟨hstack, hhead⟩ := fires.goOn aims (h.flatMap places) rfl h.stack
    exact ⟨h.take taken left hstack, starts.trans hhead⟩
  | resume event starts returns level waiting fires =>
    rw [event]
    obtain ⟨hstack, hhead⟩ := lawful.goOn_of_resume h level fires
    exact ⟨h.keep waiting hstack, starts.trans hhead⟩

theorem Lawful.reflects_step (lawful : caller.Lawful) (h : caller.Reflects start time) :
    caller.Reflects start (time + 1) ∧ caller.starts? (caller.after start time) =
      (caller.called start time).bind fun r => caller.registers? (caller.after start r) := by
  cases hstep : caller.step (caller.after start time) with
  | inl ending =>
    -- what has ended moves no more, and nobody is called
    obtain ⟨hevent, hstarts, -⟩ := lawful.ended hstep
    have hsame : caller.after start (time + 1) = caller.after start time := advance_of_inl hstep
    rw [Reflects, hsame]
    exact reflects_of_moves lawful h (.pass hevent hstarts rfl (.inl rfl))
  | inr later =>
    have hlater : caller.after start (time + 1) = later := advance_of_inr hstep
    rw [Reflects, hlater]
    exact reflects_of_moves lawful h (lawful.moves hstep)

/-- The roll of a thread with which nobody waits and which has called nobody is right at any time. -/
theorem Lawful.reflects (lawful : caller.Lawful) (nobody : ∀ place, caller.waiting start place = [])
    (bottom : caller.stack start = []) (time : Nat) : caller.Reflects start time := by
  induction time with
  | zero =>
    refine ⟨fun place => ?_, ?_⟩
    · exact (nobody place).symm ▸ .nil
    · exact bottom.symm ▸ .nil
  | succ time ih => exact (lawful.reflects_step ih).1

/-! ### Being called -/

variable (caller start) in
/-- At the last time the thread has not come back from what it called at the first. -/
def During (first last : Nat) : Prop :=
  first ≤ last ∧ ∀ time, first < time → time ≤ last →
    ∃ frame, frame :: caller.stack (caller.after start first) <:+ caller.stack (caller.after start time)

omit [DecidableEq ι] in
theorem Returned.during {first last : Nat} (h : caller.Returned start first last) (hle : first ≤ time)
    (hlt : time < last) : caller.During start first time := by
  refine ⟨hle, ?_⟩
  intro t hafter ht
  exact h.within t hafter (Nat.lt_of_le_of_lt ht hlt)

omit [DecidableEq ι] in
theorem Returned.lt_of_during {first last : Nat} (h : caller.Returned start first last)
    (hduring : caller.During start first time) : time < last := by
  by_contra hnot
  obtain ⟨frame, habove⟩ := hduring.2 last h.lt (Nat.le_of_not_lt hnot)
  rw [h.level] at habove
  have hlength := habove.length_le
  rw [List.length_cons] at hlength
  omega

/-- One that waited is called after it was taken off, and before the thread comes back from that. -/
theorem during_of_called (hreflects : ∀ time, caller.Reflects start time) {r : Nat} {place : ι}
    (h : caller.called start time = some r) (hwaits : (caller.events start r).WaitsAt place) :
    ∃ m, r ∈ Roll.taken (caller.events start) m ∧ caller.During start m time := by
  obtain ⟨m, hle, htaken, hunder⟩ := Roll.taken_of_called h hwaits
  refine ⟨m, htaken, hle, fun t hlt ht => ?_⟩
  obtain ⟨batch, hmem, rfl⟩ := hunder t hlt ht
  obtain ⟨frame, -, hsuffix⟩ := (hreflects t).stack.exists_frame hmem
  exact ⟨frame, hsuffix⟩

/-- One that was taken off is called by the step that takes it off, or from a frame that will go on as that
step meant. The frame is just above what was on the stack then. -/
theorem Lawful.goal_of_called (lawful : caller.Lawful) (hreflects : ∀ time, caller.Reflects start time)
    {r m : Nat} (h : caller.called start time = some r) (htaken : r ∈ Roll.taken (caller.events start) m) :
    m = time ∨ ∃ due goal, caller.event (caller.after start time) = .resume ∧
      caller.stack (caller.after start time) =
        caller.frame due goal :: caller.stack (caller.after start m) ∧
      caller.goal? (caller.after start m) = some goal := by
  obtain ⟨hcall, rfl⟩ | ⟨m', due, hdue, -, hbefore⟩ := Roll.called_cases h
  · obtain ⟨-, place, hwait | hwait, -⟩ := Roll.waits_of_taken htaken <;> cases hcall.symm.trans hwait
  · obtain rfl := Roll.taken_inj htaken (hdue.mem List.mem_cons_self)
    refine hbefore.imp_right fun ⟨hevent, rest, hbatches⟩ => ?_
    have hresume : caller.event (caller.after start time) = .resume := hevent
    obtain ⟨due, goal, stack, hlevel⟩ := lawful.frame_of_resume hresume
    have hstack := (hreflects time).stack
    rw [hlevel] at hstack
    obtain ⟨batch, others, hlatest, ⟨due', goal', hframe, hgoal, -⟩, hplace, -⟩ :=
      Stands.head hstack fun hplain => hplain _ _ rfl
    have hbatch : batch = ⟨m, r :: _⟩ := (List.cons.inj (hlatest.symm.trans hbatches)).1
    rw [hbatch] at hgoal hplace
    exact ⟨due', goal', hresume, hframe ▸ hplace ▸ hlevel, hgoal⟩

/-- Before the thread comes back from what it called at a time, nobody is called who was taken off
earlier. -/
theorem Lawful.called_within (lawful : caller.Lawful) (hreflects : ∀ time, caller.Reflects start time)
    {first r : Nat} {place : ι} (hduring : caller.During start first time) (hlt : first < time)
    (h : caller.called start time = some r) (hwaits : (caller.events start r).WaitsAt place) :
    ∃ m, first ≤ m ∧ r ∈ Roll.taken (caller.events start) m ∧ caller.During start m time := by
  obtain ⟨m, htaken, hunder⟩ := during_of_called hreflects h hwaits
  refine ⟨m, ?_, htaken, hunder⟩
  by_contra hnot
  have hbefore : m < first := Nat.lt_of_not_le hnot
  obtain ⟨frame, habove⟩ := hduring.2 time hlt (Nat.le_refl time)
  obtain ⟨frame', hbelow⟩ := hunder.2 first hbefore (Nat.le_of_lt hlt)
  -- whoever is called from above the frame of the first call is called from too high up
  obtain heq | ⟨due, goal, -, hlevel, -⟩ := lawful.goal_of_called hreflects h htaken
  · omega
  · rw [hlevel] at habove
    have hhigh := habove.length_le
    have hlow := hbelow.length_le
    rw [List.length_cons, List.length_cons] at hhigh
    rw [List.length_cons] at hlow
    omega

/-- All that are taken off are called, if the course ends. -/
theorem Lawful.called_of_taken (lawful : caller.Lawful) (ends : Ends caller.step start)
    (hreflects : ∀ time, caller.Reflects start time) {r m : Nat}
    (h : r ∈ Roll.taken (caller.events start) m) : ∃ time, caller.called start time = some r := by
  obtain ⟨last, ending, hlast⟩ := ends
  have hlt : m < m + 1 + last := Nat.lt_of_lt_of_le (Nat.lt_succ_self m) (Nat.le_add_right _ _)
  obtain ⟨time, -, -, hcalled⟩ | ⟨batch, hmem, -⟩ := Roll.called_or_due h hlt
  · exact ⟨time, hcalled⟩
  · -- nothing is on the stack at the end, so no batch is under way
    have hend : caller.after start (m + 1 + last) = caller.after start last :=
      course_of_ended hlast (Nat.le_add_left _ _)
    have hnil : caller.stack (caller.after start last) = [] := (lawful.ended hlast).2.2.2
    obtain ⟨frame, -, hsuffix⟩ := (hreflects (m + 1 + last)).stack.exists_frame hmem
    rw [hend, hnil] at hsuffix
    cases List.suffix_nil.mp hsuffix

/-- One that was taken off is called before the thread comes back from that. -/
theorem Lawful.called_during (lawful : caller.Lawful) (ends : Ends caller.step start)
    (hreflects : ∀ time, caller.Reflects start time) {r m : Nat}
    (h : r ∈ Roll.taken (caller.events start) m) :
    ∃ time, caller.called start time = some r ∧ caller.During start m time := by
  obtain ⟨time, hcalled⟩ := lawful.called_of_taken ends hreflects h
  obtain ⟨-, place, hwaits, -⟩ := Roll.waits_of_taken h
  obtain ⟨m', htaken, hduring⟩ := during_of_called hreflects hcalled hwaits
  obtain rfl := Roll.taken_inj h htaken
  exact ⟨time, hcalled, hduring⟩

end Caller

end Dispatch
