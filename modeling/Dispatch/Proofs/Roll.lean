import Mathlib.Data.List.Basic
import Mathlib.Data.List.Nodup
import Mathlib.Data.Nat.Init
import Mathlib.Logic.Function.Basic
import Mathlib.Order.Basic

/-!
# Rolls of listeners

A roll says which listeners wait and which of them are due. It knows a listener by the time at which it was
registered. Those that wait at a place are taken off together; the first of them is called, and the others
are called one by one whenever the batch goes on. Other batches may begin in between, which are finished
first.

Whatever happens, a listener is called once at most (`called_inj`), and never before it is taken off
(`called_cases`). All that are taken off are called, in their order, before their batch is gone
(`called_or_due`, `called_in_order`).
-/

namespace Dispatch

/-- Those that were taken off at one time and have not been called yet. -/
structure Batch where
  since : Nat
  due : List Nat

/-- The latest batch goes on: the next one of it is called, or it is finished. -/
def Batch.goOn : List Batch → Option Nat × List Batch
  | [] => (none, [])
  | ⟨_, []⟩ :: batches => (none, batches)
  | ⟨since, next :: due⟩ :: batches => (some next, ⟨since, due⟩ :: batches)

/-- Those that wait, in their order, and the batches that are under way, the latest first. -/
structure Roll (ι : Type) where
  waiting : ι → List Nat := fun _ => []
  batches : List Batch := []

namespace Roll

inductive Event (ι : Type) where
  | pass
  /-- One is registered and called at once. -/
  | call
  /-- One is registered and waits behind the others. -/
  | wait (place : ι)
  /-- One is registered and waits instead of the others. -/
  | supplant (place : ι)
  /-- All that wait at these places are taken off. -/
  | take (places : List ι)
  /-- The latest batch goes on. -/
  | resume

namespace Event

variable {ι : Type}

def WaitsAt (event : Event ι) (place : ι) : Prop :=
  event = .wait place ∨ event = .supplant place

def Takes (event : Event ι) (place : ι) : Prop :=
  ∃ places, event = .take places ∧ place ∈ places

def Clears (event : Event ι) (place : ι) : Prop :=
  event.Takes place ∨ event = .supplant place

end Event

variable {ι : Type} [DecidableEq ι]

/-- The batches that are under way when one of them may go on. -/
def opened (roll : Roll ι) (time : Nat) : Event ι → List Batch
  | .take places => ⟨time, places.flatMap roll.waiting⟩ :: roll.batches
  | .pass | .call | .wait _ | .supplant _ | .resume => roll.batches

/-- Who is called by what happens at a time, and the roll after it. -/
def step (roll : Roll ι) (time : Nat) : Event ι → Option Nat × Roll ι
  | .pass => (none, roll)
  | .call => (some time, roll)
  | .wait place =>
    (none, { roll with
      waiting := Function.update roll.waiting place (roll.waiting place ++ [time]) })
  | .supplant place => (none, { roll with waiting := Function.update roll.waiting place [time] })
  | .take places =>
    let (called, batches) := Batch.goOn (roll.opened time (.take places))
    (called, { waiting := fun place => if place ∈ places then [] else roll.waiting place, batches })
  | .resume =>
    let (called, batches) := Batch.goOn (roll.opened time .resume)
    (called, { roll with batches })

def after (events : Nat → Event ι) : Nat → Roll ι
  | 0 => {}
  | time + 1 => ((after events time).step time (events time)).2

def called (events : Nat → Event ι) (time : Nat) : Option Nat :=
  ((after events time).step time (events time)).1

def taken (events : Nat → Event ι) (time : Nat) : List Nat :=
  match events time with
  | .take places => places.flatMap (after events time).waiting
  | .pass | .call | .wait _ | .supplant _ | .resume => []

end Roll

/-! ### What a step does -/

namespace Batch

variable {batches : List Batch} {batch : Batch} {r : Nat}

/-- A batch that goes on keeps its time, and loses no more than the one that is called. -/
theorem of_mem_goOn (h : batch ∈ (goOn batches).2) :
    ∃ before ∈ batches, before.since = batch.since ∧ batch.due <:+ before.due := by
  match batches with
  | [] => cases h
  | ⟨_, []⟩ :: batches => exact ⟨batch, List.mem_cons_of_mem _ h, rfl, List.suffix_refl _⟩
  | ⟨since, next :: due⟩ :: batches =>
    obtain rfl | hmem := List.mem_cons.mp h
    · exact ⟨_, List.mem_cons_self, rfl, List.suffix_cons _ _⟩
    · exact ⟨batch, List.mem_cons_of_mem _ hmem, rfl, List.suffix_refl _⟩

theorem goOn_or_mem (h : batch ∈ batches) (hdue : r ∈ batch.due) :
    (goOn batches).1 = some r ∨
      ∃ later ∈ (goOn batches).2, later.since = batch.since ∧ r ∈ later.due := by
  match batches with
  | [] => cases h
  | ⟨_, []⟩ :: batches =>
    obtain rfl | hmem := List.mem_cons.mp h
    · cases hdue
    · exact .inr ⟨batch, hmem, rfl, hdue⟩
  | ⟨since, next :: due⟩ :: batches =>
    obtain rfl | hmem := List.mem_cons.mp h
    · obtain rfl | hlater := List.mem_cons.mp hdue
      · exact .inl rfl
      · exact .inr ⟨_, List.mem_cons_self, rfl, hlater⟩
    · exact .inr ⟨batch, List.mem_cons_of_mem _ hmem, rfl, hdue⟩

/-- The one that is called was the next one of the latest batch. -/
theorem goOn_eq_some (h : (goOn batches).1 = some r) :
    ∃ since due rest, batches = ⟨since, r :: due⟩ :: rest ∧
      (goOn batches).2 = ⟨since, due⟩ :: rest := by
  match batches with
  | [] => cases h
  | ⟨_, []⟩ :: batches => cases h
  | ⟨since, next :: due⟩ :: batches =>
    cases Option.some.inj h
    exact ⟨since, due, batches, rfl, rfl⟩

/-- The times of the batches, the latest first, are in order. -/
def Latest (batches : List Batch) : Prop :=
  batches.Pairwise fun first second => second.since < first.since

theorem Latest.goOn (h : Latest batches) : Latest (goOn batches).2 := by
  match batches with
  | [] => exact h
  | ⟨_, []⟩ :: batches => exact h.of_cons
  | ⟨since, next :: due⟩ :: batches => exact List.pairwise_cons.mpr (List.pairwise_cons.mp h)

theorem Latest.inj (h : Latest batches) {other : Batch} (hmem : batch ∈ batches)
    (hother : other ∈ batches) (hsince : batch.since = other.since) : batch = other :=
  List.inj_on_of_nodup_map (List.pairwise_map.mpr (h.imp Nat.ne_of_gt)) hmem hother hsince

end Batch

namespace Roll

variable {ι : Type} [DecidableEq ι] {roll : Roll ι} {event : Event ι} {place : ι} {time r : Nat}
  {batch : Batch}

/-- Who waits here after a step: those who waited unless the place was cleared, and the one that was
registered. -/
theorem mem_waiting_step : r ∈ (roll.step time event).2.waiting place ↔
    (r ∈ roll.waiting place ∧ ¬ event.Clears place) ∨ (r = time ∧ event.WaitsAt place) := by
  cases event with
  | pass => simp [step, Event.Clears, Event.Takes, Event.WaitsAt]
  | call => simp [step, Event.Clears, Event.Takes, Event.WaitsAt]
  | wait other =>
    by_cases h : place = other
    · subst h; simp [step, Event.Clears, Event.Takes, Event.WaitsAt]
    · simp [step, Event.Clears, Event.Takes, Event.WaitsAt, Function.update_of_ne h, Ne.symm h]
  | supplant other =>
    by_cases h : place = other
    · subst h; simp [step, Event.Clears, Event.Takes, Event.WaitsAt]
    · simp [step, Event.Clears, Event.Takes, Event.WaitsAt, Function.update_of_ne h, Ne.symm h]
  | take places =>
    by_cases h : place ∈ places <;> simp [step, h, Event.Clears, Event.Takes, Event.WaitsAt]
  | resume => simp [step, Event.Clears, Event.Takes, Event.WaitsAt]

theorem batches_step (roll : Roll ι) (time : Nat) (event : Event ι) :
    (roll.step time event).2.batches = roll.opened time event ∨
      (roll.step time event).2.batches = (Batch.goOn (roll.opened time event)).2 := by
  cases event with
  | pass | call | wait _ | supplant _ => exact .inl rfl
  | take _ | resume => exact .inr rfl

/-- The one that is called was registered just now, or was the next one of the latest batch. -/
theorem called_step (h : (roll.step time event).1 = some r) : (event = .call ∧ r = time) ∨
    ∃ since due rest, roll.opened time event = ⟨since, r :: due⟩ :: rest ∧
      (roll.step time event).2.batches = ⟨since, due⟩ :: rest ∧
      (since = time ∨ event = .resume ∧ roll.batches = ⟨since, r :: due⟩ :: rest) := by
  cases event with
  | pass | wait _ | supplant _ => cases h
  | call => exact .inl ⟨rfl, (Option.some.inj h).symm⟩
  | take _ =>
    obtain ⟨since, due, rest, hopened, hlater⟩ := Batch.goOn_eq_some h
    exact .inr ⟨since, due, rest, hopened, hlater,
      .inl (Batch.mk.inj (List.cons.inj hopened).1).1.symm⟩
  | resume =>
    obtain ⟨since, due, rest, hopened, hlater⟩ := Batch.goOn_eq_some h
    exact .inr ⟨since, due, rest, hopened, hlater, .inr ⟨rfl, hopened⟩⟩

/-! ### Who waits, and who is taken off -/

variable {events : Nat → Event ι} {t m k : Nat}

omit [DecidableEq ι] in
theorem Event.WaitsAt.unique {other : ι} (h : event.WaitsAt place) (h' : event.WaitsAt other) :
    place = other := by
  obtain rfl | rfl := h <;> obtain heq | heq := h' <;> cases heq <;> rfl

theorem mem_waiting_after : r ∈ (after events t).waiting place ↔
    r < t ∧ (events r).WaitsAt place ∧ ∀ j, r < j → j < t → ¬ (events j).Clears place := by
  induction t with
  | zero => simp [after]
  | succ t ih =>
    rw [after, mem_waiting_step, ih]
    constructor
    · rintro (⟨⟨hlt, hwaits, hkept⟩, hnow⟩ | ⟨rfl, hwaits⟩)
      · refine ⟨Nat.lt_succ_of_lt hlt, hwaits, fun j hr hj => ?_⟩
        obtain hj | rfl := Nat.lt_succ_iff_lt_or_eq.mp hj
        · exact hkept j hr hj
        · exact hnow
      · exact ⟨Nat.lt_succ_self _, hwaits, fun j hr hj => by omega⟩
    · rintro ⟨hlt, hwaits, hkept⟩
      obtain hlt | rfl := Nat.lt_succ_iff_lt_or_eq.mp hlt
      · exact .inl ⟨⟨hlt, hwaits, fun j hr hj => hkept j hr (Nat.lt_succ_of_lt hj)⟩,
          hkept t hlt (Nat.lt_succ_self t)⟩
      · exact .inr ⟨rfl, hwaits⟩

/-- Those that wait at a place wait in the order they were registered in. -/
theorem sorted_waiting (events : Nat → Event ι) (t : Nat) (place : ι) :
    ((after events t).waiting place).Pairwise (· < ·) := by
  induction t with
  | zero => exact .nil
  | succ t ih =>
    rw [after]
    cases hevent : events t with
    | pass | call | resume => exact ih
    | wait other =>
      by_cases h : place = other
      · subst h
        simp only [step, Function.update_self]
        refine List.pairwise_append.mpr ⟨ih, List.pairwise_singleton _ _, fun r hr t' ht => ?_⟩
        rw [List.mem_singleton.mp ht]
        exact (mem_waiting_after.mp hr).1
      · simp only [step, Function.update_of_ne h]
        exact ih
    | supplant other =>
      by_cases h : place = other
      · subst h
        simp only [step, Function.update_self]
        exact List.pairwise_singleton _ _
      · simp only [step, Function.update_of_ne h]
        exact ih
    | take places =>
      show List.Pairwise _ (if place ∈ places then [] else (after events t).waiting place)
      split
      · exact .nil
      · exact ih

theorem taken_of_take {places : List ι} (h : events m = .take places) :
    taken events m = places.flatMap (after events m).waiting := by
  rw [taken, h]

theorem mem_taken :
    r ∈ taken events m ↔ ∃ place, (events m).Takes place ∧ r ∈ (after events m).waiting place := by
  unfold taken Event.Takes
  cases events m <;> simp

/-- One that is taken off had waited since it was registered. -/
theorem waits_of_taken (h : r ∈ taken events m) : r < m ∧ ∃ place,
    (events r).WaitsAt place ∧ (events m).Takes place ∧
      ∀ j, r < j → j < m → ¬ (events j).Clears place := by
  obtain ⟨place, htakes, hmem⟩ := mem_taken.mp h
  obtain ⟨hlt, hwaits, hkept⟩ := mem_waiting_after.mp hmem
  exact ⟨hlt, place, hwaits, htakes, hkept⟩

theorem taken_inj (h : r ∈ taken events m) (h' : r ∈ taken events k) : m = k := by
  obtain ⟨hm, place, hwaits, htakes, hkept⟩ := waits_of_taken h
  obtain ⟨hk, other, hwaits', htakes', hkept'⟩ := waits_of_taken h'
  obtain rfl := hwaits.unique hwaits'
  obtain hlt | heq | hlt := Nat.lt_trichotomy m k
  · exact absurd (.inl htakes) (hkept' m hm hlt)
  · exact heq
  · exact absurd (.inl htakes') (hkept k hk hlt)

/-- No place is named twice when those that wait are taken off. -/
def Distinct (events : Nat → Event ι) : Prop :=
  ∀ time places, events time = .take places → places.Nodup

theorem nodup_taken (distinct : Distinct events) (m : Nat) : (taken events m).Nodup := by
  unfold taken
  cases hevent : events m with
  | pass | call | wait _ | supplant _ | resume => exact List.nodup_nil
  | take places =>
    refine List.nodup_flatMap.mpr ⟨fun place _ => ?_, (distinct m places hevent).imp ?_⟩
    · exact (sorted_waiting events m place).imp Nat.ne_of_lt
    · intro place other hne r hr hr'
      exact hne ((mem_waiting_after.mp hr).2.1.unique (mem_waiting_after.mp hr').2.1)

/-! ### The batches -/

def current (events : Nat → Event ι) (time : Nat) : List Batch :=
  (after events time).opened time (events time)

theorem of_mem_current (h : batch ∈ current events t) :
    batch = ⟨t, taken events t⟩ ∨ batch ∈ (after events t).batches := by
  unfold current at h
  unfold taken
  cases hevent : events t with
  | pass | call | wait _ | supplant _ | resume => rw [hevent] at h; exact .inr h
  | take places => rw [hevent] at h; exact List.mem_cons.mp h

/-- Every batch holds the last of those that were taken off at its time. -/
theorem kept (events : Nat → Event ι) (t : Nat) : Batch.Latest (after events t).batches ∧
    ∀ batch ∈ (after events t).batches, batch.since < t ∧ batch.due <:+ taken events batch.since := by
  induction t with
  | zero => exact ⟨.nil, fun batch h => nomatch h⟩
  | succ t ih =>
    obtain ⟨hlatest, hkept⟩ := ih
    have hcurrent : Batch.Latest (current events t) := by
      unfold current
      cases events t with
      | pass | call | wait _ | supplant _ | resume => exact hlatest
      | take places => exact List.pairwise_cons.mpr ⟨fun batch h => (hkept batch h).1, hlatest⟩
    have hall : ∀ batch ∈ current events t,
        batch.since < t + 1 ∧ batch.due <:+ taken events batch.since := fun batch h => by
      obtain rfl | hmem := of_mem_current h
      · exact ⟨Nat.lt_succ_self t, List.suffix_refl _⟩
      · exact ⟨Nat.lt_succ_of_lt (hkept batch hmem).1, (hkept batch hmem).2⟩
    obtain hsame | hgone := batches_step (after events t) t (events t)
    · rw [after, hsame]
      exact ⟨hcurrent, hall⟩
    · rw [after, hgone]
      refine ⟨hcurrent.goOn, fun batch h => ?_⟩
      obtain ⟨before, hmem, hsince, hdue⟩ := Batch.of_mem_goOn h
      rw [← hsince]
      exact ⟨(hall before hmem).1, hdue.trans (hall before hmem).2⟩

/-- A batch that is not new was there before, with more who were due. -/
theorem batch_before (h : batch ∈ (after events (t + 1)).batches) (hlt : batch.since < t) :
    ∃ before ∈ (after events t).batches, before.since = batch.since ∧ batch.due <:+ before.due := by
  have hcurrent : ∃ before ∈ current events t,
      before.since = batch.since ∧ batch.due <:+ before.due := by
    obtain hsame | hgone := batches_step (after events t) t (events t)
    · rw [after, hsame] at h
      exact ⟨batch, h, rfl, List.suffix_refl _⟩
    · rw [after, hgone] at h
      exact Batch.of_mem_goOn h
  obtain ⟨before, hmem, hsince, hdue⟩ := hcurrent
  obtain rfl | hbefore := of_mem_current hmem
  · exact absurd hsince (Nat.ne_of_gt hlt)
  · exact ⟨before, hbefore, hsince, hdue⟩

theorem under_way (h : batch ∈ (after events t).batches) {j : Nat} (hlt : batch.since < j)
    (hle : j ≤ t) :
    ∃ before ∈ (after events j).batches, before.since = batch.since ∧ batch.due <:+ before.due := by
  induction t, hle using Nat.le_induction generalizing batch with
  | base => exact ⟨batch, h, rfl, List.suffix_refl _⟩
  | succ t hle ih =>
    obtain ⟨middle, hmem, hsince, hdue⟩ := batch_before h (Nat.lt_of_lt_of_le hlt hle)
    obtain ⟨before, hbefore, hsame, hsuffix⟩ := ih hmem (hsince ▸ hlt)
    exact ⟨before, hbefore, hsame.trans hsince, hdue.trans hsuffix⟩

/-! ### The calls -/

theorem called_cases (h : called events k = some r) : (events k = .call ∧ r = k) ∨
    ∃ m due, r :: due <:+ taken events m ∧ ⟨m, due⟩ ∈ (after events (k + 1)).batches ∧
      (m = k ∨ events k = .resume ∧ ∃ rest, (after events k).batches = ⟨m, r :: due⟩ :: rest) := by
  refine (called_step h).imp_right fun ⟨m, due, rest, hcurrent, hlater, hbefore⟩ => ?_
  have hmem : ⟨m, r :: due⟩ ∈ current events k := by
    rw [current, hcurrent]
    exact List.mem_cons_self
  refine ⟨m, due, ?_, hlater ▸ List.mem_cons_self,
    hbefore.imp_right fun ⟨hevent, hbatches⟩ => ⟨hevent, rest, hbatches⟩⟩
  obtain heq | hbefore := of_mem_current hmem
  · obtain ⟨rfl, hdue⟩ := Batch.mk.inj heq
    exact hdue ▸ List.suffix_refl _
  · exact ((kept events k).2 _ hbefore).2

theorem called_of_call (h : events k = .call) : called events k = some k := by
  rw [called, h]
  rfl

theorem called_of_take {places : List ι} (h : events m = .take places) :
    called events m = (taken events m).head? := by
  unfold called taken
  rw [h]
  cases hdue : places.flatMap (after events m).waiting with
  | nil => simp only [step, opened, hdue, Batch.goOn, List.head?_nil]
  | cons next due => simp only [step, opened, hdue, Batch.goOn, List.head?_cons]

/-- One that waited is called after it was taken off, while its batch is under way. -/
theorem taken_of_called (h : called events k = some r) (hwaits : (events r).WaitsAt place) :
    ∃ m ≤ k, r ∈ taken events m ∧ ∀ j, m < j → j ≤ k →
      ∃ batch ∈ (after events j).batches, batch.since = m := by
  obtain ⟨hcall, rfl⟩ | ⟨m, due, htaken, hlater, hbefore⟩ := called_cases h
  · obtain hwait | hwait := hwaits <;> rw [hwait] at hcall <;> cases hcall
  · have hle : m ≤ k := Nat.le_of_lt_succ ((kept events (k + 1)).2 _ hlater).1
    refine ⟨m, hle, htaken.mem List.mem_cons_self, fun j hlt hj => ?_⟩
    obtain rfl | ⟨-, rest, hbatches⟩ := hbefore
    · omega
    · obtain ⟨before, hmem, hsince, -⟩ := under_way (hbatches ▸ List.mem_cons_self) hlt hj
      exact ⟨before, hmem, hsince⟩

theorem le_of_called_taken (h : called events k = some r) (htaken : r ∈ taken events m) : m ≤ k := by
  obtain ⟨-, place, hwaits, -⟩ := waits_of_taken htaken
  obtain ⟨m', hle, htaken', -⟩ := taken_of_called h hwaits
  exact taken_inj htaken htaken' ▸ hle

/-- Nobody is called twice. -/
theorem called_inj (distinct : Distinct events) (h : called events k = some r)
    (h' : called events t = some r) : k = t := by
  by_contra hne
  wlog hlt : k < t generalizing k t
  · exact this h' h (Ne.symm hne) (by omega)
  obtain ⟨hcall, rfl⟩ | ⟨m, due, htaken, hlater, -⟩ := called_cases h
  · obtain ⟨-, rfl⟩ | ⟨m, due, htaken, -, -⟩ := called_cases h'
    · exact hne rfl
    · obtain ⟨-, place, hwait | hwait, -⟩ := waits_of_taken (htaken.mem List.mem_cons_self) <;>
        rw [hwait] at hcall <;> cases hcall
  · obtain ⟨-, rfl⟩ | ⟨m', due', htaken', -, hbefore⟩ := called_cases h'
    · have := (waits_of_taken (htaken.mem List.mem_cons_self)).1
      have := ((kept events (k + 1)).2 _ hlater).1
      simp only at this
      omega
    · obtain rfl : m = m' :=
        taken_inj (htaken.mem List.mem_cons_self) (htaken'.mem List.mem_cons_self)
      have hm : m < k + 1 := ((kept events (k + 1)).2 _ hlater).1
      -- its batch goes on without it after the first call
      obtain ⟨-, rest, hbatches⟩ := hbefore.resolve_left (by omega)
      obtain ⟨batch, hmem, hsince, hdue⟩ :=
        under_way (hbatches ▸ List.mem_cons_self) hm (Nat.succ_le_of_lt hlt)
      obtain rfl := (kept events (k + 1)).1.inj hmem hlater hsince
      have hnodup := (nodup_taken distinct m).sublist htaken.sublist
      exact (List.nodup_cons.mp hnodup).1 (hdue.mem List.mem_cons_self)

/-- One that is taken off is called soon, or still due. -/
theorem called_or_due (h : r ∈ taken events m) (hlt : m < t) :
    (∃ k, m ≤ k ∧ k < t ∧ called events k = some r) ∨
      ∃ batch ∈ (after events t).batches, batch.since = m ∧ r ∈ batch.due := by
  have hstep {t : Nat} {batch : Batch} (hmem : batch ∈ current events t) (hdue : r ∈ batch.due) :
      called events t = some r ∨
        ∃ later ∈ (after events (t + 1)).batches, later.since = batch.since ∧ r ∈ later.due := by
    unfold current at hmem
    rw [called, after]
    cases hevent : events t with
    | pass | call | wait _ | supplant _ => rw [hevent] at hmem; exact .inr ⟨batch, hmem, rfl, hdue⟩
    | take _ | resume => rw [hevent] at hmem; exact Batch.goOn_or_mem hmem hdue
  induction t, hlt using Nat.le_induction with
  | base =>
    have hmem : ⟨m, taken events m⟩ ∈ current events m := by
      unfold taken at h ⊢
      unfold current
      cases hevent : events m with
      | pass | call | wait _ | supplant _ | resume => rw [hevent] at h; cases h
      | take places => exact List.mem_cons_self
    exact (hstep hmem h).imp_left fun hcalled => ⟨m, Nat.le_refl m, Nat.lt_succ_self m, hcalled⟩
  | succ t hlt ih =>
    obtain ⟨k, hge, hk, hcalled⟩ | ⟨batch, hmem, rfl, hdue⟩ := ih
    · exact .inl ⟨k, hge, Nat.lt_succ_of_lt hk, hcalled⟩
    · have hcurrent : batch ∈ current events t := by
        unfold current
        cases events t with
        | pass | call | wait _ | supplant _ | resume => exact hmem
        | take places => exact List.mem_cons_of_mem _ hmem
      exact (hstep hcurrent hdue).imp_left fun hcalled =>
        ⟨t, Nat.le_of_succ_le hlt, Nat.lt_succ_self t, hcalled⟩

/-- Those that are taken off together are called in their order. -/
theorem called_in_order (distinct : Distinct events) (m : Nat) : (taken events m).Pairwise
    fun r r' => ∀ k k', called events k = some r → called events k' = some r' → k < k' := by
  refine List.pairwise_iff_forall_sublist.mpr fun {r r'} hsublist k k' h h' => ?_
  obtain ⟨before, behind, htaken, hr, hbehind⟩ := List.cons_sublist_iff.mp hsublist
  have hr' : r' ∈ behind := List.singleton_sublist.mp hbehind
  have hnodup := nodup_taken distinct m
  rw [htaken] at hnodup
  have hdisjoint := List.disjoint_of_nodup_append hnodup
  have hmem : r ∈ taken events m := htaken ▸ List.mem_append_left behind hr
  have hmem' : r' ∈ taken events m := htaken ▸ List.mem_append_right before hr'
  obtain ⟨hcall, rfl⟩ | ⟨m', due, hdue, hlater, -⟩ := called_cases h'
  · obtain ⟨-, place, hwait | hwait, -⟩ := waits_of_taken hmem' <;> rw [hwait] at hcall <;> cases hcall
  · obtain rfl : m = m' := taken_inj hmem' (hdue.mem List.mem_cons_self)
    obtain ⟨j, -, hj, hcalled⟩ | ⟨batch, hbatch, hsince, hstill⟩ :=
      called_or_due hmem ((kept events (k' + 1)).2 _ hlater).1
    · obtain rfl := called_inj distinct hcalled h
      refine Nat.lt_of_le_of_ne (Nat.le_of_lt_succ hj) fun heq => ?_
      rw [heq, h'] at h
      exact hdisjoint hr (Option.some.inj h ▸ hr')
    · -- the one before would still be due behind it
      obtain rfl := (kept events (k' + 1)).1.inj hbatch hlater hsince
      rw [htaken] at hdue
      obtain hsuffix | hsuffix := List.suffix_or_suffix_of_suffix hdue (List.suffix_append before behind)
      · exact absurd (hsuffix.mem (List.mem_cons_of_mem r' hstill)) (hdisjoint hr)
      · obtain rfl | hsuffix := List.suffix_cons_iff.mp hsuffix
        · exact absurd (List.mem_cons_of_mem r' hstill) (hdisjoint hr)
        · exact absurd (hsuffix.mem hr') (List.nodup_cons.mp (hnodup.sublist hdue.sublist)).1

/-- Those that are taken off in the order they were registered in are called in that order. -/
theorem called_lt_called (distinct : Distinct events) (hsorted : (taken events m).Pairwise (· < ·))
    {r' k' : Nat} (hr : r ∈ taken events m) (hr' : r' ∈ taken events m) (hlt : r < r')
    (h : called events k = some r) (h' : called events k' = some r') : k < k' := by
  have horder := called_in_order distinct m
  obtain ⟨before, behind, htaken⟩ := List.append_of_mem hr
  rw [htaken] at hsorted horder hr'
  obtain hbefore | hmem := List.mem_append.mp hr'
  · have := (List.pairwise_append.mp hsorted).2.2 r' hbefore r List.mem_cons_self
    omega
  · have hbehind : r' ∈ behind := (List.mem_cons.mp hmem).resolve_left (Nat.ne_of_gt hlt)
    have hrest := (List.pairwise_append.mp horder).2.1
    exact (List.pairwise_cons.mp hrest).1 r' hbehind k k' h h'

end Roll

/-! ### Batches on a stack -/

/-- A stack on which every batch has a frame, above all that was on the stack when it began. The other frames
are plain. -/
inductive Stands {φ : Type} (plain : φ → Prop) (shows : φ → Batch → Prop) (below : Nat → List φ) :
    List φ → List Batch → Prop
  | nil : Stands plain shows below [] []
  | skip {frame : φ} {stack : List φ} {batches : List Batch} (other : plain frame)
      (rest : Stands plain shows below stack batches) : Stands plain shows below (frame :: stack) batches
  | cons {frame : φ} {stack : List φ} {batch : Batch} {batches : List Batch}
      (shown : shows frame batch) (place : below batch.since = stack)
      (rest : Stands plain shows below stack batches) :
      Stands plain shows below (frame :: stack) (batch :: batches)

namespace Stands

variable {φ : Type} {plain : φ → Prop} {shows : φ → Batch → Prop} {below : Nat → List φ}
  {stack : List φ} {batches : List Batch} {batch : Batch}

theorem tail {frame : φ} (h : Stands plain shows below (frame :: stack) batches)
    (hplain : ∀ batch, ¬ shows frame batch) : Stands plain shows below stack batches := by
  cases h with
  | skip other rest => exact rest
  | cons shown place rest => exact absurd shown (hplain _)

theorem head {frame : φ} (h : Stands plain shows below (frame :: stack) batches)
    (hnot : ¬ plain frame) :
    ∃ batch rest, batches = batch :: rest ∧ shows frame batch ∧ below batch.since = stack ∧
      Stands plain shows below stack rest := by
  cases h with
  | skip other rest => exact absurd other hnot
  | cons shown place rest => exact ⟨_, _, rfl, shown, place, rest⟩

theorem exists_frame (h : Stands plain shows below stack batches) (hmem : batch ∈ batches) :
    ∃ frame, shows frame batch ∧ frame :: below batch.since <:+ stack := by
  induction h with
  | nil => cases hmem
  | skip other rest ih =>
    obtain ⟨frame, hshown, hsuffix⟩ := ih hmem
    exact ⟨frame, hshown, hsuffix.trans (List.suffix_cons _ _)⟩
  | cons shown place rest ih =>
    obtain rfl | hrest := List.mem_cons.mp hmem
    · exact ⟨_, shown, place ▸ List.suffix_refl _⟩
    · obtain ⟨frame, hshown, hsuffix⟩ := ih hrest
      exact ⟨frame, hshown, hsuffix.trans (List.suffix_cons _ _)⟩

end Stands

end Dispatch
