import Dispatch.Proofs.Exclusion
import Dispatch.Proofs.Search

/-!
# Nothing goes wrong within the contract

In a run that keeps the contract the branches for errors are dead (`faultless_of_reached`). No release
fails, since the claim it closes is open, and so all its tokens are held with one list; it comes back to
its caller as soon as the handlers it has to call have ended. No claim meets a list that has been freed,
so none is tried twice. A search takes tasks from the front of the queue, each once, until one of them can
run or none is left.
-/

namespace Dispatch

variable {σ : Type}

/-! ### Releases come back -/

namespace Moment

variable {moment : Moment σ} {freeing : Freeing σ} {stack : List (Frame σ)}

/-- The call a thread is in comes to its end, with the frames below it as they are now. -/
def Returns (moment : Moment σ) : Prop :=
  ∃ later handle ending, moment.Leads later ∧
    later.Doing (.script handle (.stop ending)) moment.thread.stack

/-- From a moment on, every handler that a release calls comes to its end. The frames are those the
release will go on with. -/
def HandlersEnd (moment : Moment σ) (stack : List (Frame σ)) : Prop :=
  ∀ later task freeing, moment.Leads later →
    later.thread.stack = .rejecting task freeing :: stack → later.Returns

theorem HandlersEnd.of_leads {later : Moment σ} (handlers : moment.HandlersEnd stack)
    (leads : moment.Leads later) : later.HandlersEnd stack :=
  fun _ task freeing further hstack => handlers _ task freeing (leads.trans further) hstack

/-- A run in which no waiter is rejected has no handlers to wait for. -/
theorem HandlersEnd.of_below (h : ∀ later, moment.Leads later → later.thread.below = []) :
    moment.HandlersEnd stack := by
  intro later task freeing hleads hstack
  have hbelow := h later hleads
  rw [Thread.below, hstack] at hbelow
  cases hbelow

theorem Doing.next_freeing (doing : moment.Doing (.freeing freeing) stack) :
    moment.next = ⟨(Thread.stepFreeing moment.world moment.thread freeing).1,
      (Thread.stepFreeing moment.world moment.thread freeing).2⟩ := by
  unfold next Thread.step
  rw [doing.control]
  rfl

/-- A release is done with a waiter: it has been queued, or its handler has ended. -/
theorem Doing.waiter {task : TaskIndex} {waiters : List TaskIndex}
    (doing : moment.Doing (.freeing freeing) stack) (hwaiters : freeing.waiters = task :: waiters)
    (handlers : moment.HandlersEnd stack) :
    ∃ later, moment.Leads later ∧ later.Doing (.freeing { freeing with waiters }) stack := by
  have hnext := doing.next_freeing
  unfold Thread.stepFreeing at hnext
  simp only [hwaiters] at hnext
  split at hnext
  · refine ⟨_, .single moment, ?_⟩
    rw [hnext]
    exact ⟨rfl, doing.stack⟩
  · -- the waiter is rejected, and the release goes on after the handler, however that ends
    have hcalled : moment.next.thread.stack =
        .rejecting task { freeing with waiters } :: stack := by
      rw [hnext, ← doing.stack]
      rfl
    obtain ⟨later, handle, ending, hleads, hcontrol, hstack⟩ :=
      handlers moment.next task _ (.single moment) hcalled
    rw [hcalled] at hstack
    refine ⟨later.next, ((Leads.single moment).trans hleads).tail, ?_⟩
    unfold next Thread.step
    simp only [hcontrol, Thread.stepScript, hstack]
    cases ending <;> exact ⟨rfl, rfl⟩

theorem Doing.waiters (doing : moment.Doing (.freeing freeing) stack)
    (handlers : moment.HandlersEnd stack) :
    ∃ later, moment.Leads later ∧ later.Doing (.freeing { freeing with waiters := [] }) stack := by
  generalize hwaiters : freeing.waiters = waiters
  induction waiters generalizing moment freeing with
  | nil =>
    refine ⟨moment, .refl moment, ?_⟩
    rw [← hwaiters]
    exact doing
  | cons task waiters ih =>
    obtain ⟨middle, hmiddle, hdoing⟩ := doing.waiter hwaiters handlers
    obtain ⟨later, hlater, hdone⟩ := ih hdoing (handlers.of_leads hmiddle) rfl
    exact ⟨later, hmiddle.trans hlater, hdone⟩

theorem Doing.lists (doing : moment.Doing (.freeing freeing) stack)
    (handlers : moment.HandlersEnd stack) :
    ∃ later, moment.Leads later ∧
      later.Doing (.freeing { freeing with waiters := [], lists := [] }) stack := by
  generalize hlists : freeing.lists = lists
  induction lists generalizing moment freeing with
  | nil =>
    have hwaited := doing.waiters handlers
    rw [hlists] at hwaited
    exact hwaited
  | cons list lists ih =>
    obtain ⟨middle, hmiddle, hdoing⟩ := doing.waiters handlers
    have hnext := hdoing.next_freeing
    unfold Thread.stepFreeing at hnext
    simp only [hlists] at hnext
    have hfreed : middle.next.Doing (.freeing { freeing with
        waiters := (middle.world.engine.freeList list).1, lists }) stack := by
      rw [hnext]
      exact ⟨rfl, hdoing.stack⟩
    obtain ⟨later, hlater, hdone⟩ := ih hfreed (handlers.of_leads hmiddle.tail) rfl
    exact ⟨later, hmiddle.tail.trans hlater, hdone⟩

/-- A moment at which a release has come back to its caller, which is told the outcome. -/
def Answered (moment : Moment σ) (after : AfterRelease σ) (outcome : Except Fault Unit)
    (stack : List (Frame σ)) : Prop :=
  ∃ world thread, thread.stack = stack ∧
    Thread.finishRelease world thread after outcome = (moment.world, moment.thread)

/-- A release comes back with its outcome. -/
theorem Doing.answered (doing : moment.Doing (.freeing freeing) stack)
    (handlers : moment.HandlersEnd stack) :
    ∃ later, moment.Leads later ∧ later.Answered freeing.after freeing.outcome stack := by
  obtain ⟨last, hlast, hdoing⟩ := doing.lists handlers
  have hnext := hdoing.next_freeing
  unfold Thread.stepFreeing at hnext
  refine ⟨last.next, hlast.tail, ?_⟩
  rw [hnext]
  exact ⟨_, last.thread, hdoing.stack, rfl⟩

end Moment

/-! ### The invariant -/

structure Engine.Faultless (engine : Engine) : Prop where
  sound : engine.queue.Sound
  refusals : refusals engine.chronicle = []
  retries : retries engine.chronicle = []

namespace Engine.Faultless

variable {engine after : Engine}

theorem of_eq (h : engine.Faultless) (hsound : after.queue.Sound)
    (hrefusals : Dispatch.refusals after.chronicle = Dispatch.refusals engine.chronicle)
    (hretries : Dispatch.retries after.chronicle = Dispatch.retries engine.chronicle) :
    after.Faultless :=
  ⟨hsound, hrefusals.trans h.refusals, hretries.trans h.retries⟩

theorem of_quiet (h : engine.Faultless) (quiet : engine.Quiet after) : after.Faultless := by
  obtain ⟨news, hnews, hquiet⟩ := quiet.chronicle
  refine h.of_eq (quiet.queue ▸ h.sound) ?_ ?_
  · rw [hnews]
    exact filterMap_quiet _ Occurrence.refusal?_of_isQuiet hquiet
  · rw [hnews]
    exact filterMap_quiet _ Occurrence.retry?_of_isQuiet hquiet

theorem poll (h : engine.Faultless) (hretry : engine.poll.retry = none) :
    engine.poll.engine.Faultless := by
  obtain ⟨taken, htaken⟩ := took_poll h.sound hretry
  exact h.of_eq htaken.sound htaken.refusals htaken.retries

/-- A release that finds its tokens is no fault. -/
theorem takeTokens (h : engine.Faultless) {task : TaskIndex} {handle : Option HandleIndex}
    (ok : (engine.takeTokens task handle).2.1 = .ok ()) :
    (engine.takeTokens task handle).2.2.Faultless := by
  refine h.of_eq h.sound ?_ rfl
  show Dispatch.refusals (.released task handle (engine.takeTokens task handle).2.1 :: _) = _
  rw [ok]
  rfl

theorem of_blank (blank : engine.Blank) : engine.Faultless := by
  obtain ⟨workers, levels, hchronicle⟩ := blank.chronicle
  refine ⟨blank.sound, ?_, ?_⟩ <;> rw [hchronicle] <;> rfl

end Engine.Faultless

/-- Nothing has gone wrong, and no release that is under way is going to fail. -/
structure Ledger.Faultless (ledger : Ledger σ) : Prop where
  engine : ledger.engine.Faultless
  outcomes : ∀ freeing ∈ ledger.releases, freeing.outcome = .ok ()

theorem Ledger.Faultless.effect {tries : Prop} {reports : Failure → Prop} {before after : Ledger σ}
    (h : before.Faultless) (effect : Effect tries reports before after) (orderly : before.Orderly)
    (hsearches : ¬ tries) (hreleases : onlyClaimsReleased after.engine.chronicle = true)
    (hproper : ∀ freeing ∈ before.releases, freeing.after.Proper) : after.Faultless := by
  -- the outcome of a release stays what it was while the release goes on
  have houter {freeing own : Freeing σ} {releases : List (Freeing σ)}
      (houtcomes : ∀ other ∈ freeing :: releases, other.outcome = .ok ())
      (hown : own.outcome = freeing.outcome) :
      ∀ other ∈ own :: releases, other.outcome = .ok () := by
    intro other hmem
    rcases List.mem_cons.mp hmem with rfl | hmem
    · exact hown.trans (houtcomes freeing List.mem_cons_self)
    · exact houtcomes other (List.mem_cons_of_mem _ hmem)
  cases effect with
  | quiet quiet => exact ⟨h.engine.of_quiet quiet, h.outcomes⟩
  | @reported engine _ _ task failure _ quiet =>
    have hreported : (engine.record (.reported task failure)).Faultless :=
      h.engine.of_eq h.engine.sound rfl rfl
    exact ⟨hreported.of_quiet quiet, h.outcomes⟩
  | scheduled quiet ok =>
    obtain ⟨queue, hqueue, rfl⟩ := Engine.schedule_ok ok
    have hmiddle := h.engine.of_quiet quiet
    exact ⟨hmiddle.of_eq (hmiddle.sound.enqueue hqueue) rfl rfl, h.outcomes⟩
  | moved ok =>
    obtain ⟨source, queue, hqueue, hafter⟩ := Engine.applyPriority_ok ok
    have hsound := (PriorityQueue.contains_moveTo h.engine.sound hqueue).1
    rcases hafter with rfl | ⟨level, rfl⟩
    · exact ⟨h.engine.of_eq hsound rfl rfl, h.outcomes⟩
    · exact ⟨h.engine.of_eq hsound rfl rfl, h.outcomes⟩
  | polled => exact ⟨h.engine.poll orderly.engine.poll.2, h.outcomes⟩
  | tried asked => exact absurd asked hsearches
  | refused retry | acquired retry | waiting retry => cases orderly.retry
  | @begun engine releases task handle after proper =>
    -- the release closes an open claim, and so it finds its tokens
    have hopen := List.contains_iff_mem.mp (Bool.and_eq_true_iff.mp hreleases).1
    have hok := (orderly.engine.takeTokens handle hopen).1
    refine ⟨h.engine.takeTokens hok, fun freeing hmem => ?_⟩
    rcases List.mem_cons.mp hmem with rfl | hmem
    · exact hok
    · exact h.outcomes freeing hmem
  | freed idle next => exact ⟨h.engine.of_eq h.engine.sound rfl rfl, houter h.outcomes rfl⟩
  | requeued next ok =>
    obtain ⟨queue, hqueue, rfl⟩ := Engine.requeue_none ok
    exact ⟨h.engine.of_eq (h.engine.sound.enqueue hqueue) rfl rfl, houter h.outcomes rfl⟩
  | @rejected engine middle after releases freeing task waiters fault next refusal quiet =>
    obtain rfl := Engine.requeue_some refusal
    have hreported : ((engine.record (.requeueRefused task fault)).record
        (.reported task { cause := .rejected fault })).Faultless :=
      h.engine.of_eq h.engine.sound rfl rfl
    exact ⟨hreported.of_quiet quiet, houter h.outcomes rfl⟩
  | finished idle done quiet =>
    exact ⟨h.engine.of_quiet (quiet (hproper _ List.mem_cons_self)),
      fun freeing hmem => h.outcomes freeing (List.mem_cons_of_mem _ hmem)⟩

theorem Reached.ledger_faultless {moment : Moment σ} (reached : Reached Contract moment) :
    moment.ledger.Faultless :=
  invariant Ledger.Faultless
    (fun _ fresh => ⟨.of_blank fresh.blank, fun _ hmem => absurd hmem List.not_mem_nil⟩)
    (fun _ prior ok effect ih =>
      ih.effect effect prior.orderly ok.searches ok.releases prior.proper) reached

/-! ### What cannot happen -/

/-- A search ends by itself: it finds a task or leaves none, whatever its bound. The tasks it takes are the
first ones in the queue, each of them once. -/
structure Engine.Searches (engine : Engine) : Prop where
  ends : (∃ task after, engine.poll = .found task after) ∨
    ∃ after, engine.poll = .exhausted after ∧ ∀ task, after.queue.contains task = false
  unbounded : ∀ bound, engine.queue.queued < bound → pollWithin bound engine = engine.poll
  taken : ∃ taken : List TaskIndex,
    servings engine.poll.engine.chronicle = taken.reverse ++ servings engine.chronicle ∧
      engine.queue.inOrder = taken ++ engine.poll.engine.queue.inOrder ∧
      taken.Nodup ∧ ∀ task ∈ taken, engine.queue.contains task = true

theorem Engine.Faultless.searches {engine : Engine} (h : engine.Faultless)
    (hretry : engine.poll.retry = none) : engine.Searches := by
  obtain ⟨hnone, hmore⟩ := pollWithin_of_lt h.sound (Nat.lt_succ_self engine.queue.queued)
  obtain ⟨taken, htaken⟩ := took_poll h.sound hretry
  refine ⟨?_, fun bound hbound => ?_, taken, htaken.servings, htaken.inOrder, ?_, fun task hmem => ?_⟩
  · have hsound := htaken.sound
    change ∀ after, engine.poll = .exhausted after → _ at hnone
    generalize engine.poll = poll at hnone hretry hsound
    cases poll with
    | found task after => exact Or.inl ⟨task, after, rfl⟩
    | exhausted after =>
      refine Or.inr ⟨after, rfl, fun task => Bool.eq_false_iff.mpr fun hqueued => ?_⟩
      have hmem : task ∈ after.queue.inOrder :=
        (PriorityQueue.Sound.contains_iff_mem hsound).mp hqueued
      rw [hnone after rfl] at hmem
      cases hmem
    | refused => cases hretry
  · obtain ⟨more, rfl⟩ := Nat.exists_eq_add_of_le (Nat.succ_le_of_lt hbound)
    exact hmore more
  · have hdistinct := h.sound.distinct_inOrder
    rw [htaken.inOrder] at hdistinct
    exact (List.pairwise_append.mp hdistinct).1.imp fun hne => by simpa using hne
  · rw [h.sound.contains_iff_mem, htaken.inOrder]
    exact List.mem_append_left _ hmem

/-- Nothing has gone wrong up to a moment of a run, nothing that is under way is going wrong, and nothing
would if it were asked for next. -/
structure Moment.Faultless (moment : Moment σ) : Prop where
  released : refusals moment.engine.chronicle = []
  releasing : ∀ freeing ∈ moment.thread.releases, freeing.outcome = .ok ()
  /-- A release that was just asked for comes back without a fault. -/
  answered : ∀ world thread handle after,
    Thread.releaseThrough world thread handle after = (moment.world, moment.thread) →
      moment.HandlersEnd thread.stack →
        ∃ later, moment.Leads later ∧ later.Answered after (.ok ()) thread.stack
  claimed : retries moment.engine.chronicle = []
  claiming : moment.thread.control.retry = none
  claims : ∀ task after list, moment.engine.claimTokens task ≠ .refused after list
  searches : moment.engine.Searches

/-- A release that was just asked for has come back, or is to free the lists it has taken out. -/
theorem Thread.releaseThrough_cases (world : World σ) (thread : Thread σ) (handle : HandleIndex)
    (after : AfterRelease σ) :
    releaseThrough world thread handle after = finishRelease world thread after (.ok ()) ∨
      ∃ freeing : Freeing σ, freeing.after = after ∧
        (releaseThrough world thread handle after).2 = thread.doing (.freeing freeing) := by
  unfold releaseThrough
  split
  · exact Or.inl rfl
  · split
    · exact Or.inl rfl
    · exact Or.inr ⟨_, rfl, rfl⟩

/-- Within the contract nothing goes wrong. -/
theorem faultless_of_reached {moment : Moment σ} (reached : Reached Contract moment) :
    moment.Faultless := by
  obtain ⟨hengine, houtcomes⟩ := reached.ledger_faultless
  obtain ⟨horderly, hretry⟩ := reached.orderly
  refine ⟨hengine.refusals, houtcomes, fun world thread handle after hasked hends => ?_,
    hengine.retries, hretry, fun task after list => horderly.not_refused,
    hengine.searches horderly.poll.2⟩
  rcases Thread.releaseThrough_cases world thread handle after with hdone | ⟨freeing, rfl, hdoing⟩
  · exact ⟨moment, .refl moment, world, thread, rfl, hdone.symm.trans hasked⟩
  · rw [hasked] at hdoing
    have hfreeing : moment.Doing (.freeing freeing) thread.stack := by
      change moment.thread = _ at hdoing
      constructor <;> rw [hdoing] <;> rfl
    have hmem : freeing ∈ moment.ledger.releases := by
      show freeing ∈ moment.thread.control.releases ++ moment.thread.below
      rw [hfreeing.control]
      exact List.mem_cons_self
    rw [← houtcomes freeing hmem]
    exact hfreeing.answered hends

/-- The rivals are about to be scheduled and searched for, and the first to be run: it is found and the
second waits, until the release of the first queues it again. -/
def Moment.contested : Moment Unit :=
  ⟨.rivals, .ofScript none (.schedule 0 fun _ => .schedule 1 fun _ => .poll fun _ => .poll fun _ =>
    .execute 0 0 (.stop .normal))⟩

theorem Contract.contested : ∀ k < 6, Contract (Moment.contested.after k)
  | 0, _ => ⟨rfl, id, by decide +kernel⟩
  | 1, _ => ⟨rfl, id, by decide +kernel⟩
  | 2, _ => ⟨rfl, id, by decide +kernel⟩
  | 3, _ => ⟨Engine.tokens_congr (by decide +kernel), id, by decide +kernel⟩
  | 4, _ => ⟨Engine.tokens_congr (by decide +kernel), id, by decide +kernel⟩
  | 5, _ => ⟨Engine.tokens_congr (by decide +kernel), id, by decide +kernel⟩

theorem Moment.HandlersEnd.contested (stack : List (Frame Unit)) :
    (Moment.contested.after 6).HandlersEnd stack := by
  refine .of_below ?_
  rintro later ⟨n, rfl⟩
  refine List.isEmpty_iff.mp ?_
  -- four more steps and the run is over
  have hover : ((Moment.contested.after 6).after 4).Over := ⟨⟨none, .normal, rfl⟩, rfl⟩
  have hbefore : ∀ k < 4, ((Moment.contested.after 6).after k).thread.below.isEmpty = true := by
    decide +kernel
  rcases Nat.lt_or_ge n 4 with hlt | hge
  · exact hbefore n hlt
  · obtain ⟨more, rfl⟩ := Nat.exists_eq_add_of_le hge
    rw [Moment.after_add, hover.leads ⟨more, rfl⟩]
    rfl

theorem faultless_contested : (Moment.contested.after 6).thread.releases.length = 1 ∧
    (Moment.contested.after 6).engine.lists.waiting = [1] ∧ (Moment.contested.after 6).Faultless ∧
    ∃ later, (Moment.contested.after 6).Leads later ∧
      later.Answered (.execution 0 0 none) (.ok ()) [.resume none (.stop .normal)] := by
  have faultless := faultless_of_reached
    ((Reached.begin World.fresh_rivals _ _).steps Contract.contested)
  have hasked : Thread.releaseThrough (Moment.contested.after 5).world
      { (Moment.contested.after 5).thread with stack := [.resume none (.stop .normal)] } 0
      (.execution 0 0 none) =
        ((Moment.contested.after 6).world, (Moment.contested.after 6).thread) := rfl
  exact ⟨by decide +kernel, by decide +kernel, faultless,
    faultless.answered _ _ 0 _ hasked (.contested _)⟩

end Dispatch
