import Dispatch.Proofs.Effect

/-!
# What a search takes from the queue

A search takes the first tasks of the queue, in their order, each of them once (`Took`). Every turn makes
the queue shorter by one, so the bound of a search is never what ends it: a larger bound changes nothing,
and a search that finds no task leaves none behind (`pollWithin_of_lt`).
-/

namespace Dispatch

namespace Engine

variable {engine middle after : Engine} {task : TaskIndex} {level : Nat}
  {queue : PriorityQueue TaskIndex} {taken later : List TaskIndex}

/-! ### Claims leave the queue alone -/

theorem attempt_queue (engine : Engine) (task : TaskIndex) (tokens : List Token) (list : ListIndex) :
    (engine.attempt task tokens list).engine.queue = engine.queue := by
  unfold attempt
  split
  · rfl
  · dsimp only
    split <;> rfl

theorem claimTokens_queue (engine : Engine) (task : TaskIndex) :
    (engine.claimTokens task).engine.queue = engine.queue := by
  rcases claimTokens_cases engine task with ⟨_, hclaim⟩ | ⟨_, hclaim⟩
  · rw [hclaim]
    rfl
  · rw [hclaim, attempt_queue]

theorem claimTokens_chronicle (h : (engine.claimTokens task).retry task = none) :
    servings (engine.claimTokens task).engine.chronicle = servings engine.chronicle ∧
      refusals (engine.claimTokens task).engine.chronicle = refusals engine.chronicle ∧
      retries (engine.claimTokens task).engine.chronicle = retries engine.chronicle := by
  rcases claimTokens_cases engine task with ⟨_, hclaim⟩ | ⟨_, hclaim⟩
  · rw [hclaim]
    exact ⟨rfl, rfl, rfl⟩
  · rw [hclaim] at h ⊢
    generalize hadmission : Engine.attempt _ task _ _ = admission at h ⊢
    cases admission with
    | acquired claimed =>
      obtain ⟨table, _, rfl⟩ := attempt_acquired hadmission
      exact ⟨rfl, rfl, rfl⟩
    | waiting waited =>
      obtain ⟨holder, table, lists, _, _, rfl⟩ := attempt_waiting hadmission
      exact ⟨rfl, rfl, rfl⟩
    | refused refused list => cases h

/-! ### The tasks that are taken -/

theorem pollWithin_of_dequeue (dequeued : engine.queue.dequeue = (some (level, task), queue))
    (bound : Nat) : pollWithin (bound + 1) engine =
      match (engine.serve queue task level).claimTokens task with
      | .acquired engine => .found task (engine.record (.handedOut task))
      | .waiting engine => pollWithin bound engine
      | .refused engine list => .refused task engine list := by
  rw [pollWithin, dequeued]
  rfl

/-- The second engine is the first after these tasks have been taken from the front of its queue, and
nothing went wrong. -/
structure Took (engine after : Engine) (taken : List TaskIndex) : Prop where
  sound : after.queue.Sound
  inOrder : engine.queue.inOrder = taken ++ after.queue.inOrder
  servings : servings after.chronicle = taken.reverse ++ servings engine.chronicle
  refusals : refusals after.chronicle = refusals engine.chronicle
  retries : retries after.chronicle = retries engine.chronicle

theorem Took.refl (sound : engine.queue.Sound) : engine.Took engine [] :=
  ⟨sound, rfl, rfl, rfl, rfl⟩

theorem Took.trans (first : engine.Took middle taken) (second : middle.Took after later) :
    engine.Took after (taken ++ later) := by
  refine ⟨second.sound, ?_, ?_, second.refusals.trans first.refusals,
    second.retries.trans first.retries⟩
  · rw [first.inOrder, second.inOrder, List.append_assoc]
  · rw [second.servings, first.servings, List.reverse_append, List.append_assoc]

/-- One turn of a search takes the first task. -/
theorem took_claim (sound : engine.queue.Sound)
    (dequeued : engine.queue.dequeue = (some (level, task), queue))
    (h : ((engine.serve queue task level).claimTokens task).retry task = none) :
    engine.Took ((engine.serve queue task level).claimTokens task).engine [task] := by
  obtain ⟨hservings, hrefusals, hretries⟩ := claimTokens_chronicle h
  have hqueue := claimTokens_queue (engine.serve queue task level) task
  have hinOrder : queue.Sound ∧ engine.queue.inOrder = task :: queue.inOrder := by
    rcases sound.dequeue_inOrder with ⟨hnone, _⟩ | ⟨level', task', queue', hsome, hsound, hcons⟩
    · rw [hnone] at dequeued
      cases dequeued
    · rw [hsome] at dequeued
      cases dequeued
      exact ⟨hsound, hcons⟩
  refine ⟨?_, ?_, hservings, hrefusals, hretries⟩
  · rw [hqueue]
    exact hinOrder.1
  · rw [hqueue]
    exact hinOrder.2

theorem Skips.took (skips : engine.Skips after) (sound : engine.queue.Sound) :
    ∃ taken, engine.Took after taken := by
  induction skips with
  | refl => exact ⟨[], .refl sound⟩
  | tail _ dequeued waits ih =>
    obtain ⟨taken, htaken⟩ := ih
    have hturn := took_claim htaken.sound dequeued (by rw [waits]; rfl)
    rw [waits] at hturn
    exact ⟨_, htaken.trans hturn⟩

/-- A search that is not held up takes tasks from the front of the queue. -/
theorem took_poll (sound : engine.queue.Sound) (h : engine.poll.retry = none) :
    ∃ taken, engine.Took engine.poll.engine taken := by
  generalize hpoll : engine.poll = poll at h ⊢
  have sought := hpoll ▸ sought_poll engine
  cases sought with
  | @found middle claimed queue task level skips dequeued claims =>
    obtain ⟨taken, htaken⟩ := skips.took sound
    have hturn := took_claim htaken.sound dequeued (by rw [claims]; rfl)
    rw [claims] at hturn
    obtain ⟨hsound, hinOrder, hservings, hrefusals, hretries⟩ := htaken.trans hturn
    exact ⟨taken ++ [task], hsound, hinOrder, hservings, hrefusals, hretries⟩
  | @exhausted middle queue skips dequeued =>
    obtain ⟨taken, htaken⟩ := skips.took sound
    have hqueue := PriorityQueue.dequeue_none htaken.sound dequeued
    subst hqueue
    exact ⟨taken, htaken⟩
  | abandoned skips => exact skips.took sound
  | refused => cases h

/-- A search that may take more tasks than there are finds one or leaves none, and would not go further
with a larger bound. -/
theorem pollWithin_of_lt (sound : engine.queue.Sound) {bound : Nat}
    (h : engine.queue.queued < bound) :
    (∀ after, pollWithin bound engine = .exhausted after → after.queue.inOrder = []) ∧
      ∀ more, pollWithin (bound + more) engine = pollWithin bound engine := by
  induction bound generalizing engine with
  | zero => exact absurd h (Nat.not_lt_zero _)
  | succ bound ih =>
    rcases sound.dequeue_inOrder with ⟨hnone, hnil⟩ | ⟨level, task, queue, hsome, hsound, hcons⟩
    · simp only [Nat.succ_add, pollWithin, hnone, Poll.exhausted.injEq, implies_true, and_true]
      rintro after rfl
      exact hnil
    · have hqueue := claimTokens_queue (engine.serve queue task level) task
      simp only [Nat.succ_add, pollWithin_of_dequeue hsome]
      generalize (engine.serve queue task level).claimTokens task = admission at hqueue ⊢
      cases admission with
      | acquired claimed => simp
      | refused refused list => simp
      | waiting middle =>
        change middle.queue = queue at hqueue
        refine ih (hqueue ▸ hsound) ?_
        rw [PriorityQueue.queued_eq, hcons, List.length_cons] at h
        rw [PriorityQueue.queued_eq, hqueue]
        omega

end Engine

end Dispatch
