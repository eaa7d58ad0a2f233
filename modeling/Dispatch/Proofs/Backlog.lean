import Dispatch.Proofs.Drain

/-!
# The backlog of an engine

The backlog is what is queued, every task with its level, in the order in which it is served (`places`).
Whatever is done in a run, tasks are taken from the front of the queue, put into it at their priority, and
moved to their priority, by the queue's own operations only. So what these three preserve is preserved by
every step (`Effect.queue_preserves`); in particular the map of the queue counts every queued task once
(`Reached.tallied`).
-/

namespace Dispatch

namespace PriorityQueue

variable {α : Type} [BEq α] [Hashable α] [EquivBEq α] [LawfulHashable α] {queue : PriorityQueue α}

theorem Tallied.dequeue (tallied : queue.Tallied) : queue.dequeue.2.Tallied :=
  (tallied.perform .dequeue).1

omit [EquivBEq α] [LawfulHashable α] in
theorem Tallied.size_eq_length (tallied : queue.Tallied) : queue.size = queue.inOrder.length := by
  rw [tallied.size, inOrder, List.length_flatMap]
  rfl

end PriorityQueue

/-! ### Runs -/

variable {σ : Type}

namespace Engine

variable {engine after : Engine}

theorem queue_of_attempt {task : TaskIndex} {tokens : List Token} {list : ListIndex}
    {admission : Admission} (h : engine.attempt task tokens list = admission) :
    admission.engine.queue = engine.queue :=
  h ▸ attempt_queue engine task tokens list

theorem queue_of_claim {task : TaskIndex} {admission : Admission}
    (h : engine.claimTokens task = admission) : admission.engine.queue = engine.queue :=
  h ▸ claimTokens_queue engine task

section Preserved

variable {Inv : PriorityQueue TaskIndex → Prop} (dequeue : ∀ {queue}, Inv queue → Inv queue.dequeue.2)
include dequeue

theorem dequeued_preserves {queue : PriorityQueue TaskIndex} {found : Option (Nat × TaskIndex)}
    (dequeued : engine.queue.dequeue = (found, queue)) (h : Inv engine.queue) : Inv queue := by
  have hinv := dequeue h
  rw [dequeued] at hinv
  exact hinv

theorem skips_preserves (skips : engine.Skips after) (h : Inv engine.queue) : Inv after.queue := by
  induction skips with
  | refl => exact h
  | tail _ dequeued waits ih =>
    have hqueue := queue_of_claim waits
    exact hqueue ▸ dequeued_preserves dequeue dequeued ih

/-- A search takes tasks from the queue and does nothing else to it. -/
theorem poll_preserves (h : Inv engine.queue) : Inv engine.poll.engine.queue := by
  have hsought := sought_poll engine
  generalize engine.poll = poll at hsought
  cases hsought with
  | found skips dequeued claims =>
    have hqueue := queue_of_claim claims
    exact hqueue ▸ dequeued_preserves dequeue dequeued (skips_preserves dequeue skips h)
  | exhausted skips dequeued =>
    exact dequeued_preserves dequeue dequeued (skips_preserves dequeue skips h)
  | abandoned skips => exact skips_preserves dequeue skips h
  | refused skips dequeued refuses =>
    have hqueue := queue_of_claim refuses
    exact hqueue ▸ dequeued_preserves dequeue dequeued (skips_preserves dequeue skips h)

end Preserved

end Engine

/-- What is preserved when tasks are taken from the queue, and when a task is queued or moved at the
priority that it has after the step, is preserved by the step. -/
theorem Effect.queue_preserves {tries : Prop} {reports : Failure → Prop} {before after : Ledger σ}
    (effect : Effect tries reports before after)
    (hproper : ∀ freeing ∈ before.releases, freeing.after.Proper)
    (Inv : PriorityQueue TaskIndex → Prop) (dequeue : ∀ {queue}, Inv queue → Inv queue.dequeue.2)
    (enqueue : ∀ {queue task later}, Inv queue →
      queue.enqueue task (after.engine.priority task) = .ok later → Inv later)
    (moveTo : ∀ {queue task source later}, Inv queue →
      queue.moveTo task (after.engine.priority task) = .ok (source, later) → Inv later)
    (h : Inv before.engine.queue) : Inv after.engine.queue := by
  cases effect with
  | quiet quiet | reported _ quiet => exact quiet.queue ▸ h
  | scheduled quiet ok =>
    obtain ⟨queue, hqueue, rfl⟩ := Engine.schedule_ok ok
    exact enqueue (quiet.queue ▸ h) hqueue
  | moved ok =>
    obtain ⟨source, queue, hmove, hafter⟩ := Engine.applyPriority_ok ok
    rcases hafter with rfl | ⟨level, rfl⟩ <;> exact moveTo h hmove
  | polled => exact Engine.poll_preserves dequeue h
  | tried asked =>
    dsimp only
    rw [Engine.claimTokens_queue]
    exact h
  | refused retry again =>
    have hqueue := Engine.queue_of_attempt again
    exact hqueue ▸ h
  | acquired retry again =>
    have hqueue := Engine.queue_of_attempt again
    dsimp only
    split <;> exact hqueue ▸ h
  | @waiting engine after releases retry again =>
    have hqueue : after.queue = engine.queue := Engine.queue_of_attempt again
    dsimp only
    split
    · exact Engine.poll_preserves dequeue (hqueue ▸ h)
    · exact hqueue ▸ h
  | begun | freed => exact h
  | requeued next ok =>
    obtain ⟨queue, hqueue, rfl⟩ := Engine.requeue_none ok
    exact enqueue h hqueue
  | rejected next refusal quiet =>
    obtain rfl := Engine.requeue_some refusal
    exact quiet.queue ▸ h
  | finished idle done quiet => exact (quiet (hproper _ List.mem_cons_self)).queue ▸ h

/-- At every moment the map of the queue counts every queued task once. -/
theorem Reached.tallied {allowed : Moment σ → Prop} {moment : Moment σ}
    (reached : Reached allowed moment) : moment.engine.queue.Tallied := by
  refine invariant (fun ledger => ledger.engine.queue.Tallied) (fun _ fresh => fresh.unused.tallied)
    (fun _ prior _ effect ih => ?_) reached
  exact effect.queue_preserves prior.proper PriorityQueue.Tallied (fun h => h.dequeue)
    (fun h ok => h.enqueue ok) (fun h ok => (h.moveTo ok).1) ih

end Dispatch
