import Dispatch.Proofs.QueueOperations
import Dispatch.Proofs.ShardOperations

/-!
# Queues that cannot be told apart

Two queues are indistinguishable if no sequence of queries, be they questions or operations, is answered
differently by the two. What a queue answers, and what it holds afterwards, depends on its map only through
the level of an element, and in a queue whose books agree that level is the one in which the element stands;
so the same levels make two such queues indistinguishable, whatever the keys in their maps
(`indistinguishable_of_levels`). An element is moved in one go, which leaves the key of the first copy on the
map, or taken out and queued again, which does not: both leave the same levels (`moveTo_remove_enqueue`).
-/

namespace Dispatch

namespace PriorityQueue

variable {α : Type}

/-! ### Queries -/

/-- What is asked of a queue: an operation, or a question that leaves it as it is. -/
inductive Query (α : Type) where
  | act (operation : Operation α)
  | contains (x : α)
  | size
  | isEmpty
  | levels
  | levelSize (level : Nat)
  | describe

inductive Response (α : Type) where
  | act (answer : Answer α)
  | truth (holds : Bool)
  | count (number : Nat)
  | text (line : String)

section Queries

variable [BEq α] [Hashable α]

def ask (queue : PriorityQueue α) : Query α → Response α × PriorityQueue α
  | .act operation => (.act (queue.perform operation).1, (queue.perform operation).2)
  | .contains x => (.truth (queue.contains x), queue)
  | .size => (.count queue.size, queue)
  | .isEmpty => (.truth queue.isEmpty, queue)
  | .levels => (.count queue.levels.size, queue)
  | .levelSize level => (.count (queue.levelSize level), queue)
  | .describe => (.text queue.describe, queue)

/-- Whatever is asked of the two queues from now on, they give the same answers. -/
def Indistinguishable (queue other : PriorityQueue α) : Prop :=
  ∀ queries, (inTurn ask queue queries).1 = (inTurn ask other queries).1

end Queries

/-! ### Queues with the same levels -/

theorem elementsAt_congr {queue other : PriorityQueue α} (h : queue.levels = other.levels) :
    queue.elementsAt = other.elementsAt := by
  funext level
  rw [elementsAt, elementsAt, h]

theorem checkPriority_congr {queue other : PriorityQueue α} (h : queue.levels = other.levels)
    (priority : Nat) : queue.checkPriority priority = other.checkPriority priority := by
  rw [checkPriority, checkPriority, h]

theorem push_congr {queue other : PriorityQueue α} (h : queue.levels = other.levels) (level : Nat)
    (x : α) : (queue.push level x).levels = (other.push level x).levels := by
  rw [push, push, h]

variable [BEq α]

theorem removeFrom_congr {queue other : PriorityQueue α} (h : queue.levels = other.levels)
    (level : Nat) (x : α) :
    (queue.removeFrom level x).1 = (other.removeFrom level x).1 ∧
      (queue.removeFrom level x).2.levels = (other.removeFrom level x).2.levels := by
  rw [removeFrom, removeFrom, h]
  cases other.levels[level]? with
  | none => exact ⟨rfl, h⟩
  | some found => exact ⟨rfl, rfl⟩

variable [Hashable α]

theorem dequeueFrom_congr {queue other : PriorityQueue α} (h : queue.levels = other.levels)
    (levels : List Nat) :
    (queue.dequeueFrom levels).1 = (other.dequeueFrom levels).1 ∧
      (queue.dequeueFrom levels).2.levels = (other.dequeueFrom levels).2.levels := by
  induction levels generalizing queue other with
  | nil => exact ⟨rfl, h⟩
  | cons level rest ih =>
    rw [dequeueFrom, dequeueFrom, h]
    cases other.levels[level]? with
    | none => exact ih h
    | some found =>
      dsimp only
      by_cases hnil : found.occupancy = 0
      · rw [if_pos hnil, if_pos hnil]
        exact ih h
      · rw [if_neg hnil, if_neg hnil]
        cases found.pop.1 with
        | none => exact ih rfl
        | some element => exact ⟨rfl, rfl⟩

/-- Two queues have the same levels, and each is one whose map counts what it has. -/
structure Alike (queue other : PriorityQueue α) : Prop where
  left : queue.Tallied
  right : other.Tallied
  levels : queue.levels = other.levels

namespace Alike

variable {queue other : PriorityQueue α}

/-- The maps agree on the level of every element, since it is the one in which the element stands. -/
theorem get? (h : queue.Alike other) (x : α) : queue.levelOf.get? x = other.levelOf.get? x := by
  refine Option.ext fun level => ?_
  rw [h.left.sound.levelOf, h.right.sound.levelOf, elementsAt_congr h.levels]

theorem size (h : queue.Alike other) : queue.size = other.size := by
  rw [h.left.size, h.right.size, elementsAt_congr h.levels, h.levels]

theorem isEmpty (h : queue.Alike other) : queue.isEmpty = other.isEmpty := by
  have hsize : queue.levelOf.size = other.levelOf.size := h.size
  rw [Bool.eq_iff_iff, PriorityQueue.isEmpty, PriorityQueue.isEmpty, ShardMap.isEmpty_iff,
    ShardMap.isEmpty_iff, hsize]

theorem perform_congr (h : queue.Alike other) (operation : Operation α) :
    (queue.perform operation).1 = (other.perform operation).1 ∧
      (queue.perform operation).2.levels = (other.perform operation).2.levels := by
  cases operation with
  | enqueue x priority =>
    rw [perform, perform, enqueue, enqueue, checkPriority_congr h.levels,
      ShardMap.getThenInsertIfNew?, ShardMap.getThenInsertIfNew?, h.get?]
    cases other.checkPriority priority with
    | error fault => exact ⟨rfl, h.levels⟩
    | ok done =>
      cases other.levelOf.get? x with
      | some level => exact ⟨rfl, h.levels⟩
      | none => exact ⟨rfl, push_congr h.levels priority x⟩
  | dequeue =>
    obtain ⟨hserved, hlevels⟩ := dequeueFrom_congr h.levels (List.range queue.levels.size)
    rw [perform, perform, dequeue, dequeue, ← h.levels]
    exact ⟨congrArg Answer.served hserved, hlevels⟩
  | moveTo x priority =>
    rw [perform, perform, moveTo, moveTo, checkPriority_congr h.levels, h.get?]
    cases other.checkPriority priority with
    | error fault => exact ⟨rfl, h.levels⟩
    | ok done =>
      cases other.levelOf.get? x with
      | none => exact ⟨rfl, h.levels⟩
      | some current =>
        dsimp only [bind, Except.bind]
        by_cases hsame : current = priority
        · rw [if_pos hsame, if_pos hsame]
          exact ⟨rfl, h.levels⟩
        · rw [if_neg hsame, if_neg hsame]
          obtain ⟨hremoved, hlevels⟩ := removeFrom_congr h.levels current x
          generalize queue.removeFrom current x = out at hremoved hlevels ⊢
          generalize other.removeFrom current x = out' at hremoved hlevels ⊢
          obtain ⟨removed, rest⟩ := out
          obtain ⟨removed', rest'⟩ := out'
          subst hremoved
          cases removed with
          | false => exact ⟨rfl, hlevels⟩
          | true => exact ⟨rfl, push_congr hlevels priority x⟩
  | remove x =>
    have hlevel := ShardMap.remove_fst queue.levelOf x
    have hlevel' := ShardMap.remove_fst other.levelOf x
    rw [h.get?] at hlevel
    rw [perform, perform, remove, remove]
    generalize queue.levelOf.remove x = entry at hlevel ⊢
    generalize other.levelOf.remove x = entry' at hlevel' ⊢
    obtain ⟨found, levelOf⟩ := entry
    obtain ⟨found', levelOf'⟩ := entry'
    obtain rfl : found = found' := hlevel.trans hlevel'.symm
    cases found with
    | none => exact ⟨rfl, h.levels⟩
    | some level =>
      have hsame : ({ queue with levelOf } : PriorityQueue α).levels =
        ({ other with levelOf := levelOf' } : PriorityQueue α).levels := h.levels
      obtain ⟨hremoved, hlevels⟩ := removeFrom_congr hsame level x
      exact ⟨congrArg Answer.removed hremoved, hlevels⟩

variable [EquivBEq α] [LawfulHashable α]

theorem ask (h : queue.Alike other) (query : Query α) :
    (queue.ask query).1 = (other.ask query).1 ∧
      (queue.ask query).2.Alike (other.ask query).2 := by
  cases query with
  | act operation =>
    obtain ⟨hanswer, hlevels⟩ := h.perform_congr operation
    refine ⟨congrArg Response.act hanswer, ?_⟩
    exact ⟨(h.left.perform operation).1, (h.right.perform operation).1, hlevels⟩
  | contains x =>
    refine ⟨congrArg Response.truth ?_, h⟩
    rw [contains, contains, ShardMap.contains, ShardMap.contains, h.get?]
  | size => exact ⟨congrArg Response.count h.size, h⟩
  | isEmpty => exact ⟨congrArg Response.truth h.isEmpty, h⟩
  | levels => exact ⟨congrArg Response.count (congrArg Array.size h.levels), h⟩
  | levelSize level =>
    refine ⟨congrArg Response.count ?_, h⟩
    rw [levelSize, levelSize, h.levels]
  | describe =>
    refine ⟨congrArg Response.text ?_, h⟩
    rw [describe, describe, h.levels]

theorem indistinguishable (h : queue.Alike other) : queue.Indistinguishable other :=
  fun queries => (inTurn_related Alike (fun _ _ query h => h.ask query) h queries).1

end Alike

variable [EquivBEq α] [LawfulHashable α] {queue other : PriorityQueue α} {x : α}
  {current priority levels : Nat}

/-- Queues whose books agree and whose levels are the same are indistinguishable. -/
theorem indistinguishable_of_levels (left : queue.Tallied) (right : other.Tallied)
    (h : queue.levels = other.levels) : queue.Indistinguishable other :=
  Alike.indistinguishable ⟨left, right, h⟩

/-! ### Moving, and taking out and queueing again -/

omit [EquivBEq α] [LawfulHashable α] in
theorem Sound.remove_eq (sound : queue.Sound) (hx : queue.levelOf.get? x = some current) :
    queue.remove x =
      (true, ⟨queue.levels.setIfInBounds current (.ofList ((queue.elementsAt current).erase x)),
        (queue.levelOf.remove x).2⟩) := by
  have hmem := (sound.levelOf current x).mp hx
  have hfst := ShardMap.remove_fst queue.levelOf x
  rw [hx] at hfst
  rw [PriorityQueue.remove]
  generalize queue.levelOf.remove x = entry at hfst ⊢
  obtain ⟨found, levelOf⟩ := entry
  subst hfst
  have hsame : (({ queue with levelOf } : PriorityQueue α).elementsAt current).contains x := hmem
  exact removeFrom_of_contains hsame

omit [EquivBEq α] [LawfulHashable α] in
theorem Sound.moveTo_eq (sound : queue.Sound) (hlt : priority < queue.levels.size)
    (hx : queue.levelOf.get? x = some current) (hne : current ≠ priority) :
    queue.moveTo x priority = .ok (some current,
      (PriorityQueue.mk
        (queue.levels.setIfInBounds current (.ofList ((queue.elementsAt current).erase x)))
        (queue.levelOf.put x priority)).push priority x) := by
  have hmem := (sound.levelOf current x).mp hx
  rw [PriorityQueue.moveTo, checkPriority, if_neg (Nat.not_le.mpr hlt), hx]
  dsimp only [bind, Except.bind]
  rw [if_neg hne, removeFrom_of_contains hmem]

omit [Hashable α] [LawfulHashable α] in
theorem erase_append_singleton {elements : List α} (h : elements.contains x = false) :
    (elements ++ [x]).erase x = elements := by
  have hne : ∀ y ∈ elements, ¬ (y == x) = true := by
    intro y hy hyx
    have hmem : elements.contains x = true :=
      List.contains_iff_exists_mem_beq.mpr ⟨y, hy, BEq.symm hyx⟩
    rw [h] at hmem
    cases hmem
  rw [List.erase_eq_eraseP', List.eraseP_append_right _ hne, ← List.erase_eq_eraseP',
    List.erase_cons, if_pos (BEq.refl x), List.append_nil]

omit [BEq α] [Hashable α] [EquivBEq α] [LawfulHashable α] in
theorem setIfInBounds_push (hocc : ∀ level ∈ queue.levels, level.occupancy = level.elements.length)
    (priority : Nat) (x : α) :
    (queue.push priority x).levels.setIfInBounds priority (.ofList (queue.elementsAt priority)) =
      queue.levels := by
  refine Array.ext (by simp [push]) fun i hi hi' => ?_
  rw [Array.getElem_setIfInBounds]
  by_cases he : priority = i
  · subst he
    have hfound : queue.levels[priority]? = some queue.levels[priority] := by simp [hi']
    have hlevel := hocc _ (Array.getElem_mem hi')
    rw [if_pos rfl, elementsAt_of_getElem? hfound, Level.ofList, ← hlevel]
  · rw [if_neg he]
    exact (Array.getElem_modify (by simpa [push] using hi')).trans (if_neg he)

/-- An element that is queued and taken out again leaves the levels as they were. -/
theorem Sound.remove_of_enqueue (sound : queue.Sound) {queued : PriorityQueue α}
    (hqueued : queue.enqueue x priority = .ok queued) :
    ∃ removed, queued.remove x = (true, removed) ∧ removed.levels = queue.levels := by
  obtain ⟨hlt, hx, rfl⟩ := enqueue_eq_ok.mp hqueued
  have hlevel : (queue.levelOf.put x priority).get? x = some priority := by
    rw [ShardMap.get?_put, if_pos (BEq.refl x)]
  have helements := congrFun (elementsAt_pushed queue (queue.levelOf.put x priority) hlt x) priority
  rw [Function.update_self] at helements
  refine ⟨_, (sound.enqueue hqueued).remove_eq hlevel, ?_⟩
  rw [helements, erase_append_singleton (sound.absent hx priority)]
  exact @setIfInBounds_push _ { queue with levelOf := queue.levelOf.put x priority } sound.occupancy
    priority x

/-- The levels do not tell whether an element was moved, or taken out and queued again. -/
theorem Sound.moveTo_levels (sound : queue.Sound) (hlt : priority < queue.levels.size)
    (hx : queue.levelOf.get? x = some current) (hne : current ≠ priority) :
    ∃ moved removed requeued, queue.moveTo x priority = .ok (some current, moved) ∧
      queue.remove x = (true, removed) ∧ removed.enqueue x priority = .ok requeued ∧
      moved.levels = requeued.levels := by
  have hnone : (queue.levelOf.remove x).2.get? x = none := by
    rw [ShardMap.get?_remove, if_pos (BEq.refl x)]
  let removed : PriorityQueue α :=
    ⟨queue.levels.setIfInBounds current (.ofList ((queue.elementsAt current).erase x)),
      (queue.levelOf.remove x).2⟩
  have hsize : priority < removed.levels.size := by
    show priority < (queue.levels.setIfInBounds current _).size
    rw [Array.size_setIfInBounds]
    exact hlt
  have hrequeued := enqueue_eq_ok.mpr ⟨hsize, hnone, rfl⟩
  exact ⟨_, removed, _, sound.moveTo_eq hlt hx hne, sound.remove_eq hx, hrequeued, rfl⟩

/-- Moving an element of a queue that has come about by operations is taking it out and queueing it again:
what is left cannot be told apart, whatever is asked of it. Where there is nothing to move, the queue stays
as it is. And an element that is queued and taken out again leaves a queue that cannot be told apart from
the one before. -/
theorem moveTo_remove_enqueue {initial : PriorityQueue α} (ok : ofLevels levels = .ok initial)
    (operations : List (Operation α)) (x : α) (hlt : priority < levels) :
    let queue := ((Session.begin initial).run operations).queue
    (∀ current, (queue.elementsAt current).contains x → current ≠ priority →
      ∃ moved removed requeued, queue.moveTo x priority = .ok (some current, moved) ∧
        queue.remove x = (true, removed) ∧ removed.enqueue x priority = .ok requeued ∧
        moved.Indistinguishable requeued) ∧
      ((∀ current, (queue.elementsAt current).contains x → current = priority) →
        queue.moveTo x priority = .ok (none, queue)) ∧
      (queue.contains x = false → ∃ queued removed, queue.enqueue x priority = .ok queued ∧
        queued.remove x = (true, removed) ∧ removed.Indistinguishable queue) := by
  intro queue
  obtain ⟨htallied, hsize⟩ := Tallied.run ok operations
  have hpriority : priority < queue.levels.size := hsize ▸ hlt
  refine ⟨fun current hmem hne => ?_, fun hstay => ?_, fun habsent => ?_⟩
  · have hx := (htallied.sound.levelOf current x).mpr hmem
    obtain ⟨moved, removed, requeued, hmoved, hremoved, hrequeued, hlevels⟩ :=
      htallied.sound.moveTo_levels hpriority hx hne
    refine ⟨moved, removed, requeued, hmoved, hremoved, hrequeued, ?_⟩
    have hout := (htallied.perform (.remove x)).1
    rw [perform, hremoved] at hout
    exact indistinguishable_of_levels (htallied.moveTo hmoved).1 (hout.enqueue hrequeued) hlevels
  · rcases htallied.sound.moveTo_cases hpriority x with
      ⟨hmove, -⟩ | ⟨current, _, _, _, hx, hne, -⟩
    · exact hmove
    · exact absurd (hstay current ((htallied.sound.levelOf current x).mp hx)) hne
  · have hx : queue.levelOf.get? x = none := by
      rwa [contains, ShardMap.contains, Option.isSome_eq_false_iff, Option.isNone_iff_eq_none]
        at habsent
    have hqueued := enqueue_eq_ok.mpr ⟨hpriority, hx, rfl⟩
    obtain ⟨removed, hremoved, hlevels⟩ := htallied.sound.remove_of_enqueue hqueued
    refine ⟨_, removed, hqueued, hremoved, ?_⟩
    have hout := ((htallied.enqueue hqueued).perform (.remove x)).1
    rw [perform, hremoved] at hout
    exact indistinguishable_of_levels hout htallied hlevels

/-- The marks of the copies on the map that are in the shard of an element. -/
def Marked.marksBeside (queue : PriorityQueue Marked) (x : Marked) : List Nat :=
  (queue.levelOf.shard x).map (·.1.mark)

/-- The element of the first level is moved by another copy of it. -/
theorem moveTo_remove_enqueue_marked :
    let queue := ((Session.begin Marked.queue).run Marked.operations).queue
    ofLevels 2 = .ok Marked.queue ∧ 1 < 2 ∧
      ∃ moved removed requeued, queue.moveTo ⟨1, 5⟩ 1 = .ok (some 0, moved) ∧
        queue.remove ⟨1, 5⟩ = (true, removed) ∧ removed.enqueue ⟨1, 5⟩ 1 = .ok requeued ∧
        moved.Indistinguishable requeued ∧
        Marked.marksBeside moved ⟨1, 5⟩ ≠ Marked.marksBeside requeued ⟨1, 5⟩ := by
  intro queue
  obtain ⟨moved, removed, requeued, hmoved, hremoved, hrequeued, hsame⟩ :=
    (moveTo_remove_enqueue Marked.ofLevels_queue Marked.operations ⟨1, 5⟩ (by decide : 1 < 2)).1 0
      (by decide +kernel) (by decide)
  refine ⟨Marked.ofLevels_queue, by decide, moved, removed, requeued, hmoved, hremoved, hrequeued,
    hsame, ?_⟩
  -- the map keeps the copy that was queued first, and enters the one that is queued again
  have hkept : (queue.moveTo ⟨1, 5⟩ 1).toOption.map (Marked.marksBeside ·.2 ⟨1, 5⟩) = some [0] := by
    decide +kernel
  have hnew : ((queue.remove ⟨1, 5⟩).2.enqueue ⟨1, 5⟩ 1).toOption.map
      (Marked.marksBeside · ⟨1, 5⟩) = some [5] := by
    decide +kernel
  rw [hmoved] at hkept
  rw [hremoved, hrequeued] at hnew
  intro heq
  have hmarks : [0] = [5] := (Option.some.inj hkept).symm.trans (heq.trans (Option.some.inj hnew))
  exact absurd hmarks (by decide)

end PriorityQueue

end Dispatch
