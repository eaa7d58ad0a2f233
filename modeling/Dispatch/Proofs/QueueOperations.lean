import Dispatch.Proofs.PriorityQueue
import Mathlib.Algebra.BigOperators.Group.Finset.Basic

/-!
# Queues under any sequence of operations

A session is a queue together with what has been asked of it and what it answered. An operation that
changes a queue lets a copy leave a level, or lets one arrive at the end of a level, or both when it moves
an element (`Shift`); that every operation of a sound queue does one of these things, or nothing, is said
once in `perform_cases`. The books of a queue that a session has come to agree with each other to the last
count (`coherent_of_run`).
-/

namespace Dispatch

namespace PriorityQueue

variable {α : Type}

inductive Operation (α : Type) where
  | enqueue (x : α) (priority : Nat)
  | dequeue
  | moveTo (x : α) (priority : Nat)
  | remove (x : α)

inductive Answer (α : Type) where
  | refused (fault : QueueFault)
  /-- The element has been queued. -/
  | queued
  /-- The first element and its level, if there was one. -/
  | served (found : Option (Nat × α))
  /-- The level the element was moved from, if it was moved. -/
  | moved (source : Option Nat)
  /-- Whether the element was there to be removed. -/
  | removed (present : Bool)

section Sessions

variable [BEq α] [Hashable α]

/-- Performs an operation. One that is refused leaves the queue as it is. -/
def perform (queue : PriorityQueue α) : Operation α → Answer α × PriorityQueue α
  | .enqueue x priority =>
    match queue.enqueue x priority with
    | .error fault => (.refused fault, queue)
    | .ok after => (.queued, after)
  | .dequeue => (.served queue.dequeue.1, queue.dequeue.2)
  | .moveTo x priority =>
    match queue.moveTo x priority with
    | .error fault => (.refused fault, queue)
    | .ok (source, after) => (.moved source, after)
  | .remove x => (.removed (queue.remove x).1, (queue.remove x).2)

/-- A queue, and what was asked of it and answered before, the latest first. -/
structure Session (α : Type) where
  history : List (Operation α × Answer α)
  queue : PriorityQueue α

namespace Session

omit [BEq α] [Hashable α] in
def begin (queue : PriorityQueue α) : Session α :=
  ⟨[], queue⟩

def perform (session : Session α) (operation : Operation α) : Session α :=
  ⟨(operation, (session.queue.perform operation).1) :: session.history,
    (session.queue.perform operation).2⟩

def run (session : Session α) (operations : List (Operation α)) : Session α :=
  operations.foldl perform session

/-- What one operation preserves, a whole session preserves. -/
theorem run_preserves (Inv : Session α → Prop)
    (step : ∀ session operation, Inv session → Inv (session.perform operation))
    {session : Session α} (h : Inv session) (operations : List (Operation α)) :
    Inv (session.run operations) := by
  induction operations generalizing session with
  | nil => exact h
  | cons operation rest ih => exact ih (step session operation h)

end Session

end Sessions

/-! ### What an operation does to the levels -/

inductive Shift [BEq α] (contents : Nat → List α) : Option (α × Option Nat) → (Nat → List α) → Prop
  | none : Shift contents none contents
  /-- A copy of the element leaves its level. -/
  | out {x copy : α} {level : Nat} {ahead behind : List α} (same : (copy == x) = true)
      (split : contents level = ahead ++ copy :: behind) :
      Shift contents (some (x, .none)) (Function.update contents level (ahead ++ behind))
  /-- An element that stands nowhere arrives at the end of a level. -/
  | into {x : α} {level : Nat} (absent : ∀ other, (contents other).contains x = false) :
      Shift contents (some (x, some level))
        (Function.update contents level (contents level ++ [x]))
  /-- A copy of the element leaves its level, and the element arrives at the end of another. -/
  | across {x copy : α} {source level : Nat} {ahead behind : List α} (same : (copy == x) = true)
      (split : contents source = ahead ++ copy :: behind) (ne : source ≠ level) :
      Shift contents (some (x, some level))
        (Function.update (Function.update contents source (ahead ++ behind)) level
          (contents level ++ [x]))

/-- The element that an operation has put somewhere or taken out, as its answer tells. -/
def shifted : Operation α → Answer α → Option (α × Option Nat)
  | .enqueue x priority, .queued => some (x, some priority)
  | .dequeue, .served (some (_, x)) => some (x, none)
  | .moveTo x priority, .moved (some _) => some (x, some priority)
  | .remove x, .removed true => some (x, none)
  | _, _ => none

theorem elementsAt_set (queue : PriorityQueue α) (levelOf : ShardMap α Nat) {level : Nat}
    (h : level < queue.levels.size) (elements : List α) :
    (PriorityQueue.mk (queue.levels.setIfInBounds level (.ofList elements)) levelOf).elementsAt =
      Function.update queue.elementsAt level elements := by
  funext other
  rw [Function.update_apply]
  exact elementsAt_setIfInBounds queue.levels levelOf h elements other

theorem elementsAt_pushed (queue : PriorityQueue α) (levelOf : ShardMap α Nat) {level : Nat}
    (h : level < queue.levels.size) (x : α) :
    ({ queue with levelOf }.push level x).elementsAt =
      Function.update queue.elementsAt level (queue.elementsAt level ++ [x]) := by
  funext other
  rw [Function.update_apply]
  exact elementsAt_push { queue with levelOf } h x other

theorem elementsAt_moved {queue : PriorityQueue α} (levelOf : ShardMap α Nat) {source level : Nat}
    {x copy : α} {ahead behind : List α} (hsplit : queue.elementsAt source = ahead ++ copy :: behind)
    (hlt : level < queue.levels.size) (hne : source ≠ level) :
    ((PriorityQueue.mk (queue.levels.setIfInBounds source (.ofList (ahead ++ behind)))
      levelOf).push level x).elementsAt =
        Function.update (Function.update queue.elementsAt source (ahead ++ behind)) level
          (queue.elementsAt level ++ [x]) := by
  have hsource : source < queue.levels.size := lt_of_elementsAt_ne_nil (by simp [hsplit])
  have hout := elementsAt_set queue levelOf hsource (ahead ++ behind)
  have hkept := congrFun hout level
  rw [Function.update_of_ne (Ne.symm hne)] at hkept
  rw [← hkept, ← hout]
  exact elementsAt_pushed (PriorityQueue.mk (queue.levels.setIfInBounds source
    (.ofList (ahead ++ behind))) levelOf) levelOf (by simpa using hlt) x

section Lawful

variable [BEq α] [Hashable α] [EquivBEq α] {queue after : PriorityQueue α} {x : α}
  {level priority levels : Nat}

omit [EquivBEq α] in
theorem Sound.absent (sound : queue.Sound) (h : queue.levelOf.get? x = none) (level : Nat) :
    (queue.elementsAt level).contains x = false := by
  rw [← Bool.not_eq_true, ← sound.levelOf, h]
  simp

/-- What an operation on a sound queue does to the levels is what its answer tells. -/
theorem Sound.perform_cases (sound : queue.Sound) (operation : Operation α) :
    Shift queue.elementsAt (shifted operation (queue.perform operation).1)
      (queue.perform operation).2.elementsAt := by
  cases operation with
  | enqueue x priority =>
    rw [perform]
    cases hqueue : queue.enqueue x priority with
    | error fault => exact .none
    | ok after =>
      obtain ⟨hlt, hx, rfl⟩ := enqueue_eq_ok.mp hqueue
      dsimp only [shifted]
      rw [elementsAt_pushed queue _ hlt]
      exact .into (sound.absent hx)
  | dequeue =>
    rw [perform]
    rcases sound.dequeue_cases with ⟨hnone, -⟩ | ⟨level, x, rest, hlt, -, hx, hsome⟩
    · rw [hnone]
      exact .none
    · have hsplit : queue.elementsAt level = [] ++ x :: rest := hx
      rw [hsome, elementsAt_set queue _ hlt]
      exact .out (BEq.refl x) hsplit
  | moveTo x priority =>
    rw [perform]
    by_cases hlt : priority < queue.levels.size
    · rcases sound.moveTo_cases hlt x with
        ⟨hstay, -⟩ | ⟨current, ahead, copy, behind, hx, hne, hcopy, hsplit, hmove⟩
      · rw [hstay]
        exact .none
      · rw [hmove]
        dsimp only [shifted]
        rw [elementsAt_moved _ hsplit hlt hne]
        exact .across hcopy hsplit hne
    · have hcheck : queue.checkPriority priority =
          .error (.outOfRange priority queue.levels.size) := by
        rw [checkPriority, if_pos (Nat.le_of_not_lt hlt)]
      rw [PriorityQueue.moveTo, hcheck]
      exact .none
  | remove x =>
    rw [perform]
    rcases sound.remove_cases x with
      ⟨-, hremove⟩ | ⟨level, ahead, copy, behind, -, hcopy, hsplit, hremove⟩
    · rw [hremove]
      exact .none
    · have hlt : level < queue.levels.size := lt_of_elementsAt_ne_nil (by simp [hsplit])
      rw [hremove, elementsAt_set queue _ hlt]
      exact .out hcopy hsplit

/-! ### The number of elements -/

omit [BEq α] [Hashable α] [EquivBEq α] in
/-- Changing what stands at one level changes the number of all elements accordingly. -/
theorem sum_length_update {n : Nat} (h : level < n) (contents : Nat → List α) (elements : List α) :
    (∑ i ∈ Finset.range n, (Function.update contents level elements i).length) +
        (contents level).length =
      (∑ i ∈ Finset.range n, (contents i).length) + elements.length := by
  have hmem : level ∈ Finset.range n := Finset.mem_range.mpr h
  rw [← Finset.add_sum_erase _ _ hmem, ← Finset.add_sum_erase _ (fun i => (contents i).length) hmem,
    Function.update_self]
  have hrest : ∑ i ∈ (Finset.range n).erase level, (Function.update contents level elements i).length =
      ∑ i ∈ (Finset.range n).erase level, (contents i).length := by
    refine Finset.sum_congr rfl fun i hi => ?_
    rw [Function.update_of_ne (Finset.ne_of_mem_erase hi)]
  omega

/-- The map of a sound queue counts each queued element once. -/
structure Tallied (queue : PriorityQueue α) : Prop where
  sound : queue.Sound
  levelOf : queue.levelOf.Sound
  size : queue.size = ∑ level ∈ Finset.range queue.levels.size, (queue.elementsAt level).length

namespace Tallied

omit [EquivBEq α] in
theorem ofLevels (ok : PriorityQueue.ofLevels levels = .ok queue) :
    queue.Tallied ∧ queue.levels.size = levels := by
  have sound := Sound.ofLevels ok
  have hnil := elementsAt_ofLevels ok
  rw [PriorityQueue.ofLevels] at ok
  split at ok
  · cases ok
  · cases ok
    refine ⟨⟨sound, .empty, ?_⟩, Array.size_replicate⟩
    rw [Finset.sum_eq_zero fun level _ => List.length_eq_zero_iff.mpr (hnil level)]
    simp [PriorityQueue.size, ShardMap.size, ShardMap.empty, ShardMap.ofShards]

variable [LawfulHashable α]

theorem enqueue (h : queue.Tallied) (ok : queue.enqueue x priority = .ok after) :
    after.Tallied := by
  have sound := h.sound.enqueue ok
  obtain ⟨hlt, hx, rfl⟩ := enqueue_eq_ok.mp ok
  refine ⟨sound, h.levelOf.put x priority, ?_⟩
  have hqueue := h.size
  have hsize := queue.levelOf.size_put x priority
  have hsum := sum_length_update hlt queue.elementsAt (queue.elementsAt priority ++ [x])
  rw [ShardMap.contains, hx] at hsize
  rw [elementsAt_pushed queue _ hlt]
  simp only [List.length_append, List.length_singleton, Option.isSome_none, Bool.false_eq_true,
    if_false, push, PriorityQueue.size, Array.size_modify] at hsum hsize hqueue ⊢
  omega

/-- Taking a copy out of its level, and its element off the map, takes one away from both. -/
theorem takeOut (h : queue.Tallied) {copy : α} {ahead behind : List α}
    (hx : queue.levelOf.get? x = some level) (hcopy : (copy == x) = true)
    (hsplit : queue.elementsAt level = ahead ++ copy :: behind) :
    (PriorityQueue.mk (queue.levels.setIfInBounds level (.ofList (ahead ++ behind)))
      (queue.levelOf.remove x).2).Tallied := by
  have hlt : level < queue.levels.size := lt_of_elementsAt_ne_nil (by simp [hsplit])
  refine ⟨h.sound.takeOut hsplit fun y => ?_, h.levelOf.remove x, ?_⟩
  · rw [ShardMap.get?_remove, BEq.congr_left hcopy]
  · have hqueue := h.size
    have hsize := h.levelOf.size_remove x
    have hsum := sum_length_update hlt queue.elementsAt (ahead ++ behind)
    rw [ShardMap.contains, hx] at hsize
    rw [hsplit] at hsum
    rw [elementsAt_set queue _ hlt]
    simp only [List.length_append, List.length_cons, Option.isSome_some, if_true,
      PriorityQueue.size, Array.size_setIfInBounds] at hsum hsize hqueue ⊢
    omega

theorem moveTo (h : queue.Tallied) {source : Option Nat}
    (ok : queue.moveTo x priority = .ok (source, after)) :
    after.Tallied ∧ after.levels.size = queue.levels.size := by
  have sound := (contains_moveTo h.sound ok).1
  have hlt := lt_of_moveTo ok
  rcases h.sound.moveTo_cases hlt x with
    ⟨hstay, -⟩ | ⟨current, ahead, copy, behind, hx, hne, hcopy, hsplit, hmove⟩
  · rw [hstay] at ok
    cases ok
    exact ⟨h, rfl⟩
  · rw [hmove] at ok
    cases ok
    refine ⟨⟨sound, h.levelOf.put x priority, ?_⟩, by simp [push]⟩
    have hcurrent : current < queue.levels.size := lt_of_elementsAt_ne_nil (by simp [hsplit])
    have hqueue := h.size
    have hsize := queue.levelOf.size_put x priority
    have hout := sum_length_update hcurrent queue.elementsAt (ahead ++ behind)
    have hin := sum_length_update hlt
      (Function.update queue.elementsAt current (ahead ++ behind)) (queue.elementsAt priority ++ [x])
    rw [ShardMap.contains, hx] at hsize
    rw [hsplit] at hout
    rw [Function.update_of_ne (Ne.symm hne)] at hin
    rw [elementsAt_moved _ hsplit hlt hne]
    simp only [List.length_append, List.length_cons, List.length_nil, Option.isSome_some,
      if_true, push, PriorityQueue.size, Array.size_modify, Array.size_setIfInBounds]
      at hout hin hsize hqueue ⊢
    omega

/-- Every operation keeps the count. -/
theorem perform (h : queue.Tallied) (operation : Operation α) :
    (queue.perform operation).2.Tallied ∧
      (queue.perform operation).2.levels.size = queue.levels.size := by
  cases operation with
  | enqueue x priority =>
    rw [PriorityQueue.perform]
    split
    · exact ⟨h, rfl⟩
    · next after hqueue => exact ⟨h.enqueue hqueue, size_enqueue hqueue⟩
  | dequeue =>
    rw [PriorityQueue.perform]
    rcases h.sound.dequeue_cases with ⟨hnone, -⟩ | ⟨level, x, rest, -, -, hx, hsome⟩
    · rw [hnone]
      exact ⟨h, rfl⟩
    · rw [hsome]
      have hlevel : queue.levelOf.get? x = some level := h.sound.levelOf_of_mem (by simp [hx])
      have hsplit : queue.elementsAt level = [] ++ x :: rest := hx
      exact ⟨h.takeOut hlevel (BEq.refl x) hsplit, Array.size_setIfInBounds⟩
  | moveTo x priority =>
    rw [PriorityQueue.perform]
    split
    · exact ⟨h, rfl⟩
    · next source after hmove => exact h.moveTo hmove
  | remove x =>
    rw [PriorityQueue.perform]
    rcases h.sound.remove_cases x with
      ⟨-, hremove⟩ | ⟨level, ahead, copy, behind, hx, hcopy, hsplit, hremove⟩
    · rw [hremove]
      exact ⟨h, rfl⟩
    · rw [hremove]
      exact ⟨h.takeOut hx hcopy hsplit, Array.size_setIfInBounds⟩

end Tallied

/-! ### The books of a queue -/

/-- What holds of a queue with a number of levels, whatever has been done to it: an element stands in one
level at most, and there once; the map names this level, which is one of the queue; the occupancy of a
level and the size of the queue count what stands there; and what the queue answers of an element it does
accordingly. -/
structure Coherent (queue : PriorityQueue α) (levels : Nat) : Prop where
  fixed : queue.levels.size = levels
  once : ∀ level, (queue.elementsAt level).Pairwise fun x y => (x == y) = false
  oneLevel : ∀ x first second, (queue.elementsAt first).contains x →
    (queue.elementsAt second).contains x → first = second
  levelOf_iff : ∀ x level, queue.levelOf.get? x = some level ↔
    level < levels ∧ (queue.elementsAt level).contains x
  occupancy : ∀ level ∈ queue.levels, level.occupancy = level.elements.length
  size : queue.size = ∑ level ∈ Finset.range levels, queue.levelSize level
  isEmpty_iff : queue.isEmpty = true ↔ queue.dequeue.1 = none
  remove : ∀ x, (queue.remove x).1 = queue.contains x
  /-- An element on the map is always found in its level. -/
  moveTo : ∀ x priority current, priority < levels → queue.levelOf.get? x = some current →
    current ≠ priority → ∃ after, queue.moveTo x priority = .ok (some current, after)

omit [BEq α] [Hashable α] [EquivBEq α] in
theorem levelSize_eq (h : ∀ level ∈ queue.levels, level.occupancy = level.elements.length)
    (level : Nat) : queue.levelSize level = (queue.elementsAt level).length := by
  rw [levelSize, elementsAt]
  cases hfound : queue.levels[level]? with
  | none => rfl
  | some found => exact h found (Array.mem_of_getElem? hfound)

theorem Tallied.coherent (h : queue.Tallied) : queue.Coherent queue.levels.size where
  fixed := rfl
  once := h.sound.distinct
  oneLevel x first second hfirst hsecond := by
    have hlevel := (h.sound.levelOf first x).mpr hfirst
    rw [(h.sound.levelOf second x).mpr hsecond] at hlevel
    exact (Option.some.inj hlevel).symm
  levelOf_iff x level := by
    rw [h.sound.levelOf]
    refine ⟨fun hmem => ⟨lt_of_elementsAt_ne_nil fun hnil => ?_, hmem⟩, fun hmem => hmem.2⟩
    rw [hnil] at hmem
    cases hmem
  occupancy := h.sound.occupancy
  size := by
    rw [h.size]
    exact Finset.sum_congr rfl fun level _ => (levelSize_eq h.sound.occupancy level).symm
  isEmpty_iff := by
    have hempty : queue.isEmpty = true ↔ queue.size = 0 := ShardMap.isEmpty_iff
    rw [hempty, h.size, Finset.sum_eq_zero_iff]
    rcases h.sound.dequeue_cases with ⟨hnone, hall⟩ | ⟨level, x, rest, hlt, -, hx, hsome⟩
    · simp [hnone, hall]
    · rw [hsome]
      refine iff_of_false (fun hzero => ?_) (by simp)
      have := hzero level (Finset.mem_range.mpr hlt)
      rw [hx] at this
      cases this
  remove x := by
    rcases h.sound.remove_cases x with ⟨hx, hremove⟩ | ⟨level, _, _, _, hx, -, -, hremove⟩
    · rw [hremove, contains, ShardMap.contains, hx]
      rfl
    · rw [hremove, contains, ShardMap.contains, hx]
      rfl
  moveTo x priority current hlt hx hne := by
    rcases h.sound.moveTo_cases hlt x with ⟨-, hstay⟩ | ⟨other, _, _, _, hother, -, -, -, hmove⟩
    · exact absurd (hstay current hx) hne
    · rw [hx] at hother
      cases hother
      exact ⟨_, hmove⟩

/-- A session with a new queue keeps the count. -/
theorem Tallied.run [LawfulHashable α] (ok : PriorityQueue.ofLevels levels = .ok queue)
    (operations : List (Operation α)) :
    ((Session.begin queue).run operations).queue.Tallied ∧
      ((Session.begin queue).run operations).queue.levels.size = levels := by
  obtain ⟨htallied, hlevels⟩ := Tallied.ofLevels ok
  exact Session.run_preserves
    (fun session => session.queue.Tallied ∧ session.queue.levels.size = levels)
    (fun session operation h => ⟨(h.1.perform operation).1, (h.1.perform operation).2.trans h.2⟩)
    (⟨htallied, hlevels⟩ : (Session.begin queue).queue.Tallied ∧ _) operations

/-- At every point of every session with a new queue its books agree. -/
theorem coherent_of_run [LawfulHashable α] (ok : ofLevels levels = .ok queue)
    (operations : List (Operation α)) :
    ((Session.begin queue).run operations).queue.Coherent levels := by
  obtain ⟨hafter, hsize⟩ := Tallied.run ok operations
  rw [← hsize]
  exact hafter.coherent

end Lawful

/-! ### A session -/

/-- An element that is recognised by its key, and carries a mark by which its copies differ. -/
structure Marked where
  key : Nat
  mark : Nat

namespace Marked

instance : BEq Marked :=
  ⟨fun x y => x.key == y.key⟩

instance : Hashable Marked :=
  ⟨fun x => hash x.key⟩

theorem beq_iff {x y : Marked} : (x == y) = true ↔ x.key = y.key := by
  show (x.key == y.key) = true ↔ x.key = y.key
  exact beq_iff_eq

instance : EquivBEq Marked where
  rfl := beq_iff.mpr rfl
  symm h := beq_iff.mpr (beq_iff.mp h).symm
  trans h h' := beq_iff.mpr ((beq_iff.mp h).trans (beq_iff.mp h'))

instance : LawfulHashable Marked where
  hash_eq x y h := by
    show hash x.key = hash y.key
    rw [beq_iff.mp h]

def queue : PriorityQueue Marked :=
  ⟨Array.replicate 2 .empty, .empty⟩

theorem ofLevels_queue : ofLevels 2 = .ok queue := rfl

/-- Two elements are queued at the second level; another copy of the first is refused at the first level,
and a third one moved there; the second element is removed by another copy and queued again behind. -/
def operations : List (Operation Marked) :=
  [.enqueue ⟨1, 0⟩ 1, .enqueue ⟨2, 0⟩ 1, .enqueue ⟨1, 1⟩ 0, .moveTo ⟨1, 2⟩ 0, .remove ⟨2, 3⟩,
    .enqueue ⟨2, 4⟩ 0, .enqueue ⟨3, 0⟩ 1]

end Marked

theorem coherent_marked : ofLevels 2 = .ok Marked.queue ∧
    ((Session.begin Marked.queue).run Marked.operations).queue.size = 3 ∧
    ((Session.begin Marked.queue).run Marked.operations).queue.Coherent 2 :=
  ⟨Marked.ofLevels_queue, by decide +kernel,
    coherent_of_run Marked.ofLevels_queue Marked.operations⟩

end PriorityQueue

end Dispatch
