import Dispatch.PriorityQueue
import Dispatch.Proofs.ShardMap

/-!
# The invariant of a priority queue

A queue is sound when its three books agree: the occupancy of a level is the number of its elements, no
level holds two equal elements, and the map names exactly the level in which an element stands. An empty
queue is sound, and `enqueue`, `dequeue`, `moveTo` and `remove` keep it so. What they do is told through
`elementsAt`, the elements of a level in their order, and through `contains`.
-/

namespace Dispatch

namespace PriorityQueue

variable {α : Type}

/-- The elements of a level, the first to be served first. -/
def elementsAt (queue : PriorityQueue α) (level : Nat) : List α :=
  (queue.levels[level]?.map Level.elements).getD []

structure Sound [BEq α] [Hashable α] (queue : PriorityQueue α) : Prop where
  occupancy : ∀ level ∈ queue.levels, level.occupancy = level.elements.length
  distinct : ∀ level, (queue.elementsAt level).Pairwise fun x y => (x == y) = false
  levelOf : ∀ level x, queue.levelOf.get? x = some level ↔ (queue.elementsAt level).contains x

theorem elementsAt_setIfInBounds (levels : Array (Level α)) (levelOf : ShardMap α Nat)
    {level : Nat} (h : level < levels.size) (elements : List α) (other : Nat) :
    (PriorityQueue.mk (levels.setIfInBounds level (.ofList elements)) levelOf).elementsAt other =
      if other = level then elements else (PriorityQueue.mk levels levelOf).elementsAt other := by
  by_cases he : other = level
  · subst he
    simp [elementsAt, h, Level.ofList]
  · simp [elementsAt, Array.getElem?_setIfInBounds_ne (Ne.symm he), he]

theorem elementsAt_push (queue : PriorityQueue α) {level : Nat} (h : level < queue.levels.size)
    (x : α) (other : Nat) :
    (queue.push level x).elementsAt other =
      if other = level then queue.elementsAt level ++ [x] else queue.elementsAt other := by
  by_cases he : other = level
  · subst he
    simp [elementsAt, push, Level.push, Level.ofList, Array.getElem_modify, h]
  · simp [elementsAt, push, Array.getElem?_modify, he, Ne.symm he]

theorem elementsAt_of_getElem? {queue : PriorityQueue α} {level : Nat} {found : Level α}
    (h : queue.levels[level]? = some found) : queue.elementsAt level = found.elements := by
  simp [elementsAt, h]

theorem lt_of_elementsAt_ne_nil {queue : PriorityQueue α} {level : Nat}
    (h : queue.elementsAt level ≠ []) : level < queue.levels.size := by
  refine Nat.lt_of_not_le fun hle => h ?_
  simp [elementsAt, Array.getElem?_eq_none hle]

theorem occupancy_setIfInBounds {levels : Array (Level α)}
    (h : ∀ level ∈ levels, level.occupancy = level.elements.length) (i : Nat)
    (elements : List α) :
    ∀ level ∈ levels.setIfInBounds i (.ofList elements),
      level.occupancy = level.elements.length := by
  intro level hmem
  rcases Array.mem_or_eq_of_mem_setIfInBounds hmem with hmem | rfl
  · exact h level hmem
  · rfl

theorem occupancy_push {queue : PriorityQueue α}
    (h : ∀ level ∈ queue.levels, level.occupancy = level.elements.length) (i : Nat) (x : α) :
    ∀ level ∈ (queue.push i x).levels, level.occupancy = level.elements.length := by
  intro level hmem
  obtain ⟨j, hj, rfl⟩ := Array.mem_iff_getElem.mp hmem
  simp only [push, Array.getElem_modify]
  split
  · rfl
  · exact h _ (Array.getElem_mem _)

theorem elementsAt_ofLevels {levels : Nat} {queue : PriorityQueue α}
    (h : ofLevels levels = .ok queue) (level : Nat) : queue.elementsAt level = [] := by
  rw [ofLevels] at h
  split at h
  · cases h
  · cases h
    simp only [elementsAt, Array.getElem?_replicate]
    split <;> rfl

theorem checkPriority_ok {queue : PriorityQueue α} {priority : Nat} {done : Unit}
    (h : queue.checkPriority priority = .ok done) : priority < queue.levels.size := by
  rw [checkPriority] at h
  split at h
  · cases h
  · omega

variable [BEq α] [Hashable α]

theorem contains_iff {queue : PriorityQueue α} {x : α} :
    queue.contains x = true ↔ ∃ level, queue.levelOf.get? x = some level := by
  rw [contains, ShardMap.contains, Option.isSome_iff_exists]

namespace Sound

variable {queue after : PriorityQueue α} {x : α} {level priority : Nat}

theorem contains_iff (sound : queue.Sound) :
    queue.contains x = true ↔ ∃ level, (queue.elementsAt level).contains x := by
  rw [PriorityQueue.contains_iff]
  exact exists_congr fun level => sound.levelOf level x

/-- An empty queue is sound. -/
theorem ofLevels {levels : Nat} (h : PriorityQueue.ofLevels levels = .ok queue) : queue.Sound := by
  have hnil := elementsAt_ofLevels h
  rw [PriorityQueue.ofLevels] at h
  split at h
  · cases h
  · cases h
    refine ⟨fun level hmem => ?_, fun level => ?_, fun level x => ?_⟩
    · rw [(Array.mem_replicate.mp hmem).2]
      rfl
    · rw [hnil]
      exact List.Pairwise.nil
    · rw [hnil, ShardMap.get?_empty]
      simp

/-- Reading the levels of a sound queue from a list of levels finds the first element of the first one
that is not empty. -/
theorem dequeueFrom (sound : queue.Sound) (levels : List Nat) :
    queue.dequeueFrom levels = (none, queue) ∧ (∀ level ∈ levels, queue.elementsAt level = []) ∨
      ∃ before level later x rest, levels = before ++ level :: later ∧
        (∀ earlier ∈ before, queue.elementsAt earlier = []) ∧
        queue.elementsAt level = x :: rest ∧
        queue.dequeueFrom levels = (some (level, x),
          { levels := queue.levels.setIfInBounds level (.ofList rest)
            levelOf := (queue.levelOf.remove x).2 }) := by
  induction levels with
  | nil => exact Or.inl ⟨rfl, by simp⟩
  | cons first later ih =>
    -- a level that is passed over leaves the search to the levels behind it
    have skip (hpass : queue.dequeueFrom (first :: later) = queue.dequeueFrom later)
        (hnil : queue.elementsAt first = []) :
        queue.dequeueFrom (first :: later) = (none, queue) ∧
          (∀ level ∈ first :: later, queue.elementsAt level = []) ∨
        ∃ before level later' x rest, first :: later = before ++ level :: later' ∧
          (∀ earlier ∈ before, queue.elementsAt earlier = []) ∧
          queue.elementsAt level = x :: rest ∧
          queue.dequeueFrom (first :: later) = (some (level, x),
            { levels := queue.levels.setIfInBounds level (.ofList rest)
              levelOf := (queue.levelOf.remove x).2 }) := by
      rw [hpass]
      rcases ih with ⟨hnone, hall⟩ | ⟨before, level, later', x, rest, rfl, hbefore, hx, hsome⟩
      · exact Or.inl ⟨hnone, by simpa [hnil] using hall⟩
      · exact Or.inr ⟨first :: before, level, later', x, rest, rfl, by simpa [hnil] using hbefore,
          hx, hsome⟩
    cases hfound : queue.levels[first]? with
    | none =>
      refine skip ?_ (by simp [elementsAt, hfound])
      rw [PriorityQueue.dequeueFrom]
      simp only [hfound]
    | some found =>
      have hocc := sound.occupancy found (Array.mem_of_getElem? hfound)
      have helements := elementsAt_of_getElem? hfound
      cases hcase : found.elements with
      | nil =>
        rw [hcase] at hocc helements
        refine skip ?_ helements
        rw [PriorityQueue.dequeueFrom]
        simp [hfound, hocc]
      | cons x rest =>
        rw [hcase] at hocc helements
        refine Or.inr ⟨[], first, later, x, rest, rfl, by simp, helements, ?_⟩
        rw [PriorityQueue.dequeueFrom]
        simp [hfound, hocc, Level.pop, hcase]

/-- What taking an element from a sound queue does: nothing, if nothing is queued; otherwise the first
element of the first level that has one comes out. -/
theorem dequeue_cases (sound : queue.Sound) :
    queue.dequeue = (none, queue) ∧ (∀ level, queue.elementsAt level = []) ∨
      ∃ level x rest, level < queue.levels.size ∧
        (∀ earlier < level, queue.elementsAt earlier = []) ∧
        queue.elementsAt level = x :: rest ∧
        queue.dequeue = (some (level, x),
          { levels := queue.levels.setIfInBounds level (.ofList rest)
            levelOf := (queue.levelOf.remove x).2 }) := by
  rcases sound.dequeueFrom (List.range queue.levels.size) with
    ⟨hnone, hall⟩ | ⟨before, level, later, x, rest, hsplit, hbefore, hx, hsome⟩
  · refine Or.inl ⟨hnone, fun level => ?_⟩
    by_cases hlt : level < queue.levels.size
    · exact hall level (List.mem_range.mpr hlt)
    · simp [elementsAt, Array.getElem?_eq_none (Nat.le_of_not_lt hlt)]
  · have hlt : level < queue.levels.size :=
      lt_of_elementsAt_ne_nil (by rw [hx]; exact List.cons_ne_nil _ _)
    refine Or.inr ⟨level, x, rest, hlt, fun earlier hearlier => hbefore earlier ?_, hx, hsome⟩
    have hmem : earlier ∈ before ++ level :: later :=
      hsplit ▸ List.mem_range.mpr (Nat.lt_trans hearlier hlt)
    have hsorted : (before ++ level :: later).Pairwise (· < ·) := hsplit ▸ List.pairwise_lt_range
    have hlater := (List.pairwise_cons.mp (List.pairwise_append.mp hsorted).2.1).1
    rcases List.mem_append.mp hmem with hmem | hmem
    · exact hmem
    · rcases List.mem_cons.mp hmem with rfl | hmem
      · exact absurd hearlier (Nat.lt_irrefl _)
      · exact absurd (hlater earlier hmem) (Nat.lt_asymm hearlier)

/-! ### Taking out and putting in -/

variable [EquivBEq α]

theorem levelOf_of_mem (sound : queue.Sound) (h : x ∈ queue.elementsAt level) :
    queue.levelOf.get? x = some level :=
  (sound.levelOf level x).mpr (List.contains_iff_exists_mem_beq.mpr ⟨x, h, BEq.refl x⟩)

variable [LawfulHashable α]

/-- A sound queue stays so when an element is taken out of its level and off the map. -/
theorem takeOut (sound : queue.Sound) {before later : List α}
    (hx : queue.elementsAt level = before ++ x :: later) {levelOf : ShardMap α Nat}
    (hmap : ∀ y, levelOf.get? y = if x == y then none else queue.levelOf.get? y) :
    (PriorityQueue.mk (queue.levels.setIfInBounds level (.ofList (before ++ later)))
      levelOf).Sound := by
  have hlt : level < queue.levels.size := lt_of_elementsAt_ne_nil (by simp [hx])
  have hdistinct := sound.distinct level
  rw [hx] at hdistinct
  have hx' : queue.levelOf.get? x = some level := sound.levelOf_of_mem (by simp [hx])
  refine ⟨occupancy_setIfInBounds sound.occupancy level _, fun other => ?_, fun other y => ?_⟩
  · rw [elementsAt_setIfInBounds _ _ hlt]
    split
    · exact hdistinct.sublist (List.Sublist.append_left (List.sublist_cons_self _ _) _)
    · exact sound.distinct other
  · rw [elementsAt_setIfInBounds _ _ hlt, hmap]
    have hold := sound.levelOf other y
    rw [List.pairwise_append, List.pairwise_cons] at hdistinct
    by_cases hxy : x == y
    · -- nothing else in the queue equals the element taken out
      rw [if_pos hxy]
      refine iff_of_false (by simp) fun hmem => ?_
      split at hmem
      · obtain ⟨z, hz, hyz⟩ := List.contains_iff_exists_mem_beq.mp hmem
        have hxz : x == z := BEq.trans hxy hyz
        rcases List.mem_append.mp hz with hz | hz
        · have := hdistinct.2.2 z hz x List.mem_cons_self
          rw [BEq.comm, hxz] at this
          cases this
        · have := hdistinct.2.1.1 z hz
          rw [hxz] at this
          cases this
      · next hne =>
        have hy := hold.mpr hmem
        rw [← ShardMap.get?_congr _ hxy, hx'] at hy
        exact hne (Option.some.inj hy).symm
    · rw [if_neg hxy, hold]
      split
      · next he =>
        subst he
        have hyx : (y == x) = false := by
          rw [BEq.comm]
          simpa using hxy
        rw [show (PriorityQueue.mk queue.levels queue.levelOf).elementsAt other =
          before ++ x :: later from hx]
        simp [List.contains_append, hyx]
      · rfl

/-- A sound queue stays so when an element that is not queued is put at the end of a level and on the
map. -/
theorem putIn (sound : queue.Sound) (hlt : level < queue.levels.size)
    (hx : queue.levelOf.get? x = none) {levelOf : ShardMap α Nat}
    (hmap : ∀ y, levelOf.get? y = if x == y then some level else queue.levelOf.get? y) :
    ({ queue with levelOf }.push level x).Sound := by
  have hnew (other : Nat) (y : α) (hxy : x == y) : (queue.elementsAt other).contains y = false := by
    rw [← Bool.not_eq_true, ← sound.levelOf, ← ShardMap.get?_congr _ hxy, hx]
    simp
  have hpush (other : Nat) : ({ queue with levelOf }.push level x).elementsAt other =
      if other = level then queue.elementsAt level ++ [x] else queue.elementsAt other :=
    elementsAt_push { queue with levelOf } hlt x other
  refine ⟨occupancy_push sound.occupancy level x, fun other => ?_, fun other y => ?_⟩
  · rw [hpush]
    split
    · refine List.pairwise_append.mpr ⟨sound.distinct level, List.pairwise_singleton _ _, ?_⟩
      intro y hy z hz
      rw [List.mem_singleton.mp hz]
      cases hyx : y == x with
      | false => rfl
      | true =>
        have := hnew level y (BEq.symm hyx)
        rw [List.contains_iff_exists_mem_beq.mpr ⟨y, hy, BEq.refl y⟩] at this
        cases this
    · exact sound.distinct other
  · rw [hpush]
    change levelOf.get? y = some other ↔ _
    rw [hmap]
    by_cases hxy : x == y
    · have hyx : y == x := BEq.symm hxy
      rw [if_pos hxy]
      split
      · next he =>
        subst he
        simp [List.contains_append, hyx]
      · next hne =>
        refine iff_of_false (fun h => hne (Option.some.inj h).symm) ?_
        rw [hnew other y hxy]
        exact Bool.false_ne_true
    · have hyx : (y == x) = false := by
        rw [BEq.comm]
        simpa using hxy
      rw [if_neg hxy, sound.levelOf]
      split
      · next he =>
        subst he
        simp [List.contains_append, hyx]
      · rfl

end Sound

/-! ### The operations -/

variable {queue after : PriorityQueue α} {x y : α} {level priority : Nat}

/-- An element is queued exactly if its priority is that of a level and it is not queued yet. -/
theorem enqueue_eq_ok : queue.enqueue x priority = .ok after ↔
    priority < queue.levels.size ∧ queue.levelOf.get? x = none ∧
      after = { queue with levelOf := queue.levelOf.put x priority }.push priority x := by
  rw [enqueue, checkPriority, ShardMap.getThenInsertIfNew?]
  by_cases hlt : queue.levels.size ≤ priority
  · rw [if_pos hlt]
    constructor
    · intro h
      cases h
    · intro h
      exact absurd h.1 (Nat.not_lt.mpr hlt)
  · rw [if_neg hlt]
    cases hx : queue.levelOf.get? x with
    | some _ =>
      constructor
      · intro h
        cases h
      · intro h
        cases h.2.1
    | none =>
      constructor
      · intro h
        cases h
        exact ⟨Nat.lt_of_not_le hlt, rfl, rfl⟩
      · intro h
        rw [h.2.2]
        rfl

theorem size_enqueue (h : queue.enqueue x priority = .ok after) :
    after.levels.size = queue.levels.size := by
  obtain ⟨_, _, rfl⟩ := enqueue_eq_ok.mp h
  exact Array.size_modify

theorem not_contains_of_enqueue (h : queue.enqueue x priority = .ok after) :
    queue.contains x = false := by
  obtain ⟨_, hx, _⟩ := enqueue_eq_ok.mp h
  rw [contains, ShardMap.contains, hx]
  rfl

theorem dequeue_none (sound : queue.Sound) (h : queue.dequeue = (none, after)) : after = queue := by
  rcases sound.dequeue_cases with ⟨hnone, _⟩ | ⟨_, _, _, _, _, _, hsome⟩
  · exact (congrArg Prod.snd (h.symm.trans hnone))
  · cases h.symm.trans hsome

omit [Hashable α] in
theorem removeFrom_of_contains (h : (queue.elementsAt level).contains x) :
    queue.removeFrom level x =
      (true, ⟨queue.levels.setIfInBounds level (.ofList ((queue.elementsAt level).erase x)),
        queue.levelOf⟩) := by
  have hlt : level < queue.levels.size :=
    lt_of_elementsAt_ne_nil fun hnil => by simp [hnil] at h
  have hfound : queue.levels[level]? = some queue.levels[level] := by simp [hlt]
  rw [elementsAt_of_getElem? hfound] at h ⊢
  simp only [removeFrom, hfound, Level.remove, h, if_true]

section Lawful

variable [EquivBEq α]

omit [Hashable α] in
/-- Erasing an element leaves what stands before and behind its first copy. -/
theorem erase_split {elements : List α} (h : elements.contains x) :
    ∃ before copy later, elements = before ++ copy :: later ∧ (copy == x) = true ∧
      elements.erase x = before ++ later := by
  induction elements with
  | nil => cases h
  | cons head tail ih =>
    rw [List.erase_cons]
    cases hx : head == x with
    | true => exact ⟨[], head, tail, rfl, hx, by simp⟩
    | false =>
      have hxh : (x == head) = false := by
        rw [BEq.comm]
        exact hx
      rw [List.contains_cons, hxh, Bool.false_or] at h
      obtain ⟨before, copy, later, rfl, hcopy, herase⟩ := ih h
      exact ⟨head :: before, copy, later, rfl, hcopy, by simp [herase]⟩

variable [LawfulHashable α]

theorem Sound.enqueue (sound : queue.Sound) (h : queue.enqueue x priority = .ok after) :
    after.Sound := by
  obtain ⟨hlt, hx, rfl⟩ := enqueue_eq_ok.mp h
  exact sound.putIn hlt hx fun y => ShardMap.get?_put _ _ _ _

theorem contains_enqueue (h : queue.enqueue x priority = .ok after) (y : α) :
    after.contains y = (x == y || queue.contains y) := by
  obtain ⟨_, _, rfl⟩ := enqueue_eq_ok.mp h
  change ((queue.levelOf.put x priority).get? y).isSome = _
  rw [ShardMap.get?_put]
  cases hxy : x == y <;> rfl

theorem Sound.dequeue (sound : queue.Sound) (h : queue.dequeue = (some (level, x), after)) :
    after.Sound := by
  rcases sound.dequeue_cases with ⟨hnone, _⟩ | ⟨_, _, rest, _, _, hx, hsome⟩
  · cases h.symm.trans hnone
  · cases h.symm.trans hsome
    have hsplit : queue.elementsAt level = [] ++ x :: rest := hx
    exact sound.takeOut hsplit fun y => ShardMap.get?_remove _ _ _

omit [EquivBEq α] [LawfulHashable α] in
theorem size_dequeue (sound : queue.Sound) (h : queue.dequeue = (some (level, x), after)) :
    after.levels.size = queue.levels.size := by
  rcases sound.dequeue_cases with ⟨hnone, _⟩ | ⟨_, _, rest, _, _, _, hsome⟩
  · cases h.symm.trans hnone
  · cases h.symm.trans hsome
    exact Array.size_setIfInBounds

omit [LawfulHashable α] in
theorem contains_of_dequeue (sound : queue.Sound)
    (h : queue.dequeue = (some (level, x), after)) : queue.contains x = true := by
  rcases sound.dequeue_cases with ⟨hnone, _⟩ | ⟨_, _, rest, _, _, hx, hsome⟩
  · cases h.symm.trans hnone
  · cases h.symm.trans hsome
    exact PriorityQueue.contains_iff.mpr ⟨level, sound.levelOf_of_mem (by simp [hx])⟩

theorem contains_dequeue (sound : queue.Sound) (h : queue.dequeue = (some (level, x), after))
    (y : α) : after.contains y = (!(x == y) && queue.contains y) := by
  rcases sound.dequeue_cases with ⟨hnone, _⟩ | ⟨_, _, rest, _, _, hx, hsome⟩
  · cases h.symm.trans hnone
  · cases h.symm.trans hsome
    change ((queue.levelOf.remove x).2.get? y).isSome = _
    rw [ShardMap.get?_remove]
    cases hxy : x == y <;> rfl

omit [LawfulHashable α] in
/-- What moving an element of a sound queue does: nothing, if it is not queued or is at that level
already; otherwise its copy comes out of its level, and the given one goes to the end of the other. -/
theorem Sound.moveTo_cases (sound : queue.Sound) (hlt : priority < queue.levels.size) (x : α) :
    queue.moveTo x priority = .ok (none, queue) ∧
        (∀ current, queue.levelOf.get? x = some current → current = priority) ∨
      ∃ current ahead copy behind, queue.levelOf.get? x = some current ∧ current ≠ priority ∧
        (copy == x) = true ∧ queue.elementsAt current = ahead ++ copy :: behind ∧
        queue.moveTo x priority = .ok (some current,
          (PriorityQueue.mk (queue.levels.setIfInBounds current (.ofList (ahead ++ behind)))
            (queue.levelOf.put x priority)).push priority x) := by
  have hcheck : queue.checkPriority priority = .ok () := by
    rw [checkPriority, if_neg (Nat.not_le.mpr hlt)]
  rw [PriorityQueue.moveTo, hcheck]
  cases hx : queue.levelOf.get? x with
  | none => exact Or.inl ⟨rfl, fun current h => nomatch h⟩
  | some current =>
    by_cases he : current = priority
    · subst he
      refine Or.inl ⟨?_, fun other h => (Option.some.inj h).symm⟩
      simp only [if_true]
      rfl
    · have hmem := (sound.levelOf current x).mp hx
      obtain ⟨ahead, copy, behind, hsplit, hcopy, herase⟩ := erase_split hmem
      refine Or.inr ⟨current, ahead, copy, behind, rfl, he, hcopy, hsplit, ?_⟩
      simp only [he, if_false, removeFrom_of_contains hmem, herase]
      rfl

omit [EquivBEq α] [LawfulHashable α] in
theorem lt_of_moveTo {source : Option Nat} (h : queue.moveTo x priority = .ok (source, after)) :
    priority < queue.levels.size := by
  cases hcheck : queue.checkPriority priority with
  | ok done => exact checkPriority_ok hcheck
  | error fault =>
    rw [moveTo, hcheck] at h
    cases h

theorem Sound.moveTo (sound : queue.Sound) {source : Option Nat}
    (h : queue.moveTo x priority = .ok (source, after)) :
    source = none ∧ after = queue ∨
      ∃ current, source = some current ∧ queue.levelOf.get? x = some current ∧
        current ≠ priority ∧ after.Sound ∧
        ∀ y, after.levelOf.get? y = if x == y then some priority else queue.levelOf.get? y := by
  have hlt := lt_of_moveTo h
  rcases sound.moveTo_cases hlt x with
    ⟨hstay, -⟩ | ⟨current, ahead, copy, behind, hx, hne, hcopy, hsplit, hmove⟩
  · rw [hstay] at h
    cases h
    exact Or.inl ⟨rfl, rfl⟩
  · rw [hmove] at h
    cases h
    refine Or.inr ⟨current, rfl, hx, hne, ?_, fun y => ShardMap.get?_put _ _ _ _⟩
    -- the element is taken out of its level first and then put in as a new one
    have hout := sound.takeOut hsplit (ShardMap.get?_remove queue.levelOf copy)
    refine hout.putIn (by simpa using hlt) ?_ fun y => ?_
    · rw [ShardMap.get?_remove, if_pos hcopy]
    · rw [ShardMap.get?_put, ShardMap.get?_remove, BEq.congr_left hcopy]
      split <;> rfl

omit [LawfulHashable α] in
/-- What removing an element from a sound queue does: nothing, if it is not queued; otherwise its copy
comes out of its level. -/
theorem Sound.remove_cases (sound : queue.Sound) (x : α) :
    queue.levelOf.get? x = none ∧ queue.remove x = (false, queue) ∨
      ∃ level ahead copy behind, queue.levelOf.get? x = some level ∧ (copy == x) = true ∧
        queue.elementsAt level = ahead ++ copy :: behind ∧
        queue.remove x = (true, ⟨queue.levels.setIfInBounds level (.ofList (ahead ++ behind)),
          (queue.levelOf.remove x).2⟩) := by
  have hfst := ShardMap.remove_fst queue.levelOf x
  rw [PriorityQueue.remove]
  generalize queue.levelOf.remove x = removed at hfst ⊢
  obtain ⟨found, levelOf⟩ := removed
  cases found with
  | none => exact Or.inl ⟨hfst.symm, rfl⟩
  | some level =>
    have hmem := (sound.levelOf level x).mp hfst.symm
    obtain ⟨ahead, copy, behind, hsplit, hcopy, herase⟩ := erase_split hmem
    refine Or.inr ⟨level, ahead, copy, behind, hfst.symm, hcopy, hsplit, ?_⟩
    have hsame : ({ queue with levelOf }.elementsAt level).contains x := hmem
    dsimp only
    rw [removeFrom_of_contains hsame]
    exact congrArg (fun elements => (true, PriorityQueue.mk
      (queue.levels.setIfInBounds level (.ofList elements)) levelOf)) herase

theorem Sound.remove (sound : queue.Sound) (x : α) : (queue.remove x).2.Sound := by
  rcases sound.remove_cases x with ⟨-, hremove⟩ | ⟨level, ahead, copy, behind, -, hcopy, hsplit, hremove⟩
  · rw [hremove]
    exact sound
  · rw [hremove]
    refine sound.takeOut hsplit fun y => ?_
    rw [ShardMap.get?_remove, BEq.congr_left hcopy]

/-- Moving an element of a sound queue leaves the queue sound, with the same elements. -/
theorem contains_moveTo (sound : queue.Sound) {source : Option Nat}
    (h : queue.moveTo x priority = .ok (source, after)) :
    after.Sound ∧ ∀ y, after.contains y = queue.contains y := by
  rcases sound.moveTo h with ⟨-, rfl⟩ | ⟨current, -, hx, -, hsound, hafter⟩
  · exact ⟨sound, fun _ => rfl⟩
  · refine ⟨hsound, fun y => ?_⟩
    change (after.levelOf.get? y).isSome = (queue.levelOf.get? y).isSome
    rw [hafter]
    split
    · next hxy =>
      rw [← ShardMap.get?_congr queue.levelOf hxy, hx]
      rfl
    · rfl

end Lawful

/-! ### All elements in their order -/

section InOrder

omit [BEq α] [Hashable α] in
/-- All elements of a queue, the first to be served first. -/
def inOrder (queue : PriorityQueue α) : List α :=
  (List.range queue.levels.size).flatMap queue.elementsAt

omit [BEq α] [Hashable α] in
theorem mem_inOrder : x ∈ queue.inOrder ↔ ∃ level, x ∈ queue.elementsAt level := by
  rw [inOrder, List.mem_flatMap]
  refine exists_congr fun level => and_iff_right_of_imp fun hx => ?_
  exact List.mem_range.mpr (lt_of_elementsAt_ne_nil (List.ne_nil_of_mem hx))

omit [BEq α] [Hashable α] in
theorem queued_eq (queue : PriorityQueue α) : queue.queued = queue.inOrder.length := by
  have hlevels : queue.levels.toList.map Level.elements =
      (List.range queue.levels.size).map queue.elementsAt := by
    refine List.ext_getElem (by simp) fun i hi hi' => ?_
    have hsize : i < queue.levels.size := by simpa using hi
    simp [elementsAt, hsize]
  rw [queued, inOrder, List.flatMap_def, List.flatMap_def, hlevels]

omit [BEq α] [Hashable α] in
/-- Taking the first element of the first list that has one takes the first element of all. -/
theorem flatMap_range_of_first {n : Nat} (hlt : level < n) {contents after : Nat → List α}
    {rest : List α} (hearlier : ∀ earlier < level, contents earlier = [])
    (hx : contents level = x :: rest)
    (hafter : ∀ other, after other = if other = level then rest else contents other) :
    (List.range n).flatMap contents = x :: (List.range n).flatMap after := by
  obtain ⟨further, rfl⟩ := Nat.exists_eq_add_of_lt hlt
  have hahead : (List.range level).flatMap contents = [] :=
    List.flatMap_eq_nil_iff.mpr fun earlier hmem => hearlier earlier (List.mem_range.mp hmem)
  have hahead' : (List.range level).flatMap after = [] := by
    refine List.flatMap_eq_nil_iff.mpr fun earlier hmem => ?_
    have hlt := List.mem_range.mp hmem
    rw [hafter, if_neg (Nat.ne_of_lt hlt)]
    exact hearlier earlier hlt
  have hbehind : (((List.range further).map Nat.succ).map (level + ·)).map after =
      (((List.range further).map Nat.succ).map (level + ·)).map contents := by
    refine List.map_congr_left fun other hmem => ?_
    rw [hafter, if_neg]
    simp only [List.mem_map] at hmem
    omega
  rw [Nat.add_assoc, List.range_add, List.flatMap_append, List.flatMap_append,
    List.range_succ_eq_map, hahead, hahead', List.map_cons, List.flatMap_cons, List.flatMap_cons,
    Nat.add_zero, hx, hafter, if_pos rfl, List.flatMap_def, List.flatMap_def, hbehind]
  rfl

theorem Sound.distinct_inOrder [EquivBEq α] (sound : queue.Sound) :
    queue.inOrder.Pairwise fun x y => (x == y) = false := by
  refine List.pairwise_flatMap.mpr ⟨fun level _ => sound.distinct level, ?_⟩
  refine List.pairwise_lt_range.imp fun {level level'} hlt x hx y hy => ?_
  -- equal elements of two levels would have two entries in the map
  refine Bool.eq_false_iff.mpr fun hxy => ?_
  have hcontains : (queue.elementsAt level').contains x :=
    List.contains_iff_exists_mem_beq.mpr ⟨y, hy, hxy⟩
  have hlevel := sound.levelOf_of_mem hx
  rw [(sound.levelOf level' x).mpr hcontains] at hlevel
  cases hlevel
  exact Nat.lt_irrefl _ hlt

theorem Sound.contains_iff_mem [LawfulBEq α] (sound : queue.Sound) :
    queue.contains x = true ↔ x ∈ queue.inOrder := by
  rw [sound.contains_iff, mem_inOrder]
  simp only [List.contains_iff_mem]

/-- A sound queue serves its elements in their order. -/
theorem Sound.dequeue_inOrder [EquivBEq α] [LawfulHashable α] (sound : queue.Sound) :
    queue.dequeue = (none, queue) ∧ queue.inOrder = [] ∨
      ∃ level x after, queue.dequeue = (some (level, x), after) ∧ after.Sound ∧
        queue.inOrder = x :: after.inOrder := by
  rcases sound.dequeue_cases with ⟨hnone, hall⟩ | ⟨level, x, rest, hlt, hearlier, hx, hsome⟩
  · exact Or.inl ⟨hnone, List.flatMap_eq_nil_iff.mpr fun level _ => hall level⟩
  · refine Or.inr ⟨level, x, _, hsome, sound.dequeue hsome, ?_⟩
    rw [inOrder, inOrder, Array.size_setIfInBounds]
    exact flatMap_range_of_first hlt hearlier hx fun other =>
      elementsAt_setIfInBounds queue.levels _ hlt rest other

theorem Sound.dequeue_of_nil [EquivBEq α] [LawfulHashable α] (sound : queue.Sound)
    (h : queue.inOrder = []) : queue.dequeue = (none, queue) := by
  rcases sound.dequeue_inOrder with ⟨hnone, -⟩ | ⟨level, x, after, -, -, hcons⟩
  · exact hnone
  · rw [h] at hcons
    cases hcons

theorem Sound.dequeue_of_cons [EquivBEq α] [LawfulHashable α] (sound : queue.Sound) {rest : List α}
    (h : queue.inOrder = x :: rest) :
    ∃ level after, queue.dequeue = (some (level, x), after) ∧ after.Sound ∧ after.inOrder = rest := by
  rcases sound.dequeue_inOrder with ⟨-, hnil⟩ | ⟨level, first, after, hsome, hsound, hcons⟩
  · rw [h] at hnil
    cases hnil
  · rw [h] at hcons
    obtain ⟨rfl, hrest⟩ := List.cons.inj hcons
    exact ⟨level, after, hsome, hsound, hrest.symm⟩

/-- Draining a sound queue takes all its elements in their order. -/
theorem Sound.drainWithin [EquivBEq α] [LawfulHashable α] (sound : queue.Sound) {bound : Nat}
    (h : queue.queued < bound) :
    (queue.drainWithin bound).1 = queue.inOrder ∧ (queue.drainWithin bound).2.dequeue.1 = none := by
  induction bound generalizing queue with
  | zero => exact absurd h (Nat.not_lt_zero _)
  | succ bound ih =>
    rw [PriorityQueue.drainWithin]
    rcases sound.dequeue_inOrder with ⟨hnone, hnil⟩ | ⟨level, x, after, hsome, hsound, hcons⟩
    · rw [hnone, hnil]
      exact ⟨rfl, congrArg Prod.fst hnone⟩
    · have hbound : after.queued < bound := by
        rw [queued_eq] at h ⊢
        rw [hcons, List.length_cons] at h
        exact Nat.lt_of_succ_lt_succ h
      obtain ⟨helements, hempty⟩ := ih hsound hbound
      rw [hsome, hcons]
      exact ⟨congrArg (x :: ·) helements, hempty⟩

end InOrder

/-! ### All elements with their levels -/

section Places

omit [BEq α] [Hashable α]

/-- What is queued, with its levels, the first to be served first. -/
def places (queue : PriorityQueue α) : List (Nat × α) :=
  (List.range queue.levels.size).flatMap fun level => (queue.elementsAt level).map (Prod.mk level)

theorem map_snd_places (queue : PriorityQueue α) : queue.places.map Prod.snd = queue.inOrder := by
  rw [places, inOrder, List.map_flatMap]
  simp only [List.map_map, Function.comp_def, List.map_id']

theorem length_places (queue : PriorityQueue α) : queue.places.length = queue.queued := by
  rw [queued_eq, ← map_snd_places, List.length_map]

theorem mem_places {level : Nat} : (level, x) ∈ queue.places ↔ x ∈ queue.elementsAt level := by
  rw [places, List.mem_flatMap]
  constructor
  · rintro ⟨other, -, hmem⟩
    obtain ⟨y, hy, heq⟩ := List.mem_map.mp hmem
    cases heq
    exact hy
  · intro hx
    have hlt := lt_of_elementsAt_ne_nil (List.ne_nil_of_mem hx)
    exact ⟨level, List.mem_range.mpr hlt, List.mem_map_of_mem hx⟩

/-- An entry more in one of some lists is an entry more in all of them. -/
theorem flatMap_range_perm {β : Type} {n : Nat} (hlt : level < n) {contents after : Nat → List β}
    {entry : β} (hlevel : (after level).Perm (entry :: contents level))
    (hother : ∀ other, other ≠ level → after other = contents other) :
    ((List.range n).flatMap after).Perm (entry :: (List.range n).flatMap contents) := by
  induction n with
  | zero => exact absurd hlt (Nat.not_lt_zero level)
  | succ n ih =>
    rw [List.range_succ, List.flatMap_append, List.flatMap_append, List.flatMap_singleton,
      List.flatMap_singleton]
    by_cases he : level = n
    · have hahead : (List.range n).map after = (List.range n).map contents := by
        refine List.map_congr_left fun other hmem => hother other ?_
        have := List.mem_range.mp hmem
        omega
      rw [List.flatMap_def, hahead, ← List.flatMap_def, ← he]
      exact (hlevel.append_left _).trans List.perm_middle
    · rw [hother n (Ne.symm he)]
      have hless : level < n := by omega
      exact (ih hless).append_right _

theorem places_push (queue : PriorityQueue α) {level : Nat} (hlt : level < queue.levels.size)
    (x : α) : (queue.push level x).places.Perm ((level, x) :: queue.places) := by
  rw [places, places, push, Array.size_modify]
  refine flatMap_range_perm hlt ?_ fun other hne => ?_
  · change (((queue.push level x).elementsAt level).map (Prod.mk level)).Perm _
    rw [elementsAt_push queue hlt, if_pos rfl, List.map_append]
    exact List.perm_append_singleton _ _
  · change ((queue.push level x).elementsAt other).map (Prod.mk other) = _
    rw [elementsAt_push queue hlt, if_neg hne]

theorem places_pop {level : Nat} {rest : List α}
    (hx : queue.elementsAt level = x :: rest) :
    queue.places.Perm ((level, x) ::
      { queue with levels := queue.levels.setIfInBounds level (.ofList rest) }.places) := by
  have hlt : level < queue.levels.size :=
    lt_of_elementsAt_ne_nil (by rw [hx]; exact List.cons_ne_nil _ _)
  have hafter (other : Nat) := elementsAt_setIfInBounds queue.levels queue.levelOf hlt rest other
  rw [places, places, Array.size_setIfInBounds]
  refine flatMap_range_perm hlt ?_ fun other hne => ?_
  · rw [hafter, if_pos rfl, hx]
    exact .refl _
  · rw [hafter, if_neg hne]

variable [BEq α] [Hashable α] [EquivBEq α] [LawfulHashable α]

/-- A sound queue serves what stands at its first place. -/
theorem Sound.dequeue_places (sound : queue.Sound) :
    queue.dequeue = (none, queue) ∧ queue.places = [] ∨
      ∃ level x after, queue.dequeue = (some (level, x), after) ∧ after.Sound ∧
        queue.places = (level, x) :: after.places := by
  rcases sound.dequeue_cases with ⟨hnone, hall⟩ | ⟨level, x, rest, hlt, hearlier, hx, hsome⟩
  · refine Or.inl ⟨hnone, List.flatMap_eq_nil_iff.mpr fun level _ => ?_⟩
    rw [hall, List.map_nil]
  · refine Or.inr ⟨level, x, _, hsome, sound.dequeue hsome, ?_⟩
    have hplaces : (queue.elementsAt level).map (Prod.mk level) =
        (level, x) :: rest.map (Prod.mk level) := by rw [hx, List.map_cons]
    rw [places, places, Array.size_setIfInBounds]
    refine flatMap_range_of_first hlt (fun earlier hlt => ?_) hplaces fun other => ?_
    · rw [hearlier earlier hlt, List.map_nil]
    · rw [elementsAt_setIfInBounds queue.levels _ hlt rest other]
      split
      · next he => rw [he]
      · rfl

end Places

/-! ### How often an element is queued -/

section Counting

variable [LawfulBEq α] {queue after : PriorityQueue α} {x : α} {level : Nat}

/-- An element that is put into a queue is queued once more than before, and no other is. -/
theorem queued_enqueue {priority : Nat} (h : queue.enqueue x priority = .ok after) (y : α) :
    (if after.contains y then 1 else 0) =
      (if queue.contains y then 1 else 0) + if x == y then 1 else 0 := by
  have hx := not_contains_of_enqueue h
  rw [contains_enqueue h]
  by_cases hxy : x = y
  · subst hxy
    simp [hx]
  · simp [hxy]

/-- An element that is taken from a queue was queued once more than it is now, and no other was. -/
theorem queued_dequeue (sound : queue.Sound) (h : queue.dequeue = (some (level, x), after)) (y : α) :
    (if queue.contains y then 1 else 0) =
      (if after.contains y then 1 else 0) + if x == y then 1 else 0 := by
  have hx := contains_of_dequeue sound h
  rw [contains_dequeue sound h]
  by_cases hxy : x = y
  · subst hxy
    simp [hx]
  · simp [hxy]

end Counting

end PriorityQueue

end Dispatch
