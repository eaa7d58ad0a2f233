import Dispatch.Proofs.QueueOperations
import Mathlib.Data.Prod.Lex

/-!
# The order in which a queue serves

The history of a session alone tells where an element stands: at the level at which it was last queued or
to which it was last moved, since that moment, and as the copy that was given then. A queue serves by level
and then by time (`served_in_order`). The invariant says that the levels hold exactly the copies that the
history tells, and each of them in the order of the times (`Filed`); it is preserved by every shift of an
element, and so by every operation.
-/

namespace Dispatch

namespace PriorityQueue

variable {α : Type}

/-- Where an element stands, as which copy, and since when. -/
structure Place (α : Type) where
  copy : α
  level : Nat
  time : Nat

/-- Places are ordered by level, and at a level by time. -/
def Place.rank (place : Place α) : ℕ ×ₗ ℕ :=
  toLex (place.level, place.time)

theorem Place.rank_lt {first second : Place α} : first.rank < second.rank ↔
    first.level < second.level ∨ first.level = second.level ∧ first.time < second.time :=
  Prod.Lex.toLex_lt_toLex

variable [BEq α]

/-- Where elements stand once one of them has been put somewhere or taken out. -/
def placeAfter (places : α → Option (Place α)) (now : Nat) :
    Option (α × Option Nat) → α → Option (Place α)
  | none, y => places y
  | some (x, level), y => if x == y then level.map fun level => ⟨x, level, now⟩ else places y

/-- Where elements stand after a history, the time being the number of operations before. -/
def place : List (Operation α × Answer α) → α → Option (Place α)
  | [] => fun _ => none
  | (operation, answer) :: earlier =>
    placeAfter (place earlier) earlier.length (shifted operation answer)

/-- The levels hold the copies that stand there, in the order of the times since when they do. -/
structure Filed (contents : Nat → List α) (place : α → Option (Place α)) (now : Nat) : Prop where
  congr : ∀ x y, (x == y) = true → place x = place y
  stands : ∀ level, ∀ x ∈ contents level, ∃ time < now, place x = some ⟨x, level, time⟩
  filed : ∀ x found, place x = some found →
    (found.copy == x) = true ∧ found.copy ∈ contents found.level
  ordered : ∀ level, (contents level).Pairwise fun x y =>
    ∀ first ∈ place x, ∀ second ∈ place y, first.time < second.time

namespace Filed

variable {contents : Nat → List α} {places : α → Option (Place α)} {now level : Nat} {x copy : α}
  {ahead behind : List α}

theorem later (h : Filed contents places now) : Filed contents places (now + 1) := by
  refine ⟨h.congr, fun level x hx => ?_, h.filed, h.ordered⟩
  obtain ⟨time, htime, hplace⟩ := h.stands level x hx
  exact ⟨time, Nat.lt_succ_of_lt htime, hplace⟩

variable [EquivBEq α]

theorem absent (h : Filed contents places now) (hx : ∀ level, (contents level).contains x = false) :
    places x = none := by
  cases hplace : places x with
  | none => rfl
  | some found =>
    obtain ⟨hcopy, hmem⟩ := h.filed x found hplace
    have hcontains : (contents found.level).contains x = true :=
      List.contains_iff_exists_mem_beq.mpr ⟨found.copy, hmem, BEq.symm hcopy⟩
    rw [hx] at hcontains
    cases hcontains

omit [EquivBEq α] in
theorem left_behind (h : Filed contents places now) (hsplit : contents level = ahead ++ copy :: behind)
    {other : Nat} {y : α} (hy : y ∈ Function.update contents level (ahead ++ behind) other) :
    (copy == y) = false ∧ y ∈ contents other := by
  have hmem : y ∈ contents other := by
    rw [Function.update_apply] at hy
    split at hy
    · next he =>
      subst he
      rw [hsplit]
      exact (List.Sublist.append_left (List.sublist_cons_self _ _) _).subset hy
    · exact hy
  refine ⟨?_, hmem⟩
  by_contra hsame
  have hcopy : copy ∈ contents level := by simp [hsplit]
  obtain ⟨time, -, hplace⟩ := h.stands level copy hcopy
  obtain ⟨time', -, hplace'⟩ := h.stands other y hmem
  have heq := hplace
  rw [h.congr copy y (by simpa using hsame), hplace'] at heq
  obtain ⟨rfl, rfl, -⟩ := Place.mk.inj (Option.some.inj heq)
  -- the copy would stand twice in one level, and hence before itself
  have hordered := h.ordered other
  rw [hsplit] at hordered
  rw [Function.update_self] at hy
  obtain ⟨-, htail, hbefore⟩ := List.pairwise_append.mp hordered
  rcases List.mem_append.mp hy with hy | hy
  · exact Nat.lt_irrefl _ (hbefore y hy y List.mem_cons_self _ hplace _ hplace)
  · exact Nat.lt_irrefl _ ((List.pairwise_cons.mp htail).1 y hy _ hplace _ hplace)

theorem out (h : Filed contents places now) (same : (copy == x) = true)
    (hsplit : contents level = ahead ++ copy :: behind) :
    Filed (Function.update contents level (ahead ++ behind))
      (fun y => if x == y then none else places y) now := by
  have hkept {other : Nat} {y : α}
      (hy : y ∈ Function.update contents level (ahead ++ behind) other) : (x == y) = false := by
    rw [← BEq.congr_left same]
    exact (h.left_behind hsplit hy).1
  refine ⟨fun y z hyz => ?_, fun other y hy => ?_, fun y found hfound => ?_, fun other => ?_⟩
  · rw [BEq.congr_right hyz, h.congr y z hyz]
  · rw [hkept hy]
    exact h.stands other y (h.left_behind hsplit hy).2
  · split at hfound
    · cases hfound
    · next hne =>
      obtain ⟨hcopy, hmem⟩ := h.filed y found hfound
      refine ⟨hcopy, ?_⟩
      rw [Function.update_apply]
      split
      · next he =>
        rw [he, hsplit] at hmem
        have hother : found.copy ≠ copy := fun heq =>
          hne (BEq.trans (BEq.symm same) (heq ▸ hcopy))
        simpa [hother] using hmem
      · exact hmem
  · have hsub : (Function.update contents level (ahead ++ behind) other).Sublist
        (contents other) := by
      rw [Function.update_apply]
      split
      · next he =>
        rw [he, hsplit]
        exact List.Sublist.append_left (List.sublist_cons_self _ _) _
      · exact List.Sublist.refl _
    refine ((h.ordered other).sublist hsub).imp_of_mem fun {y z} hy hz hlt => ?_
    rw [hkept hy, hkept hz]
    exact hlt

theorem into (h : Filed contents places now) (hx : places x = none) :
    Filed (Function.update contents level (contents level ++ [x]))
      (fun y => if x == y then some ⟨x, level, now⟩ else places y) (now + 1) := by
  have hkept {other : Nat} {y : α} (hy : y ∈ contents other) : (x == y) = false := by
    obtain ⟨time, -, hplace⟩ := h.stands other y hy
    by_contra hsame
    rw [← h.congr x y (by simpa using hsame), hx] at hplace
    cases hplace
  refine ⟨fun y z hyz => ?_, fun other y hy => ?_, fun y found hfound => ?_, fun other => ?_⟩
  · rw [BEq.congr_right hyz, h.congr y z hyz]
  · rw [Function.update_apply] at hy
    have hold (hy : y ∈ contents other) : ∃ time < now + 1,
        (if x == y then some ⟨x, level, now⟩ else places y) = some ⟨y, other, time⟩ := by
      rw [hkept hy]
      exact h.later.stands other y hy
    split at hy
    · next he =>
      subst he
      rcases List.mem_append.mp hy with hy | hy
      · exact hold hy
      · rw [List.mem_singleton.mp hy, BEq.refl x]
        exact ⟨now, Nat.lt_succ_self now, rfl⟩
    · exact hold hy
  · rw [Function.update_apply]
    split at hfound
    · next hxy =>
      cases hfound
      exact ⟨hxy, by simp⟩
    · obtain ⟨hcopy, hmem⟩ := h.filed y found hfound
      refine ⟨hcopy, ?_⟩
      split
      · next he => exact List.mem_append_left _ (he ▸ hmem)
      · exact hmem
  · have hold : (contents other).Pairwise fun y z =>
        ∀ first ∈ (if x == y then some ⟨x, level, now⟩ else places y),
          ∀ second ∈ (if x == z then some ⟨x, level, now⟩ else places z),
            first.time < second.time := by
      refine (h.ordered other).imp_of_mem fun {y z} hy hz hlt => ?_
      rw [hkept hy, hkept hz]
      exact hlt
    rw [Function.update_apply]
    split
    · next he =>
      subst he
      refine List.pairwise_append.mpr ⟨hold, List.pairwise_singleton _ _, ?_⟩
      intro y hy z hz first hfirst second hsecond
      rw [hkept hy] at hfirst
      rw [List.mem_singleton.mp hz, BEq.refl x] at hsecond
      obtain ⟨time, htime, hplace⟩ := h.stands other y hy
      cases hplace.symm.trans hfirst
      cases hsecond
      exact htime
    · exact hold

/-- Every shift of an element is told by the place where it stands afterwards. -/
theorem shift (h : Filed contents places now) {change : Option (α × Option Nat)}
    {after : Nat → List α} (shift : Shift contents change after) :
    Filed after (placeAfter places now change) (now + 1) := by
  cases shift with
  | none => exact h.later
  | out same hsplit => exact (h.out same hsplit).later
  | into absent => exact h.into (h.absent absent)
  | @across x copy source level ahead behind same hsplit hne =>
    -- the element is out of the levels for a moment, and then arrives as a new one
    have hplace : (if x == x then none else places x) = none := by rw [BEq.refl x, if_pos rfl]
    have hmoved := @into _ _ _ _ _ level _ _ (h.out same hsplit) hplace
    rw [Function.update_of_ne (Ne.symm hne)] at hmoved
    refine Eq.mp (congrArg (Filed _ · _) ?_) hmoved
    funext y
    rw [placeAfter]
    cases x == y <;> rfl

end Filed

/-! ### Serving -/

section Sessions

variable [Hashable α] [EquivBEq α] [LawfulHashable α] {queue : PriorityQueue α} {levels : Nat}

/-- What the levels of a queue hold after a session is what its history tells. -/
theorem filed_of_run (ok : ofLevels levels = .ok queue) (operations : List (Operation α)) :
    ((Session.begin queue).run operations).queue.Tallied ∧
      Filed ((Session.begin queue).run operations).queue.elementsAt
        (place ((Session.begin queue).run operations).history)
        ((Session.begin queue).run operations).history.length := by
  have hbegin : Filed queue.elementsAt (place []) 0 := by
    have hnil := elementsAt_ofLevels ok
    refine ⟨fun _ _ _ => rfl, fun level x hx => ?_, fun x found hfound => ?_, fun level => ?_⟩
    · rw [hnil] at hx
      cases hx
    · cases hfound
    · rw [hnil]
      exact .nil
  refine Session.run_preserves (fun session => session.queue.Tallied ∧
    Filed session.queue.elementsAt (place session.history) session.history.length)
    (fun session operation h => ?_)
    (⟨(Tallied.ofLevels ok).1, hbegin⟩ : (Session.begin queue).queue.Tallied ∧ _) operations
  obtain ⟨tallied, filed⟩ := h
  exact ⟨(tallied.perform operation).1, filed.shift (tallied.sound.perform_cases operation)⟩

omit [LawfulHashable α] in
/-- The element that a queue serves next, if there is one, is the copy whose place is the first of all. -/
theorem Filed.dequeue {places : α → Option (Place α)} {now : Nat} (sound : queue.Sound)
    (h : Filed queue.elementsAt places now) :
    (queue.dequeue.1 = none ↔ ∀ x, places x = none) ∧
      ∀ level x, queue.dequeue.1 = some (level, x) → ∃ time, places x = some ⟨x, level, time⟩ ∧
        ∀ y other, places y = some other →
          (x == y) = true ∨ (Place.mk x level time).rank < other.rank := by
  rcases sound.dequeue_cases with ⟨hnone, hall⟩ | ⟨level, x, rest, -, hearlier, hx, hsome⟩
  · rw [hnone]
    refine ⟨iff_of_true rfl fun x => h.absent fun level => ?_, fun level x hserved => ?_⟩
    · rw [hall]
      rfl
    · cases hserved
  · have hmem : x ∈ queue.elementsAt level := by simp [hx]
    obtain ⟨time, -, hplace⟩ := h.stands level x hmem
    rw [hsome]
    refine ⟨iff_of_false (fun hserved => ?_) (fun hall => ?_), fun level' x' hserved => ?_⟩
    · cases hserved
    · rw [hall] at hplace
      cases hplace
    · cases hserved
      refine ⟨time, hplace, fun y other hother => ?_⟩
      obtain ⟨hcopy, hstands⟩ := h.filed y other hother
      rw [Place.rank_lt]
      rcases Nat.lt_trichotomy other.level level with hlt | heq | hgt
      · rw [hearlier _ hlt] at hstands
        cases hstands
      · rw [heq, hx] at hstands
        rcases List.mem_cons.mp hstands with hsame | hstands
        · exact Or.inl (hsame ▸ hcopy)
        · have hordered := h.ordered level
          rw [hx] at hordered
          have hlater := (List.pairwise_cons.mp hordered).1 other.copy hstands
          rw [h.congr _ _ hcopy] at hlater
          exact Or.inr (Or.inr ⟨heq.symm, hlater _ hplace _ hother⟩)
      · exact Or.inr (Or.inl hgt)

omit [Hashable α] [EquivBEq α] [LawfulHashable α] in
/-- The elements of a queue stand in the order of their places. -/
theorem Filed.inOrder {places : α → Option (Place α)} {now : Nat}
    (h : Filed queue.elementsAt places now) :
    queue.inOrder.Pairwise fun x y =>
      ∀ first ∈ places x, ∀ second ∈ places y, first.rank < second.rank := by
  refine List.pairwise_flatMap.mpr ⟨fun level _ => ?_, ?_⟩
  · refine (h.ordered level).imp_of_mem fun {x y} hx hy hlt first hfirst second hsecond => ?_
    obtain ⟨_, -, hplace⟩ := h.stands level x hx
    obtain ⟨_, -, hplace'⟩ := h.stands level y hy
    have htime := hlt first hfirst second hsecond
    cases hplace.symm.trans hfirst
    cases hplace'.symm.trans hsecond
    exact Place.rank_lt.mpr (Or.inr ⟨rfl, htime⟩)
  · refine List.pairwise_lt_range.imp fun {level level'} hlt x hx y hy first hfirst second hsecond => ?_
    obtain ⟨_, -, hplace⟩ := h.stands level x hx
    obtain ⟨_, -, hplace'⟩ := h.stands level' y hy
    cases hplace.symm.trans hfirst
    cases hplace'.symm.trans hsecond
    exact Place.rank_lt.mpr (Or.inl hlt)

omit [LawfulHashable α] in
theorem Filed.contains_iff {places : α → Option (Place α)} {now : Nat} (sound : queue.Sound)
    (h : Filed queue.elementsAt places now) (x : α) :
    queue.contains x = true ↔ (places x).isSome = true := by
  rw [sound.contains_iff]
  constructor
  · rintro ⟨level, hx⟩
    obtain ⟨y, hy, hxy⟩ := List.contains_iff_exists_mem_beq.mp hx
    obtain ⟨time, -, hplace⟩ := h.stands level y hy
    rw [h.congr x y hxy, hplace]
    rfl
  · intro hx
    obtain ⟨found, hfound⟩ := Option.isSome_iff_exists.mp hx
    obtain ⟨hcopy, hmem⟩ := h.filed x found hfound
    exact ⟨found.level, List.contains_iff_exists_mem_beq.mpr ⟨found.copy, hmem, BEq.symm hcopy⟩⟩

/-- A queue serves by level and then by time, and always the copy given last. The queued elements are those
that have a place by the history. What is served is the copy whose place is the first of all; nothing is
served if and only if nothing has a place; and draining the queue hands out every copy that has a place, in
the order of the places. -/
theorem served_in_order (ok : ofLevels levels = .ok queue) (operations : List (Operation α)) :
    let session := (Session.begin queue).run operations
    (∀ x, session.queue.contains x = true ↔ (place session.history x).isSome = true) ∧
      (session.queue.dequeue.1 = none ↔ ∀ x, place session.history x = none) ∧
      (∀ level x, session.queue.dequeue.1 = some (level, x) →
        ∃ time, place session.history x = some ⟨x, level, time⟩ ∧
          ∀ y other, place session.history y = some other →
            (x == y) = true ∨ (Place.mk x level time).rank < other.rank) ∧
      (∀ x, x ∈ session.queue.drain.1 ↔
        ∃ level time, place session.history x = some ⟨x, level, time⟩) ∧
      (session.queue.drain.1.Pairwise fun x y => ∀ first ∈ place session.history x,
        ∀ second ∈ place session.history y, first.rank < second.rank) ∧
      session.queue.drain.2.dequeue.1 = none := by
  intro session
  obtain ⟨tallied, filed⟩ := filed_of_run ok operations
  obtain ⟨hnone, hsome⟩ := filed.dequeue tallied.sound
  obtain ⟨hdrain, hempty⟩ := tallied.sound.drainWithin (Nat.lt_succ_self _)
  refine ⟨filed.contains_iff tallied.sound, hnone, hsome, fun x => ?_, ?_, hempty⟩
  · rw [drain, hdrain, mem_inOrder]
    constructor
    · rintro ⟨level, hx⟩
      obtain ⟨time, -, hplace⟩ := filed.stands level x hx
      exact ⟨level, time, hplace⟩
    · rintro ⟨level, time, hplace⟩
      exact ⟨level, (filed.filed x _ hplace).2⟩
  · rw [drain, hdrain]
    exact filed.inOrder

end Sessions

theorem served_marked : ofLevels 2 = .ok Marked.queue ∧
    ((Session.begin Marked.queue).run Marked.operations).queue.dequeue.1 = some (0, ⟨1, 2⟩) ∧
    ∃ time, place ((Session.begin Marked.queue).run Marked.operations).history ⟨1, 2⟩ =
        some ⟨⟨1, 2⟩, 0, time⟩ ∧
      ∀ y other, place ((Session.begin Marked.queue).run Marked.operations).history y = some other →
        ((⟨1, 2⟩ : Marked) == y) = true ∨ (Place.mk (⟨1, 2⟩ : Marked) 0 time).rank < other.rank :=
  ⟨Marked.ofLevels_queue, rfl,
    (served_in_order Marked.ofLevels_queue Marked.operations).2.2.1 0 ⟨1, 2⟩ rfl⟩

end PriorityQueue

end Dispatch
