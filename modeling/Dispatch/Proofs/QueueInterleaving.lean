import Dispatch.PriorityQueue.Interleaving
import Dispatch.Proofs.QueueOperations
import Mathlib.Data.List.Flatten
import Mathlib.Data.List.Perm.Basic
import Mathlib.Logic.Relation

/-!
# Callers of a priority queue side by side lose nothing

Any number of callers queue elements and take them, one action at a time and in any order. The map and the
levels of the queue may disagree while they do, but only by what is in the hands of a caller: an element
that is on the map and on its way into its level (`Crowd.coming`), or out of its level and still on the map
(`Crowd.going`). The invariant is that the map lists the elements in the levels, coming and going, each of
them once (`ShardMap.Lists`), and that what was queued is what stands in the levels, is going or was handed
out (`Accounted`). `Crowd.kept_of_reached` draws the conclusions, among them that the books agree again as soon as
no call is under way.

A caller that is not disturbed does what `enqueue` and `dequeue` do (`Crowd.Alone.enqueue`,
`Crowd.Alone.dequeue`).
-/

namespace Dispatch

/-! ### What a map lists -/

namespace ShardMap

variable {κ ν : Type} [BEq κ] [Hashable κ]

/-- The map enters each of these keys, no two of them equal, with its value, and nothing else. -/
structure Lists (map : ShardMap κ ν) (entries : List (ν × κ)) : Prop where
  sound : map.Sound
  distinct : entries.Pairwise fun first second => (first.2 == second.2) = false
  get?_iff : ∀ key value, map.get? key = some value ↔
    ∃ copy, (value, copy) ∈ entries ∧ (copy == key) = true
  size : map.size = entries.length

namespace Lists

variable {map : ShardMap κ ν} {entries others : List (ν × κ)} {key : κ} {value : ν}

theorem empty : (ShardMap.empty : ShardMap κ ν).Lists [] := by
  refine ⟨.empty, .nil, fun key value => ?_, ?_⟩
  · simp [get?_empty]
  · simp [ShardMap.size, ShardMap.empty, ofShards]

variable [EquivBEq κ]

theorem perm (h : map.Lists entries) (hperm : entries.Perm others) : map.Lists others := by
  refine ⟨h.sound, ?_, fun key value => ?_, h.size.trans hperm.length_eq⟩
  · refine h.distinct.perm hperm fun {first second} hne => ?_
    rw [BEq.comm]
    exact hne
  · rw [h.get?_iff]
    simp only [hperm.mem_iff]

variable [LawfulHashable κ]

theorem put (h : map.Lists entries) (hnone : map.get? key = none) (value : ν) :
    (map.put key value).Lists ((value, key) :: entries) := by
  have hnew : ∀ entry ∈ entries, (key == entry.2) = false := by
    intro entry hmem
    refine Bool.eq_false_iff.mpr fun hkey => ?_
    have hsome := (h.get?_iff key entry.1).mpr ⟨entry.2, hmem, BEq.symm hkey⟩
    rw [hnone] at hsome
    cases hsome
  refine ⟨h.sound.put key value, List.pairwise_cons.mpr ⟨hnew, h.distinct⟩,
    fun other found => ?_, ?_⟩
  · rw [get?_put]
    by_cases hkey : key == other
    · rw [if_pos hkey]
      constructor
      · intro heq
        cases heq
        exact ⟨key, List.mem_cons_self, hkey⟩
      · rintro ⟨copy, hmem, hcopy⟩
        rcases List.mem_cons.mp hmem with heq | hmem
        · cases heq
          rfl
        · have hsame : key == copy := BEq.trans hkey (BEq.symm hcopy)
          rw [hnew _ hmem] at hsame
          cases hsame
    · rw [if_neg hkey, h.get?_iff]
      refine exists_congr fun copy => and_congr_left fun hcopy => ?_
      rw [List.mem_cons, or_iff_right]
      intro heq
      cases heq
      exact hkey hcopy
  · have hsize := map.size_put key value
    rw [contains, hnone] at hsize
    rw [List.length_cons, ← h.size]
    simpa using hsize

theorem remove (h : map.Lists ((value, key) :: entries)) : (map.remove key).2.Lists entries := by
  obtain ⟨hnew, hdistinct⟩ := List.pairwise_cons.mp h.distinct
  have hkey : map.get? key = some value :=
    (h.get?_iff key value).mpr ⟨key, List.mem_cons_self, BEq.refl key⟩
  refine ⟨h.sound.remove key, hdistinct, fun other found => ?_, ?_⟩
  · rw [get?_remove]
    by_cases hother : key == other
    · rw [if_pos hother]
      refine iff_of_false (fun heq => nomatch heq) ?_
      rintro ⟨copy, hmem, hcopy⟩
      have hsame : key == copy := BEq.trans hother (BEq.symm hcopy)
      rw [hnew _ hmem] at hsame
      cases hsame
    · rw [if_neg hother, h.get?_iff]
      refine exists_congr fun copy => and_congr_left fun hcopy => ?_
      rw [List.mem_cons, or_iff_right]
      intro heq
      cases heq
      exact hother hcopy
  · have hsize := h.sound.size_remove key
    have hlength := h.size
    rw [contains, hkey] at hsize
    rw [List.length_cons] at hlength
    simp only [Option.isSome_some, if_true] at hsize
    omega

omit [LawfulHashable κ] in
theorem countP (h : map.Lists entries) (key : κ) :
    entries.countP (·.2 == key) = if map.contains key then 1 else 0 := by
  cases hget : map.get? key with
  | none =>
    rw [contains, hget, if_neg (by simp), List.countP_eq_zero]
    intro entry hmem hkey
    have hsome := (h.get?_iff key entry.1).mpr ⟨entry.2, hmem, hkey⟩
    rw [hget] at hsome
    cases hsome
  | some value =>
    obtain ⟨copy, hmem, hcopy⟩ := (h.get?_iff key value).mp hget
    obtain ⟨before, later, rfl⟩ := List.append_of_mem hmem
    have hapart := (h.perm List.perm_middle).distinct
    have hrest : (before ++ later).countP (·.2 == key) = 0 := by
      refine List.countP_eq_zero.mpr fun entry hentry hkey => ?_
      have hsame : copy == entry.2 := BEq.trans hcopy (BEq.symm hkey)
      rw [(List.pairwise_cons.mp hapart).1 entry hentry] at hsame
      cases hsame
    rw [contains, hget, List.perm_middle.countP_eq, List.countP_cons, hrest, if_pos hcopy]
    rfl

end Lists

end ShardMap

namespace PriorityQueue

variable {α : Type}

/-! ### What callers have in hand and what they were told -/

namespace Stage

/-- The element that is on the map and on its way into its level. -/
def coming : Stage α → List (Nat × α)
  | pushing level element => [(level, element)]
  | _ => []

/-- The element that is out of its level and still on the map. -/
def going : Stage α → List (Nat × α)
  | leaving level element => [(level, element)]
  | _ => []

def held (stage : Stage α) : List (Nat × α) :=
  stage.coming ++ stage.going

def InRange (levels : Nat) : Stage α → Prop
  | entering level _ | pushing level _ => level < levels
  | _ => True

theorem flatMap_idle {β : Type} {stages : List (Stage α)} (hidle : ∀ stage ∈ stages, stage = .idle)
    {read : Stage α → List β} (hread : read .idle = []) : stages.flatMap read = [] := by
  refine List.flatMap_eq_nil_iff.mpr fun stage hmem => ?_
  rw [hidle stage hmem, hread]

end Stage

namespace Reply

def queued? : Reply α → Option (Nat × α)
  | queued level element => some (level, element)
  | _ => none

def served? : Reply α → Option (Nat × α)
  | served found => found
  | _ => none

end Reply

def enqueued (replies : List (Reply α)) : List (Nat × α) :=
  replies.filterMap Reply.queued?

def dequeued (replies : List (Reply α)) : List (Nat × α) :=
  replies.filterMap Reply.served?

namespace Crowd

def coming (crowd : Crowd α) : List (Nat × α) :=
  crowd.stages.flatMap Stage.coming

def going (crowd : Crowd α) : List (Nat × α) :=
  crowd.stages.flatMap Stage.going

end Crowd

variable [BEq α] [Hashable α]

/-- The map lists what stands in the levels, is coming and is going; and what was queued stands in the
levels, is going or was handed out. -/
structure Accounted (levels : Nat) (queue : PriorityQueue α) (stages : List (Stage α))
    (replies : List (Reply α)) : Prop where
  fixed : queue.levels.size = levels
  inRange : ∀ stage ∈ stages, stage.InRange levels
  occupancy : ∀ level ∈ queue.levels, level.occupancy = level.elements.length
  lists : queue.levelOf.Lists (queue.places ++ stages.flatMap Stage.held)
  balance : (enqueued replies).Perm
    (queue.places ++ (stages.flatMap Stage.going ++ dequeued replies))

namespace Accounted

variable {levels level : Nat} {queue after : PriorityQueue α} {stages rest others : List (Stage α)}
  {stage next : Stage α} {replies : List (Reply α)} {x : α}

theorem ofQueue (ok : ofLevels levels = .ok queue) (callers : Nat) :
    Accounted levels queue (List.replicate callers .idle) [] := by
  have hidle : ∀ stage ∈ List.replicate callers (Stage.idle : Stage α), stage = .idle :=
    fun stage hmem => List.eq_of_mem_replicate hmem
  have hheld := Stage.flatMap_idle hidle (rfl : Stage.held .idle = [])
  have hgoing := Stage.flatMap_idle hidle (rfl : Stage.going .idle = [])
  have hplaces : queue.places = [] := by
    refine List.flatMap_eq_nil_iff.mpr fun level _ => ?_
    rw [elementsAt_ofLevels ok, List.map_nil]
  have sound := Sound.ofLevels ok
  rw [ofLevels] at ok
  split at ok
  · cases ok
  · cases ok
    refine ⟨Array.size_replicate, fun stage hmem => ?_, sound.occupancy, ?_, ?_⟩
    · rw [hidle stage hmem]
      trivial
    · rw [hplaces, hheld]
      exact .empty
    · rw [hplaces, hgoing]
      exact .nil

variable [EquivBEq α]

theorem perm (h : Accounted levels queue stages replies) (hperm : stages.Perm others) :
    Accounted levels queue others replies where
  fixed := h.fixed
  inRange stage hmem := h.inRange stage (hperm.mem_iff.mpr hmem)
  occupancy := h.occupancy
  lists := h.lists.perm ((hperm.flatMap_right Stage.held).append_left _)
  balance := h.balance.trans (((hperm.flatMap_right Stage.going).append_right _).append_left _)

omit [EquivBEq α] in
theorem turn (h : Accounted levels queue (stage :: rest) replies) {reply : Option (Reply α)}
    (hheld : next.held = stage.held) (hgoing : next.going = stage.going)
    (hrange : next.InRange levels) (henqueued : enqueued (reply.toList ++ replies) = enqueued replies)
    (hdequeued : dequeued (reply.toList ++ replies) = dequeued replies) :
    Accounted levels queue (next :: rest) (reply.toList ++ replies) where
  fixed := h.fixed
  inRange := List.forall_mem_cons.mpr ⟨hrange, (List.forall_mem_cons.mp h.inRange).2⟩
  occupancy := h.occupancy
  lists := by
    have hlists := h.lists
    rw [List.flatMap_cons] at hlists ⊢
    rw [hheld]
    exact hlists
  balance := by
    have hbalance := h.balance
    rw [List.flatMap_cons] at hbalance ⊢
    rw [henqueued, hdequeued, hgoing]
    exact hbalance

theorem tallied (h : Accounted levels queue stages replies)
    (hidle : ∀ stage ∈ stages, stage = .idle) : queue.Tallied := by
  have hheld := Stage.flatMap_idle hidle (rfl : Stage.held .idle = [])
  have hlists := h.lists
  rw [hheld, List.append_nil] at hlists
  refine ⟨⟨h.occupancy, fun level => ?_, fun level x => ?_⟩, hlists.sound, ?_⟩
  · by_cases hlt : level < queue.levels.size
    · have hlevel := (List.pairwise_flatMap.mp hlists.distinct).1 level (List.mem_range.mpr hlt)
      exact List.pairwise_map.mp hlevel
    · have hnil : queue.elementsAt level = [] := by
        simp [elementsAt, Array.getElem?_eq_none (Nat.le_of_not_lt hlt)]
      rw [hnil]
      exact .nil
  · rw [hlists.get?_iff, List.contains_iff_exists_mem_beq]
    refine exists_congr fun copy => ?_
    rw [mem_places, BEq.comm]
  · rw [PriorityQueue.size, hlists.size, places, List.length_flatMap]
    simp only [List.length_map]
    rfl

/-- An element is listed once among the levels, coming and going if it is on the map, and not at all
otherwise. -/
theorem once (h : Accounted levels queue stages replies) (x : α) :
    queue.places.countP (·.2 == x) + (stages.flatMap Stage.coming).countP (·.2 == x) +
      (stages.flatMap Stage.going).countP (·.2 == x) = if queue.contains x then 1 else 0 := by
  have hcount := h.lists.countP x
  have hheld : (stages.flatMap Stage.coming ++ stages.flatMap Stage.going).Perm
      (stages.flatMap Stage.held) := List.flatMap_append_perm stages Stage.coming Stage.going
  rw [List.countP_append, ← hheld.countP_eq, List.countP_append] at hcount
  rw [Nat.add_assoc]
  exact hcount

/-- An element was queued as often as it was handed out, or once more. -/
theorem matched (h : Accounted levels queue stages replies) (x : α) :
    (dequeued replies).countP (·.2 == x) ≤ (enqueued replies).countP (·.2 == x) ∧
      (enqueued replies).countP (·.2 == x) ≤ (dequeued replies).countP (·.2 == x) + 1 := by
  have honce := h.once x
  have hbalance := h.balance.countP_eq (·.2 == x)
  rw [List.countP_append, List.countP_append] at hbalance
  split at honce <;> omega

/-! ### The actions of a caller -/

variable [LawfulHashable α]

/-- An element that is on the map already is refused; any other is entered, and is coming. -/
theorem entering (h : Accounted levels queue (.entering level x :: rest) replies) :
    Accounted levels (Stage.step queue (.entering level x)).1
      ((Stage.step queue (.entering level x)).2.1 :: rest)
      ((Stage.step queue (.entering level x)).2.2.toList ++ replies) := by
  obtain ⟨hlevel, hrest⟩ := List.forall_mem_cons.mp h.inRange
  rw [Stage.step, ShardMap.getThenInsertIfNew?]
  cases hx : queue.levelOf.get? x with
  | some other => exact h.turn rfl rfl trivial rfl rfl
  | none =>
    refine ⟨h.fixed, List.forall_mem_cons.mpr ⟨hlevel, hrest⟩, h.occupancy, ?_, h.balance⟩
    have hlists : queue.levelOf.Lists (queue.places ++ rest.flatMap Stage.held) := h.lists
    exact (hlists.put hx level).perm List.perm_middle.symm

omit [LawfulHashable α] in
theorem pushing (h : Accounted levels queue (.pushing level x :: rest) replies) :
    Accounted levels (queue.push level x) (.idle :: rest) (.queued level x :: replies) := by
  obtain ⟨hlevel, hrest⟩ := List.forall_mem_cons.mp h.inRange
  have hlt : level < queue.levels.size := h.fixed.symm ▸ hlevel
  have hpush := queue.places_push hlt x
  refine ⟨(Array.size_modify ..).trans h.fixed, List.forall_mem_cons.mpr ⟨trivial, hrest⟩,
    occupancy_push h.occupancy level x, ?_, ?_⟩
  · have hlists : queue.levelOf.Lists (queue.places ++ (level, x) :: rest.flatMap Stage.held) :=
      h.lists
    exact hlists.perm (List.perm_middle.trans (hpush.append_right _).symm)
  · exact (h.balance.cons (level, x)).trans (hpush.append_right _).symm

omit [LawfulHashable α] in
theorem popping {later : List Nat} (h : Accounted levels queue (.popping level later :: rest) replies) :
    Accounted levels (Stage.step queue (.popping level later)).1
      ((Stage.step queue (.popping level later)).2.1 :: rest)
      ((Stage.step queue (.popping level later)).2.2.toList ++ replies) := by
  obtain ⟨-, hrest⟩ := List.forall_mem_cons.mp h.inRange
  have hskip : Accounted levels queue (.looking later :: rest)
      ((none : Option (Reply α)).toList ++ replies) := h.turn rfl rfl trivial rfl rfl
  rw [Stage.step]
  cases hfound : queue.levels[level]? with
  | none => exact hskip
  | some found =>
    have hocc := h.occupancy found (Array.mem_of_getElem? hfound)
    have helements := elementsAt_of_getElem? hfound
    obtain ⟨elements, occupancy⟩ := found
    cases elements with
    | nil =>
      -- the level is as it was
      cases hocc
      have hsame : queue.levels.setIfInBounds level (.ofList []) = queue.levels := by
        obtain ⟨hlt, hget⟩ := Array.getElem?_eq_some_iff.mp hfound
        have hempty : queue.levels[level] = .ofList [] := hget
        rw [← hempty, Array.setIfInBounds_def, dif_pos hlt, Array.set_getElem_self]
      show Accounted levels { queue with levels := queue.levels.setIfInBounds level (.ofList []) } _ _
      rw [hsame]
      exact hskip
    | cons x elements =>
      have hpop := places_pop helements
      have hlists : queue.levelOf.Lists (queue.places ++ rest.flatMap Stage.held) := h.lists
      refine ⟨Array.size_setIfInBounds.trans h.fixed, List.forall_mem_cons.mpr ⟨trivial, hrest⟩,
        occupancy_setIfInBounds h.occupancy level elements, ?_, ?_⟩
      · exact hlists.perm ((hpop.append_right _).trans List.perm_middle.symm)
      · exact h.balance.trans ((hpop.append_right _).trans List.perm_middle.symm)

theorem leaving (h : Accounted levels queue (.leaving level x :: rest) replies) :
    Accounted levels { queue with levelOf := (queue.levelOf.remove x).2 } (.idle :: rest)
      (.served (some (level, x)) :: replies) := by
  obtain ⟨-, hrest⟩ := List.forall_mem_cons.mp h.inRange
  refine ⟨h.fixed, List.forall_mem_cons.mpr ⟨trivial, hrest⟩, h.occupancy, ?_, ?_⟩
  · have hlists : queue.levelOf.Lists (queue.places ++ (level, x) :: rest.flatMap Stage.held) :=
      h.lists
    exact (hlists.perm List.perm_middle).remove
  · exact h.balance.trans (List.perm_middle.symm.append_left _)

/-- Every action of every caller keeps the account. -/
theorem step (h : Accounted levels queue (stage :: rest) replies) :
    Accounted levels (stage.step queue).1 ((stage.step queue).2.1 :: rest)
      ((stage.step queue).2.2.toList ++ replies) := by
  cases stage with
  | idle => exact h
  | entering level x => exact h.entering
  | pushing level x => exact h.pushing
  | looking later =>
    cases later with
    | nil => exact h.turn rfl rfl trivial rfl rfl
    | cons level later =>
      rw [Stage.step]
      split
      · exact h.turn rfl rfl trivial rfl rfl
      · exact h.turn rfl rfl trivial rfl rfl
  | popping level later => exact h.popping
  | leaving level x => exact h.leaving

omit [EquivBEq α] [LawfulHashable α] in
theorem call (h : Accounted levels queue (.idle :: rest) replies) (request : Request α) :
    Accounted levels queue ((request.begin queue).1 :: rest)
      ((request.begin queue).2.toList ++ replies) := by
  cases request with
  | enqueue x priority =>
    rw [Request.begin]
    cases hcheck : queue.checkPriority priority with
    | error fault => exact h.turn rfl rfl trivial rfl rfl
    | ok done =>
      have hlevel : priority < levels := h.fixed ▸ checkPriority_ok hcheck
      exact h.turn rfl rfl hlevel rfl rfl
  | dequeue => exact h.turn rfl rfl trivial rfl rfl

end Accounted

namespace Crowd

/-- What comes about when callers of a new queue begin calls and act in any order. -/
inductive Reached (levels : Nat) : Crowd α → Prop
  | start {queue : PriorityQueue α} (ok : ofLevels levels = .ok queue) (callers : Nat) :
      Reached levels (.ofQueue queue callers)
  | call {crowd : Crowd α} (prior : Reached levels crowd) (caller : Nat) (request : Request α) :
      Reached levels (crowd.call caller request)
  | step {crowd : Crowd α} (prior : Reached levels crowd) (caller : Nat) :
      Reached levels (crowd.step caller)

variable {levels : Nat} {crowd : Crowd α} [EquivBEq α] [LawfulHashable α]

theorem Reached.accounted (reached : crowd.Reached levels) :
    Accounted levels crowd.queue crowd.stages crowd.replies := by
  induction reached with
  | start ok callers => exact .ofQueue ok callers
  | @call crowd _ caller request ih =>
    rw [Crowd.call]
    split
    · next hidle =>
      obtain ⟨hlt, hstage⟩ := List.getElem?_eq_some_iff.mp hidle
      have hsplit := ih.perm (List.getElem_cons_eraseIdx_perm hlt).symm
      rw [hstage] at hsplit
      exact (hsplit.call request).perm (List.set_perm_cons_eraseIdx hlt _).symm
    · exact ih
  | @step crowd _ caller ih =>
    rw [Crowd.step]
    split
    · exact ih
    · next stage hstage =>
      obtain ⟨hlt, rfl⟩ := List.getElem?_eq_some_iff.mp hstage
      have hsplit := ih.perm (List.getElem_cons_eraseIdx_perm hlt).symm
      exact hsplit.step.perm (List.set_perm_cons_eraseIdx hlt _).symm

omit [EquivBEq α] [LawfulHashable α] in
/-- What callers had been told at some time is what they have been told in a crowd that was reached. -/
theorem Reached.past (reached : crowd.Reached levels) {past : List (Reply α)}
    (hpast : past <:+ crowd.replies) : ∃ earlier, Reached levels earlier ∧ earlier.replies = past := by
  have split {reply : Option (Reply α)} {replies : List (Reply α)}
      (h : past <:+ reply.toList ++ replies) : past = reply.toList ++ replies ∨ past <:+ replies := by
    cases reply with
    | none => exact Or.inr h
    | some reply => exact List.suffix_cons_iff.mp h
  induction reached with
  | start ok callers =>
    have hnil : past = [] := List.suffix_nil.mp hpast
    exact ⟨_, .start ok callers, hnil.symm⟩
  | @call crowd prior caller request ih =>
    have hnow := prior.call caller request
    rw [Crowd.call] at hpast hnow
    split at hpast
    · next hidle =>
      rw [hidle] at hnow
      rcases split hpast with rfl | hpast
      · exact ⟨_, hnow, rfl⟩
      · exact ih hpast
    · exact ih hpast
  | @step crowd prior caller ih =>
    have hnow := prior.step caller
    rw [Crowd.step] at hpast hnow
    split at hpast
    · exact ih hpast
    · next stage hstage =>
      rw [hstage] at hnow
      rcases split hpast with rfl | hpast
      · exact ⟨_, hnow, rfl⟩
      · exact ih hpast

structure Kept (levels : Nat) (crowd : Crowd α) : Prop where
  /-- An element is on the map with a level exactly if a copy of it stands there, is coming there, or came
  from there and is going. -/
  levelOf : ∀ x level, crowd.queue.levelOf.get? x = some level ↔
    ∃ copy, (copy == x) = true ∧
      ((level, copy) ∈ crowd.queue.places ∨ (level, copy) ∈ crowd.coming ∨ (level, copy) ∈ crowd.going)
  /-- Of an element on the map exactly one of these holds, and exactly once; of any other, none. -/
  once : ∀ x, crowd.queue.places.countP (·.2 == x) + crowd.coming.countP (·.2 == x) +
    crowd.going.countP (·.2 == x) = if crowd.queue.contains x then 1 else 0
  /-- The copies that were queued are those in the levels, those going and those handed out. -/
  balance : (enqueued crowd.replies).Perm
    (crowd.queue.places ++ (crowd.going ++ dequeued crowd.replies))
  /-- At any time until now an element had been queued as often as it had been handed out, or once more. -/
  matched : ∀ past, past <:+ crowd.replies → ∀ x,
    (dequeued past).countP (·.2 == x) ≤ (enqueued past).countP (·.2 == x) ∧
      (enqueued past).countP (·.2 == x) ≤ (dequeued past).countP (·.2 == x) + 1
  /-- The books agree when nobody is in a call. -/
  coherent : (∀ stage ∈ crowd.stages, stage = .idle) → crowd.queue.Coherent levels

/-- Whatever callers ask for and whatever the order in which they act, nothing is lost and nothing is there
twice. -/
theorem kept_of_reached (reached : crowd.Reached levels) : crowd.Kept levels := by
  have h := reached.accounted
  refine ⟨fun x level => ?_, h.once, h.balance, fun past hpast x => ?_, fun hidle => ?_⟩
  · have hheld : (crowd.coming ++ crowd.going).Perm (crowd.stages.flatMap Stage.held) :=
      List.flatMap_append_perm crowd.stages Stage.coming Stage.going
    rw [h.lists.get?_iff]
    refine exists_congr fun copy => ?_
    rw [List.mem_append, ← hheld.mem_iff, List.mem_append, and_comm]
  · obtain ⟨earlier, hearlier, rfl⟩ := reached.past hpast
    exact hearlier.accounted.matched x
  · have hcoherent := (h.tallied hidle).coherent
    rw [h.fixed] at hcoherent
    exact hcoherent

/-- One caller queues an element, another one takes it out of its level. The first is refused to queue a copy
of the element as long as that is on the map, tries again when it is off the map, and has entered another
copy. -/
def rush : Crowd Marked :=
  (ofQueue Marked.queue 2).call 0 (.enqueue ⟨1, 0⟩ 1) |>.step 0 |>.step 0
    |>.call 1 .dequeue |>.step 1 |>.step 1 |>.step 1
    |>.call 0 (.enqueue ⟨1, 1⟩ 0) |>.step 0
    |>.step 1
    |>.call 0 (.enqueue ⟨1, 2⟩ 0) |>.step 0

theorem kept_rush : ofLevels 2 = .ok Marked.queue ∧
    rush.stages = [.pushing 0 ⟨1, 2⟩, .idle] ∧
    rush.replies = [.served (some (1, ⟨1, 0⟩)), .refused .duplicate, .queued 1 ⟨1, 0⟩] ∧
    rush.Kept 2 :=
  ⟨Marked.ofLevels_queue, rfl, rfl, kept_of_reached <| (Reached.start Marked.ofLevels_queue 2)
    |>.call 0 _ |>.step 0 |>.step 0 |>.call 1 _ |>.step 1 |>.step 1 |>.step 1
    |>.call 0 _ |>.step 0 |>.step 1 |>.call 0 _ |>.step 0⟩

end Crowd

/-! ### A caller that is not disturbed -/

/-- The second crowd comes from the first by actions of one caller alone. -/
abbrev Crowd.Alone (caller : Nat) : Crowd α → Crowd α → Prop :=
  Relation.ReflTransGen fun before after => after = before.step caller

namespace Crowd.Alone

variable {queue : PriorityQueue α} {stages : List (Stage α)} {stage : Stage α}
  {replies : List (Reply α)} {caller : Nat} {after : Crowd α}

theorem step (hlt : caller < stages.length)
    (h : Alone caller ⟨(stage.step queue).1, stages.set caller (stage.step queue).2.1,
      (stage.step queue).2.2.toList ++ replies⟩ after) :
    Alone caller ⟨queue, stages.set caller stage, replies⟩ after := by
  refine .head ?_ h
  have hstage : (stages.set caller stage)[caller]? = some stage := List.getElem?_set_self hlt
  rw [Crowd.step, hstage]
  dsimp only
  rw [List.set_set]

theorem dequeueFrom (hlt : caller < stages.length) (levels : List Nat) :
    Alone caller ⟨queue, stages.set caller (.looking levels), replies⟩
      ⟨(queue.dequeueFrom levels).2, stages.set caller .idle,
        .served (queue.dequeueFrom levels).1 :: replies⟩ := by
  induction levels generalizing queue with
  | nil => exact step hlt .refl
  | cons level later ih =>
    refine step hlt ?_
    rw [Stage.step, PriorityQueue.dequeueFrom, levelSize]
    cases hfound : queue.levels[level]? with
    | none => exact ih
    | some found =>
      by_cases hempty : found.occupancy = 0
      · simp only [Option.map_some, Option.getD_some, hempty, if_true]
        exact ih
      · simp only [Option.map_some, Option.getD_some, hempty, if_false]
        refine step hlt ?_
        rw [Stage.step, hfound]
        dsimp only
        cases hfirst : found.pop.1 with
        | none => exact ih
        | some x => exact step hlt .refl

theorem dequeue {crowd : Crowd α} (hidle : crowd.stages[caller]? = some .idle) :
    Alone caller (crowd.call caller .dequeue)
      ⟨crowd.queue.dequeue.2, crowd.stages, .served crowd.queue.dequeue.1 :: crowd.replies⟩ := by
  obtain ⟨hlt, hstage⟩ := List.getElem?_eq_some_iff.mp hidle
  have hdequeue : Alone caller _ ⟨crowd.queue.dequeue.2, crowd.stages.set caller .idle,
      .served crowd.queue.dequeue.1 :: crowd.replies⟩ :=
    dequeueFrom hlt (List.range crowd.queue.levels.size)
  rw [← hstage, List.set_getElem_self] at hdequeue
  rw [Crowd.call, hidle]
  exact hdequeue

theorem enqueue {crowd : Crowd α} (hidle : crowd.stages[caller]? = some .idle) (x : α)
    (priority : Nat) :
    Alone caller (crowd.call caller (.enqueue x priority))
      (match crowd.queue.enqueue x priority with
      | .error fault => ⟨crowd.queue, crowd.stages, .refused fault :: crowd.replies⟩
      | .ok queue => ⟨queue, crowd.stages, .queued priority x :: crowd.replies⟩) := by
  obtain ⟨hlt, hstage⟩ := List.getElem?_eq_some_iff.mp hidle
  have hrest : crowd.stages.set caller .idle = crowd.stages := by
    rw [← hstage, List.set_getElem_self]
  rw [Crowd.call, hidle, PriorityQueue.enqueue]
  dsimp only
  rw [Request.begin]
  cases hcheck : crowd.queue.checkPriority priority with
  | error fault =>
    dsimp only
    rw [hrest]
    exact .refl
  | ok done =>
    refine step hlt ?_
    rw [Stage.step]
    generalize crowd.queue.levelOf.getThenInsertIfNew? x priority = answer
    obtain ⟨found, levelOf⟩ := answer
    cases found with
    | some current =>
      dsimp only
      rw [hrest]
      exact .refl
    | none =>
      refine step hlt ?_
      rw [Stage.step]
      dsimp only
      rw [hrest]
      exact .refl

end Crowd.Alone

end PriorityQueue

end Dispatch
