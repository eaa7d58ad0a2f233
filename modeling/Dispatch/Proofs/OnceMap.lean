import Dispatch.OnceMap
import Dispatch.Proofs.ShardOperations

/-!
# Every key of a write-once map is written once

Whatever is asked of a map that starts out empty, the value of a key is that of the first assignment to an
equal key (`Records`): an operation adds to the map what it adds to this record of the operations, and a
refused one adds nothing to either. So the first assignment is the one that succeeds, its value stays, and
the size is the number of keys assigned, however they are hashed and whatever is tried again
(`written_once`).
-/

namespace Dispatch

namespace OnceMap

variable {κ ν : Type}

inductive Operation (κ ν : Type) where
  | set (key : κ) (value : ν)
  | get (key : κ)
  | isAssigned (key : κ)
  | size
  | isEmpty

inductive Answer (κ ν : Type) where
  | done
  | refused (fault : OnceFault κ)
  | value (found : ν)
  | truth (holds : Bool)
  | count (number : Nat)
  deriving DecidableEq

/-! ### What is recorded of operations -/

section Record

variable [BEq κ]

def Operation.valueFor? (key : κ) : Operation κ ν → Option ν
  | .set other value => if other == key then some value else none
  | _ => none

def firstValue? (operations : List (Operation κ ν)) (key : κ) : Option ν :=
  operations.findSome? (·.valueFor? key)

theorem firstValue?_concat (operations : List (Operation κ ν)) (operation : Operation κ ν) (key : κ) :
    firstValue? (operations ++ [operation]) key =
      (firstValue? operations key).or (operation.valueFor? key) := by
  rw [firstValue?, List.findSome?_append, List.findSome?_singleton]
  rfl

/-- What comes after the first assignment to a key does not change which one is the first. -/
theorem firstValue?_append {operations : List (Operation κ ν)} {key : κ} {value : ν}
    (h : firstValue? operations key = some value) (later : List (Operation κ ν)) :
    firstValue? (operations ++ later) key = some value := by
  rw [firstValue?] at h ⊢
  rw [List.findSome?_append, h]
  rfl

theorem exists_firstValue?_iff {operations : List (Operation κ ν)} {key : κ} :
    (∃ value, firstValue? operations key = some value) ↔
      ∃ other value, .set other value ∈ operations ∧ (other == key) = true := by
  rw [← Option.isSome_iff_exists, firstValue?, List.findSome?_isSome_iff]
  constructor
  · rintro ⟨operation, hmem, hvalue⟩
    cases operation with
    | set other value =>
      refine ⟨other, value, hmem, ?_⟩
      rw [Operation.valueFor?] at hvalue
      split at hvalue
      · assumption
      · cases hvalue
    | _ => cases hvalue
  · rintro ⟨other, value, hmem, heq⟩
    refine ⟨_, hmem, ?_⟩
    rw [Operation.valueFor?, if_pos heq]
    rfl

variable [EquivBEq κ]

/-- Equal keys have the same first value. -/
theorem firstValue?_congr (operations : List (Operation κ ν)) {key other : κ}
    (h : (key == other) = true) : firstValue? operations key = firstValue? operations other := by
  have hvalue : ∀ operation : Operation κ ν, operation.valueFor? key = operation.valueFor? other := by
    intro operation
    cases operation with
    | set third value => rw [Operation.valueFor?, Operation.valueFor?, BEq.congr_right h]
    | _ => rfl
  rw [firstValue?, firstValue?, funext hvalue]

def Operation.class? : Operation κ ν → Option (KeyClass κ)
  | .set key _ => some (.of key)
  | _ => none

/-- The keys that are assigned, equal keys counting as one. -/
def keysSet (operations : List (Operation κ ν)) : Finset (KeyClass κ) :=
  (operations.filterMap Operation.class?).toFinset

theorem mem_keysSet {operations : List (Operation κ ν)} {key : κ} :
    .of key ∈ keysSet operations ↔ ∃ value, firstValue? operations key = some value := by
  rw [exists_firstValue?_iff, keysSet, List.mem_toFinset, List.mem_filterMap]
  constructor
  · rintro ⟨operation, hmem, hclass⟩
    cases operation with
    | set other value =>
      exact ⟨other, value, hmem, KeyClass.of_eq_of.mp (Option.some.inj hclass)⟩
    | _ => cases hclass
  · rintro ⟨other, value, hmem, heq⟩
    exact ⟨_, hmem, congrArg some (KeyClass.of_eq_of.mpr heq)⟩

theorem keysSet_concat_set (operations : List (Operation κ ν)) (key : κ) (value : ν) :
    keysSet (operations ++ [.set key value]) = insert (.of key) (keysSet operations) := by
  ext other
  simp [keysSet, Operation.class?, eq_comm]

theorem keysSet_concat_of_none (operations : List (Operation κ ν)) {operation : Operation κ ν}
    (h : operation.class? = none) : keysSet (operations ++ [operation]) = keysSet operations := by
  simp [keysSet, h]

end Record

/-! ### Operations in turn -/

section Runs

variable [BEq κ] [Hashable κ]

/-- Performs an operation; one that is refused leaves the map as it is. -/
def perform (map : OnceMap κ ν) : Operation κ ν → Answer κ ν × OnceMap κ ν
  | .set key value =>
    match map.set key value with
    | .ok assigned => (.done, assigned)
    | .error fault => (.refused fault, map)
  | .get key =>
    match map.get key with
    | .ok value => (.value value, map)
    | .error fault => (.refused fault, map)
  | .isAssigned key => (.truth (map.isAssigned key), map)
  | .size => (.count map.size, map)
  | .isEmpty => (.truth map.isEmpty, map)

def run (operations : List (Operation κ ν)) : OnceMap κ ν :=
  operations.foldl (fun map operation => (map.perform operation).2) empty

def answerAfter (operations : List (Operation κ ν)) (operation : Operation κ ν) : Answer κ ν :=
  ((run operations).perform operation).1

/-- One of the operations assigned the value to an equal key, and was answered with success. -/
def Assigns (operations : List (Operation κ ν)) (key : κ) (value : ν) : Prop :=
  ∃ before other later, operations = before ++ .set other value :: later ∧ (other == key) = true ∧
    answerAfter before (.set other value) = .done

theorem run_concat (operations : List (Operation κ ν)) (operation : Operation κ ν) :
    run (operations ++ [operation]) = ((run operations).perform operation).2 := by
  rw [run, List.foldl_concat]
  rfl

variable [EquivBEq κ]

structure Records (map : OnceMap κ ν) (operations : List (Operation κ ν)) : Prop where
  sound : map.entries.Sound
  get? : ∀ key, map.entries.get? key = firstValue? operations key
  size : map.size = (keysSet operations).card

namespace Records

variable {map : OnceMap κ ν} {operations : List (Operation κ ν)}

theorem empty : (empty : OnceMap κ ν).Records [] where
  sound := .empty
  get? key := ShardMap.get?_empty key
  size := ShardMap.Sound.empty.size_eq_zero ShardMap.get?_empty

/-- An operation that assigns nothing leaves the record as it is. -/
theorem of_class?_eq_none (h : map.Records operations) {operation : Operation κ ν}
    (hclass : operation.class? = none) : map.Records (operations ++ [operation]) where
  sound := h.sound
  get? key := by
    have hvalue : operation.valueFor? key = none := by
      cases operation with
      | set other value => cases hclass
      | _ => rfl
    rw [firstValue?_concat, hvalue, Option.or_none]
    exact h.get? key
  size := by
    rw [keysSet_concat_of_none operations hclass]
    exact h.size

/-- A second assignment leaves the record as it is. -/
theorem refused (h : map.Records operations) {key : κ} {first : ν}
    (hfirst : firstValue? operations key = some first) (value : ν) :
    map.Records (operations ++ [.set key value]) where
  sound := h.sound
  get? other := by
    rw [h.get?, firstValue?_concat, Operation.valueFor?]
    by_cases heq : key == other
    · rw [← firstValue?_congr operations heq, hfirst]
      rfl
    · rw [if_neg heq, Option.or_none]
  size := by
    rw [keysSet_concat_set, Finset.insert_eq_of_mem (mem_keysSet.mpr ⟨first, hfirst⟩)]
    exact h.size

variable [LawfulHashable κ]

/-- The first assignment to a key is recorded. -/
theorem assigned (h : map.Records operations) {key : κ}
    (hnone : firstValue? operations key = none) (value : ν) :
    (⟨map.entries.put key value⟩ : OnceMap κ ν).Records (operations ++ [.set key value]) where
  sound := h.sound.put key value
  get? other := by
    rw [ShardMap.get?_put, h.get?, firstValue?_concat, Operation.valueFor?]
    by_cases heq : key == other
    · rw [if_pos heq, if_pos heq, ← firstValue?_congr operations heq, hnone]
      rfl
    · rw [if_neg heq, if_neg heq, Option.or_none]
  size := by
    have hnew : KeyClass.of key ∉ keysSet operations := by
      intro hmem
      obtain ⟨first, hfirst⟩ := mem_keysSet.mp hmem
      rw [hnone] at hfirst
      cases hfirst
    have hput := map.entries.size_put key value
    rw [ShardMap.contains, h.get?, hnone] at hput
    rw [keysSet_concat_set, Finset.card_insert_of_notMem hnew, ← h.size]
    exact hput

/-- Every operation adds to the map what it adds to the record. -/
theorem perform (h : map.Records operations) (operation : Operation κ ν) :
    (map.perform operation).2.Records (operations ++ [operation]) := by
  cases operation with
  | set key value =>
    rw [OnceMap.perform, set, ShardMap.getThenInsertIfNew?, h.get?]
    cases hfirst : firstValue? operations key with
    | none => exact h.assigned hfirst value
    | some first => exact h.refused hfirst value
  | get key =>
    rw [OnceMap.perform]
    split <;> exact h.of_class?_eq_none rfl
  | isAssigned key => exact h.of_class?_eq_none rfl
  | size => exact h.of_class?_eq_none rfl
  | isEmpty => exact h.of_class?_eq_none rfl

end Records

variable [LawfulHashable κ]

theorem records_run (operations : List (Operation κ ν)) : (run operations).Records operations := by
  induction operations using List.reverseRecOn with
  | nil => exact .empty
  | append_singleton operations operation ih =>
    rw [run_concat]
    exact ih.perform operation

theorem answerAfter_set (operations : List (Operation κ ν)) (key : κ) (value : ν) :
    answerAfter operations (.set key value) =
      if (firstValue? operations key).isSome then .refused (.assigned key) else .done := by
  rw [answerAfter, perform, set, ShardMap.getThenInsertIfNew?, (records_run operations).get?]
  cases firstValue? operations key <;> rfl

theorem answerAfter_get (operations : List (Operation κ ν)) (key : κ) :
    answerAfter operations (.get key) =
      ((firstValue? operations key).map .value).getD (.refused (.unassigned key)) := by
  rw [answerAfter, perform, get, (records_run operations).get?]
  cases firstValue? operations key <;> rfl

theorem answerAfter_isAssigned (operations : List (Operation κ ν)) (key : κ) :
    answerAfter operations (.isAssigned key) = .truth (firstValue? operations key).isSome := by
  rw [answerAfter, perform, isAssigned, ShardMap.contains, (records_run operations).get?]

theorem answerAfter_size (operations : List (Operation κ ν)) :
    answerAfter operations .size = .count (keysSet operations).card :=
  congrArg Answer.count (records_run operations).size

theorem answerAfter_isEmpty (operations : List (Operation κ ν)) :
    answerAfter operations .isEmpty = .truth (decide ((keysSet operations).card = 0)) := by
  refine congrArg Answer.truth (Bool.eq_iff_iff.mpr ?_)
  rw [isEmpty, ShardMap.isEmpty_iff, decide_eq_true_iff, ← (records_run operations).size]
  rfl

/-- The assignment that succeeds is the first one. -/
theorem assigns_iff {operations : List (Operation κ ν)} {key : κ} {value : ν} :
    Assigns operations key value ↔ firstValue? operations key = some value := by
  constructor
  · rintro ⟨before, other, later, rfl, heq, hdone⟩
    rw [answerAfter_set, firstValue?_congr before heq] at hdone
    have hnone : firstValue? before key = none := by
      cases hfirst : firstValue? before key with
      | none => rfl
      | some first =>
        rw [hfirst] at hdone
        cases hdone
    have hset : firstValue? (before ++ [.set other value]) key = some value := by
      rw [firstValue?_concat, hnone, Operation.valueFor?, if_pos heq]
      rfl
    rw [List.append_cons]
    exact firstValue?_append hset later
  · intro h
    obtain ⟨before, operation, later, hsplit, hvalue, hbefore⟩ := List.findSome?_eq_some_iff.mp h
    cases operation with
    | set other first =>
      rw [Operation.valueFor?] at hvalue
      split at hvalue
      · next heq =>
        cases hvalue
        refine ⟨before, other, later, hsplit, heq, ?_⟩
        have hnone : firstValue? before key = none := List.findSome?_eq_none_iff.mpr hbefore
        rw [answerAfter_set, firstValue?_congr before heq, hnone]
        rfl
      · cases hvalue
    | _ => cases hvalue

/-- A map that starts out empty is written once under every key, whatever the keys and their hashes and
whatever is asked of it before: an assignment succeeds exactly when none to an equal key has, and is told
so otherwise; the value that an assignment gave stays, whatever comes later, and is that of the first one
that was tried; a look-up fails exactly as long as no assignment was tried; and the size is the number of
keys that were assigned. -/
theorem written_once (operations : List (Operation κ ν)) (key : κ) :
    let answer : Operation κ ν → Answer κ ν := answerAfter operations
    let written := ∃ value, Assigns operations key value
    (∀ value,
        (answer (.set key value) = .done ↔ ¬ written) ∧
        (answer (.set key value) = .refused (.assigned key) ↔ written)) ∧
      (∀ value, Assigns operations key value →
        firstValue? operations key = some value ∧
        ∀ later, answerAfter (operations ++ later) (.get key) = .value value) ∧
      (written ↔ ∃ other value, .set other value ∈ operations ∧ (other == key) = true) ∧
      (answer (.get key) = .refused (.unassigned key) ↔ ¬ written) ∧
      (answer (.isAssigned key) = .truth false ↔ ¬ written) ∧
      (answer (.isAssigned key) = .truth true ↔ written) ∧
      answer .size = .count (keysSet operations).card ∧
      (answer .isEmpty = .truth true ↔ answer .size = .count 0) := by
  intro answer written
  have hwritten : written ↔ (firstValue? operations key).isSome = true := by
    rw [Option.isSome_iff_exists]
    exact exists_congr fun value => assigns_iff
  have hset : ∀ value, answer (.set key value) = _ := answerAfter_set operations key
  have hget : answer (.get key) = _ := answerAfter_get operations key
  have hassigned : answer (.isAssigned key) = _ := answerAfter_isAssigned operations key
  have hsize : answer .size = _ := answerAfter_size operations
  have hempty : answer .isEmpty = _ := answerAfter_isEmpty operations
  refine ⟨fun value => ?_, fun value h => ?_, ?_, ?_, ?_, ?_, hsize, ?_⟩
  · rw [hset, hwritten]
    by_cases hfirst : (firstValue? operations key).isSome = true
    · simp [hfirst]
    · simp [hfirst]
  · have hfirst := assigns_iff.mp h
    refine ⟨hfirst, fun later => ?_⟩
    rw [answerAfter_get, firstValue?_append hfirst later]
    rfl
  · rw [hwritten, Option.isSome_iff_exists]
    exact exists_firstValue?_iff
  · rw [hget, hwritten]
    cases firstValue? operations key <;> simp
  · rw [hassigned, hwritten]
    simp
  · rw [hassigned, hwritten]
    simp
  · rw [hempty, hsize]
    simp

end Runs

/-- Assignments to colliding words and to the same word in other spellings, with look-ups between. -/
def wordOperations : List (Operation ShardMap.Word Nat) :=
  [.get ⟨1, 0⟩, .set ⟨1, 0⟩ 10, .set ⟨4, 0⟩ 40, .set ⟨1, 1⟩ 11, .size, .set ⟨4, 2⟩ 41]

theorem written_once_words :
    answerAfter wordOperations (.set ⟨1, 3⟩ 12) = .refused (.assigned ⟨1, 3⟩) ∧
      answerAfter (wordOperations ++ [.set ⟨1, 3⟩ 12]) (.get ⟨1, 3⟩) = .value 10 ∧
      answerAfter wordOperations .size = .count 2 ∧
      answerAfter wordOperations (.set ⟨7, 0⟩ 70) = .done := by
  have hword := written_once wordOperations ⟨1, 3⟩
  have hnew := written_once wordOperations ⟨7, 0⟩
  have hfirst : Assigns wordOperations ⟨1, 3⟩ 10 := ⟨[.get ⟨1, 0⟩], ⟨1, 0⟩, _, rfl, rfl, rfl⟩
  have hunwritten := hnew.2.2.2.2.1.mp rfl
  refine ⟨(hword.1 12).2.mpr ⟨10, hfirst⟩, (hword.2.1 10 hfirst).2 _, ?_, (hnew.1 70).1.mpr hunwritten⟩
  exact hword.2.2.2.2.2.2.1.trans (congrArg Answer.count (by decide +kernel))

end OnceMap

end Dispatch
