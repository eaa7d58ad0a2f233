import Dispatch.Proofs.ShardMap
import Mathlib.Data.Finmap
import Mathlib.Data.Nat.Log

/-!
# A map split into shards is one map

Whatever is asked of a map split into shards, one operation after the other, it answers as a single finite
map does, in which equal keys count as one (`acts_as_one`). A sound map `Mirrors` the finite map that has
the same value under every key and as many keys; every operation is answered alike by the two and leaves
them so. The finite map knows nothing of shards and hashes, so the answers depend on neither.
-/

namespace Dispatch

/-! ### Operations in turn -/

section InTurn

variable {ι ω : Type} {α β : Type} {ask : α → ι → ω × α} {ask' : β → ι → ω × β}

/-- What is answered to inputs, one after the other, and the state after them. -/
def inTurn (ask : α → ι → ω × α) (state : α) : List ι → List ω × α
  | [] => ([], state)
  | input :: rest =>
    ((ask state input).1 :: (inTurn ask (ask state input).2 rest).1,
      (inTurn ask (ask state input).2 rest).2)

/-- States that are related and stay so give the same answers. -/
theorem inTurn_related (Rel : α → β → Prop)
    (step : ∀ state state' input, Rel state state' →
      (ask state input).1 = (ask' state' input).1 ∧ Rel (ask state input).2 (ask' state' input).2)
    {state : α} {state' : β} (h : Rel state state') (inputs : List ι) :
    (inTurn ask state inputs).1 = (inTurn ask' state' inputs).1 ∧
      Rel (inTurn ask state inputs).2 (inTurn ask' state' inputs).2 := by
  induction inputs generalizing state state' with
  | nil => exact ⟨rfl, h⟩
  | cons input rest ih =>
    obtain ⟨hanswer, hnext⟩ := step state state' input h
    obtain ⟨hanswers, hlast⟩ := ih hnext
    refine ⟨?_, hlast⟩
    rw [inTurn, inTurn, hanswer, hanswers]

theorem inTurn_preserves (Inv : α → Prop)
    (step : ∀ state input, Inv state → Inv (ask state input).2) {state : α} (h : Inv state)
    (inputs : List ι) : Inv (inTurn ask state inputs).2 := by
  induction inputs generalizing state with
  | nil => exact h
  | cons input rest ih => exact ih (step state input h)

end InTurn

def keySetoid (κ : Type) [BEq κ] [EquivBEq κ] : Setoid κ where
  r key other := (key == other) = true
  iseqv := ⟨fun key => BEq.refl key, fun h => BEq.symm h, fun h h' => BEq.trans h h'⟩

abbrev KeyClass (κ : Type) [BEq κ] [EquivBEq κ] :=
  Quotient (keySetoid κ)

namespace KeyClass

variable {κ : Type} [BEq κ] [EquivBEq κ]

def of (key : κ) : KeyClass κ :=
  Quotient.mk (keySetoid κ) key

theorem of_eq_of {key other : κ} : of key = of other ↔ (key == other) = true :=
  ⟨fun h => Quotient.exact h, fun h => Quotient.sound h⟩

instance : DecidableEq (KeyClass κ) :=
  @Quotient.decidableEq κ (keySetoid κ) fun key other =>
    inferInstanceAs (Decidable ((key == other) = true))

end KeyClass

namespace ShardMap

/-! ### Operations -/

inductive Operation (κ ν ρ : Type) where
  | getThenInsertIfNew (key : κ) (value : ν)
  | get (key : κ)
  | remove (key : κ)
  | contains (key : κ)
  /-- Looks at what is entered under a key, enters something else there or nothing, and answers. -/
  | update (key : κ) (change : Option ν → ρ × Option ν)
  | size
  | isEmpty

inductive Answer (ν ρ : Type) where
  | value (found : Option ν)
  | truth (holds : Bool)
  | result (answer : ρ)
  | count (number : Nat)
  deriving DecidableEq

section Maps

variable {κ ν ρ : Type} [BEq κ] [Hashable κ]

def perform (map : ShardMap κ ν) : Operation κ ν ρ → Answer ν ρ × ShardMap κ ν
  | .getThenInsertIfNew key value =>
    (.value (map.getThenInsertIfNew? key value).1, (map.getThenInsertIfNew? key value).2)
  | .get key => (.value (map.get? key), map)
  | .remove key => (.value (map.remove key).1, (map.remove key).2)
  | .contains key => (.truth (map.contains key), map)
  | .update key change =>
    (.result (map.withShard key (Entries.update key change)).1,
      (map.withShard key (Entries.update key change)).2)
  | .size => (.count map.size, map)
  | .isEmpty => (.truth map.isEmpty, map)

/-- The answers of an empty map with at least the given number of shards, for the given hashes. -/
def answers (hashes : Hashable κ) (shards : Nat) (operations : List (Operation κ ν ρ)) :
    List (Answer ν ρ) :=
  (inTurn (@perform κ ν ρ _ hashes) (ofShards shards) operations).1

end Maps

/-- A finite map from classes of equal keys. -/
abbrev Whole (κ ν : Type) [BEq κ] [EquivBEq κ] :=
  Finmap fun _ : KeyClass κ => ν

namespace Whole

variable {κ ν ρ : Type} [BEq κ] [EquivBEq κ]

def perform (whole : Whole κ ν) : Operation κ ν ρ → Answer ν ρ × Whole κ ν
  | .getThenInsertIfNew key value =>
    (.value (whole.lookup (.of key)),
      if (whole.lookup (.of key)).isSome then whole else whole.insert (.of key) value)
  | .get key => (.value (whole.lookup (.of key)), whole)
  | .remove key => (.value (whole.lookup (.of key)), whole.erase (.of key))
  | .contains key => (.truth (whole.lookup (.of key)).isSome, whole)
  | .update key change =>
    (.result (change (whole.lookup (.of key))).1,
      match (change (whole.lookup (.of key))).2 with
      | some value => whole.insert (.of key) value
      | none => whole.erase (.of key))
  | .size => (.count whole.keys.card, whole)
  | .isEmpty => (.truth (whole.keys.card = 0), whole)

theorem card_insert (whole : Whole κ ν) (key : KeyClass κ) (value : ν) :
    (whole.insert key value).keys.card + (if (whole.lookup key).isSome then 1 else 0) =
      whole.keys.card + 1 := by
  have hkeys : (whole.insert key value).keys = insert key whole.keys := by
    ext other
    simp [Finmap.mem_keys, Finmap.mem_insert]
  rw [hkeys]
  by_cases hmem : key ∈ whole.keys
  · have hsome : (whole.lookup key).isSome = true :=
      Finmap.lookup_isSome.mpr (Finmap.mem_keys.mp hmem)
    rw [Finset.insert_eq_of_mem hmem, hsome, if_pos rfl]
  · have hnone : whole.lookup key = none :=
      Finmap.lookup_eq_none.mpr fun h => hmem (Finmap.mem_keys.mpr h)
    rw [Finset.card_insert_of_notMem hmem, hnone]
    rfl

theorem card_erase (whole : Whole κ ν) (key : KeyClass κ) :
    (whole.erase key).keys.card + (if (whole.lookup key).isSome then 1 else 0) =
      whole.keys.card := by
  rw [Finmap.keys_erase]
  by_cases hmem : key ∈ whole.keys
  · have hsome : (whole.lookup key).isSome = true :=
      Finmap.lookup_isSome.mpr (Finmap.mem_keys.mp hmem)
    rw [hsome, if_pos rfl, Finset.card_erase_add_one hmem]
  · have hnone : whole.lookup key = none :=
      Finmap.lookup_eq_none.mpr fun h => hmem (Finmap.mem_keys.mpr h)
    rw [Finset.erase_eq_of_notMem hmem, hnone]
    rfl

end Whole

/-! ### The number of shards -/

theorem leastPowerOfTwo_isLeast (n : Nat) :
    IsLeast { count | (∃ k, count = 2 ^ k) ∧ max n 1 ≤ count } (leastPowerOfTwo n) := by
  rw [leastPowerOfTwo]
  split
  · next h =>
    refine ⟨⟨⟨0, rfl⟩, by omega⟩, ?_⟩
    rintro count ⟨-, hcount⟩
    omega
  · next h =>
    have hpos : n - 1 ≠ 0 := by omega
    have hlt : n - 1 < 2 ^ ((n - 1).log2 + 1) := Nat.lt_log2_self
    refine ⟨⟨⟨(n - 1).log2 + 1, rfl⟩, by rw [Nat.pow_eq]; omega⟩, ?_⟩
    rintro count ⟨⟨k, rfl⟩, hcount⟩
    have hlog : (n - 1).log2 < k := (Nat.log2_lt hpos).mpr (by omega)
    exact Nat.pow_le_pow_right (by decide) hlog

theorem leastPowerOfTwo_le {n k : Nat} (h : n ≤ 2 ^ k) : leastPowerOfTwo n ≤ 2 ^ k :=
  (leastPowerOfTwo_isLeast n).2 ⟨⟨k, rfl⟩, max_le h Nat.one_le_two_pow⟩

section Shards

variable {κ ν : Type}

theorem size_shards_ofShards (shards : Nat) :
    (ofShards shards : ShardMap κ ν).shards.size = leastPowerOfTwo (max shards 1) := by
  simp [ofShards]

/-- The index of a shard is what masking the hash as a machine word gives. -/
theorem toNat_hash_and_mask [Hashable κ] (map : ShardMap κ ν) (key : κ)
    (h : map.shards.size ≤ 2 ^ 64) :
    (hash key &&& UInt64.ofNat (map.shards.size - 1)).toNat = map.index key := by
  have hpos := map.shards_pos
  have hmask : (UInt64.ofNat (map.shards.size - 1)).toNat = map.shards.size - 1 :=
    UInt64.toNat_ofNat_of_lt' (by rw [UInt64.size]; omega)
  rw [UInt64.toNat_and, hmask, index]

variable {ρ : Type} [BEq κ] [Hashable κ]

theorem size_shards_perform (map : ShardMap κ ν) (operation : Operation κ ν ρ) :
    (map.perform operation).2.shards.size = map.shards.size := by
  cases operation with
  | getThenInsertIfNew key value =>
    rw [perform, getThenInsertIfNew?]
    split
    · rfl
    · exact size_shards_modifyShard map key _
  | remove key =>
    rw [perform, remove]
    split
    · exact size_shards_modifyShard map key _
    · rfl
  | update key change => exact size_shards_modifyShard map key _
  | get key => rfl
  | contains key => rfl
  | size => rfl
  | isEmpty => rfl

end Shards

/-! ### Use of a shard -/

section Use

variable {κ ν ρ : Type} [BEq κ] [Hashable κ]

omit [BEq κ] in
/-- What a change would do to another shard than the key's makes no difference. -/
theorem modifyShard_congr {map : ShardMap κ ν} {key : κ} {change change' : Entries κ ν → Entries κ ν}
    (h : change (map.shard key) = change' (map.shard key)) :
    map.modifyShard key change = map.modifyShard key change' := by
  rw [modifyShard, modifyShard]
  congr 1
  refine Array.ext (by simp) fun i hi hi' => ?_
  rw [Array.getElem_modify, Array.getElem_modify]
  split
  · next hindex =>
    subst hindex
    exact h
  · rfl

omit [BEq κ] in
theorem modifyShard_id (map : ShardMap κ ν) (key : κ) : map.modifyShard key id = map := by
  rcases map with ⟨shards, hpos⟩
  rw [modifyShard]
  congr 1
  refine Array.ext (by simp) fun i hi hi' => ?_
  rw [Array.getElem_modify]
  exact ite_self _

theorem remove_snd (map : ShardMap κ ν) (key : κ) :
    (map.remove key).2 = map.modifyShard key (Entries.erase key) := by
  rw [remove]
  cases hget : map.get? key with
  | some value => rfl
  | none =>
    have herase : Entries.erase key (map.shard key) = map.shard key := by
      refine List.filter_eq_self.mpr fun entry hmem => ?_
      cases hkey : entry.1 == key with
      | false => rfl
      | true =>
        have hfound : (Entries.find? key (map.shard key)).isSome = true :=
          Entries.find?_isSome.mpr ⟨entry, hmem, hkey⟩
        rw [← get?, hget] at hfound
        cases hfound
    exact (modifyShard_id map key).symm.trans (modifyShard_congr herase.symm)

/-- A use that updates what is entered under the key answers from its value, and enters or removes it. -/
theorem withShard_update (map : ShardMap κ ν) (key : κ) (change : Option ν → ρ × Option ν) :
    map.withShard key (Entries.update key change) =
      ((change (map.get? key)).1,
        match (change (map.get? key)).2 with
        | some value => map.put key value
        | none => (map.remove key).2) := by
  have hupdate : Entries.update key change (map.shard key) =
      ((change (map.get? key)).1,
        match (change (map.get? key)).2 with
        | some value => Entries.put key value (map.shard key)
        | none => Entries.erase key (map.shard key)) := by
    rw [Entries.update, get?]
    rcases change (Entries.find? key (map.shard key)) with ⟨answer, _ | value⟩ <;> rfl
  rw [withShard, hupdate]
  refine Prod.ext rfl ?_
  cases hchange : (change (map.get? key)).2 with
  | none => exact (modifyShard_congr (by rw [hupdate, hchange])).trans (remove_snd map key).symm
  | some value => exact modifyShard_congr (by rw [hupdate, hchange])

end Use

/-! ### The map and the finite map -/

section Refinement

variable {κ ν ρ : Type} [BEq κ] [EquivBEq κ]

/-- The map has the values of the finite map, and as many keys. -/
structure Mirrors [Hashable κ] (map : ShardMap κ ν) (whole : Whole κ ν) : Prop where
  sound : map.Sound
  lookup : ∀ key, map.get? key = whole.lookup (.of key)
  size : map.size = whole.keys.card

section Mirrors

variable [Hashable κ]

omit [EquivBEq κ] in
theorem get?_ofShards (shards : Nat) (key : κ) :
    (ofShards shards : ShardMap κ ν).get? key = none := by
  simp [get?, shard, ofShards, Entries.find?]

omit [EquivBEq κ] in
theorem Sound.ofShards (shards : Nat) : (ofShards shards : ShardMap κ ν).Sound := by
  constructor <;> intro i h <;> simp [ShardMap.ofShards, Entries.Distinct]

namespace Mirrors

variable {map : ShardMap κ ν} {whole : Whole κ ν}

theorem ofShards (shards : Nat) : (ofShards shards : ShardMap κ ν).Mirrors ∅ where
  sound := Sound.ofShards shards
  lookup key := by rw [get?_ofShards, Finmap.lookup_empty]
  size := (Sound.ofShards shards).size_eq_zero (get?_ofShards shards)

theorem contains (h : map.Mirrors whole) (key : κ) :
    map.contains key = (whole.lookup (.of key)).isSome := by
  rw [ShardMap.contains, h.lookup]

variable [LawfulHashable κ]

theorem put (h : map.Mirrors whole) (key : κ) (value : ν) :
    (map.put key value).Mirrors (whole.insert (.of key) value) where
  sound := h.sound.put key value
  lookup other := by
    rw [get?_put]
    by_cases heq : key == other
    · rw [if_pos heq, KeyClass.of_eq_of.mpr heq, Finmap.lookup_insert]
    · rw [if_neg heq, h.lookup]
      refine (Finmap.lookup_insert_of_ne _ fun hclass => heq ?_).symm
      exact KeyClass.of_eq_of.mp hclass.symm
  size := by
    have hmap := map.size_put key value
    have hwhole := whole.card_insert (.of key) value
    rw [h.contains, h.size] at hmap
    omega

theorem remove (h : map.Mirrors whole) (key : κ) :
    (map.remove key).2.Mirrors (whole.erase (.of key)) where
  sound := h.sound.remove key
  lookup other := by
    rw [get?_remove]
    by_cases heq : key == other
    · rw [if_pos heq, KeyClass.of_eq_of.mpr heq, Finmap.lookup_erase]
    · rw [if_neg heq, h.lookup]
      refine (Finmap.lookup_erase_ne fun hclass => heq ?_).symm
      exact KeyClass.of_eq_of.mp hclass.symm
  size := by
    have hmap := h.sound.size_remove key
    have hwhole := whole.card_erase (.of key)
    rw [h.contains, h.size] at hmap
    omega

/-- An operation is answered alike by the two, and leaves them alike. -/
theorem perform (h : map.Mirrors whole) (operation : Operation κ ν ρ) :
    (map.perform operation).1 = (whole.perform operation).1 ∧
      (map.perform operation).2.Mirrors (whole.perform operation).2 := by
  cases operation with
  | getThenInsertIfNew key value =>
    rw [ShardMap.perform, Whole.perform, getThenInsertIfNew?, ← h.lookup]
    cases map.get? key with
    | some existing => exact ⟨rfl, h⟩
    | none => exact ⟨rfl, h.put key value⟩
  | get key =>
    rw [ShardMap.perform, Whole.perform, h.lookup]
    exact ⟨rfl, h⟩
  | remove key =>
    rw [ShardMap.perform, Whole.perform, remove_fst, h.lookup]
    exact ⟨rfl, h.remove key⟩
  | contains key =>
    rw [ShardMap.perform, Whole.perform, h.contains]
    exact ⟨rfl, h⟩
  | update key change =>
    rw [ShardMap.perform, Whole.perform, withShard_update, ← h.lookup]
    refine ⟨rfl, ?_⟩
    cases (change (map.get? key)).2 with
    | some value => exact h.put key value
    | none => exact h.remove key
  | size =>
    rw [ShardMap.perform, Whole.perform, h.size]
    exact ⟨rfl, h⟩
  | isEmpty =>
    have hempty : map.isEmpty = decide (whole.keys.card = 0) := by
      rw [Bool.eq_iff_iff, isEmpty_iff, h.size, decide_eq_true_iff]
    rw [ShardMap.perform, Whole.perform, hempty]
    exact ⟨rfl, h⟩

end Mirrors

end Mirrors

/-- The answers of a map that starts out empty, whatever its shards, are those of a finite map. -/
theorem answers_eq (hashes : Hashable κ) [@LawfulHashable κ _ hashes] (shards : Nat)
    (operations : List (Operation κ ν ρ)) :
    answers hashes shards operations = (inTurn Whole.perform ∅ operations).1 :=
  (inTurn_related Mirrors (fun _ _ operation h => h.perform operation) (Mirrors.ofShards shards)
    operations).1

omit [EquivBEq κ] in
theorem size_shards_inTurn [Hashable κ] (map : ShardMap κ ν) (operations : List (Operation κ ν ρ)) :
    (inTurn perform map operations).2.shards.size = map.shards.size :=
  inTurn_preserves (fun later => later.shards.size = map.shards.size)
    (fun later operation h => (size_shards_perform later operation).trans h) rfl operations

/-- A map of `shards` shards at least acts as one finite map: its shards are the least power of two in
number, every index computed is that of a shard, also when it is computed with machine words, and the
answers are those of a finite map, and so the same for any other shards and hashes. -/
theorem acts_as_one [hashes : Hashable κ] [LawfulHashable κ] {shards : Nat}
    (bound : shards ≤ 2 ^ 63) (operations : List (Operation κ ν ρ)) :
    let initial : ShardMap κ ν := ofShards shards
    IsLeast { count | (∃ k, count = 2 ^ k) ∧ max shards 1 ≤ count } initial.shards.size ∧
      initial.shards.size ≤ 2 ^ 63 ∧
      (∀ n (key : κ), let map := (inTurn perform initial (operations.take n)).2
        map.shards.size = initial.shards.size ∧ map.index key < map.shards.size ∧
          map.index key = (hash key &&& UInt64.ofNat (initial.shards.size - 1)).toNat) ∧
      answers hashes shards operations = (inTurn Whole.perform ∅ operations).1 ∧
      ∀ (others : Hashable κ) [@LawfulHashable κ _ others], ∀ number ≤ 2 ^ 63,
        answers others number operations = answers hashes shards operations := by
  intro initial
  have hcount : initial.shards.size = leastPowerOfTwo (max shards 1) :=
    size_shards_ofShards shards
  have hfits : initial.shards.size ≤ 2 ^ 63 := by
    rw [hcount]
    exact leastPowerOfTwo_le (max_le bound Nat.one_le_two_pow)
  have hanswers := answers_eq hashes shards operations
  refine ⟨?_, hfits, ?_, hanswers, ?_⟩
  · rw [hcount]
    have hleast := leastPowerOfTwo_isLeast (max shards 1)
    rwa [max_assoc, max_self] at hleast
  · intro n key map
    have hsize : map.shards.size = initial.shards.size :=
      size_shards_inTurn initial (operations.take n)
    have hindex := toNat_hash_and_mask map key (by omega)
    refine ⟨hsize, map.index_lt key, ?_⟩
    rw [← hsize, hindex]
  · intro others _ number _
    rw [hanswers, answers_eq others number operations]

end Refinement

structure Word where
  number : Nat
  spelling : Nat

namespace Word

instance : BEq Word :=
  ⟨fun word other => word.number == other.number⟩

theorem beq_iff {word other : Word} : (word == other) = true ↔ word.number = other.number := by
  show (word.number == other.number) = true ↔ word.number = other.number
  exact beq_iff_eq

instance : EquivBEq Word where
  rfl := beq_iff.mpr rfl
  symm h := beq_iff.mpr (beq_iff.mp h).symm
  trans h h' := beq_iff.mpr ((beq_iff.mp h).trans (beq_iff.mp h'))

/-- Words whose numbers have the same remainder by three collide. -/
instance : Hashable Word :=
  ⟨fun word => UInt64.ofNat (word.number % 3)⟩

instance : LawfulHashable Word where
  hash_eq word other h := by
    show UInt64.ofNat (word.number % 3) = UInt64.ofNat (other.number % 3)
    rw [beq_iff.mp h]

/-- Colliding words are entered, one under another spelling, removed and changed. -/
def operations : List (Operation Word Nat Nat) :=
  [.getThenInsertIfNew ⟨1, 0⟩ 10, .getThenInsertIfNew ⟨4, 0⟩ 40, .getThenInsertIfNew ⟨1, 1⟩ 11,
    .update ⟨4, 2⟩ fun found => (found.getD 0, some 41), .size, .remove ⟨1, 3⟩, .contains ⟨1, 0⟩,
    .get ⟨4, 0⟩, .update ⟨4, 0⟩ fun found => (found.getD 0, none), .isEmpty]

end Word

theorem acts_as_one_words : 3 ≤ 2 ^ 63 ∧
    (inTurn Whole.perform ∅ Word.operations).1 =
      [.value none, .value none, .value (some 10), .result 40, .count 2, .value (some 10),
        .truth false, .value (some 41), .result 41, .truth true] := by
  have hone := acts_as_one (by decide : 3 ≤ 2 ^ 63) Word.operations
  refine ⟨by decide, ?_⟩
  rw [← hone.2.2.2.1]
  decide +kernel

end ShardMap

end Dispatch
