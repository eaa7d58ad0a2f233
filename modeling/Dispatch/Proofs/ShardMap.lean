import Dispatch.ShardMap

/-!
# Maps split into shards are maps

An operation on a key changes the answer for that key alone, whatever the number of shards and however the
keys are hashed; all that is needed is that equal keys have equal hashes. The answers are told by `get?`:
`get?_put`, `get?_remove` and `get?_getThenInsertIfNew?` say what each operation does to it, and
`get?_eq_none_of_size` that a map of size zero has no entry. The size counts keys only in a map that is
sound, that is, one in which no key is entered twice and every key is in the shard that owns it; the
operations keep a map sound and change its size by one at most (`size_put`, `size_remove`).
-/

namespace Dispatch

namespace Entries

variable {κ ν : Type} [BEq κ] [EquivBEq κ]

theorem find?_congr {key other : κ} (h : key == other) (entries : Entries κ ν) :
    entries.find? key = entries.find? other := by
  induction entries with
  | nil => rfl
  | cons entry rest ih => rw [find?, find?, BEq.congr_right h, ih]

theorem find?_erase (key other : κ) (entries : Entries κ ν) :
    (entries.erase key).find? other = if key == other then none else entries.find? other := by
  induction entries with
  | nil => simp [erase, find?]
  | cons entry rest ih =>
    rw [erase] at ih ⊢
    by_cases hkey : entry.1 == key
    · rw [List.filter_cons_of_neg (by simp [hkey]), ih, find?]
      by_cases hother : key == other
      · rw [if_pos hother, if_pos hother]
      · have hne : (entry.1 == other) = false := by
          rw [BEq.congr_left hkey]
          simpa using hother
        rw [if_neg hother, if_neg hother, hne]
        rfl
    · rw [List.filter_cons_of_pos (by simpa using hkey), find?, find?, ih]
      by_cases hentry : entry.1 == other
      · have hne : (key == other) = false := by
          rw [← BEq.congr_right hentry, BEq.comm]
          simpa using hkey
        rw [if_pos hentry, if_pos hentry, hne]
        rfl
      · rw [if_neg hentry, if_neg hentry]

theorem find?_put (key other : κ) (value : ν) (entries : Entries κ ν) :
    (entries.put key value).find? other =
      if key == other then some value else entries.find? other := by
  induction entries with
  | nil => rfl
  | cons entry rest ih =>
    rw [put]
    by_cases hkey : entry.1 == key
    · rw [if_pos hkey, find?, find?, BEq.congr_left hkey]
      split <;> rfl
    · rw [if_neg hkey, find?, find?, ih]
      by_cases hentry : entry.1 == other
      · have hne : (key == other) = false := by
          rw [← BEq.congr_right hentry, BEq.comm]
          simpa using hkey
        rw [if_pos hentry, if_pos hentry, hne]
        rfl
      · rw [if_neg hentry, if_neg hentry]

omit [EquivBEq κ] in
/-- Every key in the entries was there before, or is the one that is put. -/
theorem mem_put {key : κ} {value : ν} {entries : Entries κ ν} {entry : κ × ν}
    (h : entry ∈ entries.put key value) :
    (∃ old ∈ entries, old.1 = entry.1) ∨ entry.1 = key := by
  induction entries with
  | nil => exact Or.inr (by rw [List.mem_singleton.mp h])
  | cons first rest ih =>
    rw [put] at h
    split at h
    · rcases List.mem_cons.mp h with rfl | h
      · exact Or.inl ⟨first, List.mem_cons_self, rfl⟩
      · exact Or.inl ⟨entry, List.mem_cons_of_mem _ h, rfl⟩
    · rcases List.mem_cons.mp h with rfl | h
      · exact Or.inl ⟨entry, List.mem_cons_self, rfl⟩
      · exact (ih h).imp_left fun ⟨old, hold, hkey⟩ => ⟨old, List.mem_cons_of_mem _ hold, hkey⟩

omit [EquivBEq κ] in
theorem find?_isSome {key : κ} {entries : Entries κ ν} :
    (entries.find? key).isSome = true ↔ ∃ entry ∈ entries, (entry.1 == key) = true := by
  induction entries with
  | nil => simp [find?]
  | cons entry rest ih =>
    rw [find?]
    split
    · next h => simp [h]
    · next h => simp [h, ih]

def Distinct (entries : Entries κ ν) : Prop :=
  entries.Pairwise fun first second => (first.1 == second.1) = false

omit [EquivBEq κ] in
theorem Distinct.erase {entries : Entries κ ν} (h : entries.Distinct) (key : κ) :
    (Entries.erase key entries).Distinct :=
  h.sublist List.filter_sublist

omit [EquivBEq κ] in
theorem Distinct.put {entries : Entries κ ν} (h : entries.Distinct) (key : κ) (value : ν) :
    (Entries.put key value entries).Distinct := by
  induction entries with
  | nil => exact List.pairwise_singleton _ _
  | cons entry rest ih =>
    obtain ⟨hentry, hrest⟩ := List.pairwise_cons.mp h
    rw [Entries.put]
    split
    · exact List.pairwise_cons.mpr ⟨hentry, hrest⟩
    · next hkey =>
      refine List.pairwise_cons.mpr ⟨fun other hmem => ?_, ih hrest⟩
      rcases mem_put hmem with ⟨old, hold, hsame⟩ | hsame
      · rw [← hsame]
        exact hentry old hold
      · rw [hsame]
        simpa using hkey

omit [EquivBEq κ] in
/-- A key that is found adds nothing to the length, any other one. -/
theorem length_put (key : κ) (value : ν) (entries : Entries κ ν) :
    (Entries.put key value entries).length + (if (entries.find? key).isSome then 1 else 0) =
      entries.length + 1 := by
  induction entries with
  | nil => rfl
  | cons entry rest ih =>
    rw [Entries.put, find?]
    split
    · rfl
    · rw [List.length_cons, List.length_cons]
      omega

/-- A key that is entered is entered once. -/
theorem Distinct.length_erase {entries : Entries κ ν} (h : entries.Distinct) (key : κ) :
    (Entries.erase key entries).length + (if (entries.find? key).isSome then 1 else 0) =
      entries.length := by
  induction entries with
  | nil => rfl
  | cons entry rest ih =>
    obtain ⟨hentry, hrest⟩ := List.pairwise_cons.mp h
    have hlength := ih hrest
    rw [Entries.erase] at hlength ⊢
    rw [find?]
    by_cases hkey : entry.1 == key
    · have habsent : (find? key rest).isSome = false := by
        rw [← Bool.not_eq_true, find?_isSome]
        rintro ⟨other, hmem, hother⟩
        have hsame : entry.1 == other.1 := BEq.trans hkey (BEq.symm hother)
        rw [hentry other hmem] at hsame
        cases hsame
      rw [habsent] at hlength
      rw [List.filter_cons_of_neg (by simp [hkey]), if_pos hkey]
      simpa using hlength
    · rw [List.filter_cons_of_pos (by simpa using hkey), if_neg hkey, List.length_cons,
        List.length_cons]
      omega

end Entries

namespace ShardMap

variable {κ ν : Type} [BEq κ] [Hashable κ]

omit [BEq κ] in
@[simp]
theorem size_shards_modifyShard (map : ShardMap κ ν) (key : κ)
    (change : Entries κ ν → Entries κ ν) :
    (map.modifyShard key change).shards.size = map.shards.size :=
  Array.size_modify

omit [BEq κ] in
theorem getElem_modifyShard (map : ShardMap κ ν) (key : κ) (change : Entries κ ν → Entries κ ν)
    {i : Nat} (h : i < (map.modifyShard key change).shards.size) (hi : i < map.shards.size) :
    (map.modifyShard key change).shards[i] =
      if map.index key = i then change map.shards[i] else map.shards[i] :=
  Array.getElem_modify h

omit [BEq κ] in
theorem index_modifyShard (map : ShardMap κ ν) (key other : κ)
    (change : Entries κ ν → Entries κ ν) :
    (map.modifyShard key change).index other = map.index other := by
  simp [index, modifyShard]

omit [BEq κ] in
theorem shard_modifyShard (map : ShardMap κ ν) (key other : κ)
    (change : Entries κ ν → Entries κ ν) :
    (map.modifyShard key change).shard other =
      if map.index key = map.index other then change (map.shard other) else map.shard other := by
  have hindex := index_modifyShard map key other change
  simp only [shard, hindex]
  simp only [modifyShard, Array.getElem_modify]

/-- Equal keys are owned by the same shard. -/
theorem index_congr [LawfulHashable κ] (map : ShardMap κ ν) {key other : κ} (h : key == other) :
    map.index key = map.index other := by
  rw [index, index, LawfulHashable.hash_eq key other h]

theorem get?_modifyShard_of_ne [LawfulHashable κ] (map : ShardMap κ ν) (key other : κ)
    (change : Entries κ ν → Entries κ ν)
    (h : ∀ entries : Entries κ ν, (change entries).find? other = entries.find? other) :
    (map.modifyShard key change).get? other = map.get? other := by
  rw [get?, get?, shard_modifyShard]
  split
  · exact h _
  · rfl

variable [EquivBEq κ] [LawfulHashable κ]

/-- Equal keys have the same value. -/
theorem get?_congr (map : ShardMap κ ν) {key other : κ} (h : key == other) :
    map.get? key = map.get? other := by
  rw [get?, get?, Entries.find?_congr h, shard, shard]
  simp only [map.index_congr h]

theorem get?_put (map : ShardMap κ ν) (key other : κ) (value : ν) :
    (map.put key value).get? other = if key == other then some value else map.get? other := by
  by_cases h : key == other
  · rw [if_pos h, put, get?, shard_modifyShard, if_pos (map.index_congr h), Entries.find?_put,
      if_pos h]
  · rw [if_neg h, put]
    exact get?_modifyShard_of_ne map key other _ fun entries => by
      rw [Entries.find?_put, if_neg h]

omit [EquivBEq κ] [LawfulHashable κ] in
theorem remove_fst (map : ShardMap κ ν) (key : κ) : (map.remove key).1 = map.get? key := by
  rw [remove]
  split <;> simp_all

theorem get?_remove (map : ShardMap κ ν) (key other : κ) :
    (map.remove key).2.get? other = if key == other then none else map.get? other := by
  rw [remove]
  split
  · by_cases h : key == other
    · rw [if_pos h, get?, shard_modifyShard, if_pos (map.index_congr h), Entries.find?_erase,
        if_pos h]
    · rw [if_neg h]
      exact get?_modifyShard_of_ne map key other _ fun entries => by
        rw [Entries.find?_erase, if_neg h]
  · next hnone =>
    by_cases h : key == other
    · rw [if_pos h, ← map.get?_congr h, hnone]
    · rw [if_neg h]

omit [EquivBEq κ] [LawfulHashable κ] in
theorem getThenInsertIfNew?_fst (map : ShardMap κ ν) (key : κ) (value : ν) :
    (map.getThenInsertIfNew? key value).1 = map.get? key := by
  rw [getThenInsertIfNew?]
  split <;> simp_all

theorem get?_getThenInsertIfNew? (map : ShardMap κ ν) (key other : κ) (value : ν) :
    (map.getThenInsertIfNew? key value).2.get? other =
      if key == other ∧ map.get? key = none then some value else map.get? other := by
  rw [getThenInsertIfNew?]
  split
  · next existing hsome => simp [hsome]
  · next hnone => simp [get?_put, hnone]

omit [EquivBEq κ] [LawfulHashable κ] in
theorem get?_empty (key : κ) : (empty : ShardMap κ ν).get? key = none := by
  simp [get?, shard, empty, ofShards, Entries.find?]

omit [EquivBEq κ] [LawfulHashable κ] in
/-- A map of size zero has no entry. -/
theorem get?_eq_none_of_size {map : ShardMap κ ν} (h : map.size = 0) (key : κ) :
    map.get? key = none := by
  have hflat : map.shards.toList.flatten = [] := List.length_eq_zero_iff.mp h
  have hmem : map.shard key ∈ map.shards.toList := Array.mem_toList_iff.mpr (Array.getElem_mem _)
  rw [get?, List.flatten_eq_nil_iff.mp hflat _ hmem]
  rfl

/-! ### The number of keys -/

/-- Every key is entered in the shard that owns it, and in no shard twice. -/
structure Sound (map : ShardMap κ ν) : Prop where
  owned : ∀ i (h : i < map.shards.size), ∀ entry ∈ map.shards[i], map.index entry.1 = i
  distinct : ∀ i (h : i < map.shards.size), Entries.Distinct map.shards[i]

omit [BEq κ] [Hashable κ] [EquivBEq κ] [LawfulHashable κ] in
theorem length_flatten_modify (shards : List (Entries κ ν)) (change : Entries κ ν → Entries κ ν)
    {i : Nat} (hi : i < shards.length) :
    (shards.modify i change).flatten.length + shards[i].length =
      shards.flatten.length + (change shards[i]).length := by
  induction shards generalizing i with
  | nil => exact absurd hi (Nat.not_lt_zero i)
  | cons first rest ih =>
    cases i with
    | zero =>
      simp only [List.modify_zero_cons, List.flatten_cons, List.length_append,
        List.getElem_cons_zero]
      omega
    | succ i =>
      have h := ih (Nat.lt_of_succ_lt_succ hi)
      simp only [List.modify_succ_cons, List.flatten_cons, List.length_append,
        List.getElem_cons_succ] at h ⊢
      omega

omit [BEq κ] [EquivBEq κ] [LawfulHashable κ] in
/-- A change of one shard changes the size by what it changes in the shard. -/
theorem size_modifyShard (map : ShardMap κ ν) (key : κ) (change : Entries κ ν → Entries κ ν) :
    (map.modifyShard key change).size + (map.shard key).length =
      map.size + (change (map.shard key)).length := by
  have hi : map.index key < map.shards.toList.length := map.index_lt key
  have h := length_flatten_modify map.shards.toList change hi
  simpa [size, modifyShard, shard] using h

omit [EquivBEq κ] [LawfulHashable κ] in
/-- A key that is new adds one to the size, any other nothing. -/
theorem size_put (map : ShardMap κ ν) (key : κ) (value : ν) :
    (map.put key value).size + (if map.contains key then 1 else 0) = map.size + 1 := by
  have hsize := size_modifyShard map key (Entries.put key value)
  have hput := Entries.length_put key value (map.shard key)
  rw [put, contains, get?]
  omega

namespace Sound

variable {map : ShardMap κ ν}

omit [EquivBEq κ] [LawfulHashable κ] in
theorem empty : (ShardMap.empty : ShardMap κ ν).Sound := by
  constructor <;> intro i h <;> simp [ShardMap.empty, ofShards, Entries.Distinct]

omit [EquivBEq κ] [LawfulHashable κ] in
/-- A change of one shard keeps the map sound if it enters no key there that it does not own. -/
theorem modifyShard (sound : map.Sound) {key : κ} {change : Entries κ ν → Entries κ ν}
    (howned : ∀ entry ∈ change (map.shard key),
      (∃ old ∈ map.shard key, old.1 = entry.1) ∨ entry.1 = key)
    (hdistinct : (map.shard key).Distinct → (change (map.shard key)).Distinct) :
    (map.modifyShard key change).Sound := by
  have hsize := size_shards_modifyShard map key change
  constructor
  · intro i h entry hmem
    have hi : i < map.shards.size := hsize ▸ h
    rw [getElem_modifyShard map key change h hi] at hmem
    rw [index_modifyShard]
    split at hmem
    · next hkey =>
      subst hkey
      rcases howned entry hmem with ⟨old, hold, hsame⟩ | rfl
      · rw [← hsame]
        exact sound.owned _ hi old hold
      · rfl
    · exact sound.owned i hi entry hmem
  · intro i h
    have hi : i < map.shards.size := hsize ▸ h
    rw [getElem_modifyShard map key change h hi]
    split
    · next hkey =>
      subst hkey
      exact hdistinct (sound.distinct _ hi)
    · exact sound.distinct i hi

omit [EquivBEq κ] [LawfulHashable κ] in
theorem distinct_shard (sound : map.Sound) (key : κ) : (map.shard key).Distinct :=
  sound.distinct (map.index key) (map.index_lt key)

omit [EquivBEq κ] [LawfulHashable κ] in
theorem put (sound : map.Sound) (key : κ) (value : ν) : (map.put key value).Sound :=
  sound.modifyShard (fun _ => Entries.mem_put) fun h => h.put key value

omit [EquivBEq κ] [LawfulHashable κ] in
theorem remove (sound : map.Sound) (key : κ) : (map.remove key).2.Sound := by
  rw [ShardMap.remove]
  split
  · exact sound.modifyShard
      (fun entry hmem => Or.inl ⟨entry, (List.mem_filter.mp hmem).1, rfl⟩) fun h => h.erase key
  · exact sound

omit [EquivBEq κ] [LawfulHashable κ] in
theorem getThenInsertIfNew? (sound : map.Sound) (key : κ) (value : ν) :
    (map.getThenInsertIfNew? key value).2.Sound := by
  rw [ShardMap.getThenInsertIfNew?]
  split
  · exact sound
  · exact sound.put key value

omit [LawfulHashable κ] in
theorem size_remove (sound : map.Sound) (key : κ) :
    (map.remove key).2.size + (if map.contains key then 1 else 0) = map.size := by
  have hsize := size_modifyShard map key (Entries.erase key)
  have herase := (sound.distinct_shard key).length_erase key
  rw [ShardMap.remove, contains]
  cases hget : map.get? key with
  | none => simp
  | some value =>
    rw [← get?, hget] at herase
    simp only [Option.isSome_some, if_true] at herase ⊢
    omega

omit [LawfulHashable κ] in
/-- A sound map without answers is of size zero. -/
theorem size_eq_zero (sound : map.Sound) (h : ∀ key, map.get? key = none) : map.size = 0 := by
  rw [size, List.length_eq_zero_iff, List.flatten_eq_nil_iff]
  intro shard hmem
  obtain ⟨i, hi, rfl⟩ := List.mem_iff_getElem.mp hmem
  rw [List.eq_nil_iff_forall_not_mem]
  intro entry hentry
  have hi' : i < map.shards.size := by simpa using hi
  have hshard : map.shard entry.1 = map.shards.toList[i] := by
    simp [shard, sound.owned i hi' entry (by simpa using hentry)]
  have hfound : ((map.shard entry.1).find? entry.1).isSome = true := by
    rw [Entries.find?_isSome, hshard]
    exact ⟨entry, hentry, BEq.refl _⟩
  rw [← get?, h] at hfound
  cases hfound

end Sound

omit [BEq κ] [Hashable κ] [EquivBEq κ] [LawfulHashable κ] in
theorem isEmpty_iff {map : ShardMap κ ν} : map.isEmpty = true ↔ map.size = 0 := by
  rw [isEmpty, Array.all_eq_true', size, List.length_eq_zero_iff, List.flatten_eq_nil_iff]
  simp

end ShardMap

end Dispatch
