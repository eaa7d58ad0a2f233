import Dispatch.Proofs.HolderTable

/-!
# A claim that fails leaves no trace

A claim enters its tokens one after the other, and takes them back when it meets one that is held. What is
left is not only a table that answers as before, but the very table: the entry of a key that had none is put
behind those of its shard and taken from there (`ShardMap.remove_put_self`), and it makes no difference in which
order the entries of different keys come and go (`ShardMap.remove_put_comm`). So a claim may be tried as
often as one likes, and nothing will show it (`HolderTable.eq_of_claim_held`).
-/

namespace Dispatch

namespace Entries

variable {κ ν : Type} [BEq κ]

theorem erase_comm (key other : κ) (entries : Entries κ ν) :
    (entries.erase key).erase other = (entries.erase other).erase key := by
  rw [erase, erase, erase, erase, List.filter_filter, List.filter_filter]
  exact List.filter_congr fun entry _ => Bool.and_comm _ _

theorem erase_put_self [ReflBEq κ] {key : κ} {entries : Entries κ ν}
    (h : entries.find? key = none) (value : ν) : (entries.put key value).erase key = entries := by
  induction entries with
  | nil => exact List.filter_cons_of_neg (by simp)
  | cons entry rest ih =>
    rw [find?] at h
    split at h
    · cases h
    · next hkey =>
      rw [put, if_neg hkey, erase, List.filter_cons_of_pos (by simpa using hkey)]
      exact congrArg (entry :: ·) (ih h)

theorem erase_put_comm [EquivBEq κ] {key other : κ} (hne : (key == other) = false) (value : ν)
    (entries : Entries κ ν) :
    (entries.put key value).erase other = (entries.erase other).put key value := by
  induction entries with
  | nil => exact List.filter_cons_of_pos (by simpa using hne)
  | cons entry rest ih =>
    rw [erase] at ih
    rw [put]
    by_cases hkey : entry.1 == key
    · have hother : (entry.1 == other) = false := by rw [BEq.congr_left hkey, hne]
      rw [if_pos hkey, erase, erase, List.filter_cons_of_pos (by simpa using hother),
        List.filter_cons_of_pos (by simpa using hother), put, if_pos hkey]
    · rw [if_neg hkey, erase, erase, List.filter_cons, List.filter_cons, ih]
      split
      · rw [put, if_neg hkey]
        rfl
      · rfl

end Entries

namespace ShardMap

variable {κ ν : Type} [BEq κ] [Hashable κ]

omit [BEq κ] [Hashable κ] in
theorem eq_of_shards {map other : ShardMap κ ν} (h : map.shards = other.shards) : map = other := by
  cases map
  cases other
  cases h
  rfl

omit [BEq κ] in
theorem modifyShard_modifyShard (map : ShardMap κ ν) (key : κ)
    (first second : Entries κ ν → Entries κ ν) :
    (map.modifyShard key first).modifyShard key second =
      map.modifyShard key fun entries => second (first entries) := by
  refine eq_of_shards (Array.ext (by simp only [size_shards_modifyShard]) fun i _ hi => ?_)
  rw [size_shards_modifyShard] at hi
  have hfirst : i < (map.modifyShard key first).shards.size := by rwa [size_shards_modifyShard]
  rw [getElem_modifyShard _ _ _ _ hfirst, getElem_modifyShard _ _ _ _ hi, getElem_modifyShard _ _ _ _ hi,
    index_modifyShard]
  split <;> rfl

omit [BEq κ] in
theorem modifyShard_eq_self {map : ShardMap κ ν} {key : κ} {change : Entries κ ν → Entries κ ν}
    (h : change (map.shard key) = map.shard key) : map.modifyShard key change = map := by
  refine eq_of_shards (Array.ext (size_shards_modifyShard map key change) fun i _ hi => ?_)
  rw [getElem_modifyShard _ _ _ _ hi]
  split
  · next hindex =>
    subst hindex
    exact h
  · rfl

omit [BEq κ] in
/-- Changes that do not depend on their order may be made in any order, of any shards. -/
theorem modifyShard_comm (map : ShardMap κ ν) (key other : κ)
    {first second : Entries κ ν → Entries κ ν}
    (h : ∀ entries, second (first entries) = first (second entries)) :
    (map.modifyShard key first).modifyShard other second =
      (map.modifyShard other second).modifyShard key first := by
  refine eq_of_shards (Array.ext (by simp only [size_shards_modifyShard]) fun i _ hi => ?_)
  rw [size_shards_modifyShard, size_shards_modifyShard] at hi
  have hfirst : i < (map.modifyShard key first).shards.size := by rwa [size_shards_modifyShard]
  have hsecond : i < (map.modifyShard other second).shards.size := by rwa [size_shards_modifyShard]
  rw [getElem_modifyShard _ _ _ _ hfirst, getElem_modifyShard _ _ _ _ hsecond,
    getElem_modifyShard _ _ _ _ hi, getElem_modifyShard _ _ _ _ hi, index_modifyShard, index_modifyShard]
  split
  · split
    · exact h _
    · rfl
  · rfl

variable [EquivBEq κ] [LawfulHashable κ]

/-- A new entry that is removed again has never been there. -/
theorem remove_put_self {map : ShardMap κ ν} {key : κ} (h : map.get? key = none) (value : ν) :
    ((map.put key value).remove key).2 = map := by
  have hput : (map.put key value).get? key = some value := by
    rw [get?_put, if_pos BEq.rfl]
  rw [remove, hput]
  show (map.modifyShard key _).modifyShard key _ = map
  rw [modifyShard_modifyShard]
  exact modifyShard_eq_self (Entries.erase_put_self h value)

/-- Entries of different keys come and go in any order. -/
theorem remove_put_comm (map : ShardMap κ ν) {key other : κ} (hne : (key == other) = false) (value : ν) :
    ((map.put key value).remove other).2 = (map.remove other).2.put key value := by
  have hput : (map.put key value).get? other = map.get? other := by
    rw [get?_put, if_neg (by simp [hne])]
  rw [remove, remove, hput]
  cases map.get? other with
  | none => rfl
  | some existing => exact modifyShard_comm map key other (Entries.erase_put_comm hne value)

end ShardMap

namespace HolderTable

variable {table after : HolderTable} {list holder : ListIndex} {token : Token} {entered tokens : List Token}

/-- The table after a token has been entered that was not held. -/
def enter (table : HolderTable) (list : ListIndex) (token : Token) : HolderTable :=
  ⟨table.holders.put token list⟩

theorem holder?_enter_of_ne {other : Token} (hne : token ≠ other) :
    (table.enter list token).holder? other = table.holder? other :=
  (ShardMap.get?_put table.holders token other list).trans (if_neg (by simpa using hne))

theorem withdraw_enter_self (h : table.holder? token = none) :
    (table.enter list token).withdraw list token = table := by
  have hheld : (table.enter list token).holder? token = some list :=
    (ShardMap.get?_put table.holders token token list).trans (if_pos BEq.rfl)
  rw [withdraw, if_pos hheld]
  exact congrArg HolderTable.mk (ShardMap.remove_put_self h list)

theorem withdraw_enter_comm {other : Token} (hne : token ≠ other) :
    (table.enter list token).withdraw list other = (table.withdraw list other).enter list token := by
  rw [withdraw, withdraw, holder?_enter_of_ne hne]
  split
  · exact congrArg HolderTable.mk (ShardMap.remove_put_comm table.holders (by simpa using hne) list)
  · rfl

theorem foldl_withdraw_enter (h : token ∉ entered) :
    entered.foldl (withdraw · list) (table.enter list token) =
      (entered.foldl (withdraw · list) table).enter list token := by
  induction entered generalizing table with
  | nil => rfl
  | cons first rest ih =>
    rw [List.mem_cons, not_or] at h
    rw [List.foldl_cons, List.foldl_cons, withdraw_enter_comm h.1, ih h.2]

/-- A token that was entered last and is taken back last has never been there. -/
theorem foldl_withdraw_append (hfree : table.holder? token = none) (h : token ∉ entered) :
    (entered ++ [token]).foldl (withdraw · list) (table.enter list token) =
      entered.foldl (withdraw · list) table := by
  have hbefore : (entered.foldl (withdraw · list) table).holder? token = none := by
    rw [holder?_foldl_withdraw, if_neg fun hand => h hand.1, hfree]
  rw [List.foldl_append, foldl_withdraw_enter h]
  exact withdraw_enter_self hbefore

theorem eq_of_claimAfter_held (hnodup : (entered ++ tokens).Nodup)
    (h : claimAfter list entered table tokens = (.held holder, after)) :
    after = entered.foldl (withdraw · list) table := by
  induction tokens generalizing entered table with
  | nil =>
    rw [claimAfter] at h
    cases h
  | cons token rest ih =>
    rw [claimAfter] at h
    split at h
    · cases h
      rfl
    · next holders heq =>
      have hfree : table.holder? token = none := by
        have hfst := ShardMap.getThenInsertIfNew?_fst table.holders token list
        rw [heq] at hfst
        exact hfst.symm
      have henter : holders = table.holders.put token list := by
        rw [ShardMap.getThenInsertIfNew?, show table.holders.get? token = none from hfree] at heq
        exact (congrArg Prod.snd heq).symm
      have hnew : token ∉ entered := fun hmem =>
        (List.nodup_append.mp hnodup).2.2 token hmem token List.mem_cons_self rfl
      subst henter
      rw [ih (by rwa [List.append_assoc]) h]
      exact foldl_withdraw_append hfree hnew

/-- A claim that meets a held token leaves the table as it was. -/
theorem eq_of_claim_held (hnodup : tokens.Nodup)
    (h : table.claim tokens list = (.held holder, after)) : after = table :=
  eq_of_claimAfter_held (by simpa using hnodup) h

end HolderTable

end Dispatch
