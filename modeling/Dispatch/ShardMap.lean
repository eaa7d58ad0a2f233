import Dispatch.Text.Layout

/-!
# Maps split into shards

The entries of the map are spread over a power of two of shards by the low bits of the hash of their
keys, and every operation on a key touches the one shard that owns it. A shard is a list of entries in
which no key is entered twice.
-/

namespace Dispatch

/-- The entries of one shard. -/
abbrev Entries (κ ν : Type) := List (κ × ν)

namespace Entries

variable {κ ν : Type} [BEq κ]

def find? (key : κ) : Entries κ ν → Option ν
  | [] => none
  | entry :: rest => if entry.1 == key then some entry.2 else find? key rest

def erase (key : κ) (entries : Entries κ ν) : Entries κ ν :=
  entries.filter fun entry => !(entry.1 == key)

/-- The entries with a value under a key, in the place of any value before it. A key that is entered
already keeps the copy that was entered first. -/
def put (key : κ) (value : ν) : Entries κ ν → Entries κ ν
  | [] => [(key, value)]
  | entry :: rest =>
    if entry.1 == key then (entry.1, value) :: rest else entry :: put key value rest

/-- Looks at what is entered under a key, and enters something else there or nothing. -/
def update {ρ : Type} (key : κ) (change : Option ν → ρ × Option ν) (entries : Entries κ ν) :
    ρ × Entries κ ν :=
  match change (entries.find? key) with
  | (answer, some value) => (answer, entries.put key value)
  | (answer, none) => (answer, entries.erase key)

end Entries

/-- A map split into shards, of which there is at least one. -/
structure ShardMap (κ ν : Type) where
  shards : Array (Entries κ ν)
  shards_pos : 0 < shards.size

namespace ShardMap

variable {κ ν : Type}

/-- The least power of two that is not below a number. -/
def leastPowerOfTwo (n : Nat) : Nat :=
  if n ≤ 1 then 1 else Nat.pow 2 (Nat.log2 (n - 1) + 1)

theorem leastPowerOfTwo_pos (n : Nat) : 0 < leastPowerOfTwo n := by
  unfold leastPowerOfTwo
  split
  · exact Nat.one_pos
  · exact Nat.two_pow_pos _

/-- An empty map with at least the given number of shards. -/
def ofShards (shards : Nat) : ShardMap κ ν where
  shards := Array.replicate (leastPowerOfTwo (max shards 1)) []
  shards_pos := by
    rw [Array.size_replicate]
    exact leastPowerOfTwo_pos _

/-- The number of shards of a map for which none is given. -/
def standardShards : Nat := 32

def empty : ShardMap κ ν :=
  ofShards standardShards

def size (map : ShardMap κ ν) : Nat :=
  map.shards.toList.flatten.length

def isEmpty (map : ShardMap κ ν) : Bool :=
  map.shards.all List.isEmpty

variable [BEq κ] [Hashable κ]

/-- The shard that owns a key. -/
def index (map : ShardMap κ ν) (key : κ) : Nat :=
  (hash key).toNat &&& (map.shards.size - 1)

omit [BEq κ] in
/-- Every key is owned by a shard that is there. -/
theorem index_lt (map : ShardMap κ ν) (key : κ) : map.index key < map.shards.size :=
  Nat.lt_of_le_of_lt Nat.and_le_right (Nat.sub_one_lt_of_lt map.shards_pos)

def shard (map : ShardMap κ ν) (key : κ) : Entries κ ν :=
  have := map.index_lt key
  map.shards[map.index key]

/-- Changes the shard that owns a key. -/
def modifyShard (map : ShardMap κ ν) (key : κ) (change : Entries κ ν → Entries κ ν) :
    ShardMap κ ν where
  shards := map.shards.modify (map.index key) change
  shards_pos := by
    rw [Array.size_modify]
    exact map.shards_pos

/-- Uses the shard that owns a key, and leaves it as the use says. -/
def withShard {ρ : Type} (map : ShardMap κ ν) (key : κ) (use : Entries κ ν → ρ × Entries κ ν) :
    ρ × ShardMap κ ν :=
  ((use (map.shard key)).1, map.modifyShard key fun entries => (use entries).2)

def get? (map : ShardMap κ ν) (key : κ) : Option ν :=
  (map.shard key).find? key

def contains (map : ShardMap κ ν) (key : κ) : Bool :=
  (map.get? key).isSome

/-- Enters a value under a key, in the place of any value before it. -/
def put (map : ShardMap κ ν) (key : κ) (value : ν) : ShardMap κ ν :=
  map.modifyShard key (Entries.put key value)

/-- Enters a value under a key that has none, or answers the value that is there. -/
def getThenInsertIfNew? (map : ShardMap κ ν) (key : κ) (value : ν) : Option ν × ShardMap κ ν :=
  match map.get? key with
  | some existing => (some existing, map)
  | none => (none, map.put key value)

def remove (map : ShardMap κ ν) (key : κ) : Option ν × ShardMap κ ν :=
  match map.get? key with
  | some existing => (some existing, map.modifyShard key (Entries.erase key))
  | none => (none, map)

omit [BEq κ] [Hashable κ] in
def describe (map : ShardMap κ ν) : String :=
  Text.fields "ShardedMap" [("shards", Nat.repr map.shards.size)]

end ShardMap

end Dispatch
