import Dispatch.Failure

/-!
# Object pools

A pool keeps up to a fixed number of objects for reuse. An object that is taken is set up first, and one
that is given back is cleaned up; when no object is left a new one is made, and a cleaned object that
finds no room is dropped. Both hooks are scripts and may use the pool themselves. Every object is in one
place: ready for reuse, in the hands of a holder, or in the hands of a call whose hook is running.
-/

namespace Dispatch

/-- A holder of an object, as the users of a pool refer to it. -/
abbrev HolderRef := Nat

/-- An object, known by the number it was made with. -/
structure Object (τ : Type) where
  id : Nat
  content : τ
  deriving DecidableEq, Repr

/-- In whose hands an object is. -/
inductive Grip where
  /-- Its holder may do with it what it likes. -/
  | free
  /-- It goes back to the pool when its holder drops it. -/
  | guarded
  /-- A call of the pool has it while a hook runs. -/
  | inCall
  deriving DecidableEq, Repr

/-- An object in somebody's hands. -/
structure Held (τ : Type) where
  holder : HolderRef
  grip : Grip
  object : Object τ
  deriving DecidableEq, Repr

structure PoolView where
  capacity : Nat
  available : Nat
  /-- The number that the next object will have. -/
  made : Nat
  deriving DecidableEq, Repr

/-- What a user of a pool does, with objects holding a `τ` and a memory of type `σ`. Hooks are users,
too. -/
inductive PoolScript (τ σ : Type) where
  | stop (ending : Ending)
  /-- Changes the memory. -/
  | remember (change : σ → σ) (next : PoolScript τ σ)
  /-- Goes on as the pool and the memory say. -/
  | recall (next : PoolView → σ → PoolScript τ σ)
  /-- Goes on with the ending of another script, whatever it is. -/
  | attempt (body : PoolScript τ σ) (next : Ending → PoolScript τ σ)
  /-- Takes an object out of the pool, to be held freely or under a guard. -/
  | alloc (guarded : Bool) (next : HolderRef → PoolScript τ σ)
  /-- Makes an object that does not come from the pool. -/
  | adopt (content : τ) (next : HolderRef → PoolScript τ σ)
  /-- Changes an object in somebody's hands. -/
  | edit (holder : HolderRef) (change : τ → τ) (next : PoolScript τ σ)
  /-- Looks at an object in somebody's hands. -/
  | look (holder : HolderRef) (next : Option (Held τ) → PoolScript τ σ)
  /-- Gives an object to the pool. -/
  | release (holder : HolderRef) (next : PoolScript τ σ)
  /-- Frees an object from its guard. -/
  | detach (holder : HolderRef) (next : PoolScript τ σ)
  /-- Lets go of an object. Under a guard it goes back to the pool. -/
  | drop (holder : HolderRef) (next : PoolScript τ σ)

/-- Holds a guarded object during a piece of work. However the work ends, the object is given back
first. -/
def PoolScript.borrow {τ σ : Type} (work : HolderRef → PoolScript τ σ) (next : PoolScript τ σ) :
    PoolScript τ σ :=
  .alloc true fun holder => .attempt (work holder) fun ending =>
    .drop holder
      (match ending with
      | .normal => next
      | .failed _ | .panicked _ => .stop ending)

/-- How the objects of a pool are made, set up, cleaned up and dropped. -/
structure Recipe (τ σ : Type) where
  /-- Makes the object of a number, or panics. -/
  construct : Nat → σ → Except Payload τ × σ
  setUp : HolderRef → PoolScript τ σ
  cleanUp : HolderRef → PoolScript τ σ
  /-- What the memory keeps of an object that is dropped. -/
  onDrop : Nat → σ → σ

/-- A pool and what surrounds it. -/
structure PoolWorld (τ σ : Type) where
  capacity : Nat
  /-- The objects ready for reuse, the one stored last first. -/
  spare : List (Object τ)
  /-- The objects in somebody's hands. -/
  held : List (Held τ)
  /-- The number of the next object. -/
  nextId : Nat
  nextHolder : HolderRef
  /-- The objects that have been dropped, the latest first. -/
  dropped : List Nat
  memory : σ

namespace PoolView

def describe (view : PoolView) : String :=
  Text.fields "ObjectPool"
    [("capacity", Nat.repr view.capacity), ("available", Nat.repr view.available)]

end PoolView

def describeGuarded (object : String) : String :=
  Text.applied "Pooled" [Text.optional (some object)]

namespace PoolWorld

variable {τ σ : Type}

def view (world : PoolWorld τ σ) : PoolView :=
  { capacity := world.capacity, available := world.spare.length, made := world.nextId }

def find? (world : PoolWorld τ σ) (holder : HolderRef) : Option (Held τ) :=
  world.held.find? fun held => held.holder = holder

/-- The object of a holder, unless a call of the pool has it. -/
def inHand? (world : PoolWorld τ σ) (holder : HolderRef) : Option (Held τ) :=
  (world.find? holder).filter fun held => held.grip ≠ .inCall

/-- Takes the object out of the hands of a holder. -/
def without (world : PoolWorld τ σ) (holder : HolderRef) : PoolWorld τ σ :=
  { world with held := world.held.filter fun held => held.holder ≠ holder }

def modify (world : PoolWorld τ σ) (holder : HolderRef) (change : Held τ → Held τ) :
    PoolWorld τ σ :=
  { world with held := world.held.map fun held =>
      if held.holder = holder then change held else held }

def hand (world : PoolWorld τ σ) (object : Object τ) (grip : Grip) :
    HolderRef × PoolWorld τ σ :=
  (world.nextHolder,
    { world with
      held := { holder := world.nextHolder, grip, object } :: world.held
      nextHolder := world.nextHolder + 1 })

def discard (recipe : Recipe τ σ) (world : PoolWorld τ σ) (object : Object τ) : PoolWorld τ σ :=
  { world with
    dropped := object.id :: world.dropped, memory := recipe.onDrop object.id world.memory }

def discardFrom (recipe : Recipe τ σ) (world : PoolWorld τ σ) (holder : HolderRef) :
    PoolWorld τ σ :=
  match world.find? holder with
  | none => world
  | some held => discard recipe (world.without holder) held.object

/-- Makes an object. Its number is used up even if that panics. -/
def construct (recipe : Recipe τ σ) (world : PoolWorld τ σ) :
    Except Payload (Object τ) × PoolWorld τ σ :=
  let (made, memory) := recipe.construct world.nextId world.memory
  let rest := { world with nextId := world.nextId + 1, memory }
  match made with
  | .error payload => (.error payload, rest)
  | .ok content => (.ok { id := world.nextId, content }, rest)

/-- Takes the object stored last, or makes one if there is none. -/
def take (recipe : Recipe τ σ) (world : PoolWorld τ σ) :
    Except Payload (Object τ) × PoolWorld τ σ :=
  match world.spare with
  | object :: spare => (.ok object, { world with spare })
  | [] => construct recipe world

/-- Stores an object, or drops it if there is no room. -/
def store (recipe : Recipe τ σ) (world : PoolWorld τ σ) (object : Object τ) : PoolWorld τ σ :=
  if world.spare.length < world.capacity then { world with spare := object :: world.spare }
  else discard recipe world object

/-- Makes the objects a new pool starts with. If one cannot be made the others are dropped, the oldest
first. -/
def fill (recipe : Recipe τ σ) : Nat → PoolWorld τ σ → Except Payload Unit × PoolWorld τ σ
  | 0, world => (.ok (), world)
  | missing + 1, world =>
    match construct recipe world with
    | (.ok object, world) => fill recipe missing { world with spare := object :: world.spare }
    | (.error payload, world) =>
      (.error payload,
        world.spare.reverse.foldl (discard recipe) { world with spare := [] })

/-- The panic of a pool without room. -/
def noCapacity : Payload :=
  .text "ObjectPool capacity must be positive"

/-- A new pool, with as many objects as it has room for. -/
def start (recipe : Recipe τ σ) (capacity : Nat) (memory : σ) :
    Except Payload Unit × PoolWorld τ σ :=
  let world : PoolWorld τ σ :=
    { capacity, spare := [], held := [], nextId := 0, nextHolder := 0, dropped := [], memory }
  if capacity = 0 then (.error noCapacity, world) else fill recipe capacity world

end PoolWorld

end Dispatch
