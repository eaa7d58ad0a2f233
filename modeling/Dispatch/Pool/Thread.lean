import Dispatch.Pool

/-!
# Runs of a pool

A run is a thread whose stack shows the hooks it is in the middle of. A hook that panics costs the object
it was working on.
-/

namespace Dispatch

/-- What a user of a pool does after a call. -/
inductive PoolFrame (τ σ : Type) where
  /-- Goes on with a script that is told how the call ended. -/
  | attempting (next : Ending → PoolScript τ σ)
  /-- Hands an object out after it has been set up. -/
  | settingUp (holder : HolderRef) (guarded : Bool) (next : HolderRef → PoolScript τ σ)
  /-- Stores an object after it has been cleaned up. -/
  | cleaningUp (holder : HolderRef) (next : PoolScript τ σ)

structure PoolThread (τ σ : Type) where
  world : PoolWorld τ σ
  script : PoolScript τ σ
  stack : List (PoolFrame τ σ) := []

namespace PoolThread

variable {τ σ : Type}

def doing (thread : PoolThread τ σ) (script : PoolScript τ σ) : PoolThread τ σ :=
  { thread with script }

def calling (thread : PoolThread τ σ) (frame : PoolFrame τ σ) (script : PoolScript τ σ) :
    PoolThread τ σ :=
  { thread with script, stack := frame :: thread.stack }

def within (thread : PoolThread τ σ) (world : PoolWorld τ σ) : PoolThread τ σ :=
  { thread with world }

/-- Cleans the object of a holder up, to store it. -/
def giveBack (recipe : Recipe τ σ) (thread : PoolThread τ σ) (holder : HolderRef)
    (next : PoolScript τ σ) : PoolThread τ σ :=
  (thread.within (thread.world.modify holder fun held => { held with grip := .inCall })).calling
    (.cleaningUp holder next) (recipe.cleanUp holder)

/-- Goes on with the frame a script was called from. A hook that panics costs the object it was working
on. -/
def finish (recipe : Recipe τ σ) (thread : PoolThread τ σ) (ending : Ending) :
    PoolFrame τ σ → PoolThread τ σ
  | .attempting next => thread.doing (next ending)
  | .settingUp holder guarded next =>
    match ending with
    | .panicked _ => thread.within (thread.world.discardFrom recipe holder)
    | .normal | .failed _ =>
      let grip := if guarded then Grip.guarded else .free
      (thread.within (thread.world.modify holder fun held => { held with grip })).doing
        (next holder)
  | .cleaningUp holder next =>
    match ending with
    | .panicked _ => thread.within (thread.world.discardFrom recipe holder)
    | .normal | .failed _ =>
      match thread.world.find? holder with
      | none => thread.doing next
      | some held =>
        (thread.within ((thread.world.without holder).store recipe held.object)).doing next

def step (recipe : Recipe τ σ) (thread : PoolThread τ σ) : Ending ⊕ PoolThread τ σ :=
  let world := thread.world
  match thread.script with
  | .stop ending =>
    match thread.stack with
    | [] => .inl ending
    | frame :: stack => .inr ({ thread with stack }.finish recipe ending frame)
  | .remember change next =>
    .inr ((thread.within { world with memory := change world.memory }).doing next)
  | .recall next => .inr (thread.doing (next world.view world.memory))
  | .attempt body next => .inr (thread.calling (.attempting next) body)
  | .alloc guarded next =>
    match world.take recipe with
    | (.error payload, world) => .inr ((thread.within world).doing (.stop (.panicked payload)))
    | (.ok object, world) =>
      let (holder, world) := world.hand object .inCall
      .inr ((thread.within world).calling (.settingUp holder guarded next) (recipe.setUp holder))
  | .adopt content next =>
    let object : Object τ := { id := world.nextId, content }
    let (holder, world) := { world with nextId := world.nextId + 1 }.hand object .free
    .inr ((thread.within world).doing (next holder))
  | .edit holder change next =>
    let edited := world.modify holder fun held =>
      { held with object := { held.object with content := change held.object.content } }
    .inr ((thread.within edited).doing next)
  | .look holder next => .inr (thread.doing (next (world.find? holder)))
  | .release holder next =>
    match world.inHand? holder with
    | none => .inr (thread.doing next)
    | some _ => .inr (thread.giveBack recipe holder next)
  | .detach holder next =>
    match world.inHand? holder with
    | none => .inr (thread.doing next)
    | some _ =>
      .inr ((thread.within (world.modify holder fun held => { held with grip := .free })).doing
        next)
  | .drop holder next =>
    match world.inHand? holder with
    | none => .inr (thread.doing next)
    | some held =>
      if held.grip = .guarded then .inr (thread.giveBack recipe holder next)
      else .inr ((thread.within (world.discardFrom recipe holder)).doing next)

/-- Runs a script to its end, if that is reached within the bound. -/
def run (recipe : Recipe τ σ) : Nat → PoolThread τ σ → Option Ending × PoolWorld τ σ
  | 0, thread => (none, thread.world)
  | bound + 1, thread =>
    match thread.step recipe with
    | .inl ending => (some ending, thread.world)
    | .inr thread => run recipe bound thread

end PoolThread

end Dispatch
