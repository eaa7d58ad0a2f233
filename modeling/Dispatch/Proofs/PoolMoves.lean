import Dispatch.Pool.Thread
import Dispatch.Proofs.Course
import Dispatch.Proofs.PoolAccount

/-!
# What the users of a pool do to its objects

What a step of a thread can do is said once (`PoolThread.Moves`), and everything else is read off it. A step
keeps the account of the pool (`PoolThread.accounted_of_moves`): an object is in one place and each hook on
the stack has an object. The slots change when an object is taken or stored and at no other time
(`PoolThread.slots_of_moves`), and an object is dropped by its holder, by a panic of the hook that works on
it, or because there is no room for it (`PoolThread.drops_of_moves`).
-/

namespace Dispatch

variable {τ σ : Type}

def PoolFrame.holder? : PoolFrame τ σ → Option HolderRef
  | .attempting _ => none
  | .settingUp holder _ _ | .cleaningUp holder _ => some holder

/-- The holder that the next step takes something from. -/
def PoolScript.lets? : PoolScript τ σ → Option HolderRef
  | .release holder _ | .detach holder _ | .drop holder _ => some holder
  | .stop _ | .remember _ _ | .recall _ | .attempt _ _ | .alloc _ _ | .adopt _ _ | .edit _ _ _
  | .look _ _ => none

namespace PoolWorld

variable {world : PoolWorld τ σ} {held : Held τ} {holder : HolderRef}

theorem inHand?_eq_some : world.inHand? holder = some held ↔
    world.find? holder = some held ∧ held.grip ≠ .inCall := by
  simp [inHand?, Option.filter_eq_some_iff]

end PoolWorld

namespace PoolThread

variable {recipe : Recipe τ σ} {thread later : PoolThread τ σ} {holder : HolderRef} {held : Held τ}
  {made : List Nat}

def hooks (stack : List (PoolFrame τ σ)) : List (PoolFrame τ σ) :=
  stack.filter fun frame => frame.holder?.isSome

/-- The calls of the pool that are under way, known by the holders of their objects. -/
def calls (thread : PoolThread τ σ) : List HolderRef :=
  thread.stack.filterMap PoolFrame.holder?

def makes (recipe : Recipe τ σ) (thread : PoolThread τ σ) : List Nat :=
  match thread.script with
  | .alloc _ _ => thread.world.makes recipe
  | .adopt _ _ => [thread.world.nextId]
  | .stop _ | .remember _ _ | .recall _ | .attempt _ _ | .edit _ _ _ | .look _ _ | .release _ _
  | .detach _ _ | .drop _ _ => []

def Guards (thread : PoolThread τ σ) (holder : HolderRef) : Prop :=
  ∃ held, thread.world.find? holder = some held ∧ held.grip = .guarded

/-- A guard is dropped, which gives its object back. -/
def GivesBack (thread : PoolThread τ σ) (holder : HolderRef) : Prop :=
  thread.Guards holder ∧ ∃ next, thread.script = .drop holder next

/-- An object is taken off its guard, to be kept or to be released by hand. -/
def Detaches (thread : PoolThread τ σ) (holder : HolderRef) : Prop :=
  thread.Guards holder ∧ ∃ next, thread.script = .detach holder next ∨
    thread.script = .release holder next

def LetsGo (thread : PoolThread τ σ) (holder : HolderRef) : Prop :=
  thread.GivesBack holder ∨ thread.Detaches holder

/-! ### Steps -/

inductive Moves (recipe : Recipe τ σ) (thread : PoolThread τ σ) : PoolThread τ σ → Prop where
  /-- The objects stay where they are. -/
  | rests {memory : σ} {script : PoolScript τ σ} {stack : List (PoolFrame τ σ)}
      (hscript : ∀ guarded next, thread.script ≠ .alloc guarded next)
      (hmakes : thread.makes recipe = []) (hkeeps : ∀ holder, ¬ thread.LetsGo holder)
      (hstack : hooks stack = hooks thread.stack) :
      Moves recipe thread ⟨{ thread.world with memory }, script, stack⟩
  /-- The constructor panics. -/
  | fails {guarded : Bool} {next : HolderRef → PoolScript τ σ} {payload : Payload}
      {world : PoolWorld τ σ} (hscript : thread.script = .alloc guarded next)
      (htake : thread.world.take recipe = (.error payload, world)) :
      Moves recipe thread ⟨world, .stop (.panicked payload), thread.stack⟩
  /-- An object is taken, to be set up. -/
  | takes {guarded : Bool} {next : HolderRef → PoolScript τ σ} {object : Object τ}
      {world : PoolWorld τ σ} (hscript : thread.script = .alloc guarded next)
      (htake : thread.world.take recipe = (.ok object, world)) :
      Moves recipe thread ⟨(world.hand object .inCall).2, recipe.setUp world.nextHolder,
        .settingUp world.nextHolder guarded next :: thread.stack⟩
  /-- An object is made elsewhere. -/
  | adopts {content : τ} {next : HolderRef → PoolScript τ σ}
      (hscript : thread.script = .adopt content next) :
      Moves recipe thread
        ⟨({ thread.world with nextId := thread.world.nextId + 1 }.hand
          ⟨thread.world.nextId, content⟩ .free).2, next thread.world.nextHolder, thread.stack⟩
  /-- An object is changed. -/
  | edits {holder : HolderRef} {change : τ → τ} {next : PoolScript τ σ}
      (hscript : thread.script = .edit holder change next) :
      Moves recipe thread
        ⟨thread.world.modify holder fun held =>
          { held with object := { held.object with content := change held.object.content } },
          next, thread.stack⟩
  /-- An object is given to the pool, to be cleaned up. -/
  | gives {holder : HolderRef} {held : Held τ} {next : PoolScript τ σ}
      (hscript : thread.script = .release holder next ∨
        thread.script = .drop holder next ∧ held.grip = .guarded)
      (hfind : thread.world.find? holder = some held) (hgrip : held.grip ≠ .inCall) :
      Moves recipe thread (thread.giveBack recipe holder next)
  /-- An object is taken off its guard. -/
  | detaches {holder : HolderRef} {held : Held τ} {next : PoolScript τ σ}
      (hscript : thread.script = .detach holder next)
      (hfind : thread.world.find? holder = some held) (hgrip : held.grip ≠ .inCall) :
      Moves recipe thread
        ⟨thread.world.modify holder fun held => { held with grip := .free }, next, thread.stack⟩
  /-- A free object is dropped. -/
  | drops {holder : HolderRef} {held : Held τ} {next : PoolScript τ σ}
      (hscript : thread.script = .drop holder next)
      (hfind : thread.world.find? holder = some held) (hgrip : held.grip = .free) :
      Moves recipe thread ⟨thread.world.discardFrom recipe holder, next, thread.stack⟩
  /-- An object that has been set up is handed out. -/
  | handsOut {holder : HolderRef} {held : Held τ} {guarded : Bool}
      {next : HolderRef → PoolScript τ σ} {ending : Ending} {stack : List (PoolFrame τ σ)}
      (hscript : thread.script = .stop ending) (hending : ∀ payload, ending ≠ .panicked payload)
      (hstack : thread.stack = .settingUp holder guarded next :: stack)
      (hfind : thread.world.find? holder = some held) (hgrip : held.grip = .inCall) :
      Moves recipe thread
        ⟨thread.world.modify holder fun held =>
          { held with grip := if guarded then Grip.guarded else .free }, next holder, stack⟩
  /-- A hook panics, and the object it works on is dropped. -/
  | loses {holder : HolderRef} {held : Held τ} {frame : PoolFrame τ σ} {payload : Payload}
      {stack : List (PoolFrame τ σ)} (hscript : thread.script = .stop (.panicked payload))
      (hstack : thread.stack = frame :: stack) (hframe : frame.holder? = some holder)
      (hfind : thread.world.find? holder = some held) (hgrip : held.grip = .inCall) :
      Moves recipe thread
        ⟨thread.world.discardFrom recipe holder, .stop (.panicked payload), stack⟩
  /-- An object that has been cleaned up is stored, or dropped if there is no room. -/
  | stores {holder : HolderRef} {held : Held τ} {next : PoolScript τ σ} {ending : Ending}
      {stack : List (PoolFrame τ σ)} (hscript : thread.script = .stop ending)
      (hending : ∀ payload, ending ≠ .panicked payload)
      (hstack : thread.stack = .cleaningUp holder next :: stack)
      (hfind : thread.world.find? holder = some held) (hgrip : held.grip = .inCall) :
      Moves recipe thread ⟨(thread.world.without holder).store recipe held.object, next, stack⟩

theorem lets_of_letsGo (h : thread.LetsGo holder) : thread.script.lets? = some holder := by
  rcases h with ⟨-, next, hscript⟩ | ⟨-, next, hscript | hscript⟩ <;> rw [hscript] <;> rfl

theorem guards_of_letsGo (h : thread.LetsGo holder) : thread.Guards holder :=
  h.elim And.left And.left

/-- Only a holder that has its object in hand lets go of it. -/
theorem not_letsGo (h : ∀ holder, thread.script.lets? = some holder →
    thread.world.inHand? holder = none) (holder : HolderRef) : ¬ thread.LetsGo holder := by
  intro hlets
  obtain ⟨held, hfind, hgrip⟩ := guards_of_letsGo hlets
  have hhand := PoolWorld.inHand?_eq_some.mpr ⟨hfind, by simp [hgrip]⟩
  simp [h holder (lets_of_letsGo hlets)] at hhand

theorem find?_of_frame (h : thread.world.Accounted made [] thread.calls) {frame : PoolFrame τ σ}
    (hmem : frame ∈ thread.stack) (hframe : frame.holder? = some holder) :
    ∃ held, thread.world.find? holder = some held ∧ held.grip = .inCall :=
  h.find?_of_calls (List.mem_filterMap.mpr ⟨frame, hmem, hframe⟩)

theorem rests_of_none (hlets : thread.script.lets? = some holder)
    (hhand : thread.world.inHand? holder = none) (next : PoolScript τ σ) :
    Moves recipe thread (thread.doing next) := by
  refine .rests ?_ ?_ (not_letsGo ?_) rfl
  · intro guarded next' hscript
    rw [hscript] at hlets
    cases hlets
  · rw [makes]
    cases hscript : thread.script <;> simp [hscript, PoolScript.lets?] at hlets ⊢
  · intro other hother
    rw [hlets, Option.some_inj] at hother
    exact hother ▸ hhand

theorem moves (h : thread.world.Accounted made [] thread.calls)
    (hstep : thread.step recipe = .inr later) : Moves recipe thread later := by
  obtain ⟨world, script, stack⟩ := thread
  cases script with
  | stop ending =>
    cases stack with
    | nil => cases hstep
    | cons frame stack =>
      cases hstep
      -- the hooks have objects, so their frames find one
      cases frame with
      | attempting next => exact .rests nofun rfl (not_letsGo nofun) rfl
      | settingUp holder guarded next =>
        obtain ⟨held, hfind, hgrip⟩ := find?_of_frame h List.mem_cons_self rfl
        cases ending with
        | normal => exact .handsOut rfl nofun rfl hfind hgrip
        | failed report => exact .handsOut rfl nofun rfl hfind hgrip
        | panicked payload => exact .loses rfl rfl rfl hfind hgrip
      | cleaningUp holder next =>
        obtain ⟨held, hfind, hgrip⟩ := find?_of_frame h List.mem_cons_self rfl
        have hstores (ending : Ending) (hending : ∀ payload, ending ≠ .panicked payload) :
            Moves recipe ⟨world, .stop ending, .cleaningUp holder next :: stack⟩
              ⟨(world.without holder).store recipe held.object, next, stack⟩ :=
          .stores rfl hending rfl hfind hgrip
        cases ending with
        | normal =>
          simp only [finish, hfind]
          exact hstores .normal nofun
        | failed report =>
          simp only [finish, hfind]
          exact hstores (.failed report) nofun
        | panicked payload => exact .loses rfl rfl rfl hfind hgrip
  | remember change next => cases hstep; exact .rests nofun rfl (not_letsGo nofun) rfl
  | «recall» next => cases hstep; exact .rests nofun rfl (not_letsGo nofun) rfl
  | attempt body next => cases hstep; exact .rests nofun rfl (not_letsGo nofun) rfl
  | alloc guarded next =>
    unfold step at hstep
    rcases htake : world.take recipe with ⟨payload | object, taken⟩
    · simp only [htake] at hstep
      cases hstep
      exact .fails rfl htake
    · simp only [htake] at hstep
      cases hstep
      exact .takes rfl htake
  | adopt content next => cases hstep; exact .adopts rfl
  | edit holder change next => cases hstep; exact .edits rfl
  | look holder next => cases hstep; exact .rests nofun rfl (not_letsGo nofun) rfl
  | release holder next =>
    unfold step at hstep
    cases hhand : world.inHand? holder with
    | none =>
      simp only [hhand] at hstep
      cases hstep
      exact rests_of_none rfl hhand next
    | some held =>
      simp only [hhand] at hstep
      cases hstep
      obtain ⟨hfind, hgrip⟩ := PoolWorld.inHand?_eq_some.mp hhand
      exact .gives (.inl rfl) hfind hgrip
  | detach holder next =>
    unfold step at hstep
    cases hhand : world.inHand? holder with
    | none =>
      simp only [hhand] at hstep
      cases hstep
      exact rests_of_none rfl hhand next
    | some held =>
      simp only [hhand] at hstep
      cases hstep
      obtain ⟨hfind, hgrip⟩ := PoolWorld.inHand?_eq_some.mp hhand
      exact .detaches rfl hfind hgrip
  | drop holder next =>
    unfold step at hstep
    cases hhand : world.inHand? holder with
    | none =>
      simp only [hhand] at hstep
      cases hstep
      exact rests_of_none rfl hhand next
    | some held =>
      obtain ⟨hfind, hgrip⟩ := PoolWorld.inHand?_eq_some.mp hhand
      simp only [hhand] at hstep
      split at hstep
      · next hguarded =>
        cases hstep
        exact .gives (.inr ⟨rfl, hguarded⟩) hfind hgrip
      · next hguarded =>
        cases hstep
        refine .drops rfl hfind ?_
        cases heq : held.grip with
        | free => rfl
        | guarded => exact absurd heq hguarded
        | inCall => exact absurd heq hgrip

theorem stop_of_inl {ending : Ending} (hstep : thread.step recipe = .inl ending) :
    thread.script = .stop ending := by
  obtain ⟨world, script, stack⟩ := thread
  cases script with
  | stop ending =>
    cases stack with
    | nil => cases hstep; rfl
    | cons frame stack => cases hstep
  | alloc guarded next =>
    unfold step at hstep
    rcases htake : world.take recipe with ⟨_ | _, _⟩ <;> simp [htake] at hstep
  | release holder next | detach holder next =>
    unfold step at hstep
    cases hhand : world.inHand? holder <;> simp [hhand] at hstep
  | drop holder next =>
    unfold step at hstep
    cases hhand : world.inHand? holder with
    | none => simp [hhand] at hstep
    | some held =>
      simp only [hhand] at hstep
      split at hstep <;> cases hstep
  | remember _ _ | «recall» _ | attempt _ _ | adopt _ _ | edit _ _ _ | look _ _ => cases hstep

theorem moves_advance (h : thread.world.Accounted made [] thread.calls) :
    Moves recipe thread (advance (step recipe) thread) := by
  cases hstep : thread.step recipe with
  | inl ending =>
    rw [advance_of_inl hstep]
    have hscript := stop_of_inl hstep
    refine .rests (by simp [hscript]) (by rw [makes, hscript]) (not_letsGo ?_) rfl
    simp [hscript, PoolScript.lets?]
  | inr later =>
    rw [advance_of_inr hstep]
    exact moves h hstep

/-- A hook that panics drops the object it works on, and the panic goes on. -/
theorem advance_panicked {frame : PoolFrame τ σ} {payload : Payload} {stack : List (PoolFrame τ σ)}
    (hscript : thread.script = .stop (.panicked payload)) (hstack : thread.stack = frame :: stack)
    (hframe : frame.holder? = some holder) : advance (step recipe) thread =
      ⟨thread.world.discardFrom recipe holder, .stop (.panicked payload), stack⟩ := by
  obtain ⟨world, script, frames⟩ := thread
  cases hscript
  cases hstack
  cases frame with
  | attempting next => cases hframe
  | settingUp _ _ _ | cleaningUp _ _ =>
    cases hframe
    rfl

/-- A constructor that panics moves nothing, and the caller goes on with the panic. -/
theorem advance_failed {guarded : Bool} {next : HolderRef → PoolScript τ σ} {payload : Payload}
    (hscript : thread.script = .alloc guarded next)
    (htake : (thread.world.take recipe).1 = .error payload) :
    ∃ memory, advance (step recipe) thread =
      ⟨{ thread.world with nextId := thread.world.nextId + 1, memory }, .stop (.panicked payload),
        thread.stack⟩ := by
  obtain ⟨-, -, memory, hworld⟩ := PoolWorld.take_error (Prod.ext htake rfl)
  refine ⟨memory, advance_of_inr ?_⟩
  rcases hresult : thread.world.take recipe with ⟨result, world⟩
  rw [hresult] at htake hworld
  cases htake
  cases hworld
  simp only [step, hscript, hresult]
  rfl

/-- The capacity stays, and holders stay known. -/
theorem frame_of_moves (hmoves : Moves recipe thread later) :
    later.world.capacity = thread.world.capacity ∧
      thread.world.nextHolder ≤ later.world.nextHolder := by
  cases hmoves with
  | fails _ htake =>
    obtain ⟨-, -, memory, rfl⟩ := PoolWorld.take_error htake
    exact ⟨rfl, Nat.le_refl _⟩
  | takes _ htake =>
    obtain ⟨-, hnext, hcapacity⟩ := PoolWorld.frame_of_take_ok htake
    exact ⟨hcapacity, hnext ▸ Nat.le_succ _⟩
  | adopts => exact ⟨rfl, Nat.le_succ _⟩
  | drops _ hfind | loses _ _ _ hfind =>
    rw [PoolWorld.discardFrom_of_find? hfind]
    exact ⟨rfl, Nat.le_refl _⟩
  | stores =>
    simp only [PoolWorld.store]
    split <;> exact ⟨rfl, Nat.le_refl _⟩
  | rests | edits | gives | detaches | handsOut => exact ⟨rfl, Nat.le_refl _⟩

/-! ### The account -/

theorem calls_of_hooks {stack stack' : List (PoolFrame τ σ)} (h : hooks stack = hooks stack') :
    stack.filterMap PoolFrame.holder? = stack'.filterMap PoolFrame.holder? := by
  have hall : ∀ stack : List (PoolFrame τ σ),
      (hooks stack).filterMap PoolFrame.holder? = stack.filterMap PoolFrame.holder? := by
    intro stack
    rw [hooks, List.filterMap_filter]
    congr 1
    funext frame
    cases frame <;> rfl
  rw [← hall stack, ← hall stack', h]

/-- Every step keeps the account. -/
theorem accounted_of_moves (h : thread.world.Accounted made [] thread.calls)
    (hmoves : Moves recipe thread later) :
    later.world.Accounted (thread.makes recipe ++ made) [] later.calls := by
  cases hmoves with
  | rests _ hmakes _ hstack =>
    rw [hmakes, calls, calls_of_hooks hstack]
    exact h.remember _
  | fails hscript htake =>
    obtain ⟨-, hmakes, memory, rfl⟩ := PoolWorld.take_error htake
    rw [makes, hscript]
    simp only [hmakes]
    exact h.skip memory
  | takes hscript htake =>
    rw [makes, hscript]
    exact (h.take htake).hand .inCall
  | adopts hscript =>
    rw [makes, hscript]
    exact (h.make thread.world.memory).hand .free
  | edits hscript =>
    rw [makes, hscript]
    exact h.keep (PoolWorld.keeps_content _) fun _ _ => rfl
  | @gives holder held next hscript hfind hgrip =>
    have hmakes : thread.makes recipe = [] := by
      rw [makes]
      rcases hscript with hscript | ⟨hscript, -⟩ <;> rw [hscript]
    have hgive := h.modify (PoolWorld.keeps_grip .inCall) hfind
      (by rw [Held.calls_of_ne hgrip, List.nil_append])
    rw [hmakes]
    rw [Held.calls_of_inCall rfl] at hgive
    exact PoolWorld.holder_of_find? hfind ▸ hgive
  | detaches hscript hfind hgrip =>
    rw [makes, hscript]
    refine h.keep (PoolWorld.keeps_grip .free) ?_
    intro held' hfind'
    obtain rfl := Option.some_inj.mp (hfind.symm.trans hfind')
    rw [Held.calls_of_ne hgrip, Held.calls_of_ne (by simp)]
  | drops hscript hfind hgrip =>
    rw [makes, hscript]
    refine h.discardFrom hfind ?_ recipe
    rw [Held.calls_of_ne (by simp [hgrip]), List.nil_append]
    exact .refl _
  | @handsOut holder held guarded _ _ stack hscript hending hstack hfind hgrip =>
    -- here and below, a frame goes and the call of its holder with it
    rw [makes, hscript]
    have hcalls : thread.calls = held.calls ++ stack.filterMap PoolFrame.holder? := by
      rw [Held.calls_of_inCall hgrip, PoolWorld.holder_of_find? hfind, calls, hstack]
      rfl
    have hhand := h.modify (PoolWorld.keeps_grip (if guarded then .guarded else .free)) hfind
      (.of_eq hcalls)
    rwa [Held.calls_of_ne (by split <;> simp)] at hhand
  | @loses holder held frame _ stack hscript hstack hframe hfind hgrip =>
    rw [makes, hscript]
    refine h.discardFrom hfind (.of_eq ?_) recipe
    rw [Held.calls_of_inCall hgrip, PoolWorld.holder_of_find? hfind, calls, hstack,
      List.filterMap_cons_some hframe]
    rfl
  | @stores holder held _ _ stack hscript hending hstack hfind hgrip =>
    rw [makes, hscript]
    refine (h.without hfind (.of_eq ?_)).store recipe
    rw [Held.calls_of_inCall hgrip, PoolWorld.holder_of_find? hfind, calls, hstack]
    rfl

/-! ### Slots and dropped objects -/

inductive Slots (thread later : PoolThread τ σ) : Prop where
  /-- Nothing is stored, and nothing can be taken. -/
  | same (hspare : later.world.spare = thread.world.spare)
      (halloc : ∀ guarded next, thread.script = .alloc guarded next → thread.world.spare = [])
  /-- The object stored last is taken. -/
  | taken {guarded : Bool} {next : HolderRef → PoolScript τ σ} {object : Object τ}
      (hscript : thread.script = .alloc guarded next)
      (hspare : thread.world.spare = object :: later.world.spare)
  /-- An object is stored whose cleanup did not panic. -/
  | stored {ending : Ending} {holder : HolderRef} {next : PoolScript τ σ} {held : Held τ}
      (hscript : thread.script = .stop ending) (hending : ∀ payload, ending ≠ .panicked payload)
      (hstack : thread.stack = .cleaningUp holder next :: later.stack)
      (hfind : thread.world.find? holder = some held)
      (hspare : later.world.spare = held.object :: thread.world.spare)

inductive Drops (thread later : PoolThread τ σ) : Prop where
  /-- Nothing is dropped. -/
  | same (hdropped : later.world.dropped = thread.world.dropped)
  /-- A holder lets go of a free object. -/
  | letGo {holder : HolderRef} {next : PoolScript τ σ} {held : Held τ}
      (hscript : thread.script = .drop holder next)
      (hfind : thread.world.find? holder = some held) (hgrip : held.grip = .free)
      (hdropped : later.world.dropped = held.object.id :: thread.world.dropped)
  /-- The hook that works on an object panics. -/
  | lost {holder : HolderRef} {frame : PoolFrame τ σ} {payload : Payload} {held : Held τ}
      (hscript : thread.script = .stop (.panicked payload))
      (hstack : thread.stack = frame :: later.stack) (hframe : frame.holder? = some holder)
      (hfind : thread.world.find? holder = some held)
      (hdropped : later.world.dropped = held.object.id :: thread.world.dropped)
  /-- An object has been cleaned up, and there is no room for it. -/
  | refused {ending : Ending} {holder : HolderRef} {next : PoolScript τ σ} {held : Held τ}
      (hscript : thread.script = .stop ending) (hending : ∀ payload, ending ≠ .panicked payload)
      (hstack : thread.stack = .cleaningUp holder next :: later.stack)
      (hfind : thread.world.find? holder = some held)
      (hroom : thread.world.capacity ≤ thread.world.view.available)
      (hdropped : later.world.dropped = held.object.id :: thread.world.dropped)

/-- The slots change when the object stored last is taken, and when one is stored. -/
theorem slots_of_moves (hmoves : Moves recipe thread later) : Slots thread later := by
  have hsame (hspare : later.world.spare = thread.world.spare)
      (hscript : ∀ guarded next, thread.script ≠ .alloc guarded next) : Slots thread later :=
    .same hspare fun guarded next h => absurd h (hscript guarded next)
  cases hmoves with
  | rests hscript => exact hsame rfl hscript
  | fails _ htake =>
    obtain ⟨hspare, -, memory, rfl⟩ := PoolWorld.take_error htake
    exact .same rfl fun _ _ _ => hspare
  | takes hscript htake =>
    obtain ⟨spare, hspare, -, rfl⟩ | ⟨hspare, -, -, memory, rfl⟩ := PoolWorld.take_ok htake
    · exact .taken hscript hspare
    · exact .same rfl fun _ _ _ => hspare
  | drops hscript hfind | loses hscript _ _ hfind =>
    rw [PoolWorld.discardFrom_of_find? hfind] at hsame ⊢
    exact hsame rfl (by simp [hscript])
  | stores hscript hending hstack hfind =>
    by_cases hroom : thread.world.spare.length < thread.world.capacity
    · exact .stored hscript hending hstack hfind (PoolWorld.spare_store.trans (if_pos hroom))
    · exact hsame (PoolWorld.spare_store.trans (if_neg hroom)) (by simp [hscript])
  | gives hscript =>
    refine hsame rfl ?_
    rcases hscript with hscript | ⟨hscript, -⟩ <;> simp [hscript]
  | adopts hscript | edits hscript | detaches hscript | handsOut hscript =>
    exact hsame rfl (by simp [hscript])

theorem drops_of_moves (hmoves : Moves recipe thread later) : Drops thread later := by
  cases hmoves with
  | fails _ htake =>
    obtain ⟨-, -, memory, rfl⟩ := PoolWorld.take_error htake
    exact .same rfl
  | takes _ htake =>
    obtain ⟨spare, -, -, rfl⟩ | ⟨-, -, -, memory, rfl⟩ := PoolWorld.take_ok htake <;> exact .same rfl
  | drops hscript hfind hgrip =>
    refine .letGo hscript hfind hgrip ?_
    rw [PoolWorld.discardFrom_of_find? hfind]
    rfl
  | loses hscript hstack hframe hfind =>
    refine .lost hscript hstack hframe hfind ?_
    rw [PoolWorld.discardFrom_of_find? hfind]
    rfl
  | stores hscript hending hstack hfind =>
    by_cases hroom : thread.world.spare.length < thread.world.capacity
    · exact .same (PoolWorld.dropped_store.trans (if_pos hroom))
    · exact .refused hscript hending hstack hfind (Nat.le_of_not_lt hroom)
        (PoolWorld.dropped_store.trans (if_neg hroom))
  | rests | adopts | edits | gives | detaches | handsOut => exact .same rfl

end PoolThread

end Dispatch
