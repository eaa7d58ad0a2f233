import Mathlib.Data.List.Chain
import Dispatch.Proofs.PoolObjects

/-!
# What the hooks of a pool do to its objects

An object goes through the initializer when it is taken and through the cleanup when it is given back. A
hook is called for it and completes, unless it panics. What an object has been through tells what comes next
(`Lived`), and so does the place where it is: what is ready for reuse is to be set up, what is in somebody's
hands is to be cleaned up, and what a call of the pool has is being set up or cleaned up
(`PoolThread.Stands`). What a step does to the objects is said once more in these terms
(`PoolThread.Acts`): it moves one object from its place to the next, together with the event.
-/

namespace Dispatch

variable {τ σ : Type}

/-! ### Hooks -/

inductive Hook where
  /-- The initializer, before the object is handed out. -/
  | setUp
  /-- The cleanup, before the object is stored. -/
  | cleanUp
  deriving DecidableEq, Repr

inductive HookEvent where
  | called (hook : Hook)
  /-- The hook has ended, and has not panicked. -/
  | completed (hook : Hook)
  deriving DecidableEq, Repr

namespace Hook

def other : Hook → Hook
  | setUp => cleanUp
  | cleanUp => setUp

theorem other_other (hook : Hook) : hook.other.other = hook := by
  cases hook <;> rfl

theorem other_ne (hook : Hook) : hook.other ≠ hook := by
  cases hook <;> nofun

/-- The hook an object goes through first: those that were made elsewhere are cleaned up first. -/
def first (foreign : List Nat) (id : Nat) : Hook :=
  if id ∈ foreign then cleanUp else setUp

end Hook

def HookEvent.completed? : HookEvent → Option Hook
  | completed hook => some hook
  | called _ => none

inductive Stage where
  /-- The hook is to be called for it. -/
  | awaiting (hook : Hook)
  /-- The hook works on it. -/
  | within (hook : Hook)
  deriving DecidableEq, Repr

def Stage.due : Stage → Hook
  | awaiting hook | within hook => hook

/-- What an object that is at this stage has been through, the latest first, if it has to go through this
hook first. -/
inductive Lived (first : Hook) : Stage → List HookEvent → Prop where
  | new : Lived first (.awaiting first) []
  | called {hook : Hook} {events : List HookEvent} (prior : Lived first (.awaiting hook) events) :
      Lived first (.within hook) (.called hook :: events)
  | completed {hook : Hook} {events : List HookEvent} (prior : Lived first (.within hook) events) :
      Lived first (.awaiting hook.other) (.completed hook :: events)

namespace Lived

variable {first hook : Hook} {stage : Stage} {events : List HookEvent}

/-- With the hook that is due the completed hooks take turns, from the first one on. -/
theorem alternates (lived : Lived first stage events) :
    (stage.due :: events.filterMap HookEvent.completed?).IsChain (· ≠ ·) ∧
      (stage.due :: events.filterMap HookEvent.completed?).getLast? = some first := by
  induction lived with
  | new => exact ⟨.singleton _, rfl⟩
  | called _ ih => exact ih
  | @completed hook _ _ ih =>
    obtain ⟨hchain, hlast⟩ := ih
    exact ⟨.cons_cons hook.other_ne hchain, (List.getLast?_cons_cons ..).trans hlast⟩

theorem of_within (lived : Lived first (.within hook) events) :
    ∃ earlier, events = .called hook :: earlier := by
  cases lived with
  | called _ => exact ⟨_, rfl⟩

/-- An object that awaits a hook is new, or has gone through the other one last. -/
theorem of_awaiting (lived : Lived first (.awaiting hook) events) :
    events = [] ∧ first = hook ∨
      ∃ earlier, events = .completed hook.other :: .called hook.other :: earlier := by
  generalize hstage : Stage.awaiting hook = stage at lived
  cases lived with
  | new =>
    cases hstage
    exact .inl ⟨rfl, rfl⟩
  | called _ => cases hstage
  | @completed other _ prior =>
    cases hstage
    obtain ⟨earlier, rfl⟩ := prior.of_within
    rw [other.other_other]
    exact .inr ⟨earlier, rfl⟩

end Lived

/-- The hook that is running, with the holder of the object it works on. -/
def PoolFrame.hook? : PoolFrame τ σ → Option (HolderRef × Hook)
  | .attempting _ => none
  | .settingUp holder _ _ => some (holder, .setUp)
  | .cleaningUp holder _ => some (holder, .cleanUp)

theorem PoolFrame.holder?_of_hook? {frame : PoolFrame τ σ} {holder : HolderRef} {hook : Hook}
    (h : frame.hook? = some (holder, hook)) : frame.holder? = some holder := by
  cases frame <;> cases h <;> rfl

/-! ### What a step does -/

namespace PoolThread

variable {recipe : Recipe τ σ} {thread later : PoolThread τ σ} {holder : HolderRef} {held : Held τ}
  {made made' : List Nat} {id : Nat} {stage : Stage} {hook : Hook} {event : HookEvent}

/-- The hook that the next step calls or completes, with the object it is to work on. -/
def event? (recipe : Recipe τ σ) (thread : PoolThread τ σ) : Option (Nat × HookEvent) :=
  match thread.script with
  | .alloc _ _ =>
    match (thread.world.take recipe).1 with
    | .ok object => some (object.id, .called .setUp)
    | .error _ => none
  | .release holder _ =>
    (thread.world.inHand? holder).map fun held => (held.object.id, .called .cleanUp)
  | .drop holder _ =>
    ((thread.world.inHand? holder).filter fun held => held.grip = .guarded).map fun held =>
      (held.object.id, .called .cleanUp)
  | .stop (.panicked _) => none
  | .stop .normal | .stop (.failed _) =>
    thread.stack.head?.bind fun frame => frame.hook?.bind fun running =>
      (thread.world.find? running.1).map fun held => (held.object.id, .completed running.2)
  | .remember _ _ | .recall _ | .attempt _ _ | .adopt _ _ | .edit _ _ _ | .look _ _
  | .detach _ _ => none

def adopts (thread : PoolThread τ σ) : List Nat :=
  match thread.script with
  | .adopt _ _ => [thread.world.nextId]
  | .stop _ | .remember _ _ | .recall _ | .attempt _ _ | .alloc _ _ | .edit _ _ _ | .look _ _
  | .release _ _ | .detach _ _ | .drop _ _ => []

/-- The objects that the next step stores: one whose cleanup it completes, if there is room. -/
def stores (recipe : Recipe τ σ) (thread : PoolThread τ σ) : List Nat :=
  match thread.event? recipe with
  | some (id, .completed .cleanUp) =>
    if thread.world.spare.length < thread.world.capacity then [id] else []
  | some (_, .completed .setUp) | some (_, .called _) | none => []

inductive Handles (thread : PoolThread τ σ) (held : Held τ) : Stage → Prop where
  | kept (hgrip : held.grip ≠ .inCall) : Handles thread held (.awaiting .cleanUp)
  | busy {frame : PoolFrame τ σ} {hook : Hook} (hgrip : held.grip = .inCall)
      (hmem : frame ∈ thread.stack) (hframe : frame.hook? = some (held.holder, hook)) :
      Handles thread held (.within hook)

/-- What is to become of an object, by the place where it is. -/
inductive Stands (thread : PoolThread τ σ) : Nat → Stage → Prop where
  | spare {object : Object τ} (hmem : object ∈ thread.world.spare) :
      Stands thread object.id (.awaiting .setUp)
  | held {held : Held τ} {stage : Stage} (hmem : held ∈ thread.world.held)
      (handles : thread.Handles held stage) : Stands thread held.object.id stage

inductive Acts (recipe : Recipe τ σ) (thread later : PoolThread τ σ) : Prop where
  /-- No hook is called or completed. -/
  | rests (hevent : thread.event? recipe = none)
      (hothers : ∀ {id stage}, later.Stands id stage →
        thread.Stands id stage ∨ id ∈ thread.adopts ∧ stage = .awaiting .cleanUp)
      (hspare : later.world.spare = thread.world.spare)
  /-- A hook is called for an object that awaits it. A new object awaits the initializer. -/
  | calls {id : Nat} {hook : Hook} (hevent : thread.event? recipe = some (id, .called hook))
      (hadopts : thread.adopts = [])
      (hbefore : thread.Stands id (.awaiting hook) ∨ hook = .setUp ∧ id ∈ thread.makes recipe)
      (hafter : ∀ {stage}, later.Stands id stage → stage = .within hook)
      (hothers : ∀ {other stage}, other ≠ id → later.Stands other stage → thread.Stands other stage)
      (hspare : later.world.spare <:+ thread.world.spare)
  /-- A hook has completed, and the object awaits the other one. -/
  | completes {id : Nat} {hook : Hook} (hevent : thread.event? recipe = some (id, .completed hook))
      (hadopts : thread.adopts = []) (hbefore : thread.Stands id (.within hook))
      (hafter : ∀ {stage}, later.Stands id stage → stage = .awaiting hook.other)
      (hothers : ∀ {other stage}, other ≠ id → later.Stands other stage → thread.Stands other stage)
      (hspare : ∃ new, later.world.spare = new ++ thread.world.spare ∧
        new.map Object.id = thread.stores recipe)

/-! ### Places -/

/-- The objects that a pool knows of are known once. -/
theorem nodup_objects (h : thread.world.Accounted made [] thread.calls) : thread.world.objects.Nodup :=
  h.once.symm.nodup h.distinct

theorem spare_ne_held (h : thread.world.Accounted made [] thread.calls) {object : Object τ}
    (hspare : object ∈ thread.world.spare) (hheld : held ∈ thread.world.held) :
    object.id ≠ held.object.id := by
  obtain ⟨hnodup, -, -⟩ := List.nodup_append.mp (nodup_objects h)
  obtain ⟨-, -, hdisjoint⟩ := List.nodup_append.mp hnodup
  exact hdisjoint _ (List.mem_map_of_mem hspare) _ (List.mem_map_of_mem hheld)

theorem held_of_id (h : thread.world.Accounted made [] thread.calls) {other : Held τ}
    (hmem : held ∈ thread.world.held) (hother : other ∈ thread.world.held)
    (hid : other.object.id = held.object.id) : other = held := by
  obtain ⟨hnodup, -, -⟩ := List.nodup_append.mp (nodup_objects h)
  obtain ⟨-, hids, -⟩ := List.nodup_append.mp hnodup
  exact List.inj_on_of_nodup_map hids hother hmem hid

theorem held_of_holder (h : thread.world.Accounted made [] thread.calls) {other : Held τ}
    (hmem : held ∈ thread.world.held) (hother : other ∈ thread.world.held)
    (hholder : other.holder = held.holder) : other = held :=
  List.inj_on_of_nodup_map h.holders hother hmem hholder

theorem Stands.mem_made (stands : thread.Stands id stage)
    (h : thread.world.Accounted made [] thread.calls) : id ∈ made := by
  have hobjects {id : Nat} (hmem : id ∈ thread.world.objects) : id ∈ made := h.once.subset hmem
  cases stands with
  | spare hmem =>
    exact hobjects (List.mem_append_left _ (List.mem_append_left _ (List.mem_map_of_mem hmem)))
  | held hmem =>
    exact hobjects (List.mem_append_left _ (List.mem_append_right _ (List.mem_map_of_mem hmem)))

theorem Stands.handles (stands : thread.Stands id stage)
    (h : thread.world.Accounted made [] thread.calls) (hmem : held ∈ thread.world.held)
    (hid : held.object.id = id) : thread.Handles held stage := by
  subst hid
  generalize hid : held.object.id = id at stands
  cases stands with
  | spare hspare => exact absurd hid.symm (spare_ne_held h hspare hmem)
  | held hother handles => exact held_of_id h hmem hother hid.symm ▸ handles

/-- Objects that are not moved stay in their places: those in somebody's hands are what they were, but for
their contents, and the hooks that run were running before. -/
theorem stands_of_others (h : later.world.Accounted made [] later.calls) (moved : Option Nat)
    (hspare : ∀ object ∈ later.world.spare, some object.id ≠ moved → object ∈ thread.world.spare)
    (hheld : ∀ held ∈ later.world.held, some held.object.id ≠ moved → ∃ old ∈ thread.world.held,
      old.holder = held.holder ∧ old.object.id = held.object.id ∧
        (old.grip = .inCall ↔ held.grip = .inCall))
    (hstack : ∀ frame ∈ hooks later.stack, frame ∈ thread.stack ∨ ∃ held ∈ later.world.held,
      frame.holder? = some held.holder ∧ some held.object.id = moved)
    (hne : some id ≠ moved) (stands : later.Stands id stage) : thread.Stands id stage := by
  cases stands with
  | spare hmem => exact .spare (hspare _ hmem hne)
  | @held held _ hmem handles =>
    obtain ⟨old, hold, hholder, hid, hgrip⟩ := hheld held hmem hne
    rw [← hid]
    refine .held hold ?_
    cases handles with
    | kept hkept => exact .kept fun hcall => hkept (hgrip.mp hcall)
    | @busy frame hook hcall hframe hhook =>
      have hframes : frame ∈ hooks later.stack :=
        List.mem_filter.mpr ⟨hframe, by rw [PoolFrame.holder?_of_hook? hhook]; rfl⟩
      rcases hstack frame hframes with hframe | ⟨other, hother, hholds, hmoved⟩
      · exact .busy (hgrip.mpr hcall) hframe (hholder.symm ▸ hhook)
      · rw [PoolFrame.holder?_of_hook? hhook, Option.some_inj] at hholds
        exact absurd (held_of_holder h hmem hother hholds.symm ▸ hmoved) hne

/-- A change in the hands of one holder leaves it and the others what they were, if it leaves the object
with the call, or with the holder. -/
theorem held_of_modify {world : PoolWorld τ σ} {change : Held τ → Held τ} {moved : Option Nat}
    (hkeeps : PoolWorld.Keeps change)
    (hgrip : ∀ old ∈ world.held, old.holder = holder → some old.object.id ≠ moved →
      (old.grip = .inCall ↔ (change old).grip = .inCall)) :
    ∀ held ∈ (world.modify holder change).held, some held.object.id ≠ moved → ∃ old ∈ world.held,
      old.holder = held.holder ∧ old.object.id = held.object.id ∧
        (old.grip = .inCall ↔ held.grip = .inCall) := by
  intro held hmem hne
  obtain ⟨old, hold, rfl⟩ := List.mem_map.mp hmem
  by_cases heq : old.holder = holder
  · rw [if_pos heq] at hne ⊢
    rw [hkeeps.id] at hne
    exact ⟨old, hold, (hkeeps.holder old).symm, (hkeeps.id old).symm, hgrip old hold heq hne⟩
  · rw [if_neg heq]
    exact ⟨old, hold, rfl, rfl, .rfl⟩

theorem held_of_sublist {world : PoolWorld τ σ} {moved : Option Nat}
    (hheld : later.world.held ⊆ world.held) :
    ∀ held ∈ later.world.held, some held.object.id ≠ moved → ∃ old ∈ world.held,
      old.holder = held.holder ∧ old.object.id = held.object.id ∧
        (old.grip = .inCall ↔ held.grip = .inCall) :=
  fun held hmem _ => ⟨held, hheld hmem, rfl, rfl, .rfl⟩

/-! ### Steps with a hook -/

theorem event?_of_frame {ending : Ending} {frame : PoolFrame τ σ} {stack : List (PoolFrame τ σ)}
    (hscript : thread.script = .stop ending) (hending : ∀ payload, ending ≠ .panicked payload)
    (hstack : thread.stack = frame :: stack) (hframe : frame.hook? = some (holder, hook))
    (hfind : thread.world.find? holder = some held) :
    thread.event? recipe = some (held.object.id, .completed hook) := by
  rw [event?, hscript]
  cases ending with
  | panicked payload => exact absurd rfl (hending payload)
  | normal | failed _ => simp [hstack, hframe, hfind]

theorem hooks_cons_ne {frame : PoolFrame τ σ} (hframe : frame.holder?.isSome = true)
    (stack : List (PoolFrame τ σ)) : hooks (frame :: stack) ≠ hooks stack := by
  intro heq
  unfold hooks at heq
  rw [List.filter_cons, if_pos hframe] at heq
  exact List.cons_ne_self _ _ heq

/-- Where a hook is called or completes, a frame comes or goes. -/
theorem hooks_of_event (hevent : thread.event? recipe ≠ none) :
    hooks (advance (step recipe) thread).stack ≠ hooks thread.stack := by
  obtain ⟨world, script, stack⟩ := thread
  cases script with
  | alloc guarded next =>
    rcases htake : world.take recipe with ⟨payload | object, taken⟩
    · simp [event?, htake] at hevent
    · rw [advance_of_inr (by simp only [step, htake]; rfl)]
      exact hooks_cons_ne rfl stack
  | release holder next =>
    cases hhand : world.inHand? holder with
    | none => simp [event?, hhand] at hevent
    | some held =>
      rw [advance_of_inr (by simp only [step, hhand]; rfl)]
      exact hooks_cons_ne rfl stack
  | drop holder next =>
    cases hhand : world.inHand? holder with
    | none => simp [event?, hhand] at hevent
    | some held =>
      by_cases hgrip : held.grip = .guarded
      · rw [advance_of_inr (by simp only [step, hhand, if_pos hgrip]; rfl)]
        exact hooks_cons_ne rfl stack
      · simp [event?, hhand, Option.filter, hgrip] at hevent
  | stop ending =>
    cases stack with
    | nil => cases ending <;> simp [event?] at hevent
    | cons frame stack =>
      have hstack : (finish recipe ⟨world, .stop ending, stack⟩ ending frame).stack = stack := by
        cases frame with
        | attempting next => rfl
        | settingUp holder guarded next => cases ending <;> rfl
        | cleaningUp holder next =>
          cases ending with
          | panicked payload => rfl
          | normal | failed _ =>
            simp only [finish]
            split <;> rfl
      have hframe : frame.holder?.isSome = true := by
        cases frame with
        | attempting next => cases ending <;> simp [event?, PoolFrame.hook?] at hevent
        | settingUp | cleaningUp => rfl
      show hooks (finish recipe ⟨world, .stop ending, stack⟩ ending frame).stack ≠ _
      rw [hstack]
      exact (hooks_cons_ne hframe stack).symm
  | remember _ _ | «recall» _ | attempt _ _ | adopt _ _ | edit _ _ _ | look _ _ | detach _ _ =>
    exact absurd rfl hevent

/-- A hook that is called works on the object, which stays away from everybody else. -/
theorem acts_of_takes {guarded : Bool} {next : HolderRef → PoolScript τ σ} {object : Object τ}
    {world : PoolWorld τ σ} (h : thread.world.Accounted made [] thread.calls)
    (hscript : thread.script = .alloc guarded next)
    (htake : thread.world.take recipe = (.ok object, world))
    (h' : (world.hand object .inCall).2.Accounted made' [] (world.nextHolder :: thread.calls)) :
    Acts recipe thread ⟨(world.hand object .inCall).2, recipe.setUp world.nextHolder,
      .settingUp world.nextHolder guarded next :: thread.stack⟩ := by
  obtain ⟨hheld, hnext, -⟩ := PoolWorld.frame_of_take_ok htake
  set later : PoolThread τ σ := ⟨(world.hand object .inCall).2, recipe.setUp world.nextHolder,
    .settingUp world.nextHolder guarded next :: thread.stack⟩
  have hspare : later.world.spare <:+ thread.world.spare := by
    show world.spare <:+ _
    rw [PoolWorld.spare_of_take_ok htake]
    exact List.tail_suffix _
  have hnew : (⟨world.nextHolder, .inCall, object⟩ : Held τ) ∈ later.world.held := List.mem_cons_self
  refine @Acts.calls _ _ recipe thread later object.id .setUp ?_ ?_ ?_ ?_ ?_ hspare
  · simp [event?, hscript, htake]
  · rw [adopts, hscript]
  · obtain ⟨spare, hspare, -⟩ | ⟨-, -, hmakes, -⟩ := PoolWorld.take_ok htake
    · exact .inl (.spare (hspare ▸ List.mem_cons_self))
    · refine .inr ⟨rfl, ?_⟩
      rw [makes, hscript]
      simp [hmakes]
  · intro stage stands
    cases stands.handles h' hnew rfl with
    | kept hgrip => exact absurd rfl hgrip
    | busy _ hmem hframe =>
      rcases List.mem_cons.mp hmem with rfl | hmem
      · cases hframe
        rfl
      · obtain ⟨old, hold, -⟩ := find?_of_frame h hmem (PoolFrame.holder?_of_hook? hframe)
        exact absurd (hnext ▸ h.find?_lt hold) (Nat.lt_irrefl _)
  · intro other stage hne stands
    refine stands_of_others h' (some object.id) (fun _ hmem _ => hspare.subset hmem) ?_ ?_
      (by simpa using hne) stands
    · intro held hmem hne
      rcases List.mem_cons.mp hmem with rfl | hmem
      · exact absurd rfl hne
      · exact ⟨held, hheld ▸ hmem, rfl, rfl, .rfl⟩
    · intro frame hmem
      rcases List.mem_cons.mp (List.mem_of_mem_filter hmem) with rfl | hmem
      · exact .inr ⟨_, hnew, rfl, rfl⟩
      · exact .inl hmem

theorem event?_of_gives {next : PoolScript τ σ}
    (hscript : thread.script = .release holder next ∨
      thread.script = .drop holder next ∧ held.grip = .guarded)
    (hfind : thread.world.find? holder = some held) (hgrip : held.grip ≠ .inCall) :
    thread.event? recipe = some (held.object.id, .called .cleanUp) := by
  have hhand := PoolWorld.inHand?_eq_some.mpr ⟨hfind, hgrip⟩
  rcases hscript with hscript | ⟨hscript, hguarded⟩
  · simp [event?, hscript, hhand]
  · simp [event?, hscript, hhand, hguarded]

/-- An object that is given back stays away from everybody until it has been cleaned up. -/
theorem acts_of_gives {next : PoolScript τ σ} (h : thread.world.Accounted made [] thread.calls)
    (hscript : thread.script = .release holder next ∨
      thread.script = .drop holder next ∧ held.grip = .guarded)
    (hfind : thread.world.find? holder = some held) (hgrip : held.grip ≠ .inCall)
    (h' : (thread.giveBack recipe holder next).world.Accounted made' []
      (thread.giveBack recipe holder next).calls) :
    Acts recipe thread (thread.giveBack recipe holder next) := by
  have hmem := PoolWorld.mem_of_find? hfind
  have hholder := PoolWorld.holder_of_find? hfind
  have hgiven : ({ held with grip := .inCall } : Held τ) ∈
      (thread.giveBack recipe holder next).world.held :=
    List.mem_map.mpr ⟨held, hmem, if_pos hholder⟩
  refine .calls (event?_of_gives hscript hfind hgrip) ?_ (.inl (.held hmem (.kept hgrip))) ?_ ?_
    (List.suffix_refl _)
  · rw [adopts]
    rcases hscript with hscript | ⟨hscript, -⟩ <;> rw [hscript]
  · intro stage stands
    cases stands.handles h' hgiven rfl with
    | kept hkept => exact absurd rfl hkept
    | busy _ hframes hframe =>
      rcases List.mem_cons.mp hframes with rfl | hframes
      · cases hframe
        rfl
      · obtain ⟨old, hold, hcall⟩ := find?_of_frame h hframes (PoolFrame.holder?_of_hook? hframe)
        obtain rfl := Option.some_inj.mp ((h.find?_of_mem hmem).symm.trans hold)
        exact absurd hcall hgrip
  · intro other stage hne stands
    refine stands_of_others h' (some held.object.id) (fun _ hspare _ => hspare) ?_ ?_
      (by simpa using hne) stands
    · refine held_of_modify (PoolWorld.keeps_grip _) fun old hold heq hmoved => ?_
      exact absurd (held_of_holder h hmem hold (heq.trans hholder.symm) ▸ rfl) hmoved
    · intro frame hframes
      rcases List.mem_cons.mp (List.mem_of_mem_filter hframes) with rfl | hframes
      · exact .inr ⟨_, hgiven, congrArg some hholder.symm, rfl⟩
      · exact .inl hframes

theorem acts_of_handsOut {guarded : Bool} {next : HolderRef → PoolScript τ σ} {ending : Ending}
    {stack : List (PoolFrame τ σ)} (h : thread.world.Accounted made [] thread.calls)
    (hscript : thread.script = .stop ending) (hending : ∀ payload, ending ≠ .panicked payload)
    (hstack : thread.stack = .settingUp holder guarded next :: stack)
    (hfind : thread.world.find? holder = some held) (hgrip : held.grip = .inCall)
    (hlater : later = ⟨thread.world.modify holder fun held =>
      { held with grip := if guarded then Grip.guarded else .free }, next holder, stack⟩)
    (h' : later.world.Accounted made' [] later.calls) : Acts recipe thread later := by
  subst hlater
  have hmem := PoolWorld.mem_of_find? hfind
  have hholder := PoolWorld.holder_of_find? hfind
  have hevent : thread.event? recipe = some (held.object.id, .completed .setUp) :=
    event?_of_frame hscript hending hstack rfl hfind
  let handed : Held τ := { held with grip := if guarded then Grip.guarded else .free }
  have hhanded : handed ∈ (thread.world.modify holder fun held =>
      { held with grip := if guarded then Grip.guarded else .free }).held :=
    List.mem_map.mpr ⟨held, hmem, if_pos hholder⟩
  have hframe : .settingUp holder guarded next ∈ thread.stack := hstack ▸ List.mem_cons_self
  refine .completes hevent ?_ (.held hmem (.busy hgrip hframe ?_)) ?_ ?_ ⟨[], rfl, ?_⟩
  · rw [adopts, hscript]
  · rw [hholder]
    rfl
  · intro stage stands
    cases stands.handles h' hhanded rfl with
    | kept => rfl
    | busy hcall =>
      dsimp only [handed] at hcall
      split at hcall <;> cases hcall
  · intro other stage hne stands
    refine stands_of_others h' (some held.object.id) (fun _ hspare _ => hspare) ?_ ?_
      (by simpa using hne) stands
    · refine held_of_modify (PoolWorld.keeps_grip _) fun old hold heq hmoved => ?_
      exact absurd (held_of_holder h hmem hold (heq.trans hholder.symm) ▸ rfl) hmoved
    · intro frame hframes
      exact .inl (hstack ▸ List.mem_cons_of_mem _ (List.mem_of_mem_filter hframes))
  · rw [stores, hevent]
    rfl

theorem acts_of_stores {next : PoolScript τ σ} {ending : Ending} {stack : List (PoolFrame τ σ)}
    (h : thread.world.Accounted made [] thread.calls) (hscript : thread.script = .stop ending)
    (hending : ∀ payload, ending ≠ .panicked payload)
    (hstack : thread.stack = .cleaningUp holder next :: stack)
    (hfind : thread.world.find? holder = some held) (hgrip : held.grip = .inCall)
    (hlater : later = ⟨(thread.world.without holder).store recipe held.object, next, stack⟩)
    (h' : later.world.Accounted made' [] later.calls) : Acts recipe thread later := by
  have hmem := PoolWorld.mem_of_find? hfind
  have hholder := PoolWorld.holder_of_find? hfind
  have hevent : thread.event? recipe = some (held.object.id, .completed .cleanUp) :=
    event?_of_frame hscript hending hstack rfl hfind
  have hheld : later.world.held = (thread.world.without holder).held := by
    rw [hlater]
    exact PoolWorld.held_store
  have hspare : later.world.spare =
      if thread.world.spare.length < thread.world.capacity then held.object :: thread.world.spare
      else thread.world.spare := by
    rw [hlater]
    exact PoolWorld.spare_store
  have hframe : .cleaningUp holder next ∈ thread.stack := hstack ▸ List.mem_cons_self
  refine .completes hevent ?_ (.held hmem (.busy hgrip hframe ?_)) ?_ ?_ ?_
  · rw [adopts, hscript]
  · rw [hholder]
    rfl
  · intro stage stands
    generalize hid : held.object.id = id at stands
    cases stands with
    | spare => rfl
    | held hother =>
      rw [hheld] at hother
      obtain ⟨hother, hne⟩ := List.mem_filter.mp hother
      rw [held_of_id h hmem hother hid.symm] at hne
      simp [hholder] at hne
  · intro other stage hne stands
    refine stands_of_others h' (some held.object.id) (fun object hobject hmoved => ?_)
      (held_of_sublist fun _ hmem => List.mem_of_mem_filter (hheld ▸ hmem)) ?_ (by simpa using hne) stands
    · rw [hspare] at hobject
      split at hobject
      · exact (List.mem_cons.mp hobject).resolve_left fun heq => hmoved (heq ▸ rfl)
      · exact hobject
    · intro frame hframes
      rw [hlater] at hframes
      exact .inl (hstack ▸ List.mem_cons_of_mem _ (List.mem_of_mem_filter hframes))
  · rw [stores, hevent, hspare]
    dsimp only
    split
    · exact ⟨[held.object], rfl, rfl⟩
    · exact ⟨[], rfl, rfl⟩

/-! ### Steps without a hook -/

/-- Nobody is moved where the hands and the hooks are what they were. -/
theorem acts_of_rest (h' : later.world.Accounted made' [] later.calls)
    (hevent : thread.event? recipe = none) (hspare : later.world.spare = thread.world.spare)
    (hheld : ∀ held ∈ later.world.held, some held.object.id ≠ none → ∃ old ∈ thread.world.held,
      old.holder = held.holder ∧ old.object.id = held.object.id ∧
        (old.grip = .inCall ↔ held.grip = .inCall))
    (hstack : hooks later.stack ⊆ thread.stack) : Acts recipe thread later := by
  refine .rests hevent (fun stands => .inl ?_) hspare
  refine stands_of_others h' none (fun _ hmem _ => ?_) hheld (fun _ hmem => .inl (hstack hmem)) nofun
    stands
  exact hspare ▸ hmem

theorem acts_of_adopts {content : τ} {next : HolderRef → PoolScript τ σ}
    (hscript : thread.script = .adopt content next)
    (hlater : later = ⟨({ thread.world with nextId := thread.world.nextId + 1 }.hand
      ⟨thread.world.nextId, content⟩ .free).2, next thread.world.nextHolder, thread.stack⟩)
    (h' : later.world.Accounted made' [] later.calls) : Acts recipe thread later := by
  subst hlater
  have hadopts : thread.adopts = [thread.world.nextId] := by rw [adopts, hscript]
  refine .rests (by rw [event?, hscript]) (fun {id stage} stands => ?_) rfl
  by_cases hid : id = thread.world.nextId
  · refine .inr ⟨hadopts ▸ List.mem_singleton.mpr hid, ?_⟩
    cases stands.handles h' List.mem_cons_self hid.symm with
    | kept => rfl
    | busy hcall => cases hcall
  · refine .inl (stands_of_others h' (some thread.world.nextId) (fun _ hmem _ => hmem)
      (fun held hmem hne => ?_) (fun _ hmem => .inl (List.mem_of_mem_filter hmem)) (by simpa using hid)
      stands)
    rcases List.mem_cons.mp hmem with rfl | hmem
    · exact absurd rfl hne
    · exact ⟨held, hmem, rfl, rfl, .rfl⟩

/-- Every step does one of these things. -/
theorem acts_advance (h : thread.world.Accounted made [] thread.calls) :
    Acts recipe thread (advance (step recipe) thread) := by
  have hmoves := @moves_advance _ _ recipe thread _ h
  have h' := accounted_of_moves h hmoves
  have hhooks := @hooks_of_event _ _ recipe thread
  generalize advance (step recipe) thread = later at hmoves h' hhooks
  have hframes {stack : List (PoolFrame τ σ)} (hstack : stack ⊆ thread.stack) :
      hooks stack ⊆ thread.stack := fun _ hmem => hstack (List.mem_of_mem_filter hmem)
  cases hmoves with
  | rests _ _ _ hstack =>
    refine acts_of_rest h' (by_contra fun hevent => hhooks hevent hstack) rfl
      (held_of_sublist fun _ hmem => hmem) ?_
    rw [hstack]
    exact hframes fun _ hmem => hmem
  | fails hscript htake =>
    have hevent : thread.event? recipe = none := by simp [event?, hscript, htake]
    obtain ⟨-, -, memory, rfl⟩ := PoolWorld.take_error htake
    exact acts_of_rest h' hevent rfl (held_of_sublist fun _ hmem => hmem) (hframes fun _ hmem => hmem)
  | takes hscript htake => exact acts_of_takes h hscript htake h'
  | adopts hscript => exact acts_of_adopts hscript rfl h'
  | edits hscript =>
    exact acts_of_rest h' (by rw [event?, hscript]) rfl
      (held_of_modify (PoolWorld.keeps_content _) fun _ _ _ _ => .rfl) (hframes fun _ hmem => hmem)
  | gives hscript hfind hgrip => exact acts_of_gives h hscript hfind hgrip h'
  | detaches hscript hfind hgrip =>
    refine acts_of_rest h' (by rw [event?, hscript]) rfl
      (held_of_modify (PoolWorld.keeps_grip _) fun old hold heq _ => ?_) (hframes fun _ hmem => hmem)
    obtain rfl := Option.some_inj.mp (hfind.symm.trans (heq ▸ h.find?_of_mem hold))
    exact ⟨fun hcall => absurd hcall hgrip, nofun⟩
  | drops hscript hfind hgrip =>
    have hevent : thread.event? recipe = none := by
      have hhand := PoolWorld.inHand?_eq_some.mpr ⟨hfind, by simp [hgrip]⟩
      simp [event?, hscript, hhand, Option.filter, hgrip]
    rw [PoolWorld.discardFrom_of_find? hfind] at h' ⊢
    exact acts_of_rest h' hevent rfl (held_of_sublist fun _ hmem => List.mem_of_mem_filter hmem)
      (hframes fun _ hmem => hmem)
  | handsOut hscript hending hstack hfind hgrip =>
    exact acts_of_handsOut h hscript hending hstack hfind hgrip rfl h'
  | loses hscript hstack _ hfind =>
    have hevent : thread.event? recipe = none := by rw [event?, hscript]
    rw [PoolWorld.discardFrom_of_find? hfind] at h' ⊢
    exact acts_of_rest h' hevent rfl (held_of_sublist fun _ hmem => List.mem_of_mem_filter hmem)
      (hframes (hstack ▸ List.subset_cons_self _ _))
  | stores hscript hending hstack hfind hgrip =>
    exact acts_of_stores h hscript hending hstack hfind hgrip rfl h'

end PoolThread

end Dispatch
