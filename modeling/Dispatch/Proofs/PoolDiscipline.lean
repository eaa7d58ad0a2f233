import Dispatch.Proofs.PoolHooks

/-!
# The discipline of the hooks

In a run of a pool the hooks that an object goes through take turns, whatever the users and the hooks do
(`hooks_discipline`). What an object has been through by some time is its trace. At all times every object
that is in a place has been through what is due there (`PoolThread.Staged`), since a step moves an object
together with the event that its trace goes on with. The order of the slots is that in which the objects were
stored (`PoolThread.Recent`).
-/

namespace Dispatch

variable {τ σ : Type}

/-! ### New pools -/

namespace PoolWorld

variable {recipe : Recipe τ σ} {world later : PoolWorld τ σ}

/-- A new pool is filled with one object after the other, and they are in nobody's hands. -/
theorem fill_spare {missing : Nat} (hfill : world.fill recipe missing = (.ok (), later)) :
    later.held = world.held ∧ later.spare.map Object.id =
      (List.range' world.nextId missing).reverse ++ world.spare.map Object.id := by
  induction missing generalizing world with
  | zero =>
    obtain rfl : world = later := by simpa [fill] using hfill
    exact ⟨rfl, rfl⟩
  | succ missing ih =>
    unfold fill at hfill
    rcases hmade : world.construct recipe with ⟨_ | object, made⟩
    · simp [hmade] at hfill
    · simp only [hmade] at hfill
      obtain ⟨hid, memory, rfl⟩ := construct_ok hmade
      obtain ⟨hheld, hspare⟩ := ih hfill
      refine ⟨hheld, ?_⟩
      rw [hspare, List.map_cons, hid, List.range'_succ, List.reverse_cons, List.append_assoc]
      rfl

theorem start_spare {capacity : Nat} {memory : σ} (h : start recipe capacity memory = (.ok (), world)) :
    world.held = [] ∧ world.spare.map Object.id = (List.range capacity).reverse := by
  unfold start at h
  split at h
  · cases h
  · obtain ⟨hheld, hspare⟩ := fill_spare h
    refine ⟨hheld, ?_⟩
    rw [hspare, List.range_eq_range']
    exact List.append_nil _

end PoolWorld

namespace PoolThread

variable {recipe : Recipe τ σ} {start thread later : PoolThread τ σ} {holder : HolderRef} {held : Held τ}
  {made foreign : List Nat} {id time : Nat} {stage : Stage} {hook : Hook} {event : HookEvent}

/-! ### Traces -/

def eventOf? (recipe : Recipe τ σ) (thread : PoolThread τ σ) (id : Nat) : Option HookEvent :=
  ((thread.event? recipe).filter fun found => found.1 = id).map Prod.snd

def trace (recipe : Recipe τ σ) (start : PoolThread τ σ) (id : Nat) : Nat → List HookEvent
  | 0 => []
  | time + 1 => ((start.after recipe time).eventOf? recipe id).toList ++ trace recipe start id time

def history (recipe : Recipe τ σ) (start : PoolThread τ σ) (id time : Nat) : List Hook :=
  (trace recipe start id time).filterMap HookEvent.completed?

def adopted (recipe : Recipe τ σ) (start : PoolThread τ σ) : Nat → List Nat
  | 0 => []
  | time + 1 => (start.after recipe time).adopts ++ adopted recipe start time

/-- The objects that have been stored, the latest first. A new pool is filled with objects, one after the
other. -/
def stored (recipe : Recipe τ σ) (start : PoolThread τ σ) : Nat → List Nat
  | 0 => (List.range start.world.capacity).reverse
  | time + 1 => (start.after recipe time).stores recipe ++ stored recipe start time

theorem eventOf?_eq_none (h : thread.event? recipe = none) (id : Nat) :
    thread.eventOf? recipe id = none := by
  rw [eventOf?, h]
  rfl

theorem eventOf?_eq_some (h : thread.event? recipe = some (id, event)) :
    thread.eventOf? recipe id = some event := by
  rw [eventOf?, h]
  simp

theorem eventOf?_of_ne {other : Nat} (h : thread.event? recipe = some (id, event)) (hne : other ≠ id) :
    thread.eventOf? recipe other = none := by
  rw [eventOf?, h]
  simp [hne.symm]

/-! ### Stages -/

/-- Every object that is in a place has been through what is due there, and what has not been made has been
through nothing. -/
structure Staged (thread : PoolThread τ σ) (made foreign : List Nat) (trace : Nat → List HookEvent) :
    Prop where
  stands : ∀ {id stage}, thread.Stands id stage → Lived (.first foreign id) stage (trace id)
  lived : ∀ id, ∃ stage, Lived (.first foreign id) stage (trace id)
  unmade : ∀ id ∉ made, trace id = [] ∧ id ∉ foreign

theorem adopts_subset_makes (thread : PoolThread τ σ) : thread.adopts ⊆ thread.makes recipe := by
  rw [adopts, makes]
  cases thread.script <;> simp

namespace Staged

variable {trace : Nat → List HookEvent}

theorem moved (staged : Staged thread made foreign trace)
    (hevent : thread.event? recipe = some (id, event)) (hadopts : thread.adopts = [])
    (lived : Lived (.first foreign id) stage (event :: trace id)) (hmade : id ∈ thread.makes recipe ++ made)
    (hafter : ∀ {stage'}, later.Stands id stage' → stage' = stage)
    (hothers : ∀ {other stage}, other ≠ id → later.Stands other stage → thread.Stands other stage) :
    Staged later (thread.makes recipe ++ made) (thread.adopts ++ foreign) fun id =>
      (thread.eventOf? recipe id).toList ++ trace id := by
  rw [hadopts, List.nil_append]
  refine ⟨fun {other stage'} stands => ?_, fun other => ?_, fun other hunmade => ?_⟩
  · by_cases heq : other = id
    · subst heq
      rw [eventOf?_eq_some hevent, hafter stands]
      exact lived
    · rw [eventOf?_of_ne hevent heq]
      exact staged.stands (hothers heq stands)
  · by_cases heq : other = id
    · subst heq
      rw [eventOf?_eq_some hevent]
      exact ⟨stage, lived⟩
    · rw [eventOf?_of_ne hevent heq]
      exact staged.lived other
  · have hne : other ≠ id := fun heq => hunmade (heq ▸ hmade)
    rw [eventOf?_of_ne hevent hne]
    exact staged.unmade other fun hmem => hunmade (List.mem_append_right _ hmem)

/-- In a step without an event every object stays at its stage. One that is made elsewhere is new. -/
theorem rested (staged : Staged thread made foreign trace)
    (h : thread.world.Accounted made [] thread.calls) (hdisjoint : ∀ id ∈ thread.makes recipe, id ∉ made)
    (hevent : thread.event? recipe = none) (hothers : ∀ {id stage}, later.Stands id stage →
      thread.Stands id stage ∨ id ∈ thread.adopts ∧ stage = .awaiting .cleanUp) :
    Staged later (thread.makes recipe ++ made) (thread.adopts ++ foreign) fun id =>
      (thread.eventOf? recipe id).toList ++ trace id := by
  have hmakes {id : Nat} (hadopts : id ∈ thread.adopts) : id ∈ thread.makes recipe :=
    adopts_subset_makes thread hadopts
  have hnew {id : Nat} (hadopts : id ∈ thread.adopts) :
      Lived (.first (thread.adopts ++ foreign) id) (.awaiting .cleanUp) (trace id) := by
    rw [(staged.unmade id (hdisjoint id (hmakes hadopts))).1, Hook.first,
      if_pos (List.mem_append_left _ hadopts)]
    exact .new
  have hold {id : Nat} (hadopts : id ∉ thread.adopts) :
      Hook.first (thread.adopts ++ foreign) id = .first foreign id := by
    simp [Hook.first, hadopts]
  simp only [eventOf?_eq_none hevent, Option.toList_none, List.nil_append]
  refine ⟨fun {id stage} stands => ?_, fun id => ?_, fun id hunmade => ?_⟩
  · rcases hothers stands with stands | ⟨hadopts, rfl⟩
    · rw [hold fun hadopts => hdisjoint id (hmakes hadopts) (stands.mem_made h)]
      exact staged.stands stands
    · exact hnew hadopts
  · by_cases hadopts : id ∈ thread.adopts
    · exact ⟨_, hnew hadopts⟩
    · rw [hold hadopts]
      exact staged.lived id
  · obtain ⟨htrace, hforeign⟩ := staged.unmade id fun hmem => hunmade (List.mem_append_right _ hmem)
    refine ⟨htrace, fun hmem => ?_⟩
    rcases List.mem_append.mp hmem with hadopts | hmem
    · exact hunmade (List.mem_append_left _ (hmakes hadopts))
    · exact hforeign hmem

/-- Every step moves an object together with the event that its trace goes on with. -/
theorem acts (staged : Staged thread made foreign trace)
    (h : thread.world.Accounted made [] thread.calls) (hdisjoint : ∀ id ∈ thread.makes recipe, id ∉ made)
    (acts : Acts recipe thread later) :
    Staged later (thread.makes recipe ++ made) (thread.adopts ++ foreign) fun id =>
      (thread.eventOf? recipe id).toList ++ trace id := by
  cases acts with
  | rests hevent hothers => exact staged.rested h hdisjoint hevent hothers
  | @calls id hook hevent hadopts hbefore hafter hothers =>
    rcases hbefore with stands | ⟨rfl, hmakes⟩
    · exact staged.moved hevent hadopts (.called (staged.stands stands))
        (List.mem_append_right _ (stands.mem_made h)) hafter hothers
    · obtain ⟨htrace, hforeign⟩ := staged.unmade id (hdisjoint id hmakes)
      have hnew : Lived (.first foreign id) (.awaiting .setUp) (trace id) := by
        rw [htrace, Hook.first, if_neg hforeign]
        exact .new
      exact staged.moved hevent hadopts (.called hnew) (List.mem_append_left _ hmakes) hafter hothers
  | completes hevent hadopts stands hafter hothers =>
    exact staged.moved hevent hadopts (.completed (staged.stands stands))
      (List.mem_append_right _ (stands.mem_made h)) hafter hothers

end Staged

/-! ### The order of the slots -/

/-- What is in the slots has been stored, each object more recently than those below it. -/
structure Recent (stored spare : List Nat) : Prop where
  mem : ∀ id ∈ spare, id ∈ stored
  sorted : spare.Pairwise fun id below => stored.idxOf id < stored.idxOf below

namespace Recent

variable {stored spare new : List Nat}

theorem suffix {rest : List Nat} (recent : Recent stored spare) (hrest : rest <:+ spare) :
    Recent stored rest :=
  ⟨fun id hmem => recent.mem id (hrest.subset hmem), recent.sorted.sublist hrest.sublist⟩

theorem push (recent : Recent stored spare) (hnew : id ∉ spare) :
    Recent (id :: stored) (id :: spare) := by
  have hlater : ∀ below ∈ spare, (id :: stored).idxOf below = stored.idxOf below + 1 :=
    fun below hmem => List.idxOf_cons_ne _ fun heq => hnew (heq ▸ hmem)
  refine ⟨fun below hmem => ?_, List.pairwise_cons.mpr ⟨fun below hmem => ?_, ?_⟩⟩
  · rcases List.mem_cons.mp hmem with rfl | hmem
    · exact List.mem_cons_self
    · exact List.mem_cons_of_mem _ (recent.mem below hmem)
  · rw [List.idxOf_cons_self, hlater below hmem]
    exact Nat.succ_pos _
  · refine recent.sorted.imp_of_mem fun hfirst hsecond hlt => ?_
    rw [hlater _ hfirst, hlater _ hsecond]
    exact Nat.succ_lt_succ hlt

theorem append (recent : Recent stored spare) (hnodup : (new ++ spare).Nodup) :
    Recent (new ++ stored) (new ++ spare) := by
  induction new with
  | nil => exact recent
  | cons id new ih =>
    obtain ⟨hid, hnodup⟩ := List.nodup_cons.mp hnodup
    exact (ih hnodup).push hid

theorem of_nodup (hnodup : spare.Nodup) : Recent spare spare := by
  have hnone : Recent [] [] := ⟨nofun, .nil⟩
  simpa using hnone.append ((List.append_nil spare).symm ▸ hnodup)

/-- Every step keeps the order. -/
theorem acts (recent : Recent stored (thread.world.spare.map Object.id)) (acts : Acts recipe thread later)
    (hnodup : (later.world.spare.map Object.id).Nodup) :
    Recent (thread.stores recipe ++ stored) (later.world.spare.map Object.id) := by
  cases acts with
  | rests hevent _ hspare =>
    rw [stores, hevent, hspare]
    exact recent
  | calls hevent _ _ _ _ hspare =>
    rw [stores, hevent]
    exact recent.suffix (hspare.map Object.id)
  | completes _ _ _ _ _ hspare =>
    obtain ⟨new, hspare, hstores⟩ := hspare
    rw [hspare, List.map_append] at hnodup ⊢
    rw [← hstores]
    exact recent.append hnodup

end Recent

theorem event?_of_mem_stores (h : id ∈ thread.stores recipe) :
    thread.event? recipe = some (id, .completed .cleanUp) := by
  rw [stores] at h
  split at h
  · next other hevent =>
    split at h
    · rw [hevent, List.mem_singleton.mp h]
    · cases h
  all_goals cases h

/-! ### Steps that take and hand out -/

/-- An object is in the hands of a new holder, and the initializer is about to work on it. -/
structure SetsUp (recipe : Recipe τ σ) (thread : PoolThread τ σ) (object : Object τ) (guarded : Bool)
    (next : HolderRef → PoolScript τ σ) (later : PoolThread τ σ) : Prop where
  held : later.world.find? thread.world.nextHolder = some ⟨thread.world.nextHolder, .inCall, object⟩
  script : later.script = recipe.setUp thread.world.nextHolder
  stack : later.stack = .settingUp thread.world.nextHolder guarded next :: thread.stack

structure Constructs (recipe : Recipe τ σ) (thread : PoolThread τ σ) (guarded : Bool)
    (next : HolderRef → PoolScript τ σ) (later : PoolThread τ σ) : Prop where
  nextId : later.world.nextId = thread.world.nextId + 1
  memory : later.world.memory = (recipe.construct thread.world.nextId thread.world.memory).2
  made : ∀ content, (recipe.construct thread.world.nextId thread.world.memory).1 = .ok content →
    thread.SetsUp recipe ⟨thread.world.nextId, content⟩ guarded next later
  failed : ∀ payload, (recipe.construct thread.world.nextId thread.world.memory).1 = .error payload →
    later.script = .stop (.panicked payload) ∧ later.stack = thread.stack

structure Reuses (recipe : Recipe τ σ) (thread : PoolThread τ σ) (object : Object τ) (guarded : Bool)
    (next : HolderRef → PoolScript τ σ) (later : PoolThread τ σ) : Prop where
  nextId : later.world.nextId = thread.world.nextId
  memory : later.world.memory = thread.world.memory
  spare : thread.world.spare = object :: later.world.spare
  setsUp : thread.SetsUp recipe object guarded next later

variable {guarded : Bool} {next : HolderRef → PoolScript τ σ} {object : Object τ}

theorem advance_of_take {world : PoolWorld τ σ} (hscript : thread.script = .alloc guarded next)
    (htake : thread.world.take recipe = (.ok object, world)) : advance (step recipe) thread =
      ⟨(world.hand object .inCall).2, recipe.setUp world.nextHolder,
        .settingUp world.nextHolder guarded next :: thread.stack⟩ := by
  refine advance_of_inr ?_
  rw [step, hscript]
  simp only [htake]
  rfl

theorem setsUp_advance {world : PoolWorld τ σ} (hscript : thread.script = .alloc guarded next)
    (htake : thread.world.take recipe = (.ok object, world)) :
    thread.SetsUp recipe object guarded next (advance (step recipe) thread) := by
  obtain ⟨-, hnext, -⟩ := PoolWorld.frame_of_take_ok htake
  rw [advance_of_take hscript htake]
  refine ⟨?_, congrArg recipe.setUp hnext, by rw [hnext]⟩
  rw [PoolWorld.find?_hand, hnext]
  exact if_pos rfl

theorem constructs_advance (hscript : thread.script = .alloc guarded next)
    (hspare : thread.world.spare = []) :
    thread.Constructs recipe guarded next (advance (step recipe) thread) := by
  have htake : thread.world.take recipe = thread.world.construct recipe := by
    rw [PoolWorld.take, hspare]
  rw [PoolWorld.construct] at htake
  rcases hmade : recipe.construct thread.world.nextId thread.world.memory with ⟨payload | content, memory⟩
  · rw [hmade] at htake
    have hlater : advance (step recipe) thread =
        ⟨{ thread.world with nextId := thread.world.nextId + 1, memory }, .stop (.panicked payload),
          thread.stack⟩ := by
      refine advance_of_inr ?_
      rw [step, hscript]
      simp only [htake]
      rfl
    rw [hlater]
    refine ⟨rfl, by rw [hmade], fun content hok => ?_, fun payload hfailed => ?_⟩
    · rw [hmade] at hok
      cases hok
    · rw [hmade] at hfailed
      cases hfailed
      exact ⟨rfl, rfl⟩
  · rw [hmade] at htake
    have hlater := advance_of_take hscript htake
    refine ⟨by rw [hlater]; rfl, by rw [hlater, hmade]; rfl, fun content hok => ?_, fun payload hfailed => ?_⟩
    · rw [hmade] at hok
      cases hok
      exact setsUp_advance hscript htake
    · rw [hmade] at hfailed
      cases hfailed

theorem reuses_advance {spare : List (Object τ)} (hscript : thread.script = .alloc guarded next)
    (hspare : thread.world.spare = object :: spare) :
    thread.Reuses recipe object guarded next (advance (step recipe) thread) := by
  have htake : thread.world.take recipe = (.ok object, { thread.world with spare }) := by
    rw [PoolWorld.take, hspare]
  have hlater := advance_of_take hscript htake
  exact ⟨by rw [hlater]; rfl, by rw [hlater]; rfl, by rw [hlater]; exact hspare,
    setsUp_advance hscript htake⟩

/-- The object of a holder is given to the pool, and the cleanup is about to work on it. -/
structure CleansUp (recipe : Recipe τ σ) (thread : PoolThread τ σ) (held : Held τ) (next : PoolScript τ σ)
    (later : PoolThread τ σ) : Prop where
  gives : thread.script = .release held.holder next ∨
    thread.script = .drop held.holder next ∧ held.grip = .guarded
  inHand : thread.world.inHand? held.holder = some held
  inCall : later.world.find? held.holder = some { held with grip := .inCall }
  script : later.script = recipe.cleanUp held.holder
  stack : later.stack = .cleaningUp held.holder next :: thread.stack

/-- The cleanup is called for what a holder has in hand and gives to the pool. -/
theorem gives_of_event (hevent : thread.event? recipe = some (id, .called .cleanUp)) :
    ∃ holder held next, thread.world.inHand? holder = some held ∧ held.object.id = id ∧
      (thread.script = .release holder next ∨ thread.script = .drop holder next ∧ held.grip = .guarded) := by
  obtain ⟨world, script, stack⟩ := thread
  unfold event? at hevent
  cases script with
  | release holder next =>
    obtain ⟨held, hhand, hid⟩ := Option.map_eq_some_iff.mp hevent
    exact ⟨holder, held, next, hhand, congrArg Prod.fst hid, .inl rfl⟩
  | drop holder next =>
    obtain ⟨held, hfilter, hid⟩ := Option.map_eq_some_iff.mp hevent
    obtain ⟨hhand, hgrip⟩ := Option.filter_eq_some_iff.mp hfilter
    exact ⟨holder, held, next, hhand, congrArg Prod.fst hid, .inr ⟨rfl, of_decide_eq_true hgrip⟩⟩
  | alloc guarded next =>
    dsimp only at hevent
    split at hevent <;> cases hevent
  | stop ending =>
    cases ending with
    | panicked payload => cases hevent
    | normal | failed _ =>
      obtain ⟨frame, -, hframe⟩ := Option.bind_eq_some_iff.mp hevent
      obtain ⟨running, -, hrunning⟩ := Option.bind_eq_some_iff.mp hframe
      obtain ⟨held, -, hid⟩ := Option.map_eq_some_iff.mp hrunning
      cases congrArg Prod.snd hid
  | remember _ _ | «recall» _ | attempt _ _ | adopt _ _ | edit _ _ _ | look _ _ | detach _ _ => cases hevent

theorem cleansUp_advance (hevent : thread.event? recipe = some (id, .called .cleanUp)) :
    ∃ held next, held.object.id = id ∧
      thread.CleansUp recipe held next (advance (step recipe) thread) := by
  obtain ⟨holder, held, next, hhand, hid, hgives⟩ := gives_of_event hevent
  obtain ⟨hfind, -⟩ := PoolWorld.inHand?_eq_some.mp hhand
  obtain rfl := PoolWorld.holder_of_find? hfind
  have hlater : advance (step recipe) thread = thread.giveBack recipe held.holder next := by
    refine advance_of_inr ?_
    rcases hgives with hscript | ⟨hscript, hgrip⟩
    · simp only [step, hscript, hhand]
    · simp only [step, hscript, hhand, if_pos hgrip]
  rw [hlater]
  refine ⟨held, next, hid, hgives, hhand, ?_, rfl, rfl⟩
  show (thread.world.modify held.holder _).find? held.holder = _
  rw [PoolWorld.find?_modify (PoolWorld.keeps_grip _), if_pos rfl, hfind]
  rfl

theorem advance_of_setUp {ending : Ending} {stack : List (PoolFrame τ σ)}
    (hscript : thread.script = .stop ending) (hending : ∀ payload, ending ≠ .panicked payload)
    (hstack : thread.stack = .settingUp holder guarded next :: stack) :
    advance (step recipe) thread = ⟨thread.world.modify holder fun held =>
      { held with grip := if guarded then Grip.guarded else .free }, next holder, stack⟩ := by
  obtain ⟨world, script, frames⟩ := thread
  cases hscript
  cases hstack
  cases ending with
  | panicked payload => exact absurd rfl (hending payload)
  | normal | failed _ => rfl

/-! ### Runs -/

structure SetUp (thread : PoolThread τ σ) (holder : HolderRef) (guarded : Bool)
    (next : HolderRef → PoolScript τ σ) (stack : List (PoolFrame τ σ)) : Prop where
  script : ∃ ending, thread.script = .stop ending ∧ ∀ payload, ending ≠ .panicked payload
  stack : thread.stack = .settingUp holder guarded next :: stack

structure HandedOut (thread : PoolThread τ σ) (held : Held τ) (guarded : Bool)
    (next : HolderRef → PoolScript τ σ) (stack : List (PoolFrame τ σ)) : Prop where
  inHand : thread.world.inHand? held.holder = some held
  grip : held.grip = if guarded then .guarded else .free
  script : thread.script = next held.holder
  stack : thread.stack = stack

structure Disciplined (recipe : Recipe τ σ) (start : PoolThread τ σ) : Prop where
  /-- The hooks that an object has gone through take turns. -/
  alternates : ∀ id time, (history recipe start id time).IsChain (· ≠ ·)
  /-- The first of them is the initializer, and for an object that was made elsewhere the cleanup. -/
  first : ∀ id time, ∀ hook ∈ (history recipe start id time).getLast?,
    hook = .first (adopted recipe start time) id
  /-- What is in a slot is what it was in the new pool and no hook has been called for it, or it has been
  cleaned up last. -/
  spare : ∀ time, ∀ object ∈ (start.after recipe time).world.spare,
    object ∈ start.world.spare ∧ trace recipe start object.id time = [] ∨
      (trace recipe start object.id time).head? = some (.completed .cleanUp)
  /-- What is in hand has been set up last, or was made elsewhere and no hook has been called for it. -/
  inHand : ∀ {time holder held}, (start.after recipe time).world.inHand? holder = some held →
    held.object.id ∈ adopted recipe start time ∧ trace recipe start held.object.id time = [] ∨
      (trace recipe start held.object.id time).head? = some (.completed .setUp)
  /-- What is handed out has just been set up. -/
  returns : ∀ {time holder guarded next stack},
    (start.after recipe time).SetUp holder guarded next stack → ∃ held, held.holder = holder ∧
      (start.after recipe (time + 1)).HandedOut held guarded next stack ∧
        ∃ earlier, trace recipe start held.object.id (time + 1) =
          .completed .setUp :: .called .setUp :: earlier
  /-- When the initializer comes back without a panic, the object that was taken is handed out. -/
  taken : ∀ {call back guarded next object stack},
    (start.after recipe call).SetsUp recipe object guarded next (start.after recipe (call + 1)) →
      Stacked.Back (step recipe) PoolThread.stack (fun thread => ∃ ending, thread.script = .stop ending)
          start (call + 1) back →
        (start.after recipe back).SetUp (start.after recipe call).world.nextHolder guarded next stack →
          ∃ held, (start.after recipe (back + 1)).HandedOut held guarded next
            (start.after recipe call).stack ∧ held.object.id = object.id
  /-- The cleanup that is called for an object is that of the holder who gives it to the pool. -/
  cleansUp : ∀ {time id}, (start.after recipe time).event? recipe = some (id, .called .cleanUp) →
    ∃ held next, held.object.id = id ∧
      (start.after recipe time).CleansUp recipe held next (start.after recipe (time + 1))
  /-- The constructor is called if nothing is in the slots. -/
  constructs : ∀ {time guarded next}, (start.after recipe time).script = .alloc guarded next →
    (start.after recipe time).world.spare = [] →
      (start.after recipe time).Constructs recipe guarded next (start.after recipe (time + 1))
  /-- Otherwise it is not called, and the object is taken that was stored more recently than the others that
  are in the slots. -/
  reuses : ∀ {time guarded next object spare}, (start.after recipe time).script = .alloc guarded next →
    (start.after recipe time).world.spare = object :: spare →
      (start.after recipe time).Reuses recipe object guarded next (start.after recipe (time + 1)) ∧
        object.id ∈ stored recipe start time ∧ ∀ below ∈ spare,
          (stored recipe start time).idxOf object.id < (stored recipe start time).idxOf below.id

section Run

variable (h : start.world.Accounted (List.range start.world.capacity) [] start.calls)

include h

theorem staged_after (hheld : start.world.held = []) (time : Nat) :
    Staged (start.after recipe time) (start.made recipe time) (adopted recipe start time)
      fun id => trace recipe start id time := by
  induction time with
  | zero =>
    refine ⟨fun {id stage} stands => ?_, fun id => ⟨_, .new⟩, fun id _ => ⟨rfl, List.not_mem_nil⟩⟩
    cases stands with
    | spare => exact .new
    | held hmem => exact absurd (hheld ▸ hmem) List.not_mem_nil
  | succ time ih =>
    have haccount := @accounted_after _ _ recipe start h time
    have hnodup := (@accounted_after _ _ recipe start h (time + 1)).distinct
    obtain ⟨-, -, hdisjoint⟩ := List.nodup_append.mp hnodup
    exact ih.acts haccount (fun id hid hmade => hdisjoint id hid id hmade rfl) (acts_advance haccount)

theorem recent_after (hspare : start.world.spare.map Object.id =
    (List.range start.world.capacity).reverse) (time : Nat) :
    Recent (stored recipe start time) ((start.after recipe time).world.spare.map Object.id) := by
  induction time with
  | zero =>
    rw [stored, ← hspare]
    refine .of_nodup ?_
    rw [hspare]
    exact List.nodup_reverse.mpr List.nodup_range
  | succ time ih =>
    refine ih.acts (acts_advance (accounted_after h time)) ?_
    obtain ⟨hnodup, -, -⟩ := List.nodup_append.mp (nodup_objects (accounted_after h (time + 1)))
    exact (List.nodup_append.mp hnodup).1

/-- An object that no hook was called for has been in its slot from the beginning. -/
theorem spare_after (time : Nat) : ∀ object ∈ (start.after recipe time).world.spare,
    object ∈ start.world.spare ∨ trace recipe start object.id time ≠ [] := by
  induction time with
  | zero => exact fun object hmem => .inl hmem
  | succ time ih =>
    intro object hmem
    have hkept (hmem : object ∈ (start.after recipe time).world.spare) :
        object ∈ start.world.spare ∨ trace recipe start object.id (time + 1) ≠ [] :=
      (ih object hmem).imp_right fun htrace happend => htrace (List.append_eq_nil_iff.mp happend).2
    cases @acts_advance _ _ recipe _ _ (accounted_after h time) with
    | rests _ _ hspare => exact hkept (hspare ▸ hmem)
    | calls _ _ _ _ _ hspare => exact hkept (hspare.subset hmem)
    | completes _ _ _ _ _ hspare =>
      obtain ⟨new, hspare, hstores⟩ := hspare
      have hmem : object ∈ new ++ (start.after recipe time).world.spare := hspare ▸ hmem
      rcases List.mem_append.mp hmem with hnew | hmem
      · have hstored := hstores ▸ List.mem_map_of_mem hnew
        refine .inr ?_
        rw [trace, eventOf?_eq_some (event?_of_mem_stores hstored)]
        exact List.cons_ne_nil _ _
      · exact hkept hmem

omit h in
/-- An object that has been set up is handed out by the next step. -/
theorem handedOut_advance (h : thread.world.Accounted made [] thread.calls)
    {stack : List (PoolFrame τ σ)} (setUp : thread.SetUp holder guarded next stack) :
    ∃ held, held.holder = holder ∧ (advance (step recipe) thread).HandedOut held guarded next stack ∧
      thread.Stands held.object.id (.within .setUp) ∧
        thread.event? recipe = some (held.object.id, .completed .setUp) := by
  obtain ⟨⟨ending, hscript, hending⟩, hstack⟩ := setUp
  have hframe : .settingUp holder guarded next ∈ thread.stack := hstack ▸ List.mem_cons_self
  obtain ⟨old, hfind, hgrip⟩ := find?_of_frame h hframe rfl
  have hholder := PoolWorld.holder_of_find? hfind
  let grip : Grip := if guarded then .guarded else .free
  have hhanded : grip ≠ .inCall := by
    simp only [grip]
    split <;> nofun
  have hmem := PoolWorld.mem_of_find? hfind
  have hstands : thread.Stands old.object.id (.within .setUp) :=
    .held hmem (.busy hgrip hframe (hholder ▸ rfl))
  have hevent : thread.event? recipe = some (old.object.id, .completed .setUp) :=
    event?_of_frame hscript hending hstack rfl hfind
  refine ⟨{ old with grip }, hholder, ?_, hstands, hevent⟩
  rw [advance_of_setUp hscript hending hstack]
  refine ⟨PoolWorld.inHand?_eq_some.mpr ⟨?_, hhanded⟩, rfl, congrArg next hholder.symm, rfl⟩
  rw [PoolWorld.find?_modify (PoolWorld.keeps_grip _), if_pos hholder, h.find?_of_mem hmem]
  rfl

theorem disciplined (hheld : start.world.held = [])
    (hspare : start.world.spare.map Object.id = (List.range start.world.capacity).reverse) :
    Disciplined recipe start where
  alternates id time := by
    obtain ⟨stage, hlived⟩ := (staged_after h hheld time).lived id
    exact hlived.alternates.1.of_cons
  first id time hook hmem := by
    obtain ⟨stage, hlived⟩ := (staged_after h hheld time).lived id
    have hfirst := hlived.alternates.2
    rw [history, Option.mem_def] at hmem
    rw [List.getLast?_cons, hmem] at hfirst
    exact Option.some_inj.mp hfirst
  spare time object hmem := by
    obtain ⟨hevents, -⟩ | ⟨earlier, hevents⟩ :=
      ((staged_after h hheld time).stands (.spare hmem)).of_awaiting
    · exact .inl ⟨(spare_after h time object hmem).resolve_right fun hne => hne hevents, hevents⟩
    · exact .inr (by rw [hevents]; rfl)
  inHand {time holder held} hhand := by
    obtain ⟨hfind, hgrip⟩ := PoolWorld.inHand?_eq_some.mp hhand
    have hmem := PoolWorld.mem_of_find? hfind
    obtain ⟨hevents, hfirst⟩ | ⟨earlier, hevents⟩ :=
      ((staged_after h hheld time).stands (.held hmem (.kept hgrip))).of_awaiting
    · refine .inl ⟨by_contra fun hforeign => ?_, hevents⟩
      rw [Hook.first, if_neg hforeign] at hfirst
      cases hfirst
    · exact .inr (by rw [hevents]; rfl)
  returns {time holder guarded next stack} setUp := by
    obtain ⟨held, hholder, hhanded, stands, hevent⟩ := handedOut_advance (accounted_after h time) setUp
    obtain ⟨earlier, hearlier⟩ := ((staged_after h hheld time).stands stands).of_within
    refine ⟨held, hholder, hhanded, earlier, ?_⟩
    rw [trace, eventOf?_eq_some hevent, hearlier]
    rfl
  taken {call back guarded next object stack} setsUp hback setUp := by
    obtain ⟨held, hholder, hhanded, -, -⟩ := handedOut_advance (accounted_after h back) setUp
    have hstack : stack = (start.after recipe call).stack := by
      have hlevel := (setUp.stack.symm.trans hback.level).trans setsUp.stack
      exact (List.cons.inj hlevel).2
    subst hstack
    refine ⟨held, hhanded, ?_⟩
    obtain ⟨hfind, -⟩ := PoolWorld.inHand?_eq_some.mp hhanded.inHand
    exact id_after h (Nat.le_succ_of_le hback.le) setsUp.held (hholder ▸ hfind)
  cleansUp hevent := cleansUp_advance hevent
  constructs hscript hempty := constructs_advance hscript hempty
  reuses {time guarded next object spare} hscript htop := by
    have hrecent := @recent_after _ _ recipe start h hspare time
    rw [htop] at hrecent
    refine ⟨reuses_advance hscript htop, hrecent.mem _ List.mem_cons_self, fun below hmem => ?_⟩
    exact (List.pairwise_cons.mp hrecent.sorted).1 _ (List.mem_map_of_mem hmem)

end Run

/-- In a run of a new pool the hooks that an object goes through take turns, beginning with the initializer
for the pool's own objects and with the cleanup for others. What is in a slot is untouched or has been
cleaned up, what is handed out has been set up, and the constructor is called when nothing is in the slots;
otherwise the object stored last is taken. -/
theorem hooks_discipline (recipe : Recipe τ σ) {capacity : Nat} {memory : σ}
    (hopened : (PoolWorld.start recipe capacity memory).1 = .ok ()) (script : PoolScript τ σ) :
    Disciplined recipe (opened recipe capacity memory script) := by
  have hstart : PoolWorld.start recipe capacity memory =
      (.ok (), (PoolWorld.start recipe capacity memory).2) := Prod.ext hopened rfl
  obtain ⟨hcapacity, haccount⟩ := PoolWorld.start_ok hstart
  obtain ⟨hheld, hspare⟩ := PoolWorld.start_spare hstart
  have hroom : (opened recipe capacity memory script).world.capacity = capacity := hcapacity
  refine disciplined ?_ hheld ?_
  · rw [hroom]
    exact haccount
  · rw [hroom]
    exact hspare

/-- A cleanup that takes another object out of the pool and gives it back, while the memory lasts. -/
def layered : Recipe Unit Nat where
  construct _ memory := (.ok (), memory)
  setUp _ := .stop .normal
  cleanUp _ := .recall fun _ memory =>
    if memory = 0 then .stop .normal
    else .remember (· - 1) (.alloc false fun other => .release other (.stop .normal))
  onDrop _ memory := memory

def exchange : PoolScript Unit Nat :=
  .alloc false fun own => .adopt () fun other => .release other
    (.alloc true fun borrowed => .drop borrowed (.release own (.stop .normal)))

/-- The object from elsewhere is stored while the first one is in hand, and borrowed next. -/
theorem hooks_discipline_layered : (PoolWorld.start layered 2 1).1 = .ok () ∧
    stored layered (opened layered 2 1 exchange) 17 = [2, 2, 0, 1, 0] ∧
    history layered (opened layered 2 1 exchange) 2 17 = [.cleanUp, .setUp, .cleanUp] ∧
    Disciplined layered (opened layered 2 1 exchange) :=
  ⟨rfl, by decide, by decide, hooks_discipline layered rfl exchange⟩

end PoolThread

end Dispatch
