import Dispatch.Proofs.PoolHolders

/-!
# The objects of a pool

A pool keeps no more objects than it has room for, and loses or doubles none (`objects_kept`). Whatever its
users and its hooks do, every object that has been made is in one place at all times (`Placed`): ready for
reuse, in the hands of one holder, where a call of the pool that is under way counts as one, or dropped, and
then once. A constructor that panics moves nothing, and a hook that panics costs the object it works on
(`Costs`). A guard lets go of its object once, by giving it back or by being taken off it.

The hooks may use the pool again to any depth, so what they do in between is said step by step: the slots
change when an object is taken and when one is stored, whoever does it, and an object is dropped by its
holder, by a panic, or because there is no room for it.
-/

namespace Dispatch

variable {τ σ : Type}

namespace PoolThread

variable {recipe : Recipe τ σ} {start thread : PoolThread τ σ} {holder : HolderRef} {capacity : Nat}
  {frame : PoolFrame τ σ} {payload : Payload} {time call back first last : Nat} {rank : Nat}

abbrev after (recipe : Recipe τ σ) (start : PoolThread τ σ) (time : Nat) : PoolThread τ σ :=
  course (step recipe) start time

/-- The objects that have been made: those that a new pool is filled with, and the others since. -/
def made (recipe : Recipe τ σ) (start : PoolThread τ σ) : Nat → List Nat
  | 0 => List.range start.world.capacity
  | time + 1 => (start.after recipe time).makes recipe ++ made recipe start time

def opened (recipe : Recipe τ σ) (capacity : Nat) (memory : σ) (script : PoolScript τ σ) :
    PoolThread τ σ :=
  { world := (PoolWorld.start recipe capacity memory).2, script }

structure Placed (thread : PoolThread τ σ) (made : List Nat) : Prop where
  /-- Together, the slots, the hands and what has been dropped have each object once. -/
  once : thread.world.objects.Perm made
  distinct : made.Nodup
  /-- A holder has one object. -/
  holders : (thread.world.held.map Held.holder).Nodup
  /-- The objects that calls have are those of the hooks on the stack. -/
  calls : (thread.world.held.flatMap Held.calls).Perm thread.calls

structure Costs (holder : HolderRef) (id : Nat) (world later : PoolWorld τ σ) : Prop where
  object : ∃ held, world.find? holder = some held ∧ held.object.id = id
  spare : later.spare = world.spare
  held : later.held = world.held.filter fun held => held.holder ≠ holder
  dropped : later.dropped = id :: world.dropped

/-- A hook is called at one time, with this frame to go on with, and panics at another. What it does in
between leaves the stack below it alone. -/
structure Panics (recipe : Recipe τ σ) (start : PoolThread τ σ) (frame : PoolFrame τ σ)
    (call back : Nat) (payload : Payload) : Prop where
  called : (start.after recipe (call + 1)).stack = frame :: (start.after recipe call).stack
  returned : Stacked.Back (step recipe) stack (fun thread => ∃ ending, thread.script = .stop ending) start
    (call + 1) back
  panicked : (start.after recipe back).script = .stop (.panicked payload)

def Releases (recipe : Recipe τ σ) (start : PoolThread τ σ) (holder : HolderRef) (time : Nat) : Prop :=
  ∃ next, (start.after recipe (time + 1)).stack =
    .cleaningUp holder next :: (start.after recipe time).stack

structure Kept (recipe : Recipe τ σ) (capacity : Nat) (start : PoolThread τ σ) : Prop where
  /-- The pool keeps no more than it has room for. -/
  room : ∀ time, (start.after recipe time).world.view.available ≤ capacity
  placed : ∀ time, (start.after recipe time).Placed (start.made recipe time)
  /-- The slots change when an object is taken and when one is stored. -/
  slots : ∀ time, Slots (start.after recipe time) (start.after recipe (time + 1))
  /-- An object is dropped by its holder, by a panic, or because there is no room for it. -/
  drops : ∀ time, Drops (start.after recipe time) (start.after recipe (time + 1))
  /-- A constructor that panics moves nothing, and the caller goes on with the panic. -/
  construct : ∀ {time guarded next payload}, (start.after recipe time).script = .alloc guarded next →
    ((start.after recipe time).world.take recipe).1 = .error payload →
      ∃ memory, start.after recipe (time + 1) =
        ⟨{ (start.after recipe time).world with
            nextId := (start.after recipe time).world.nextId + 1, memory },
          .stop (.panicked payload), (start.after recipe time).stack⟩
  /-- An initializer that panics costs the object that was taken. -/
  setUp : ∀ {holder guarded next call back payload},
    Panics recipe start (.settingUp holder guarded next) call back payload →
      ∃ object, ((start.after recipe call).world.take recipe).1 = .ok object ∧
        (start.after recipe (call + 1)).world.spare = (start.after recipe call).world.spare.tail ∧
        Costs holder object.id (start.after recipe back).world (start.after recipe (back + 1)).world
  /-- A cleanup that panics costs the object that was given back. -/
  cleanUp : ∀ {holder next call back payload},
    Panics recipe start (.cleaningUp holder next) call back payload →
      ∃ held, (start.after recipe call).world.find? holder = some held ∧
        (start.after recipe (call + 1)).world.spare = (start.after recipe call).world.spare ∧
        Costs holder held.object.id (start.after recipe back).world
          (start.after recipe (back + 1)).world
  /-- A guard has its object still, or has let go of it once. -/
  guards : ∀ {holder first last}, first ≤ last → (start.after recipe first).Guards holder →
    ((start.after recipe last).Guards holder ∧
        ∀ time, time < last → ¬ (start.after recipe time).LetsGo holder) ∨
      ∃! time, time < last ∧ (start.after recipe time).LetsGo holder
  /-- A guard that gives its object back releases it. -/
  returned : ∀ {holder time}, (start.after recipe time).GivesBack holder →
    Releases recipe start holder time
  /-- A guard that is taken off its object never gives it back. -/
  detached : ∀ {holder time time'}, (start.after recipe time).Detaches holder →
    ¬ (start.after recipe time').GivesBack holder
  /-- The object of a holder is released once. -/
  released : ∀ {holder time time'}, Releases recipe start holder time →
    Releases recipe start holder time' → time = time'

/-! ### Runs -/

/-- The account of a run is kept at all times. -/
theorem accounted_after (h : start.world.Accounted (List.range start.world.capacity) [] start.calls)
    (time : Nat) :
    (start.after recipe time).world.Accounted (start.made recipe time) []
      (start.after recipe time).calls := by
  induction time with
  | zero => exact h
  | succ time ih => exact accounted_of_moves ih (moves_advance ih)

theorem releases_of_givesBack (hgives : (start.after recipe time).GivesBack holder) :
    Releases recipe start holder time := by
  obtain ⟨next, hnext⟩ := @advance_givesBack _ _ recipe _ _ hgives
  exact ⟨next, congrArg PoolThread.stack hnext⟩

section Run

variable (h : start.world.Accounted (List.range start.world.capacity) [] start.calls)

include h

theorem moves_after (time : Nat) :
    Moves recipe (start.after recipe time) (start.after recipe (time + 1)) :=
  moves_advance (accounted_after h time)

theorem capacity_after (time : Nat) :
    (start.after recipe time).world.capacity = start.world.capacity := by
  induction time with
  | zero => rfl
  | succ time ih => exact (frame_of_moves (moves_after h time)).1.trans ih

theorem nextHolder_after (hle : first ≤ last) :
    (start.after recipe first).world.nextHolder ≤ (start.after recipe last).world.nextHolder := by
  induction last, hle using Nat.le_induction with
  | base => exact Nat.le_refl _
  | succ last _ ih => exact Nat.le_trans ih (frame_of_moves (moves_after h last)).2

theorem below_after (hle : first ≤ last) (hbelow : Below rank (start.after recipe first) holder) :
    Below rank (start.after recipe last) holder := by
  induction last, hle using Nat.le_induction with
  | base => exact hbelow
  | succ last _ ih => exact below_of_moves (moves_after h last) ih

/-- A holder has one object as long as it has one. -/
theorem id_after (hle : first ≤ last) {held held' : Held τ}
    (hfirst : (start.after recipe first).world.find? holder = some held)
    (hlast : (start.after recipe last).world.find? holder = some held') :
    held'.object.id = held.object.id := by
  induction last, hle using Nat.le_induction generalizing held' with
  | base => rw [Option.some_inj.mp (hfirst.symm.trans hlast)]
  | succ last hle ih =>
    have hknown : holder < (start.after recipe last).world.nextHolder :=
      Nat.lt_of_lt_of_le ((accounted_after h first).find?_lt hfirst) (nextHolder_after h hle)
    obtain ⟨old, hold, hid, -⟩ := lessens_of_moves (moves_after h last) hknown held' hlast
    exact hid.trans (ih hold)

/-! ### Panics -/

/-- A hook that panics costs the object of its holder. -/
theorem costs_of_panics (hpanics : Panics recipe start frame call back payload)
    (hframe : frame.holder? = some holder) {held : Held τ} (hle : first ≤ back)
    (hfind : (start.after recipe first).world.find? holder = some held) :
    Costs holder held.object.id (start.after recipe back).world
      (start.after recipe (back + 1)).world := by
  have hstack := hpanics.returned.level.trans hpanics.called
  obtain ⟨found, hfound, -⟩ := find?_of_frame (accounted_after h back)
    (hstack ▸ List.mem_cons_self) hframe
  have hid := id_after h hle hfind hfound
  have hworld : (start.after recipe (back + 1)).world =
      ((start.after recipe back).world.without holder).discard recipe found.object := by
    rw [← PoolWorld.discardFrom_of_find? hfound]
    exact congrArg PoolThread.world (advance_panicked hpanics.panicked hstack hframe)
  rw [hworld, ← hid]
  exact ⟨⟨found, hfound, rfl⟩, rfl, rfl, rfl⟩

theorem costs_of_setUp {guarded : Bool} {next : HolderRef → PoolScript τ σ}
    (hpanics : Panics recipe start (.settingUp holder guarded next) call back payload) :
    ∃ object, ((start.after recipe call).world.take recipe).1 = .ok object ∧
      (start.after recipe (call + 1)).world.spare = (start.after recipe call).world.spare.tail ∧
      Costs holder object.id (start.after recipe back).world (start.after recipe (back + 1)).world := by
  obtain ⟨_, _, object, world, htake, -, hworld, rfl⟩ | ⟨_, _, -, -, hframe, -⟩ :=
    hook_of_moves (moves_after h call) hpanics.called rfl
  · refine ⟨object, by rw [htake], ?_, ?_⟩
    · have hspare := PoolWorld.spare_of_take_ok htake
      rw [hworld]
      exact hspare
    · have hfind : (start.after recipe (call + 1)).world.find? world.nextHolder =
          some ⟨world.nextHolder, .inCall, object⟩ := by
        rw [hworld, PoolWorld.find?_hand, if_pos rfl]
      exact costs_of_panics h hpanics rfl hpanics.returned.le hfind
  · cases hframe

theorem costs_of_cleanUp {next : PoolScript τ σ}
    (hpanics : Panics recipe start (.cleaningUp holder next) call back payload) :
    ∃ held, (start.after recipe call).world.find? holder = some held ∧
      (start.after recipe (call + 1)).world.spare = (start.after recipe call).world.spare ∧
      Costs holder held.object.id (start.after recipe back).world
        (start.after recipe (back + 1)).world := by
  obtain ⟨_, _, _, _, -, hframe, -⟩ | ⟨held, next', hfind, -, -, hlater⟩ :=
    hook_of_moves (moves_after h call) hpanics.called rfl
  · cases hframe
  · refine ⟨held, hfind, ?_, ?_⟩
    · rw [hlater]
      rfl
    · exact costs_of_panics h hpanics rfl (Nat.le_of_succ_le hpanics.returned.le) hfind

/-! ### Guards -/

/-- A guard has let go of nothing before. -/
theorem not_letsGo_before (hlt : first < last) (hlast : (start.after recipe last).Guards holder) :
    ¬ (start.after recipe first).LetsGo holder := by
  intro hlets
  obtain ⟨held, hfind, hgrip⟩ := hlast
  have hbelow := below_after h hlt (below_of_letsGo (accounted_after h first) hlets)
  have hrank := hbelow.grip held hfind
  simp [hgrip, Grip.rank] at hrank

theorem letsGo_unique (hfirst : (start.after recipe first).LetsGo holder)
    (hlast : (start.after recipe last).LetsGo holder) : first = last := by
  rcases Nat.lt_trichotomy first last with hlt | heq | hlt
  · exact absurd hfirst (not_letsGo_before h hlt (guards_of_letsGo hlast))
  · exact heq
  · exact absurd hlast (not_letsGo_before h hlt (guards_of_letsGo hfirst))

/-- A guard has its object until it lets go of it. -/
theorem guards_or_letsGo (hle : first ≤ last) (hguards : (start.after recipe first).Guards holder) :
    (start.after recipe last).Guards holder ∨
      ∃ time, time < last ∧ (start.after recipe time).LetsGo holder := by
  induction last, hle using Nat.le_induction with
  | base => exact .inl hguards
  | succ last _ ih =>
    rcases ih with hlast | ⟨time, hlt, hlets⟩
    · by_cases hlets : (start.after recipe last).LetsGo holder
      · exact .inr ⟨last, Nat.lt_succ_self last, hlets⟩
      · exact .inl (guards_of_moves (accounted_after h last) (moves_after h last) hlast hlets)
    · exact .inr ⟨time, Nat.lt_succ_of_lt hlt, hlets⟩

theorem not_givesBack_of_detaches (hdetaches : (start.after recipe time).Detaches holder) :
    ¬ (start.after recipe back).GivesBack holder := by
  intro hgives
  obtain rfl := letsGo_unique h (.inr hdetaches) (.inl hgives)
  obtain ⟨-, next, hscript | hscript⟩ := hdetaches
  all_goals
    obtain ⟨-, next', hscript'⟩ := hgives
    rw [hscript] at hscript'
    cases hscript'

/-- What has been released is in no hands. -/
theorem not_releases_after (hlt : first < last) (hfirst : Releases recipe start holder first) :
    ¬ Releases recipe start holder last := by
  rintro ⟨_, hlast⟩
  obtain ⟨_, hfirst⟩ := hfirst
  obtain ⟨_, _, _, _, -, hframe, -⟩ | ⟨held, next, hfind, hgrip, -, hlater⟩ :=
    hook_of_moves (moves_after h first) hfirst rfl
  · cases hframe
  have hbelow := below_after h hlt (hlater ▸ below_giveBack (accounted_after h first) hfind hgrip next)
  obtain ⟨_, _, _, _, -, hframe, -⟩ | ⟨held', _, hfind', hgrip', -, -⟩ :=
    hook_of_moves (moves_after h last) hlast rfl
  · cases hframe
  exact Nat.not_lt.mpr (hbelow.grip held' hfind') (Grip.rank_pos_iff.mpr hgrip')

theorem releases_unique (hfirst : Releases recipe start holder first)
    (hlast : Releases recipe start holder last) : first = last := by
  rcases Nat.lt_trichotomy first last with hlt | heq | hlt
  · exact absurd hlast (not_releases_after h hlt hfirst)
  · exact heq
  · exact absurd hfirst (not_releases_after h hlt hlast)

/-! ### The account of a run -/

theorem placed_after (time : Nat) : (start.after recipe time).Placed (start.made recipe time) :=
  have haccount := accounted_after h time
  ⟨haccount.once, haccount.distinct, haccount.holders, haccount.busy⟩

theorem kept : Kept recipe start.world.capacity start where
  room time := capacity_after h time ▸ (accounted_after h time).room
  placed := placed_after h
  slots time := slots_of_moves (moves_after h time)
  drops time := drops_of_moves (moves_after h time)
  construct {time} _ _ _ := @advance_failed _ _ recipe (start.after recipe time) _ _ _
  setUp := costs_of_setUp h
  cleanUp := costs_of_cleanUp h
  guards := by
    intro holder first last hle hguards
    rcases guards_or_letsGo h hle hguards with hlast | ⟨time, hlt, hlets⟩
    · exact .inl ⟨hlast, fun time hlt => not_letsGo_before h hlt hlast⟩
    · exact .inr ⟨time, ⟨hlt, hlets⟩, fun other hother => letsGo_unique h hother.2 hlets⟩
  returned := releases_of_givesBack
  detached := not_givesBack_of_detaches h
  released := releases_unique h

end Run

/-- A pool keeps its objects, whatever its users, its constructor and its hooks do. If it cannot be opened,
those that were made have been dropped. -/
theorem objects_kept (recipe : Recipe τ σ) (hroom : 0 < capacity) (memory : σ) :
    ((PoolWorld.start recipe capacity memory).1 = .ok () →
        ∀ script, Kept recipe capacity (opened recipe capacity memory script)) ∧
      ∀ payload, (PoolWorld.start recipe capacity memory).1 = .error payload →
        (PoolWorld.start recipe capacity memory).2.Abandoned := by
  constructor
  · intro hok script
    obtain ⟨hcapacity, haccount⟩ := PoolWorld.start_ok (Prod.ext hok rfl)
    have hopened : (opened recipe capacity memory script).world.capacity = capacity := hcapacity
    have hkept := @kept _ _ recipe (opened recipe capacity memory script) (hopened.symm ▸ haccount)
    rwa [hopened] at hkept
  · intro payload herror
    exact PoolWorld.start_error hroom (Prod.ext herror rfl)

/-- A cleanup that takes an object out of the pool and drops it, and then panics. -/
def fragile : Recipe Unit Unit where
  construct id memory := (if id < 2 then .ok () else .error .other, memory)
  setUp _ := .stop .normal
  cleanUp _ := .alloc false fun other => .drop other (.stop (.panicked .other))
  onDrop _ memory := memory

def visit : PoolScript Unit Unit :=
  .alloc true fun holder => .drop holder (.stop .normal)

theorem objects_kept_fragile : 0 < 2 ∧ (PoolWorld.start fragile 2 ()).1 = .ok () ∧
    Kept fragile 2 (opened fragile 2 () visit) :=
  ⟨by decide, rfl, (objects_kept fragile (by decide) ()).1 rfl visit⟩

/-- The guard's object is lost to the panic, and the other one was dropped before. -/
example : ((opened fragile 2 () visit).after fragile 8).world.dropped = [1, 0] := by
  rfl

end PoolThread

end Dispatch
