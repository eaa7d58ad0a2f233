import Dispatch.Proofs.PoolMoves

/-!
# The holders of objects

A holder keeps the object it was given, and what it may do with it gets less and less
(`PoolThread.below_of_moves`): a guard can be taken off it, and what is free can be given to the pool. So a
guard lets go of its object once (`PoolThread.below_of_letsGo`), and a holder gives an object to the pool once
(`PoolThread.below_giveBack`).
-/

namespace Dispatch

variable {τ σ : Type}

/-- How much a holder may do with its object. -/
def Grip.rank : Grip → Nat
  | .inCall => 0
  | .free => 1
  | .guarded => 2

theorem Grip.rank_pos_iff {grip : Grip} : 0 < grip.rank ↔ grip ≠ .inCall := by
  cases grip <;> simp [rank]

namespace PoolWorld

variable {world later : PoolWorld τ σ} {object : Object τ} {held : Held τ} {holder other : HolderRef}
  {grip : Grip} {change : Held τ → Held τ} {handed : Prop}

/-- A holder has no other object than before, and may do no more with it unless it is just handed out. -/
def Lessens (world : PoolWorld τ σ) (handed : Prop) (holder : HolderRef) (later : PoolWorld τ σ) : Prop :=
  ∀ held, later.find? holder = some held →
    ∃ old, world.find? holder = some old ∧ held.object.id = old.object.id ∧
      (held.grip.rank ≤ old.grip.rank ∨ handed)

namespace Lessens

theorem of_held (h : later.held = world.held) : world.Lessens handed holder later := by
  intro held hfind
  rw [find?, h] at hfind
  exact ⟨held, hfind, rfl, .inl (Nat.le_refl _)⟩

theorem hand (hheld : later.held = world.held) (hne : holder ≠ later.nextHolder) :
    world.Lessens handed holder (later.hand object grip).2 := by
  intro held hfind
  rw [find?_hand, if_neg hne] at hfind
  exact of_held hheld held hfind

/-- Only the holder whose object is changed may do something else with it. -/
theorem modify (hkeeps : Keeps change) (hrank : holder = other → ∀ old, world.find? other = some old →
    (change old).grip.rank ≤ old.grip.rank ∨ handed) :
    world.Lessens handed holder (world.modify other change) := by
  intro held hfind
  rw [find?_modify hkeeps] at hfind
  split at hfind
  · next heq =>
    obtain ⟨old, hold, rfl⟩ := Option.map_eq_some_iff.mp hfind
    exact ⟨old, hold, hkeeps.id old, hrank heq old (heq ▸ hold)⟩
  · exact ⟨held, hfind, rfl, .inl (Nat.le_refl _)⟩

theorem without (hheld : later.held = (world.without other).held) :
    world.Lessens handed holder later := by
  intro held hfind
  rw [find?, hheld, ← find?, find?_without] at hfind
  split at hfind
  · cases hfind
  · exact ⟨held, hfind, rfl, .inl (Nat.le_refl _)⟩

end Lessens

end PoolWorld

namespace PoolThread

variable {recipe : Recipe τ σ} {thread later : PoolThread τ σ} {holder : HolderRef} {held : Held τ}
  {made : List Nat}

/-! ### Holders -/

def HandsOut (thread : PoolThread τ σ) (holder : HolderRef) : Prop :=
  ∃ guarded next, .settingUp holder guarded next ∈ thread.stack

/-- A holder has the object it had before, and may do no more with it unless it is just handed out. -/
theorem lessens_of_moves (hmoves : Moves recipe thread later)
    (hknown : holder < thread.world.nextHolder) :
    thread.world.Lessens (thread.HandsOut holder) holder later.world := by
  cases hmoves with
  | rests => exact .of_held rfl
  | fails _ htake =>
    obtain ⟨-, -, memory, rfl⟩ := PoolWorld.take_error htake
    exact .of_held rfl
  | takes _ htake =>
    obtain ⟨hheld, hnext, -⟩ := PoolWorld.frame_of_take_ok htake
    exact .hand hheld (hnext ▸ Nat.ne_of_lt hknown)
  | adopts => exact .hand rfl (Nat.ne_of_lt hknown)
  | edits => exact .modify (PoolWorld.keeps_content _) fun _ _ _ => .inl (Nat.le_refl _)
  | gives => exact .modify (PoolWorld.keeps_grip _) fun _ _ _ => .inl (Nat.zero_le _)
  | detaches _ hfind hgrip =>
    refine .modify (PoolWorld.keeps_grip _) ?_
    rintro rfl old hold
    obtain rfl := Option.some_inj.mp (hfind.symm.trans hold)
    exact .inl (Grip.rank_pos_iff.mpr hgrip)
  | handsOut _ _ hstack =>
    refine .modify (PoolWorld.keeps_grip _) ?_
    rintro rfl old -
    exact .inr ⟨_, _, hstack ▸ List.mem_cons_self⟩
  | drops _ hfind | loses _ _ _ hfind =>
    rw [PoolWorld.discardFrom_of_find? hfind]
    exact .without rfl
  | stores => exact .without PoolWorld.held_store

/-- An object that has been handed out to a holder, which may do no more with it than this. -/
structure Below (rank : Nat) (thread : PoolThread τ σ) (holder : HolderRef) : Prop where
  known : holder < thread.world.nextHolder
  handed : ∀ guarded next, .settingUp holder guarded next ∉ thread.stack
  grip : ∀ held, thread.world.find? holder = some held → held.grip.rank ≤ rank

theorem below_of_moves {rank : Nat} (hmoves : Moves recipe thread later) (h : Below rank thread holder) :
    Below rank later holder := by
  refine ⟨Nat.lt_of_lt_of_le h.known (frame_of_moves hmoves).2, ?_, ?_⟩
  · intro guarded next hmem
    have hless {frame : PoolFrame τ σ} {stack : List (PoolFrame τ σ)}
        (hstack : thread.stack = frame :: stack) : .settingUp holder guarded next ∉ stack := by
      intro hmem
      exact h.handed guarded next (hstack ▸ List.mem_cons_of_mem _ hmem)
    cases hmoves with
    | @rests _ _ stack _ _ _ hstack =>
      have hhook : .settingUp holder guarded next ∈ hooks stack := List.mem_filter.mpr ⟨hmem, rfl⟩
      rw [hstack] at hhook
      exact h.handed guarded next (List.mem_of_mem_filter hhook)
    | takes _ htake =>
      obtain ⟨-, hnext, -⟩ := PoolWorld.frame_of_take_ok htake
      rcases List.mem_cons.mp hmem with heq | hmem
      · injection heq with hholder
        exact Nat.ne_of_lt h.known (hholder.trans hnext)
      · exact h.handed guarded next hmem
    | gives =>
      rcases List.mem_cons.mp hmem with heq | hmem
      · cases heq
      · exact h.handed guarded next hmem
    | handsOut _ _ hstack => exact hless hstack hmem
    | loses _ hstack => exact hless hstack hmem
    | stores _ _ hstack => exact hless hstack hmem
    | fails | adopts | edits | detaches | drops => exact h.handed guarded next hmem
  · intro held hfind
    obtain ⟨old, hold, -, hrank | ⟨guarded, next, hmem⟩⟩ := lessens_of_moves hmoves h.known held hfind
    · exact Nat.le_trans hrank (h.grip old hold)
    · exact absurd hmem (h.handed guarded next)

/-- An object in hand has been handed out. -/
theorem handed_of_inHand (h : thread.world.Accounted made [] thread.calls)
    (hfind : thread.world.find? holder = some held) (hgrip : held.grip ≠ .inCall) (guarded : Bool)
    (next : HolderRef → PoolScript τ σ) : .settingUp holder guarded next ∉ thread.stack := by
  intro hmem
  obtain ⟨old, hold, hcall⟩ := find?_of_frame h hmem rfl
  obtain rfl := Option.some_inj.mp (hfind.symm.trans hold)
  exact hgrip hcall

/-- A holder that gives its object to the pool has nothing left to do with it. -/
theorem below_giveBack (h : thread.world.Accounted made [] thread.calls)
    (hfind : thread.world.find? holder = some held) (hgrip : held.grip ≠ .inCall)
    (next : PoolScript τ σ) : Below 0 (thread.giveBack recipe holder next) holder := by
  refine ⟨h.find?_lt hfind, ?_, ?_⟩
  · intro guarded next' hmem
    rcases List.mem_cons.mp hmem with heq | hmem
    · cases heq
    · exact handed_of_inHand h hfind hgrip guarded next' hmem
  · intro held' hfind'
    simp only [giveBack, within, calling, PoolWorld.find?_modify (PoolWorld.keeps_grip _), hfind] at hfind'
    obtain rfl := Option.some_inj.mp hfind'
    exact Nat.le_refl 0

theorem hook_of_moves (hmoves : Moves recipe thread later) {frame : PoolFrame τ σ}
    (hstack : later.stack = frame :: thread.stack) (hframe : frame.holder? = some holder) :
    (∃ guarded next object world, thread.world.take recipe = (.ok object, world) ∧
      frame = .settingUp holder guarded next ∧ later.world = (world.hand object .inCall).2 ∧
      holder = world.nextHolder) ∨
      ∃ held next, thread.world.find? holder = some held ∧ held.grip ≠ .inCall ∧
        frame = .cleaningUp holder next ∧ later = thread.giveBack recipe holder next := by
  have hshort {top : PoolFrame τ σ} {stack : List (PoolFrame τ σ)}
      (hold : thread.stack = top :: stack) (hnew : stack = frame :: thread.stack) : False := by
    have hlength := congrArg List.length (hold.trans (congrArg (top :: ·) hnew))
    simp only [List.length_cons] at hlength
    omega
  cases hmoves with
  | rests _ _ _ hhooks =>
    have hlength := congrArg List.length ((congrArg hooks hstack).symm.trans hhooks)
    simp [hooks, hframe] at hlength
  | @gives other held next _ hfind hgrip =>
    obtain ⟨rfl, -⟩ := List.cons.inj hstack
    obtain rfl : other = holder := Option.some_inj.mp hframe
    exact .inr ⟨held, next, hfind, hgrip, rfl, rfl⟩
  | @takes guarded next object world _ htake =>
    obtain ⟨rfl, -⟩ := List.cons.inj hstack
    obtain rfl : world.nextHolder = holder := Option.some_inj.mp hframe
    exact .inl ⟨guarded, next, object, world, htake, rfl, rfl, rfl⟩
  | handsOut _ _ hold => exact (hshort hold hstack).elim
  | loses _ hold => exact (hshort hold hstack).elim
  | stores _ _ hold => exact (hshort hold hstack).elim
  | fails | adopts | edits | detaches | drops => exact absurd hstack.symm (List.cons_ne_self _ _)

/-! ### Guards -/

theorem guards_of_moves (h : thread.world.Accounted made [] thread.calls)
    (hmoves : Moves recipe thread later) (hguards : thread.Guards holder)
    (hkeeps : ¬ thread.LetsGo holder) : later.Guards holder := by
  obtain ⟨held, hfind, hgrip⟩ := hguards
  have hne {other : HolderRef} {held' : Held τ} (hfind' : thread.world.find? other = some held')
      (hgrip' : held'.grip ≠ .guarded) : holder ≠ other := by
    rintro rfl
    obtain rfl := Option.some_inj.mp (hfind.symm.trans hfind')
    exact hgrip' hgrip
  have hknown := h.find?_lt hfind
  cases hmoves with
  | rests => exact ⟨held, hfind, hgrip⟩
  | fails _ htake =>
    obtain ⟨-, -, memory, rfl⟩ := PoolWorld.take_error htake
    exact ⟨held, hfind, hgrip⟩
  | takes _ htake =>
    obtain ⟨hheld, hnext, -⟩ := PoolWorld.frame_of_take_ok htake
    refine ⟨held, ?_, hgrip⟩
    rw [PoolWorld.find?_hand, if_neg (hnext ▸ Nat.ne_of_lt hknown), PoolWorld.find?, hheld]
    exact hfind
  | adopts =>
    refine ⟨held, ?_, hgrip⟩
    rw [PoolWorld.find?_hand, if_neg (Nat.ne_of_lt hknown)]
    exact hfind
  | edits =>
    rw [Guards, PoolWorld.find?_modify (PoolWorld.keeps_content _), hfind]
    split
    · exact ⟨_, rfl, hgrip⟩
    · exact ⟨held, rfl, hgrip⟩
  | @gives other _ next hscript =>
    have hother : holder ≠ other := by
      rintro rfl
      rcases hscript with hscript | ⟨hscript, -⟩
      · exact hkeeps (.inr ⟨⟨held, hfind, hgrip⟩, next, .inr hscript⟩)
      · exact hkeeps (.inl ⟨⟨held, hfind, hgrip⟩, next, hscript⟩)
    refine ⟨held, ?_, hgrip⟩
    simp only [giveBack, within, calling, PoolWorld.find?_modify (PoolWorld.keeps_grip _), if_neg hother]
    exact hfind
  | @detaches other _ next hscript =>
    have hother : holder ≠ other := by
      rintro rfl
      exact hkeeps (.inr ⟨⟨held, hfind, hgrip⟩, next, .inl hscript⟩)
    refine ⟨held, ?_, hgrip⟩
    rw [PoolWorld.find?_modify (PoolWorld.keeps_grip _), if_neg hother]
    exact hfind
  | handsOut _ _ _ hfind' hgrip' =>
    refine ⟨held, ?_, hgrip⟩
    rw [PoolWorld.find?_modify (PoolWorld.keeps_grip _), if_neg (hne hfind' (by simp [hgrip']))]
    exact hfind
  | drops _ hfind' hgrip' | loses _ _ _ hfind' hgrip' =>
    refine ⟨held, ?_, hgrip⟩
    rw [PoolWorld.discardFrom_of_find? hfind', ← hfind]
    exact PoolWorld.find?_of_without rfl (hne hfind' (by simp [hgrip']))
  | stores _ _ _ hfind' hgrip' =>
    refine ⟨held, ?_, hgrip⟩
    rw [← hfind]
    exact PoolWorld.find?_of_without PoolWorld.held_store (hne hfind' (by simp [hgrip']))

theorem advance_givesBack (h : thread.GivesBack holder) :
    ∃ next, advance (step recipe) thread = thread.giveBack recipe holder next := by
  obtain ⟨⟨held, hfind, hgrip⟩, next, hscript⟩ := h
  have hhand := PoolWorld.inHand?_eq_some.mpr ⟨hfind, by simp [hgrip]⟩
  exact ⟨next, advance_of_inr (by simp [step, hscript, hhand, hgrip])⟩

/-- An object that is taken off its guard is free, or given to the pool at once. -/
theorem advance_detaches (h : thread.Detaches holder) :
    ∃ next, advance (step recipe) thread = thread.giveBack recipe holder next ∨
      advance (step recipe) thread =
        ⟨thread.world.modify holder fun held => { held with grip := .free }, next, thread.stack⟩ := by
  obtain ⟨⟨held, hfind, hgrip⟩, next, hscript⟩ := h
  have hhand := PoolWorld.inHand?_eq_some.mpr ⟨hfind, by simp [hgrip]⟩
  rcases hscript with hscript | hscript
  · refine ⟨next, .inr (advance_of_inr ?_)⟩
    simp only [step, hscript, hhand]
    rfl
  · exact ⟨next, .inl (advance_of_inr (by simp [step, hscript, hhand]))⟩

/-- A guard that has let go of its object is no guard any more. -/
theorem below_of_letsGo (h : thread.world.Accounted made [] thread.calls)
    (hlets : thread.LetsGo holder) : Below 1 (advance (step recipe) thread) holder := by
  obtain ⟨held, hfind, hgrip⟩ := guards_of_letsGo hlets
  have hne : held.grip ≠ .inCall := by simp [hgrip]
  have hgive (next : PoolScript τ σ) : Below 1 (thread.giveBack recipe holder next) holder := by
    have hbelow := @below_giveBack _ _ recipe _ _ _ _ h hfind hne next
    exact ⟨hbelow.known, hbelow.handed, fun held hheld => Nat.le_succ_of_le (hbelow.grip held hheld)⟩
  rcases hlets with hlets | hlets
  · obtain ⟨next, hnext⟩ := @advance_givesBack _ _ recipe _ _ hlets
    exact hnext ▸ hgive next
  · obtain ⟨next, hnext | hnext⟩ := @advance_detaches _ _ recipe _ _ hlets
    · exact hnext ▸ hgive next
    · rw [hnext]
      refine ⟨h.find?_lt hfind, fun guarded next' => handed_of_inHand h hfind hne guarded next', ?_⟩
      intro held' hfind'
      rw [PoolWorld.find?_modify (PoolWorld.keeps_grip _), if_pos rfl, hfind] at hfind'
      obtain rfl := Option.some_inj.mp hfind'
      exact Nat.le_refl 1

end PoolThread

end Dispatch
