import Mathlib.Data.List.Nodup
import Dispatch.Pool

/-!
# Where the objects of a pool are

An object of a pool is ready for reuse, in somebody's hands, or dropped. While a function of the pool moves
it, it is nowhere, so the account of a pool (`PoolWorld.Accounted`) also lists the objects that are being
moved. What a function does is said by what it does to this account: taking and making an object add to the
objects that are being moved, handing out, storing and dropping take away from them.
-/

namespace Dispatch

variable {τ σ : Type}

def Held.calls (held : Held τ) : List HolderRef :=
  if held.grip = .inCall then [held.holder] else []

theorem Held.calls_of_inCall {held : Held τ} (h : held.grip = .inCall) : held.calls = [held.holder] :=
  if_pos h

theorem Held.calls_of_ne {held : Held τ} (h : held.grip ≠ .inCall) : held.calls = [] :=
  if_neg h

namespace PoolWorld

variable {recipe : Recipe τ σ} {world later : PoolWorld τ σ} {object : Object τ} {held : Held τ}
  {holder other : HolderRef} {grip : Grip} {change : Held τ → Held τ} {made made' moved : List Nat}
  {calls others : List HolderRef} {payload : Payload}

/-! ### Holders -/

/-- A change of an object in somebody's hands that leaves it there. -/
structure Keeps (change : Held τ → Held τ) : Prop where
  holder : ∀ held, (change held).holder = held.holder
  id : ∀ held, (change held).object.id = held.object.id

theorem keeps_grip (grip : Grip) : Keeps (fun held : Held τ => { held with grip }) :=
  ⟨fun _ => rfl, fun _ => rfl⟩

theorem keeps_content (change : τ → τ) : Keeps (fun held : Held τ =>
    { held with object := { held.object with content := change held.object.content } }) :=
  ⟨fun _ => rfl, fun _ => rfl⟩

theorem mem_of_find? (h : world.find? holder = some held) : held ∈ world.held :=
  List.mem_of_find?_eq_some h

theorem holder_of_find? (h : world.find? holder = some held) : held.holder = holder := by
  simpa using List.find?_some h

theorem find?_hand : (world.hand object grip).2.find? other =
    if other = world.nextHolder then some ⟨world.nextHolder, grip, object⟩ else world.find? other := by
  by_cases h : other = world.nextHolder
  · simp [find?, hand, h]
  · simp [find?, hand, h, Ne.symm h]

theorem find?_without :
    (world.without holder).find? other = if other = holder then none else world.find? other := by
  by_cases h : other = holder
  · subst h
    simp [find?, without]
  · simp only [find?, without, List.find?_filter, h, if_false]
    congr 1
    funext held
    by_cases heq : held.holder = other <;> simp [heq, h]

theorem find?_of_without (hheld : later.held = (world.without holder).held) (hne : other ≠ holder) :
    later.find? other = world.find? other := by
  rw [find?, hheld, ← find?, find?_without, if_neg hne]

theorem find?_modify (h : Keeps change) : (world.modify holder change).find? other =
    if other = holder then (world.find? other).map change else world.find? other := by
  have hpred : (fun held : Held τ => decide ((if held.holder = holder then change held else held).holder
      = other)) = fun held => decide (held.holder = other) := by
    funext held
    split <;> simp [h.holder]
  simp only [find?, modify, List.find?_map, Function.comp_def, hpred]
  cases hfind : world.held.find? fun held => decide (held.holder = other) with
  | none => simp
  | some held =>
    have hholder : held.holder = other := holder_of_find? hfind
    by_cases heq : other = holder <;> simp [hholder, heq]

/-- A change for a holder that is not there changes nothing. -/
theorem map_of_ne {list : List (Held τ)} (h : ∀ held ∈ list, held.holder ≠ holder) :
    list.map (fun held => if held.holder = holder then change held else held) = list :=
  (List.map_congr_left fun held hmem => if_neg (h held hmem)).trans (List.map_id' list)

theorem discardFrom_of_find? (h : world.find? holder = some held) :
    world.discardFrom recipe holder = (world.without holder).discard recipe held.object := by
  rw [discardFrom, h]

theorem spare_store : (world.store recipe object).spare =
    if world.spare.length < world.capacity then object :: world.spare else world.spare := by
  unfold store
  split <;> rfl

theorem dropped_store : (world.store recipe object).dropped =
    if world.spare.length < world.capacity then world.dropped else object.id :: world.dropped := by
  unfold store
  split <;> rfl

theorem held_store : (world.store recipe object).held = world.held := by
  unfold store
  split <;> rfl

theorem modify_of_none (h : world.find? holder = none) : world.modify holder change = world := by
  rw [modify, map_of_ne]
  intro held hmem
  simpa using List.find?_eq_none.mp h held hmem

/-- One holder has its object changed, and the others keep theirs. -/
theorem perm_modify (hnodup : (world.held.map Held.holder).Nodup) (h : world.find? holder = some held)
    (change : Held τ → Held τ) :
    (world.modify holder change).held.Perm (change held :: (world.without holder).held) := by
  simp only [find?, modify, without] at h ⊢
  generalize world.held = list at hnodup h ⊢
  induction list with
  | nil => simp at h
  | cons first rest ih =>
    obtain ⟨hfirst, hrest⟩ := List.nodup_cons.mp hnodup
    by_cases heq : first.holder = holder
    · -- the holder is not among the rest, which stays as it is
      have hother : ∀ held ∈ rest, held.holder ≠ holder := by
        rintro held hmem rfl
        exact hfirst (heq ▸ List.mem_map_of_mem hmem)
      obtain rfl : first = held := by simpa [heq] using h
      have hfilter : rest.filter (fun held => held.holder ≠ holder) = rest :=
        List.filter_eq_self.mpr fun held hmem => by simpa using hother held hmem
      rw [List.map_cons, if_pos heq, map_of_ne hother, List.filter_cons_of_neg (by simpa using heq), hfilter]
    · have hfind : rest.find? (fun held => held.holder = holder) = some held := by simpa [heq] using h
      have := (ih hrest hfind).cons first
      simpa [heq] using this.trans (List.Perm.swap _ _ _)

theorem perm_without (hnodup : (world.held.map Held.holder).Nodup) (h : world.find? holder = some held) :
    world.held.Perm (held :: (world.without holder).held) := by
  simpa [modify] using perm_modify hnodup h id

/-! ### The account of a pool -/

def objects (world : PoolWorld τ σ) : List Nat :=
  world.spare.map Object.id ++ world.held.map (fun held => held.object.id) ++ world.dropped

/-- Of the objects that have been made, some are being moved, and every other one is known to the pool in
one place. The calls of the pool that are under way have an object each. -/
structure Accounted (world : PoolWorld τ σ) (made moved : List Nat) (calls : List HolderRef) : Prop where
  room : world.spare.length ≤ world.capacity
  once : (moved ++ world.objects).Perm made
  distinct : made.Nodup
  numbered : ∀ id ∈ made, id < world.nextId
  holders : (world.held.map Held.holder).Nodup
  known : ∀ held ∈ world.held, held.holder < world.nextHolder
  busy : (world.held.flatMap Held.calls).Perm calls

namespace Accounted

theorem congr (h : world.Accounted made moved calls) (hmade : made.Perm made') :
    world.Accounted made' moved calls :=
  { h with
    once := h.once.trans hmade
    distinct := hmade.nodup h.distinct
    numbered := fun id hid => h.numbered id (hmade.symm.subset hid) }

/-- The memory may change. -/
theorem remember (h : world.Accounted made moved calls) (memory : σ) :
    ({ world with memory } : PoolWorld τ σ).Accounted made moved calls :=
  ⟨h.room, h.once, h.distinct, h.numbered, h.holders, h.known, h.busy⟩

/-- A number may be left out. -/
theorem skip (h : world.Accounted made moved calls) (memory : σ) :
    ({ world with nextId := world.nextId + 1, memory } : PoolWorld τ σ).Accounted made moved calls :=
  ⟨h.room, h.once, h.distinct, fun id hid => Nat.lt_succ_of_lt (h.numbered id hid), h.holders, h.known,
    h.busy⟩

/-- The next number is given to a new object. -/
theorem make (h : world.Accounted made moved calls) (memory : σ) :
    ({ world with nextId := world.nextId + 1, memory } : PoolWorld τ σ).Accounted
      (world.nextId :: made) (world.nextId :: moved) calls := by
  refine ⟨h.room, h.once.cons _, List.nodup_cons.mpr ⟨?_, h.distinct⟩, ?_, h.holders, h.known, h.busy⟩
  · intro hmem
    exact Nat.lt_irrefl _ (h.numbered _ hmem)
  · intro id hid
    rcases List.mem_cons.mp hid with rfl | hid
    · exact Nat.lt_succ_self _
    · exact Nat.lt_succ_of_lt (h.numbered id hid)

theorem pop (h : world.Accounted made moved calls) {spare : List (Object τ)}
    (hspare : world.spare = object :: spare) :
    ({ world with spare } : PoolWorld τ σ).Accounted made (object.id :: moved) calls := by
  have hroom := h.room
  have honce := h.once
  rw [hspare, List.length_cons] at hroom
  refine ⟨Nat.le_of_succ_le hroom, ?_, h.distinct, h.numbered, h.holders, h.known, h.busy⟩
  simp only [objects, hspare, List.map_cons, List.cons_append] at honce ⊢
  exact List.perm_middle.symm.trans honce

theorem push (h : world.Accounted made (object.id :: moved) calls)
    (hroom : world.spare.length < world.capacity) :
    ({ world with spare := object :: world.spare } : PoolWorld τ σ).Accounted made moved calls := by
  refine ⟨hroom, ?_, h.distinct, h.numbered, h.holders, h.known, h.busy⟩
  have honce := h.once
  simp only [objects, List.map_cons, List.cons_append] at honce ⊢
  exact List.perm_middle.trans honce

theorem hand (h : world.Accounted made (object.id :: moved) calls) (grip : Grip) :
    (world.hand object grip).2.Accounted made moved
      ((⟨world.nextHolder, grip, object⟩ : Held τ).calls ++ calls) := by
  refine ⟨h.room, ?_, h.distinct, h.numbered, List.nodup_cons.mpr ⟨?_, h.holders⟩, ?_,
    h.busy.append_left _⟩
  · refine List.Perm.trans ?_ h.once
    rw [List.perm_iff_count]
    intro id
    simp only [PoolWorld.hand, objects, List.map_cons, List.count_append, List.count_cons]
    omega
  · intro hmem
    obtain ⟨held, hheld, heq⟩ := List.mem_map.mp hmem
    exact Nat.ne_of_lt (h.known held hheld) heq
  · intro held hmem
    rcases List.mem_cons.mp hmem with rfl | hmem
    · exact Nat.lt_succ_self _
    · exact Nat.lt_succ_of_lt (h.known held hmem)

theorem discard (h : world.Accounted made (object.id :: moved) calls) (recipe : Recipe τ σ) :
    (world.discard recipe object).Accounted made moved calls := by
  refine ⟨h.room, ?_, h.distinct, h.numbered, h.holders, h.known, h.busy⟩
  refine List.Perm.trans ?_ h.once
  rw [List.perm_iff_count]
  intro id
  simp only [PoolWorld.discard, objects, List.count_append, List.count_cons]
  omega

theorem store (h : world.Accounted made (object.id :: moved) calls) (recipe : Recipe τ σ) :
    (world.store recipe object).Accounted made moved calls := by
  by_cases hroom : world.spare.length < world.capacity
  · rw [PoolWorld.store, if_pos hroom]
    exact h.push hroom
  · rw [PoolWorld.store, if_neg hroom]
    exact h.discard recipe

/-- What a holder has changes, and with it whether a call has it. -/
theorem modify (h : world.Accounted made moved calls) (hkeeps : Keeps change)
    (hfind : world.find? holder = some held) (hcalls : calls.Perm (held.calls ++ others)) :
    (world.modify holder change).Accounted made moved ((change held).calls ++ others) := by
  have hheld : (world.modify holder change).held =
      world.held.map fun held => if held.holder = holder then change held else held := rfl
  have hsame : (world.modify holder change).held.map (fun held => held.object.id) =
      world.held.map fun held => held.object.id := by
    rw [hheld, List.map_map]
    refine List.map_congr_left ?_
    intro held _
    by_cases heq : held.holder = holder <;> simp [heq, hkeeps.id]
  have hholders : (world.modify holder change).held.map Held.holder = world.held.map Held.holder := by
    rw [hheld, List.map_map]
    refine List.map_congr_left ?_
    intro held _
    by_cases heq : held.holder = holder
    · simpa [heq] using hkeeps.holder held
    · simp [heq]
  have hrest : ((world.without holder).held.flatMap Held.calls).Perm others :=
    (List.perm_append_left_iff held.calls).mp
      ((((perm_without h.holders hfind).flatMap_right Held.calls).symm.trans h.busy).trans hcalls)
  refine ⟨h.room, ?_, h.distinct, h.numbered, hholders.symm ▸ h.holders, ?_, ?_⟩
  · have honce := h.once
    rw [objects] at honce ⊢
    rwa [hsame]
  · intro held' hmem
    obtain ⟨old, hold, heq⟩ := List.mem_map.mp (hholders ▸ List.mem_map_of_mem hmem)
    exact heq ▸ h.known old hold
  · exact ((perm_modify h.holders hfind change).flatMap_right Held.calls).trans (hrest.append_left _)

/-- What a holder has changes, but not whether a call has it. -/
theorem keep (h : world.Accounted made moved calls) (hkeeps : Keeps change)
    (hcalls : ∀ held, world.find? holder = some held → (change held).calls = held.calls) :
    (world.modify holder change).Accounted made moved calls := by
  cases hfind : world.find? holder with
  | none => rwa [modify_of_none hfind]
  | some held =>
    have hperm := h.busy.symm.trans ((perm_without h.holders hfind).flatMap_right Held.calls)
    have hmodify := h.modify hkeeps hfind hperm
    rw [hcalls held hfind] at hmodify
    exact { hmodify with busy := hmodify.busy.trans hperm.symm }

/-- The object of a holder is taken out of its hands. -/
theorem without (h : world.Accounted made moved calls) (hfind : world.find? holder = some held)
    (hcalls : calls.Perm (held.calls ++ others)) :
    (world.without holder).Accounted made (held.object.id :: moved) others := by
  have hperm := perm_without h.holders hfind
  refine ⟨h.room, ?_, h.distinct, h.numbered, ?_, ?_, ?_⟩
  · refine List.Perm.trans ?_ h.once
    have hids := hperm.map fun held => held.object.id
    rw [List.perm_iff_count] at hids ⊢
    intro id
    have hid := hids id
    simp only [PoolWorld.without, objects, List.map_cons, List.count_append, List.count_cons] at hid ⊢
    omega
  · exact h.holders.sublist (List.filter_sublist.map _)
  · intro held hmem
    exact h.known held (List.mem_of_mem_filter hmem)
  · exact (List.perm_append_left_iff held.calls).mp
      (((hperm.flatMap_right Held.calls).symm.trans h.busy).trans hcalls)

/-- The object of a holder is dropped. -/
theorem discardFrom (h : world.Accounted made moved calls) (hfind : world.find? holder = some held)
    (hcalls : calls.Perm (held.calls ++ others)) (recipe : Recipe τ σ) :
    (world.discardFrom recipe holder).Accounted made moved others := by
  rw [discardFrom_of_find? hfind]
  exact (h.without hfind hcalls).discard recipe

/-! ### Holders and calls -/

theorem find?_of_mem (h : world.Accounted made moved calls) (hmem : held ∈ world.held) :
    world.find? held.holder = some held := by
  cases hfind : world.find? held.holder with
  | none => simpa using List.find?_eq_none.mp hfind held hmem
  | some first =>
    rw [List.inj_on_of_nodup_map h.holders (mem_of_find? hfind) hmem (holder_of_find? hfind)]

/-- A call that is under way has an object. -/
theorem find?_of_calls (h : world.Accounted made moved calls) (hmem : holder ∈ calls) :
    ∃ held, world.find? holder = some held ∧ held.grip = .inCall := by
  obtain ⟨held, hheld, hcalls⟩ := List.mem_flatMap.mp (h.busy.symm.subset hmem)
  unfold Held.calls at hcalls
  split at hcalls
  · next hgrip =>
    obtain rfl := List.mem_singleton.mp hcalls
    exact ⟨held, h.find?_of_mem hheld, hgrip⟩
  · cases hcalls

theorem find?_lt (h : world.Accounted made moved calls) (hfind : world.find? holder = some held) :
    holder < world.nextHolder :=
  holder_of_find? hfind ▸ h.known held (mem_of_find? hfind)

end Accounted

/-! ### Taking an object -/

theorem construct_ok (h : world.construct recipe = (.ok object, later)) : object.id = world.nextId ∧
    ∃ memory, later = { world with nextId := world.nextId + 1, memory } := by
  unfold construct at h
  rcases hmade : recipe.construct world.nextId world.memory with ⟨_ | content, memory⟩
  · simp [hmade] at h
  · simp only [hmade, Prod.mk.injEq, Except.ok.injEq] at h
    obtain ⟨rfl, rfl⟩ := h
    exact ⟨rfl, memory, rfl⟩

theorem construct_error (h : world.construct recipe = (.error payload, later)) :
    ∃ memory, later = { world with nextId := world.nextId + 1, memory } := by
  unfold construct at h
  rcases hmade : recipe.construct world.nextId world.memory with ⟨_ | content, memory⟩
  · simp only [hmade, Prod.mk.injEq] at h
    exact ⟨memory, h.2.symm⟩
  · simp [hmade] at h

def makes (recipe : Recipe τ σ) (world : PoolWorld τ σ) : List Nat :=
  match world.spare, (world.construct recipe).1 with
  | [], .ok object => [object.id]
  | [], .error _ | _ :: _, _ => []

/-- An object that is taken is the one stored last, or it is made. -/
theorem take_ok (h : world.take recipe = (.ok object, later)) :
    (∃ spare, world.spare = object :: spare ∧ world.makes recipe = [] ∧
      later = { world with spare }) ∨
      (world.spare = [] ∧ object.id = world.nextId ∧ world.makes recipe = [object.id] ∧
        ∃ memory, later = { world with nextId := world.nextId + 1, memory }) := by
  unfold take at h
  cases hspare : world.spare with
  | nil =>
    simp only [hspare] at h
    obtain ⟨hid, hlater⟩ := construct_ok h
    exact .inr ⟨rfl, hid, by simp [makes, hspare, h], hspare ▸ hlater⟩
  | cons first spare =>
    simp only [hspare, Prod.mk.injEq, Except.ok.injEq] at h
    obtain ⟨rfl, rfl⟩ := h
    exact .inl ⟨spare, rfl, by simp [makes, hspare], rfl⟩

theorem take_error (h : world.take recipe = (.error payload, later)) :
    world.spare = [] ∧ world.makes recipe = [] ∧
      ∃ memory, later = { world with nextId := world.nextId + 1, memory } := by
  unfold take at h
  cases hspare : world.spare with
  | nil =>
    simp only [hspare] at h
    exact ⟨rfl, by simp [makes, hspare, h], hspare ▸ construct_error h⟩
  | cons first spare => simp [hspare] at h

theorem spare_of_take_ok (h : world.take recipe = (.ok object, later)) :
    later.spare = world.spare.tail := by
  obtain ⟨spare, hspare, -, rfl⟩ | ⟨hspare, -, -, memory, rfl⟩ := take_ok h <;> simp [hspare]

theorem frame_of_take_ok (h : world.take recipe = (.ok object, later)) : later.held = world.held ∧
    later.nextHolder = world.nextHolder ∧ later.capacity = world.capacity := by
  obtain ⟨spare, -, -, rfl⟩ | ⟨-, -, -, memory, rfl⟩ := take_ok h <;> exact ⟨rfl, rfl, rfl⟩

theorem Accounted.take (h : world.Accounted made moved calls)
    (htake : world.take recipe = (.ok object, later)) :
    later.Accounted (world.makes recipe ++ made) (object.id :: moved) calls := by
  obtain ⟨spare, hspare, hmakes, rfl⟩ | ⟨-, hid, hmakes, memory, rfl⟩ := take_ok htake
  · rw [hmakes]
    exact h.pop hspare
  · rw [hmakes, hid]
    exact h.make memory

/-! ### New pools -/

theorem perm_range_succ (n : Nat) : (n :: List.range n).Perm (List.range (n + 1)) := by
  rw [List.range_succ]
  exact (List.perm_append_singleton n (List.range n)).symm

/-- The next object is put into the pool. -/
theorem Accounted.stock (h : world.Accounted (List.range world.nextId) [] calls)
    (hroom : world.spare.length < world.capacity) (hmade : world.construct recipe = (.ok object, later)) :
    ({ later with spare := object :: later.spare } : PoolWorld τ σ).Accounted
      (List.range later.nextId) [] calls := by
  obtain ⟨hid, memory, rfl⟩ := construct_ok hmade
  refine Accounted.push ?_ hroom
  rw [hid]
  exact (h.make memory).congr (perm_range_succ world.nextId)

theorem fill_ok {missing : Nat} (h : world.Accounted (List.range world.nextId) [] calls)
    (hroom : world.spare.length + missing ≤ world.capacity)
    (hfill : world.fill recipe missing = (.ok (), later)) :
    later.capacity = world.capacity ∧ later.nextId = world.nextId + missing ∧
      later.Accounted (List.range later.nextId) [] calls := by
  induction missing generalizing world with
  | zero =>
    obtain rfl : world = later := by simpa [fill] using hfill
    exact ⟨rfl, rfl, h⟩
  | succ missing ih =>
    unfold fill at hfill
    rcases hmade : world.construct recipe with ⟨_ | object, made⟩
    · simp [hmade] at hfill
    · simp only [hmade] at hfill
      have hstock := h.stock (by omega) hmade
      obtain ⟨hid, memory, rfl⟩ := construct_ok hmade
      obtain ⟨hcapacity, hnext, haccount⟩ := ih hstock (by simp only [List.length_cons]; omega) hfill
      exact ⟨hcapacity, by simp only at hnext; omega, haccount⟩

/-- All that is ready for reuse is taken out at once. -/
theorem Accounted.unload (h : world.Accounted made [] calls) :
    ({ world with spare := [] } : PoolWorld τ σ).Accounted made (world.spare.reverse.map Object.id ++ [])
      calls := by
  refine ⟨Nat.zero_le _, ?_, h.distinct, h.numbered, h.holders, h.known, h.busy⟩
  refine List.Perm.trans ?_ h.once
  simp only [objects, List.map_nil, List.nil_append, List.append_nil, List.append_assoc]
  exact ((List.reverse_perm world.spare).map Object.id).append_right _

theorem Accounted.discard_all {list : List (Object τ)} (recipe : Recipe τ σ)
    (h : world.Accounted made (list.map Object.id ++ moved) calls) :
    (list.foldl (PoolWorld.discard recipe) world).Accounted made moved calls := by
  induction list generalizing world with
  | nil => exact h
  | cons first rest ih => exact ih (h.discard recipe)

/-- Dropping objects changes nothing else. -/
theorem discard_all_eq (recipe : Recipe τ σ) (list : List (Object τ)) (world : PoolWorld τ σ) :
    (list.foldl (discard recipe) world).spare = world.spare ∧
      (list.foldl (discard recipe) world).held = world.held ∧
      (list.foldl (discard recipe) world).nextId = world.nextId := by
  induction list generalizing world with
  | nil => exact ⟨rfl, rfl, rfl⟩
  | cons first rest ih => exact ih (world.discard recipe first)

theorem fill_error {missing : Nat} (h : world.Accounted (List.range world.nextId) [] calls)
    (hroom : world.spare.length + missing ≤ world.capacity)
    (hfill : world.fill recipe missing = (.error payload, later)) :
    later.spare = [] ∧ later.held = world.held ∧
      ∃ last, later.nextId = last + 1 ∧ later.Accounted (List.range last) [] calls := by
  induction missing generalizing world with
  | zero => simp [fill] at hfill
  | succ missing ih =>
    unfold fill at hfill
    rcases hmade : world.construct recipe with ⟨_ | object, made⟩
    · simp only [hmade, Prod.mk.injEq] at hfill
      obtain ⟨-, rfl⟩ := hfill
      obtain ⟨memory, rfl⟩ := construct_error hmade
      obtain ⟨hspare, hheld, hnext⟩ := discard_all_eq recipe world.spare.reverse
        { world with nextId := world.nextId + 1, memory, spare := [] }
      exact ⟨hspare, hheld, world.nextId, hnext, (h.skip memory).unload.discard_all recipe⟩
    · simp only [hmade] at hfill
      have hstock := h.stock (by omega) hmade
      obtain ⟨hid, memory, rfl⟩ := construct_ok hmade
      obtain ⟨hspare, hheld, hlast⟩ := ih hstock (by simp only [List.length_cons]; omega) hfill
      exact ⟨hspare, hheld, hlast⟩

/-- A pool before it is filled. -/
theorem accounted_empty (capacity : Nat) (memory : σ) :
    ({ capacity, spare := [], held := [], nextId := 0, nextHolder := 0, dropped := [], memory } :
      PoolWorld τ σ).Accounted (List.range 0) [] [] :=
  ⟨Nat.zero_le _, .nil, .nil, by simp, .nil, by simp, .nil⟩

/-- All the objects that a new pool has room for have been made. -/
theorem start_ok {capacity : Nat} {memory : σ} (h : start recipe capacity memory = (.ok (), world)) :
    world.capacity = capacity ∧ world.Accounted (List.range capacity) [] [] := by
  unfold start at h
  split at h
  · simp at h
  · obtain ⟨hcapacity, hnext, haccount⟩ :=
      fill_ok (accounted_empty capacity memory) (Nat.le_of_eq (Nat.zero_add capacity)) h
    rw [hnext, Nat.zero_add] at haccount
    exact ⟨hcapacity, haccount⟩

/-- A pool that could not be opened: the constructor panicked, and the objects made before have been
dropped. -/
structure Abandoned (world : PoolWorld τ σ) : Prop where
  spare : world.spare = []
  held : world.held = []
  dropped : ∃ last, world.nextId = last + 1 ∧ world.dropped.Perm (List.range last)

theorem start_error {capacity : Nat} {memory : σ} (hroom : 0 < capacity)
    (h : start recipe capacity memory = (.error payload, world)) : world.Abandoned := by
  unfold start at h
  rw [if_neg (Nat.pos_iff_ne_zero.mp hroom)] at h
  obtain ⟨hspare, hheld, last, hnext, haccount⟩ :=
    fill_error (accounted_empty capacity memory) (Nat.le_of_eq (Nat.zero_add capacity)) h
  refine ⟨hspare, hheld, last, hnext, ?_⟩
  simpa [objects, hspare, hheld] using haccount.once

end PoolWorld

end Dispatch
