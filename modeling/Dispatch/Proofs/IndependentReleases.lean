import Dispatch.Proofs.Backlog
import Dispatch.Proofs.Exclusion
import Dispatch.Proofs.QueueEquivalence
import Dispatch.Proofs.Requeueing
import Dispatch.Proofs.Rollback
import Mathlib.Tactic.IntervalCases

/-!
# Releases of independent claims commute

Two open claims have neither a token nor a list in common, so the release of the one leaves the tokens, the
list and the waiters of the other as they are. The order of two releases is therefore seen in one place only:
where waiters of both go to the same level, those of the claim that is released first stand in front. The
table, the map of the queue and the counters are the same (`releases_commute`).
-/

namespace Dispatch

variable {σ : Type}

/-! ### Tokens that leave the table -/

namespace HolderTable

variable {table : HolderTable} {lists : List ListIndex} {tokens : List Token} {list : ListIndex}

/-- Tokens may be taken out in any order. -/
instance : RightCommutative fun (table : HolderTable) (token : Token) => (table.remove token).2 where
  right_comm table first second := by
    show HolderTable.mk ((table.holders.remove first).2.remove second).2 =
      HolderTable.mk ((table.holders.remove second).2.remove first).2
    rw [ShardMap.remove_snd, ShardMap.remove_snd, ShardMap.remove_snd, ShardMap.remove_snd,
      ShardMap.modifyShard_comm _ _ _ (Entries.erase_comm first second)]

theorem takeAfter_of_ok (ok : (takeAfter lists table tokens).outcome = .ok ()) :
    (takeAfter lists table tokens).table = tokens.foldl (fun table token => (table.remove token).2)
      table := by
  induction tokens generalizing lists table with
  | nil => rfl
  | cons token rest ih =>
    rw [takeAfter] at ok ⊢
    rw [List.foldl_cons]
    generalize table.remove token = removed at ok ⊢
    obtain ⟨found, table'⟩ := removed
    cases found with
    | none => cases ok
    | some list =>
      dsimp only at ok ⊢
      split at ok
      · next hmet =>
        rw [if_pos hmet]
        exact ih ok
      · next hmet =>
        rw [if_neg hmet]
        split at ok
        · next hfirst =>
          rw [if_pos hfirst]
          exact ih ok
        · cases ok

end HolderTable

namespace Engine

variable {engine : Engine} {task other : TaskIndex} {list list' : ListIndex}

def waitersOf (engine : Engine) (task : TaskIndex) : List TaskIndex :=
  (engine.table.listsOf (Token.distinct (engine.tokens task))).flatMap fun list =>
    (engine.lists.get list).waiters

namespace HeldWith

theorem waitersOf_eq (held : engine.HeldWith task list) :
    engine.waitersOf task = (engine.lists.get list).waiters := by
  have hlists : engine.table.listsOf (Token.distinct (engine.tokens task)) = [list] := by
    have hheld : ∀ token ∈ Token.distinct (engine.tokens task),
        engine.table.holder? token = some list :=
      fun token hmem => held.holder? token (Token.mem_distinct.mp hmem)
    cases htokens : Token.distinct (engine.tokens task) with
    | nil =>
      obtain ⟨token, hmem⟩ := List.exists_mem_of_ne_nil _ held.tokens
      rw [← Token.mem_distinct, htokens] at hmem
      cases hmem
    | cons first rest =>
      rw [htokens, List.forall_mem_cons] at hheld
      have hstray : ∀ other ∈ (none : Option Token), engine.table.holder? other ≠ some list :=
        fun _ hmem => nomatch hmem
      have happend := HolderTable.listsOf_append hheld.1 hheld.2 hstray
      rwa [Option.toList_none, List.append_nil] at happend
  rw [waitersOf, hlists, List.flatMap_singleton]

theorem take_ok (held : engine.HeldWith task list) :
    (engine.table.take (Token.distinct (engine.tokens task))).outcome = .ok () :=
  (HolderTable.take_of_held (Token.nodup_distinct (engine.tokens task))
    fun token hmem => held.holder? token (Token.mem_distinct.mp hmem)).1

theorem vacated (held : engine.HeldWith task list) (held' : engine.HeldWith other list')
    (apart : list' ≠ list) (handle : Option HandleIndex) :
    (engine.vacated task handle list).HeldWith other list' where
  tokens := held'.tokens
  holder? token hmem := by
    have hafter := (HolderTable.take_of_held (Token.nodup_distinct (engine.tokens task))
      fun token hmem => held.holder? token (Token.mem_distinct.mp hmem)).2.2 token
    refine hafter.trans ?_
    rw [if_neg, held'.holder? token hmem]
    intro hown
    have hlist := held.holder? token (Token.mem_distinct.mp hown)
    rw [held'.holder? token hmem] at hlist
    exact apart (Option.some.inj hlist)

/-- It does not matter for the table which of two tasks gives its tokens back first. -/
theorem table_comm (held : engine.HeldWith task list) (held' : engine.HeldWith other list')
    (apart : list ≠ list') (handle handle' : Option HandleIndex) :
    ((engine.vacated task handle list).vacated other handle' list').table =
      ((engine.vacated other handle' list').vacated task handle list).table := by
  have hfirst := HolderTable.takeAfter_of_ok held.take_ok
  have hsecond := HolderTable.takeAfter_of_ok held'.take_ok
  have hthen := HolderTable.takeAfter_of_ok (held.vacated held' apart.symm handle).take_ok
  have hthen' := HolderTable.takeAfter_of_ok (held'.vacated held apart handle').take_ok
  refine hthen.trans (Eq.trans ?_ hthen'.symm)
  show List.foldl _ (engine.table.take _).table _ = List.foldl _ (engine.table.take _).table _
  rw [HolderTable.take, hfirst, HolderTable.take, hsecond, ← List.foldl_append, ← List.foldl_append]
  exact List.perm_append_comm.foldl_eq engine.table

end HeldWith

end Engine

/-! ### Queues with the same elements -/

namespace PriorityQueue

variable {α : Type} [BEq α] [Hashable α] {queue other : PriorityQueue α}

theorem Sound.levels_eq (sound : queue.Sound) (sound' : other.Sound)
    (hsize : queue.levels.size = other.levels.size) (h : queue.elementsAt = other.elementsAt) :
    queue.levels = other.levels := by
  refine Array.ext hsize fun level hlt hlt' => ?_
  have hfound : queue.levels[level]? = some queue.levels[level] := Array.getElem?_eq_getElem hlt
  have hfound' : other.levels[level]? = some other.levels[level] := Array.getElem?_eq_getElem hlt'
  have hocc := sound.occupancy _ (Array.getElem_mem hlt)
  have hocc' := sound'.occupancy _ (Array.getElem_mem hlt')
  have helements := congrFun h level
  rw [elementsAt_of_getElem? hfound, elementsAt_of_getElem? hfound'] at helements
  generalize queue.levels[level] = found at hocc helements
  generalize other.levels[level] = found' at hocc' helements
  obtain ⟨elements, occupancy⟩ := found
  obtain ⟨elements', occupancy'⟩ := found'
  dsimp only at hocc hocc' helements
  rw [hocc, hocc', helements]

end PriorityQueue

/-! ### Two releases -/

namespace World

variable {world later : World σ} {own other : HandleIndex} {first second : TaskIndex}
  {list list' : ListIndex}

theorem lists_givenBack (ne : list' ≠ list) (queue : PriorityQueue TaskIndex) :
    (world.givenBack own first list queue).engine.lists.get list' = world.engine.lists.get list' :=
  (WaitingLists.get_free world.engine.lists list list').trans (if_neg ne)

/-- A release through the one handle and then one through the other both come back without having rejected a
waiter. This is the world they leave. -/
def GivesBackBoth (world : World σ) (own other : HandleIndex) (later : World σ) : Prop :=
  ∃ middle, world.GivesBack own middle ∧ middle.GivesBack other later

theorem handle_ne (ne : first ≠ second) (handle : world.handles[own]? = some { task := first })
    (handle' : world.handles[other]? = some { task := second }) : own ≠ other := by
  rintro rfl
  rw [handle] at handle'
  cases handle'
  exact ne rfl

/-- Two releases for different claims come back exactly if the waiters of the first and then those of the
second can be queued. -/
theorem givesBackBoth_iff (held : world.engine.HeldWith first list)
    (held' : world.engine.HeldWith second list') (apart : list ≠ list')
    (handle : world.handles[own]? = some { task := first })
    (handle' : world.handles[other]? = some { task := second }) :
    world.GivesBackBoth own other later ↔ ∃ middle queue,
      world.engine.queue.enqueueAll world.engine.priority (world.engine.lists.get list).waiters =
        some middle ∧
      middle.enqueueAll world.engine.priority (world.engine.lists.get list').waiters = some queue ∧
      later = (world.givenBack own first list middle).givenBack other second list' queue := by
  have hne : own ≠ other := by
    refine handle_ne ?_ handle handle'
    rintro rfl
    obtain ⟨token, hmem⟩ := List.exists_mem_of_ne_nil _ held.tokens
    have hlist := held.holder? token hmem
    rw [held'.holder? token hmem] at hlist
    exact apart (Option.some.inj hlist).symm
  have hthen (middle : PriorityQueue TaskIndex) :
      (world.givenBack own first list middle).GivesBack other later ↔ ∃ queue,
        middle.enqueueAll world.engine.priority (world.engine.lists.get list').waiters = some queue ∧
        later = (world.givenBack own first list middle).givenBack other second list' queue := by
    have hheld : (world.givenBack own first list middle).engine.HeldWith second list' :=
      ⟨held'.tokens, (held.vacated held' apart.symm (some own)).holder?⟩
    have hhandle : (world.givenBack own first list middle).handles[other]? =
        some { task := second } :=
      (Array.getElem?_setIfInBounds_ne hne).trans handle'
    rw [givesBack_iff hheld hhandle, lists_givenBack apart.symm]
    rfl
  constructor
  · rintro ⟨world', hgives, hgives'⟩
    obtain ⟨middle, hmiddle, rfl⟩ := (givesBack_iff held handle).mp hgives
    obtain ⟨queue, hqueue, rfl⟩ := (hthen middle).mp hgives'
    exact ⟨middle, queue, hmiddle, hqueue, rfl⟩
  · rintro ⟨middle, queue, hmiddle, hqueue, hlater⟩
    exact ⟨_, (givesBack_iff held handle).mpr ⟨middle, hmiddle, rfl⟩,
      (hthen middle).mpr ⟨queue, hqueue, hlater⟩⟩

/-- Two releases for different claims come back exactly if there is room for the waiters of both. -/
theorem exists_givesBackBoth_iff (held : world.engine.HeldWith first list)
    (held' : world.engine.HeldWith second list') (apart : list ≠ list')
    (handle : world.handles[own]? = some { task := first })
    (handle' : world.handles[other]? = some { task := second }) :
    (∃ later, world.GivesBackBoth own other later) ↔
      world.engine.HasRoomFor (world.engine.waitersOf first ++ world.engine.waitersOf second) := by
  have hboth (later : World σ) : world.GivesBackBoth own other later ↔ _ :=
    givesBackBoth_iff held held' apart handle handle'
  rw [held.waitersOf_eq, held'.waitersOf_eq, ← Engine.exists_enqueueAll_iff,
    PriorityQueue.enqueueAll_append]
  constructor
  · rintro ⟨later, hlater⟩
    obtain ⟨middle, queue, hmiddle, hqueue, -⟩ := (hboth later).mp hlater
    exact ⟨queue, Option.bind_eq_some_iff.mpr ⟨middle, hmiddle, hqueue⟩⟩
  · rintro ⟨queue, hqueue⟩
    obtain ⟨middle, hmiddle, hqueue⟩ := Option.bind_eq_some_iff.mp hqueue
    exact ⟨_, (hboth _).mpr ⟨middle, queue, hmiddle, hqueue, rfl⟩⟩

/-- Two releases leave the same world in either order, the queue and what was told excepted. -/
theorem givenBack_comm (held : world.engine.HeldWith first list)
    (held' : world.engine.HeldWith second list') (apart : list ≠ list') (ne : own ≠ other)
    (middle queue middle' queue' : PriorityQueue TaskIndex) :
    let one := (world.givenBack own first list middle).givenBack other second list' queue
    let two := (world.givenBack other second list' middle').givenBack own first list queue'
    two = { one with engine :=
      { one.engine with queue := two.engine.queue, chronicle := two.engine.chronicle } } := by
  intro one two
  have htable : two.engine.table = one.engine.table :=
    (held.table_comm held' apart (some own) (some other)).symm
  have hhandles : two.handles = one.handles := Array.setIfInBounds_comm _ _ ne.symm
  have hlists : two.engine.lists = one.engine.lists :=
    congrArg WaitingLists.mk (Array.setIfInBounds_comm _ _ apart.symm)
  have hstats : two.engine.stats = one.engine.stats := by
    show Stats.countRequeue^[((world.givenBack other second list' middle').engine.lists.get
        list).waiters.length] (Stats.countRequeue^[_] world.engine.stats) =
      Stats.countRequeue^[((world.givenBack own first list middle).engine.lists.get
        list').waiters.length] (Stats.countRequeue^[_] world.engine.stats)
    rw [lists_givenBack apart.symm, lists_givenBack apart]
    exact ((Function.Commute.refl Stats.countRequeue).iterate_iterate _ _).eq world.engine.stats
  calc two = { one with
        handles := two.handles
        engine := { one.engine with
          queue := two.engine.queue
          table := two.engine.table
          lists := two.engine.lists
          stats := two.engine.stats
          chronicle := two.engine.chronicle } } := rfl
    _ = _ := by rw [htable, hhandles, hlists, hstats]

/-- Two worlds that differ by the order in which two claims were given back, `first` and `second` being the
tasks that waited for them. -/
structure Swapped (world : World σ) (first second : List TaskIndex) (one two : World σ) : Prop where
  /-- The table, the lists, the counters and all else are the same, but for the queue and what was told. -/
  rest : two = { one with engine :=
    { one.engine with queue := two.engine.queue, chronicle := two.engine.chronicle } }
  levelOf : ∀ task, two.engine.queue.levelOf.get? task = one.engine.queue.levelOf.get? task
  size : two.engine.queue.size = one.engine.queue.size
  /-- At every level those that were queued before stand in front, as they did. -/
  elementsAt : ∀ level, one.engine.queue.elementsAt level =
    world.engine.queue.elementsAt level ++ (first.filter (world.engine.priority · = level) ++
      second.filter (world.engine.priority · = level))
  elementsAt' : ∀ level, two.engine.queue.elementsAt level =
    world.engine.queue.elementsAt level ++ (second.filter (world.engine.priority · = level) ++
      first.filter (world.engine.priority · = level))
  /-- If no level gets waiters of both, the queues are the same. -/
  queue : (∀ task ∈ first, ∀ other ∈ second,
      world.engine.priority task ≠ world.engine.priority other) →
    two.engine.queue.levels = one.engine.queue.levels ∧
      two.engine.queue.Indistinguishable one.engine.queue

theorem swapped (tallied : world.engine.queue.Tallied) (held : world.engine.HeldWith first list)
    (held' : world.engine.HeldWith second list') (apart : list ≠ list') (ne : own ≠ other)
    {middle queue middle' queue' : PriorityQueue TaskIndex}
    (hmiddle : world.engine.queue.enqueueAll world.engine.priority
      (world.engine.lists.get list).waiters = some middle)
    (hqueue : middle.enqueueAll world.engine.priority
      (world.engine.lists.get list').waiters = some queue)
    (hmiddle' : world.engine.queue.enqueueAll world.engine.priority
      (world.engine.lists.get list').waiters = some middle')
    (hqueue' : middle'.enqueueAll world.engine.priority
      (world.engine.lists.get list).waiters = some queue') :
    world.Swapped (world.engine.lists.get list).waiters (world.engine.lists.get list').waiters
      ((world.givenBack own first list middle).givenBack other second list' queue)
      ((world.givenBack other second list' middle').givenBack own first list queue') := by
  obtain ⟨htallied, hsize, helements⟩ := tallied.enqueueAll hmiddle
  obtain ⟨hone, hsizeOne, helementsOne⟩ := htallied.enqueueAll hqueue
  obtain ⟨htallied', hsize', helements'⟩ := tallied.enqueueAll hmiddle'
  obtain ⟨htwo, hsizeTwo, helementsTwo⟩ := htallied'.enqueueAll hqueue'
  simp only [helements, List.append_assoc] at helementsOne
  simp only [helements', List.append_assoc] at helementsTwo
  have hlevels : queue'.levels.size = queue.levels.size := by omega
  refine ⟨givenBack_comm held held' apart ne middle queue middle' queue', fun task => ?_, ?_,
    helementsOne, helementsTwo, fun hpriorities => ?_⟩
  · refine Option.ext fun level => ?_
    show queue'.levelOf.get? task = some level ↔ queue.levelOf.get? task = some level
    rw [htwo.sound.levelOf, hone.sound.levelOf, helementsOne, helementsTwo]
    simp only [List.contains_append]
    rw [Bool.or_comm (List.contains (List.filter _ (world.engine.lists.get list').waiters) task)]
  · show queue'.size = queue.size
    rw [htwo.size, hone.size, hlevels]
    refine Finset.sum_congr rfl fun level _ => ?_
    rw [helementsOne, helementsTwo, List.length_append, List.length_append, List.length_append,
      List.length_append]
    omega
  · have helements : queue'.elementsAt = queue.elementsAt := by
      funext level
      rw [helementsOne, helementsTwo]
      congr 1
      -- one of the two claims has no waiters for the level
      by_cases hnone : (world.engine.lists.get list).waiters.filter
          (world.engine.priority · = level) = []
      · rw [hnone, List.append_nil, List.nil_append]
      · obtain ⟨task, hmem⟩ := List.exists_mem_of_ne_nil _ hnone
        obtain ⟨hwaiter, hlevel⟩ := List.mem_filter.mp hmem
        have hnone' : (world.engine.lists.get list').waiters.filter
            (world.engine.priority · = level) = [] := by
          refine List.filter_eq_nil_iff.mpr fun other hother heq => ?_
          apply hpriorities task hwaiter other hother
          rw [of_decide_eq_true hlevel, of_decide_eq_true heq]
        rw [hnone', List.append_nil, List.nil_append]
    have hsame := htwo.sound.levels_eq hone.sound hlevels helements
    exact ⟨hsame, PriorityQueue.indistinguishable_of_levels htwo hone hsame⟩

end World

theorem Engine.Exclusive.heldWith {engine : Engine} {claims : List TaskIndex} {task : TaskIndex}
    (h : engine.Exclusive claims) (hclaim : task ∈ claims) (tokens : engine.tokens task ≠ []) :
    ∃ list, engine.HeldWith task list := by
  obtain ⟨list, -, hown⟩ := h.shared task hclaim tokens
  exact ⟨list, tokens, hown⟩

theorem Engine.Exclusive.apart_of_ne {engine : Engine} {claims : List TaskIndex}
    {first second : TaskIndex} {list list' : ListIndex} (h : engine.Exclusive claims)
    (hfirst : first ∈ claims) (hsecond : second ∈ claims) (ne : first ≠ second)
    (held : engine.HeldWith first list) (held' : engine.HeldWith second list') : list ≠ list' := by
  rintro rfl
  obtain ⟨token, hmem⟩ := List.exists_mem_of_ne_nil _ held.tokens
  obtain ⟨token', hmem'⟩ := List.exists_mem_of_ne_nil _ held'.tokens
  have hsymmetric : Std.Symm fun first second => ∀ token ∈ engine.tokens first,
      ∀ other ∈ engine.tokens second, engine.table.holder? token ≠ engine.table.holder? other :=
    ⟨fun _ _ hapart token htoken other hother heq => hapart other hother token htoken heq.symm⟩
  apply h.apart.forall hfirst hsecond ne token hmem token' hmem'
  rw [held.holder? token hmem, held'.holder? token' hmem']

/-- A world with two levels and two tokens, each needed by a task and by those that will wait for it. The last
task needs none. -/
def World.parties : World Unit :=
  let task (priority : Nat) (tokens : List Token) : Task := { kind := .repeatable, priority, tokens }
  let code : Code Unit := { work := .repeatable (.stop .normal) }
  let queue : PriorityQueue TaskIndex := ⟨Array.replicate 2 .empty, .empty⟩
  let engine := (Engine.idle { levels := 2 } queue).record (.started 1 2)
  let world := World.ofEngine engine ()
  let world := (world.addTask (task 0 [.unique 0]) code).2
  let world := (world.addTask (task 0 [.unique 1]) code).2
  let world := (world.addTask (task 0 [.unique 0]) code).2
  let world := (world.addTask (task 0 [.unique 1]) code).2
  let world := (world.addTask (task 1 [.unique 0]) code).2
  (world.addTask (task 0 []) code).2

theorem World.fresh_parties : World.parties.Fresh :=
  .addTask (.addTask (.addTask (.addTask (.addTask (.addTask
    (@World.Fresh.start _ { levels := 2 } _ () rfl) _ _) _ _) _ _) _ _) _ _) _ _

/-- Both tokens are claimed and the other tasks wait, but for the last one, which is queued. There is a handle
for each of the two claims. -/
def Moment.parties : Moment Unit :=
  ⟨.parties, .ofScript none (.schedule 0 fun _ => .schedule 1 fun _ => .schedule 2 fun _ =>
    .schedule 3 fun _ => .schedule 4 fun _ => .poll fun _ => .poll fun _ => .poll fun _ =>
    .schedule 5 fun _ => .withHandle 0 (.withHandle 1 (.stop .normal) fun _ => .stop .normal) fun _ =>
    .stop .normal)⟩

theorem Contract.parties : ∀ k < 11, Contract (Moment.parties.after k) := by
  have htasks : ∀ k < 11, (Moment.parties.after k).next.engine.tasks =
      (Moment.parties.after k).engine.tasks := by
    decide +kernel
  have hreleases : ∀ k < 11,
      onlyClaimsReleased (Moment.parties.after k).next.engine.chronicle = true := by
    decide +kernel
  intro k hk
  refine ⟨Engine.tokens_congr (htasks k hk), ?_, hreleases k hk⟩
  interval_cases k <;> exact id

theorem Reached.parties : Reached Contract (Moment.parties.after 11) :=
  (Reached.begin World.fresh_parties _ _).steps Contract.parties

/-- Two claims are open at a moment of a run that keeps the contract, and each has tokens and a handle that
has not been used. Released one after the other they reject no waiter exactly if all waiters of both could be
queued. In that case they can be released in the other order as well, and this makes no difference but for
the order in which the waiters of the one and those of the other stand at a level. -/
theorem releases_commute {moment : Moment σ} (reached : Reached Contract moment)
    {first second : TaskIndex} {own other : HandleIndex}
    (claimed : first ∈ openClaims moment.engine.chronicle)
    (claimed' : second ∈ openClaims moment.engine.chronicle) (ne : first ≠ second)
    (tokens : moment.engine.tokens first ≠ []) (tokens' : moment.engine.tokens second ≠ [])
    (handle : moment.world.handles[own]? = some { task := first })
    (handle' : moment.world.handles[other]? = some { task := second }) :
    ((∃ one, moment.world.GivesBackBoth own other one) ↔
      moment.engine.HasRoomFor (moment.engine.waitersOf first ++ moment.engine.waitersOf second)) ∧
    ∀ one, moment.world.GivesBackBoth own other one →
      ∃ two, moment.world.GivesBackBoth other own two ∧
        moment.world.Swapped (moment.engine.waitersOf first) (moment.engine.waitersOf second)
          one two := by
  have hexclusive := exclusive_of_reached reached
  obtain ⟨list, held⟩ := hexclusive.heldWith claimed tokens
  obtain ⟨list', held'⟩ := hexclusive.heldWith claimed' tokens'
  have hapart := hexclusive.apart_of_ne claimed claimed' ne held held'
  have hne := World.handle_ne ne handle handle'
  have hroom := World.exists_givesBackBoth_iff held held' hapart handle handle'
  have hroom' := World.exists_givesBackBoth_iff held' held hapart.symm handle' handle
  refine ⟨hroom, fun one hone => ?_⟩
  obtain ⟨two, htwo⟩ := hroom'.mpr ((hroom.mp ⟨one, hone⟩).perm List.perm_append_comm)
  refine ⟨two, htwo, ?_⟩
  obtain ⟨middle, queue, hmiddle, hqueue, rfl⟩ :=
    (World.givesBackBoth_iff held held' hapart handle handle').mp hone
  obtain ⟨middle', queue', hmiddle', hqueue', rfl⟩ :=
    (World.givesBackBoth_iff held' held hapart.symm handle' handle).mp htwo
  rw [held.waitersOf_eq, held'.waitersOf_eq]
  exact World.swapped reached.tallied held held' hapart hne hmiddle hqueue hmiddle' hqueue'

theorem releases_commute_parties :
    (Moment.parties.after 11).engine.waitersOf 0 = [2, 4] ∧
    (Moment.parties.after 11).engine.waitersOf 1 = [3] ∧
    ∃ one two, (Moment.parties.after 11).world.GivesBackBoth 0 1 one ∧
      (Moment.parties.after 11).world.GivesBackBoth 1 0 two ∧
      (Moment.parties.after 11).world.Swapped [2, 4] [3] one two ∧
      one.engine.queue.elementsAt 0 = [5, 2, 3] ∧ two.engine.queue.elementsAt 0 = [5, 3, 2] := by
  have hwaiters : (Moment.parties.after 11).engine.waitersOf 0 = [2, 4] := by decide +kernel
  have hwaiters' : (Moment.parties.after 11).engine.waitersOf 1 = [3] := by decide +kernel
  have hcommute := @releases_commute _ _ Reached.parties 0 1 0 1 (by decide +kernel) (by decide +kernel)
    (by decide) (by decide +kernel) (by decide +kernel) (by decide +kernel) (by decide +kernel)
  rw [hwaiters, hwaiters'] at hcommute
  obtain ⟨one, hone⟩ := hcommute.1.mpr ⟨by decide, by decide +kernel⟩
  obtain ⟨two, htwo, hswapped⟩ := hcommute.2 one hone
  refine ⟨hwaiters, hwaiters', one, two, hone, htwo, hswapped, ?_, ?_⟩
  · rw [hswapped.elementsAt]
    decide +kernel
  · rw [hswapped.elementsAt']
    decide +kernel

end Dispatch
