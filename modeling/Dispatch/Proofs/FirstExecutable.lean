import Dispatch.Proofs.Backlog

/-!
# A search hands out the first task that can run

A queued task can run if none of its tokens is held. As long as every held token is held with a list on
which tasks may still wait, a search takes the queued tasks in their order, puts each one that cannot run on
the list of its first held token, and hands out the first one that can (`poll_first_executable`). A task
that is put on a list leaves the table as it was, so that the tasks behind it are judged as before
(`Defers`).
-/

namespace Dispatch

def Poll.of (found : Option TaskIndex) (engine : Engine) : Poll :=
  match found with
  | some task => .found task engine
  | none => .exhausted engine

namespace WaitingList

def join (list : WaitingList) (tasks : List TaskIndex) : WaitingList :=
  { list with waiters := list.waiters ++ tasks }

theorem join_nil (list : WaitingList) : list.join [] = list := by
  rw [join, List.append_nil]

theorem join_join (list : WaitingList) (tasks later : List TaskIndex) :
    (list.join tasks).join later = list.join (tasks ++ later) := by
  rw [join, join, join, List.append_assoc]

end WaitingList

def Stats.contend (stats : Stats) (claims : Nat) : Stats :=
  { stats with contentions := stats.contentions + claims }

theorem Stats.contend_countContention (stats : Stats) (claims : Nat) :
    stats.countContention.contend claims = stats.contend (claims + 1) := by
  rw [contend, contend, countContention]
  simp only [Nat.add_assoc, Nat.add_comm claims]

namespace Engine

variable {engine middle after : Engine} {task : TaskIndex} {list : ListIndex}

def isExecutable (engine : Engine) (task : TaskIndex) : Bool :=
  (engine.tokens task).all fun token => !engine.table.isHeld token

/-- The list with which the first held token of a task is held. -/
def awaited? (engine : Engine) (task : TaskIndex) : Option ListIndex :=
  (engine.tokens task).findSome? engine.table.holder?

/-- Tasks may wait for every holder: no held token is held with a list that has been freed. -/
def Open (engine : Engine) : Prop :=
  ∀ token list, engine.table.holder? token = some list → (engine.lists.get list).freed = false

theorem isExecutable_eq (engine : Engine) (task : TaskIndex) :
    engine.isExecutable task = (engine.awaited? task).isNone := by
  rw [isExecutable, awaited?, Bool.eq_iff_iff, Option.isNone_iff_eq_none,
    List.findSome?_eq_none_iff, List.all_eq_true]
  refine forall₂_congr fun token _ => ?_
  rw [HolderTable.isHeld_eq, Bool.not_eq_true', Option.isSome_eq_false_iff, Option.isNone_iff_eq_none]

theorem awaited?_congr (htasks : after.tasks = engine.tasks)
    (hholder : ∀ token, after.table.holder? token = engine.table.holder? token) :
    after.awaited? = engine.awaited? := by
  funext task
  rw [awaited?, awaited?, tokens_congr htasks, funext hholder]

/-- A claim for a task fails with the list that the task awaits, and succeeds if it awaits none. -/
theorem claim_fst (engine : Engine) (task : TaskIndex) (own : ListIndex) :
    (engine.table.claim (Token.distinct (engine.tokens task)) own).1 =
      match engine.awaited? task with
      | some holder => .held holder
      | none => .acquired := by
  rw [HolderTable.claim_fst engine.table (Token.nodup_distinct _), Token.findSome?_distinct]
  rfl

/-! ### One claim -/

/-- The second engine is the first after a task has been put on a list, where it waits. -/
structure Defers (engine after : Engine) (task : TaskIndex) (list : ListIndex) : Prop where
  queue : after.queue = engine.queue
  tasks : after.tasks = engine.tasks
  holder? : ∀ token, after.table.holder? token = engine.table.holder? token
  size : engine.lists.lists.size ≤ after.lists.lists.size
  get : ∀ other < engine.lists.lists.size,
    after.lists.get other = (engine.lists.get other).join (if list = other then [task] else [])
  stats : after.stats = engine.stats.countContention

/-- The second engine is the first after all tokens of a task have been entered in the table, with a new
list on which nobody waits. -/
structure Admits (engine after : Engine) (tokens : List Token) : Prop where
  queue : after.queue = engine.queue
  tasks : after.tasks = engine.tasks
  table : ∃ fresh, engine.lists.lists.size ≤ fresh ∧
    (∀ token, after.table.holder? token =
      if token ∈ tokens then some fresh else engine.table.holder? token) ∧
    (tokens ≠ [] → after.lists.get fresh = {})
  get : ∀ other < engine.lists.lists.size, after.lists.get other = engine.lists.get other
  stats : after.stats = engine.stats

theorem Admits.nil (engine : Engine) : engine.Admits engine [] :=
  ⟨rfl, rfl, ⟨_, Nat.le_refl _, fun _ => (if_neg List.not_mem_nil).symm, fun h => absurd rfl h⟩,
    fun _ _ => rfl, rfl⟩

/-- A task none of whose tokens is held gets them all. -/
theorem claimTokens_admits (h : engine.awaited? task = none) :
    ∃ after, engine.claimTokens task = .acquired after ∧ engine.Admits after (engine.tokens task) := by
  rcases claimTokens_cases engine task with ⟨htokens, hclaim⟩ | ⟨htokens, hclaim⟩
  · rw [htokens]
    exact ⟨engine, hclaim, .nil engine⟩
  · have hfirst := claim_fst engine task engine.lists.lists.size
    rw [h] at hfirst
    generalize htable : engine.table.claim (Token.distinct (engine.tokens task)) _ = claimed at hfirst
    obtain ⟨outcome, table⟩ := claimed
    cases hfirst
    have hacquired : engine.claimTokens task = .acquired ({ engine with
        table, lists := engine.lists.make.2 }.record
          (.claimed task (Token.distinct (engine.tokens task)).length)) := by
      rw [hclaim, attempt]
      simp only [htable]
    refine ⟨_, hacquired, rfl, rfl, ⟨_, Nat.le_refl _, fun token => ?_, fun _ => ?_⟩,
      fun other hlt => ?_, rfl⟩
    · have hafter := (HolderTable.claim_acquired htable).2 token
      simp only [Token.mem_distinct] at hafter
      exact hafter
    · exact (WaitingLists.get_make engine.lists _).trans (if_pos rfl)
    · exact (WaitingLists.get_make engine.lists other).trans (if_neg (Nat.ne_of_lt hlt))

/-- A task that finds a token held waits on the list of the first one, if that list has not been freed. -/
theorem claimTokens_defers (h : engine.awaited? task = some list)
    (hfreed : (engine.lists.get list).freed = false) :
    ∃ after, engine.claimTokens task = .waiting after ∧ engine.Defers after task list := by
  have hlt : list < engine.lists.lists.size := WaitingLists.lt_of_not_freed hfreed
  rcases claimTokens_cases engine task with ⟨htokens, hclaim⟩ | ⟨htokens, hclaim⟩
  · rw [awaited?, htokens] at h
    cases h
  · have hfirst := claim_fst engine task engine.lists.lists.size
    rw [h] at hfirst
    generalize htable : engine.table.claim (Token.distinct (engine.tokens task)) _ = claimed at hfirst
    obtain ⟨outcome, table⟩ := claimed
    cases hfirst
    have hmade : engine.lists.make.2.get list = engine.lists.get list := by
      rw [WaitingLists.get_make, if_neg (Nat.ne_of_lt hlt)]
    obtain ⟨lists, hadd⟩ : ∃ lists, engine.lists.make.2.add? list task = some lists := by
      refine Option.ne_none_iff_exists'.mp fun hnone => ?_
      rw [WaitingLists.add?_eq_none, hmade, hfreed] at hnone
      cases hnone
    have hwaiting : engine.claimTokens task = .waiting ({ engine with
        table, stats := engine.stats.countContention
        lists := (lists.free engine.lists.lists.size).2 }.record (.waiting task list)) := by
      rw [hclaim, attempt]
      simp only [htable, hadd]
    refine ⟨_, hwaiting, rfl, rfl, ?_, ?_, fun other hother => ?_, rfl⟩
    · exact (HolderTable.claim_held (Token.nodup_distinct _) htable).2
    · show _ ≤ (lists.free engine.lists.lists.size).2.lists.size
      rw [WaitingLists.size_free, WaitingLists.size_add? hadd, WaitingLists.size_make]
      exact Nat.le_succ _
    · show (lists.free engine.lists.lists.size).2.get other = _
      rw [WaitingLists.get_free, if_neg (Nat.ne_of_lt hother), WaitingLists.get_add? hadd, hmade,
        WaitingLists.get_make, if_neg (Nat.ne_of_lt hother)]
      by_cases he : other = list
      · subst he
        rw [if_pos rfl, if_pos rfl, WaitingList.join, hfreed]
      · rw [if_neg he, if_neg (Ne.symm he), WaitingList.join_nil]

theorem Defers.open (defers : engine.Defers after task list) (hopen : engine.Open) : after.Open := by
  intro token other hheld
  rw [defers.holder?] at hheld
  have hfreed := hopen token other hheld
  rw [defers.get other (WaitingLists.lt_of_not_freed hfreed)]
  exact hfreed

/-! ### The whole search -/

/-- The queued tasks before the first one that can run, with their levels. -/
def passedOver (engine : Engine) : List (Nat × TaskIndex) :=
  engine.queue.places.takeWhile fun place => !engine.isExecutable place.2

def firstExecutable? (engine : Engine) : Option TaskIndex :=
  (engine.queue.places.find? fun place => engine.isExecutable place.2).map Prod.snd

def leftQueued (engine : Engine) : List (Nat × TaskIndex) :=
  (engine.queue.places.dropWhile fun place => !engine.isExecutable place.2).tail

/-- The second engine is the first after tasks have been passed over: each waits on the list of its first
held token, a task that was found has its tokens, and the others are still queued. -/
structure Searched (engine after : Engine) (passed : List TaskIndex) (found : Option TaskIndex)
    (left : List (Nat × TaskIndex)) : Prop where
  sound : after.queue.Sound
  places : after.queue.places = left
  tasks : after.tasks = engine.tasks
  get : ∀ list < engine.lists.lists.size, after.lists.get list =
    (engine.lists.get list).join (passed.filter fun task => engine.awaited? task = some list)
  table : ∃ fresh, engine.lists.lists.size ≤ fresh ∧
    (∀ token, after.table.holder? token =
      if token ∈ found.elim [] engine.tokens then some fresh else engine.table.holder? token) ∧
    (found.elim [] engine.tokens ≠ [] → after.lists.get fresh = {})
  stats : after.stats = engine.stats.contend passed.length

theorem isExecutable_congr (htasks : after.tasks = engine.tasks)
    (hholder : ∀ token, after.table.holder? token = engine.table.holder? token) :
    after.isExecutable = engine.isExecutable := by
  funext task
  rw [isExecutable_eq, isExecutable_eq, awaited?_congr htasks hholder]

/-- What a search finds behind a task that has been put on a list it finds behind that task. -/
theorem Searched.head {level : Nat} {passed : List TaskIndex} {found : Option TaskIndex}
    {left : List (Nat × TaskIndex)} {queue : PriorityQueue TaskIndex}
    (defers : (engine.serve queue task level).Defers middle task list)
    (hawaited : engine.awaited? task = some list) (searched : middle.Searched after passed found left) :
    engine.Searched after (task :: passed) found left where
  sound := searched.sound
  places := searched.places
  tasks := searched.tasks.trans defers.tasks
  get other hlt := by
    rw [searched.get other (Nat.lt_of_lt_of_le hlt defers.size),
      awaited?_congr defers.tasks defers.holder?, defers.get other hlt]
    show ((engine.lists.get other).join _).join
      (passed.filter fun task => engine.awaited? task = some other) = _
    rw [WaitingList.join_join, List.filter_cons, hawaited]
    by_cases he : list = other
    · rw [if_pos he, if_pos (by simpa using he)]
      rfl
    · rw [if_neg he, if_neg (by simpa using he)]
      rfl
  table := by
    obtain ⟨fresh, hfresh, hholder, hnew⟩ := searched.table
    rw [tokens_congr defers.tasks] at hholder hnew
    refine ⟨fresh, Nat.le_trans defers.size hfresh, fun token => ?_, hnew⟩
    rw [hholder, defers.holder?]
    rfl
  stats := by
    rw [searched.stats, defers.stats, List.length_cons]
    exact Stats.contend_countContention engine.stats passed.length

/-- A search that may take more tasks than there are hands out the first one that can run. -/
theorem pollWithin_searched (sound : engine.queue.Sound) (hopen : engine.Open) {bound : Nat}
    (h : engine.queue.queued < bound) :
    ∃ after, pollWithin bound engine = .of engine.firstExecutable? after ∧
      engine.Searched after (engine.passedOver.map Prod.snd) engine.firstExecutable?
        engine.leftQueued := by
  induction bound generalizing engine with
  | zero => exact absurd h (Nat.not_lt_zero _)
  | succ bound ih =>
    rcases sound.dequeue_places with ⟨hnone, hnil⟩ | ⟨level, task, queue, hsome, hsound, hcons⟩
    · have hpoll : pollWithin (bound + 1) engine = .exhausted engine := by
        rw [pollWithin, hnone]
      rw [firstExecutable?, passedOver, leftQueued, hnil, hpoll]
      refine ⟨engine, rfl, sound, hnil, rfl, fun list _ => (WaitingList.join_nil _).symm, ?_, rfl⟩
      exact (Admits.nil engine).table
    · rw [firstExecutable?, passedOver, leftQueued, hcons, pollWithin_of_dequeue hsome]
      cases hawaited : engine.awaited? task with
      | none =>
        have hfree : engine.isExecutable task = true := by
          rw [isExecutable_eq, hawaited]
          rfl
        obtain ⟨after, hclaim, hadmits⟩ :=
          @claimTokens_admits (engine.serve queue task level) task hawaited
        rw [hclaim, List.find?_cons_of_pos (by exact hfree), List.takeWhile_cons_of_neg (by simp [hfree]),
          List.dropWhile_cons_of_neg (by simp [hfree])]
        refine ⟨_, rfl, ?_, ?_, hadmits.tasks, fun list hlt => ?_, hadmits.table, hadmits.stats⟩
        · exact hadmits.queue ▸ hsound
        · exact congrArg PriorityQueue.places hadmits.queue
        · exact (hadmits.get list hlt).trans (WaitingList.join_nil _).symm
      | some list =>
        have hheld : engine.isExecutable task = false := by
          rw [isExecutable_eq, hawaited]
          rfl
        obtain ⟨token, -, hholder⟩ := List.exists_of_findSome?_eq_some hawaited
        obtain ⟨middle, hclaim, hdefers⟩ := @claimTokens_defers (engine.serve queue task level) task
          list hawaited (hopen token list hholder)
        have hqueue : middle.queue = queue := hdefers.queue
        have hbound : middle.queue.queued < bound := by
          rw [← PriorityQueue.length_places, hcons, List.length_cons] at h
          rw [← PriorityQueue.length_places, hqueue]
          omega
        obtain ⟨after, hpoll, hsearched⟩ := ih (hqueue ▸ hsound) (hdefers.open hopen) hbound
        have hexecutable : middle.isExecutable = engine.isExecutable :=
          isExecutable_congr hdefers.tasks hdefers.holder?
        rw [firstExecutable?, passedOver, leftQueued, hexecutable, hqueue] at hsearched
        rw [firstExecutable?, hexecutable, hqueue] at hpoll
        rw [hclaim, List.find?_cons_of_neg (by simp [hheld]), List.takeWhile_cons_of_pos (by simp [hheld]),
          List.dropWhile_cons_of_pos (by simp [hheld])]
        exact ⟨after, hpoll, hsearched.head hdefers hawaited⟩

end Engine

/-- At every moment of every run at which tasks may wait for every holder, a search hands out the first
queued task that can run, if there is one; the tasks before it wait, and those behind it stay queued. -/
theorem poll_first_executable {σ : Type} {allowed : Moment σ → Prop} {moment : Moment σ}
    (reached : Reached allowed moment) (hopen : moment.engine.Open) :
    ∃ after, moment.engine.poll = .of moment.engine.firstExecutable? after ∧
      moment.engine.Searched after (moment.engine.passedOver.map Prod.snd)
        moment.engine.firstExecutable? moment.engine.leftQueued :=
  Engine.pollWithin_searched reached.tallied.sound hopen (Nat.lt_succ_self _)

/-! ### A search -/

/-- What an entered value is found under was entered with it. -/
theorem Entries.mem_of_find? {κ ν : Type} [BEq κ] {entries : Entries κ ν} {key : κ} {value : ν}
    (h : entries.find? key = some value) : ∃ entry ∈ entries, entry.2 = value := by
  induction entries with
  | nil => cases h
  | cons entry rest ih =>
    rw [Entries.find?] at h
    split at h
    · exact ⟨entry, List.mem_cons_self, Option.some.inj h⟩
    · obtain ⟨other, hmem, hvalue⟩ := ih h
      exact ⟨other, List.mem_cons_of_mem _ hmem, hvalue⟩

theorem Engine.open_of_entries {engine : Engine}
    (h : ∀ shard ∈ engine.table.holders.shards.toList, ∀ entry ∈ shard,
      (engine.lists.get entry.2).freed = false) : engine.Open := by
  intro token list hheld
  obtain ⟨entry, hmem, rfl⟩ := Entries.mem_of_find? hheld
  exact h _ (Array.mem_toList_iff.mpr (Array.getElem_mem _)) entry hmem

/-- The rivals are scheduled, and behind them a task that needs another token, named twice; the first rival
has been found. -/
def Moment.outsider : Moment Unit :=
  let task : Task := { kind := .repeatable, priority := 0, tokens := [.unique 1, .unique 1] }
  ⟨(World.rivals.addTask task { work := .repeatable (.stop .normal) }).2, .ofScript none
    (.schedule 0 fun _ => .schedule 1 fun _ => .schedule 2 fun _ => .poll fun _ => .stop .normal)⟩

theorem Reached.outsider : Reached (fun _ => True) (Moment.outsider.after 4) :=
  (Reached.begin (.addTask World.fresh_rivals _ _) _ _).steps fun _ _ => trivial

theorem poll_first_executable_outsider :
    (Moment.outsider.after 4).engine.Open ∧
      (Moment.outsider.after 4).engine.passedOver = [(0, 1)] ∧
      ∃ after, (Moment.outsider.after 4).engine.poll = .found 2 after ∧
        after.lists.get 0 = { waiters := [1] } ∧ after.queue.places = [] := by
  have hopen : (Moment.outsider.after 4).engine.Open := Engine.open_of_entries (by decide +kernel)
  obtain ⟨after, hpoll, hsearched⟩ := poll_first_executable Reached.outsider hopen
  have hfound : (Moment.outsider.after 4).engine.firstExecutable? = some 2 := by decide +kernel
  have hpassed : (Moment.outsider.after 4).engine.passedOver = [(0, 1)] := by decide +kernel
  rw [hfound] at hpoll
  refine ⟨hopen, hpassed, after, hpoll, ?_, ?_⟩
  · rw [hsearched.get 0 (by decide +kernel), hpassed]
    decide +kernel
  · rw [hsearched.places]
    decide +kernel

end Dispatch
