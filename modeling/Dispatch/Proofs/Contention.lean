import Dispatch.Proofs.Drain

/-!
# Contenders for the same tokens

Tasks that all need the same tokens are scheduled on a fresh engine. Then somebody searches for tasks and
releases the one that was found, in any order and as often as it likes. A search while a task holds the
tokens makes all queued tasks wait for it, and its release queues them again; neither disturbs their order,
so the tasks are handed out in the order of the stable sort by priority (`contenders_served`).

At any time the tasks that are left stand in the queue or wait on the list of the holder, in that order
(`Parked`). A search parks the queued ones (`Parked.search`), a release lays them out again
(`Parked.release`), and laying out what is sorted leaves it in its order.
-/

namespace Dispatch

variable {σ : Type}

/-! ### The calls -/

namespace Contest

inductive Call where
  | search
  | release
  deriving DecidableEq

inductive Answer where
  | found (task : TaskIndex)
  | nothing
  | released (task : TaskIndex)

def Answer.found? : Answer → Option TaskIndex
  | found task => some task
  | nothing | released _ => none

def Answer.call? : Answer → Option Call
  | found _ => some .search
  | nothing => none
  | released _ => some .release

def handedOut (answers : List Answer) : List TaskIndex :=
  answers.filterMap Answer.found?

def afterCall : List TaskIndex × Option TaskIndex → Call → List TaskIndex × Option TaskIndex
  | (left, _), .release => (left, none)
  | (left, holder), .search =>
    match holder with
    | some task => (left, some task)
    | none => (left.tail, left.head?)

def rounds : Nat → List Call
  | 0 => []
  | n + 1 => .search :: .release :: rounds n

theorem afterCall_rounds {left : List TaskIndex} {n : Nat} (h : left.length ≤ n) :
    (rounds n).foldl afterCall (left, none) = ([], none) := by
  induction n generalizing left with
  | zero => rw [List.length_eq_zero_iff.mp (Nat.le_zero.mp h), rounds, List.foldl_nil]
  | succ n ih =>
    cases left with
    | nil => simpa [rounds, afterCall] using @ih [] (Nat.zero_le n)
    | cons task left => simpa [rounds, afterCall] using ih (Nat.le_of_succ_le_succ h)

/-- As many tasks are handed out as searches found one. -/
theorem length_handedOut (answers : List Answer) :
    (handedOut answers).length = (answers.filterMap Answer.call?).count .search := by
  induction answers with
  | nil => rfl
  | cons answer answers ih =>
    cases answer with
    | found task => exact (congrArg Nat.succ ih).trans List.count_cons_self.symm
    | nothing => exact ih
    | released task => exact ih.trans (List.count_cons_of_ne (by decide)).symm

end Contest

open Contest

/-- Makes calls one after the other and goes on as they were answered. Nothing is released while nothing is
held. -/
def Script.contend : List Call → Option TaskIndex → (List Answer → Script σ) → Script σ
  | [], _, next => next []
  | .search :: calls, holder, next => .poll fun
    | some task => contend calls (some task) fun answers => next (.found task :: answers)
    | none => contend calls holder fun answers => next (.nothing :: answers)
  | .release :: calls, some task, next => .releaseFor task fun _ =>
    contend calls none fun answers => next (.released task :: answers)
  | .release :: calls, none, next => contend calls none next

/-! ### Waiting for the holder -/

namespace Engine

/-- These tokens are the only held ones, all with one list, which has not been freed. Some tasks are
queued and some wait on the list. -/
structure Parked (engine : Engine) (needed : List Token) (list : ListIndex)
    (queued waiting : List TaskIndex) : Prop where
  sound : engine.queue.Sound
  inOrder : engine.queue.inOrder = queued
  holders : engine.table.holders.Sound
  holder : ∀ token, engine.table.holder? token = if token ∈ needed then some list else none
  unfreed : (engine.lists.get list).freed = false
  waiters : (engine.lists.get list).waiters = waiting

structure Alike (engine after : Engine) : Prop where
  tasks : after.tasks = engine.tasks
  levels : after.queue.levels.size = engine.queue.levels.size

theorem Alike.refl (engine : Engine) : engine.Alike engine := ⟨rfl, rfl⟩

theorem Alike.trans {engine middle after : Engine} (first : engine.Alike middle)
    (second : middle.Alike after) : engine.Alike after :=
  ⟨second.tasks.trans first.tasks, second.levels.trans first.levels⟩

variable {engine : Engine} {needed : List Token} {list : ListIndex} {task : TaskIndex}
  {queued waiting : List TaskIndex}

theorem Parked.claimTokens (h : engine.Parked needed list queued waiting)
    (hneeded : needed ≠ []) (htokens : ∀ token, token ∈ engine.tokens task ↔ token ∈ needed) :
    ∃ after, engine.claimTokens task = .waiting after ∧ engine.Alike after ∧
      after.Parked needed list queued (waiting ++ [task]) := by
  obtain ⟨token, hmem⟩ := List.exists_mem_of_ne_nil _ hneeded
  have htoken := (htokens token).mpr hmem
  rcases claimTokens_cases engine task with ⟨hnil, -⟩ | ⟨-, hclaim⟩
  · rw [hnil] at htoken
    cases htoken
  have hlt : list < engine.lists.lists.size := WaitingLists.lt_of_not_freed h.unfreed
  have hmade : engine.lists.make.2.get list = engine.lists.get list := by
    rw [WaitingLists.get_make, if_neg (Nat.ne_of_lt hlt)]
  -- whichever token is found held, it is held with the list of the holder
  have hheld {own holder : ListIndex} {table : HolderTable} (hclaim : engine.table.claim
      (Token.distinct (engine.tokens task)) own = (.held holder, table)) :
      holder = list ∧ ∀ token, table.holder? token = engine.table.holder? token := by
    obtain ⟨⟨found, hfound, hholder⟩, hsame⟩ :=
      HolderTable.claim_held (Token.nodup_distinct _) hclaim
    rw [h.holder, if_pos ((htokens found).mp (Token.mem_distinct.mp hfound))] at hholder
    exact ⟨(Option.some.inj hholder).symm, hsame⟩
  rw [hclaim]
  generalize hadmission : attempt _ task _ _ = admission
  cases admission with
  | acquired after =>
    obtain ⟨table, htable, -⟩ := attempt_acquired hadmission
    have hfree := (HolderTable.claim_acquired htable).1 token (Token.mem_distinct.mpr htoken)
    change engine.table.holder? token = none at hfree
    rw [h.holder, if_pos hmem] at hfree
    cases hfree
  | refused after own =>
    obtain ⟨-, holder, table, htable, hfreed, -⟩ := attempt_refused hadmission
    obtain ⟨rfl, -⟩ := hheld htable
    change (engine.lists.make.2.get holder).freed = true at hfreed
    rw [hmade, h.unfreed] at hfreed
    cases hfreed
  | waiting after =>
    obtain ⟨holder, table, lists, htable, hadd, rfl⟩ := attempt_waiting hadmission
    obtain ⟨rfl, hsame⟩ := hheld htable
    have hsound := HolderTable.sound_claim h.holders (Token.distinct (engine.tokens task))
      engine.lists.lists.size
    rw [htable] at hsound
    have hget : (lists.free engine.lists.lists.size).2.get holder =
        { freed := false, waiters := waiting ++ [task] } := by
      rw [WaitingLists.get_free, if_neg (Nat.ne_of_lt hlt), WaitingLists.get_add? hadd, if_pos rfl,
        hmade, h.waiters]
    refine ⟨_, rfl, ⟨rfl, rfl⟩, h.sound, h.inOrder, hsound, fun other => ?_, ?_, ?_⟩
    · exact (hsame other).trans (h.holder other)
    · exact congrArg WaitingList.freed hget
    · exact congrArg WaitingList.waiters hget

/-- A search while the tokens are held finds nothing, and all queued tasks wait for the holder. -/
theorem Parked.search (h : engine.Parked needed list queued waiting) (hneeded : needed ≠ [])
    (htokens : ∀ task ∈ queued, ∀ token, token ∈ engine.tokens task ↔ token ∈ needed) :
    ∃ after, engine.poll = .exhausted after ∧ engine.Alike after ∧
      after.Parked needed list [] (waiting ++ queued) := by
  rw [poll, PriorityQueue.queued_eq, h.inOrder]
  induction queued generalizing engine waiting with
  | nil =>
    refine ⟨engine, by rw [pollWithin, h.sound.dequeue_of_nil h.inOrder], .refl engine, ?_⟩
    rw [List.append_nil]
    exact h
  | cons task queued ih =>
    obtain ⟨level, queue, hsome, hsound, hrest⟩ := h.sound.dequeue_of_cons h.inOrder
    have hserved : (engine.serve queue task level).Parked needed list queued waiting :=
      ⟨hsound, hrest, h.holders, h.holder, h.unfreed, h.waiters⟩
    obtain ⟨middle, hclaim, halike, hparked⟩ :=
      hserved.claimTokens hneeded (htokens task List.mem_cons_self)
    have hknown : middle.tokens = engine.tokens := tokens_congr halike.tasks
    obtain ⟨after, hpoll, hsame, hall⟩ := ih hparked fun task hmem =>
      hknown ▸ htokens task (List.mem_cons_of_mem _ hmem)
    have hfirst : engine.Alike middle :=
      ⟨halike.tasks, halike.levels.trans (PriorityQueue.size_dequeue h.sound hsome)⟩
    refine ⟨after, ?_, hfirst.trans hsame, ?_⟩
    · rw [List.length_cons, pollWithin_of_dequeue hsome, hclaim]
      exact hpoll
    · rw [List.append_cons]
      exact hall

/-! ### No holder -/

structure Vacant (engine : Engine) (queued : List TaskIndex) : Prop where
  sound : engine.queue.Sound
  inOrder : engine.queue.inOrder = queued
  holders : engine.table.holders.Sound
  free : ∀ token, engine.table.holder? token = none

theorem Vacant.search (h : engine.Vacant (task :: queued)) (hneeded : needed ≠ [])
    (htokens : ∀ token, token ∈ engine.tokens task ↔ token ∈ needed) :
    ∃ after list, engine.poll = .found task after ∧ engine.Alike after ∧
      after.Parked needed list queued [] := by
  obtain ⟨level, queue, hsome, hsound, hrest⟩ := h.sound.dequeue_of_cons h.inOrder
  obtain ⟨claimed, hclaim, hentered⟩ :=
    @claimTokens_of_free (engine.serve queue task level) task h.free h.holders
  have hne : engine.tokens task ≠ [] := by
    obtain ⟨token, hmem⟩ := List.exists_mem_of_ne_nil _ hneeded
    exact List.ne_nil_of_mem ((htokens token).mpr hmem)
  have hlist : claimed.lists.get engine.lists.lists.size = {} := hentered.list hne
  have hqueue : claimed.queue = queue := hentered.queue
  refine ⟨claimed.record (.handedOut task), engine.lists.lists.size, ?_, ⟨hentered.tasks, ?_⟩, ?_⟩
  · rw [poll, pollWithin_of_dequeue hsome, hclaim]
  · show claimed.queue.levels.size = _
    rw [hqueue, PriorityQueue.size_dequeue h.sound hsome]
  · refine ⟨hqueue ▸ hsound, hqueue ▸ hrest, hentered.holders, fun token => ?_,
      congrArg WaitingList.freed hlist, congrArg WaitingList.waiters hlist⟩
    have hholder := hentered.holder token
    change _ = if token ∈ engine.tokens task then some engine.lists.lists.size else none at hholder
    simp only [htokens] at hholder
    exact hholder

theorem Vacant.search_nil (h : engine.Vacant []) : engine.poll = .exhausted engine := by
  rw [poll, pollWithin, h.sound.dequeue_of_nil h.inOrder]

theorem Parked.takeTokens (h : engine.Parked needed list queued waiting) (hneeded : needed ≠ [])
    (htokens : ∀ token, token ∈ engine.tokens task ↔ token ∈ needed) :
    engine.takeTokens task none = ([list], .ok (), (engine.takeTokens task none).2.2) ∧
      (engine.takeTokens task none).2.2.table.holders.Sound ∧
      ∀ token, (engine.takeTokens task none).2.2.table.holder? token = none := by
  have hdistinct : Token.distinct (engine.tokens task) ≠ [] := by
    obtain ⟨token, hmem⟩ := List.exists_mem_of_ne_nil _ hneeded
    exact List.ne_nil_of_mem (Token.mem_distinct.mpr ((htokens token).mpr hmem))
  obtain ⟨hok, hlists, htable⟩ := HolderTable.take_of_held
    (Token.nodup_distinct (engine.tokens task)) fun token hmem => by
      rw [h.holder, if_pos ((htokens token).mp (Token.mem_distinct.mp hmem))]
  rw [if_neg hdistinct] at hlists
  have hsound := HolderTable.sound_take h.holders (Token.distinct (engine.tokens task))
  refine ⟨?_, hsound, fun token => ?_⟩
  · have hfound : (engine.takeTokens task none).1 = [list] := hlists
    have hdone : (engine.takeTokens task none).2.1 = .ok () := hok
    exact Prod.ext hfound (Prod.ext hdone rfl)
  · show (engine.table.take (Token.distinct (engine.tokens task))).table.holder? token = _
    rw [htable, h.holder]
    simp only [Token.mem_distinct, htokens]
    split <;> rfl

end Engine

/-! ### The release -/

namespace World

variable {world : World σ} {needed : List Token} {list : ListIndex} {task : TaskIndex}
  {queued waiting laid : List TaskIndex}

/-- Waiters that are not queued yet are laid out behind those that are, one after the other. -/
theorem requeues (sound : world.engine.queue.Sound)
    (hlaid : world.engine.queue.LaidOut world.engine.priority laid)
    (hnodup : (laid ++ waiting).Nodup)
    (hlt : ∀ task ∈ waiting, world.engine.priority task < world.engine.queue.levels.size) :
    ∃ engine, world.engine.Alike engine ∧ engine.table = world.engine.table ∧
      engine.lists = world.engine.lists ∧ engine.queue.Sound ∧
      engine.queue.LaidOut world.engine.priority (laid ++ waiting) ∧
      ∀ (thread : Thread σ) (freeing : Freeing σ), Moment.Leads
        ⟨world, thread.doing (.freeing { freeing with waiters := waiting })⟩
        ⟨{ world with engine }, thread.doing (.freeing { freeing with waiters := [] })⟩ := by
  induction waiting generalizing world laid with
  | nil =>
    rw [List.append_nil]
    exact ⟨world.engine, .refl _, rfl, rfl, sound, hlaid, fun thread freeing => .refl _⟩
  | cons task waiting ih =>
    have hnew : task ∉ laid := fun hmem =>
      (List.nodup_append.mp hnodup).2.2 task hmem task List.mem_cons_self rfl
    obtain ⟨queue, hqueue, hqueued⟩ := hlaid.enqueue sound hnew (hlt task List.mem_cons_self)
    have hsize := PriorityQueue.size_enqueue hqueue
    let middle : Engine := ({ world.engine with
      queue, stats := world.engine.stats.countRequeue }.record
        (.enqueued task (world.engine.priority task))).record (.requeued task)
    have hrequeue : world.engine.requeue task = (none, middle) := by
      rw [Engine.requeue, Engine.enqueue, hqueue]
      rfl
    rw [List.append_cons] at hnodup
    obtain ⟨engine, halike, htable, hlists, hsound, hall, hleads⟩ :=
      @ih { world with engine := middle } (laid ++ [task]) (sound.enqueue hqueue) hqueued hnodup
        fun other hmem => hsize.symm ▸ hlt other (List.mem_cons_of_mem _ hmem)
    rw [← List.append_cons] at hall
    refine ⟨engine, ⟨halike.tasks, halike.levels.trans hsize⟩, htable, hlists, hsound, hall,
      fun thread freeing => ?_⟩
    have hnext : Moment.next
        ⟨world, thread.doing (.freeing { freeing with waiters := task :: waiting })⟩ =
          ⟨{ world with engine := middle },
            thread.doing (.freeing { freeing with waiters := waiting })⟩ := by
      simp only [Moment.next, Thread.step, Thread.doing, Thread.stepFreeing, hrequeue, Thread.turn]
    have hfirst := Moment.Leads.single
      ⟨world, thread.doing (.freeing { freeing with waiters := task :: waiting })⟩
    rw [hnext] at hfirst
    exact hfirst.trans (hleads thread freeing)

/-- Those that waited are laid out in the order they waited in, if that is the order of their priorities
and nobody else is queued. -/
theorem requeues_all (sound : world.engine.queue.Sound)
    (hqueued : world.engine.queue.inOrder = queued) (hplace : queued = [] ∨ waiting = [])
    (hnodup : waiting.Nodup)
    (hlt : ∀ task ∈ waiting, world.engine.priority task < world.engine.queue.levels.size)
    (hsorted : waiting.Pairwise fun first second =>
      world.engine.priority first ≤ world.engine.priority second) :
    ∃ engine, world.engine.Alike engine ∧ engine.table = world.engine.table ∧
      engine.queue.Sound ∧ engine.queue.inOrder = queued ++ waiting ∧
      ∀ (thread : Thread σ) (freeing : Freeing σ), Moment.Leads
        ⟨world, thread.doing (.freeing { freeing with waiters := waiting })⟩
        ⟨{ world with engine }, thread.doing (.freeing { freeing with waiters := [] })⟩ := by
  rcases hplace with rfl | rfl
  · have hlaid : world.engine.queue.LaidOut world.engine.priority [] := by
      refine fun level => List.eq_nil_iff_forall_not_mem.mpr fun task hmem => ?_
      have hmember := PriorityQueue.mem_inOrder.mpr ⟨level, hmem⟩
      rw [hqueued] at hmember
      cases hmember
    obtain ⟨engine, halike, htable, -, hsound, hall, hleads⟩ := requeues sound hlaid hnodup hlt
    refine ⟨engine, halike, htable, hsound, ?_, hleads⟩
    rw [hall.inOrder fun task hmem => halike.levels.symm ▸ hlt task hmem]
    exact List.mergeSort_of_pairwise (hsorted.imp fun hle => decide_eq_true hle)
  · refine ⟨world.engine, .refl _, rfl, sound, ?_, fun thread freeing => .refl _⟩
    rw [List.append_nil]
    exact hqueued

/-- A release that frees one list comes back when those that waited on it are queued again. -/
theorem release_leads {taken freed engine : Engine}
    (htaken : world.engine.takeTokens task none = ([list], .ok (), taken))
    (hfreed : taken.freeList list = (waiting, freed))
    (hleads : ∀ (thread : Thread σ) (freeing : Freeing σ), Moment.Leads
      ⟨{ world with engine := freed }, thread.doing (.freeing { freeing with waiters := waiting })⟩
      ⟨{ world with engine }, thread.doing (.freeing { freeing with waiters := [] })⟩)
    (thread : Thread σ) (next : Except Fault Unit → Script σ) : Moment.Leads
      ⟨world, thread.doing (.script none (.releaseFor task next))⟩
      ⟨{ world with engine }, thread.doing (.script none (next (.ok ())))⟩ := by
  let after : AfterRelease σ := .answer none next
  have hbegin : Moment.next ⟨world, thread.doing (.script none (.releaseFor task next))⟩ =
      ⟨{ world with engine := taken }, thread.doing (.freeing
        { task, waiters := [], lists := [list], freed := 1, outcome := .ok (), after })⟩ := by
    simp only [Moment.next, Thread.step, Thread.doing, Thread.stepScript, Thread.beginRelease, htaken,
      Thread.turn]
    rfl
  have hfreeing : Moment.next ⟨{ world with engine := taken }, thread.doing (.freeing
        { task, waiters := [], lists := [list], freed := 1, outcome := .ok (), after })⟩ =
      ⟨{ world with engine := freed }, thread.doing (.freeing
        { task, waiters := waiting, lists := [], freed := 1, outcome := .ok (), after })⟩ := by
    simp only [Moment.next, Thread.step, Thread.doing, Thread.stepFreeing, hfreed, Thread.turn]
  have hreturn : Moment.next ⟨{ world with engine }, thread.doing (.freeing
      { task, waiters := [], lists := [], freed := 1, outcome := .ok (), after })⟩ =
      ⟨{ world with engine }, thread.doing (.script none (next (.ok ())))⟩ := rfl
  have hstart := Moment.Leads.single ⟨world, thread.doing (.script none (.releaseFor task next))⟩
  rw [hbegin] at hstart
  have hmiddle := hstart.tail
  rw [hfreeing] at hmiddle
  have hend := (hmiddle.trans (hleads thread
    { task, waiters := [], lists := [], freed := 1, outcome := .ok (), after })).tail
  rw [hreturn] at hend
  exact hend

/-- The release of the holder queues those that waited for it again, and comes back. Their order is that of
their priorities, and it is kept. -/
theorem releases (h : world.engine.Parked needed list queued waiting) (hneeded : needed ≠ [])
    (htokens : ∀ token, token ∈ world.engine.tokens task ↔ token ∈ needed)
    (hplace : queued = [] ∨ waiting = []) (hnodup : waiting.Nodup)
    (hlt : ∀ task ∈ waiting, world.engine.priority task < world.engine.queue.levels.size)
    (hsorted : waiting.Pairwise fun first second =>
      world.engine.priority first ≤ world.engine.priority second) :
    ∃ engine, world.engine.Alike engine ∧ engine.Vacant (queued ++ waiting) ∧
      ∀ (thread : Thread σ) (next : Except Fault Unit → Script σ), Moment.Leads
        ⟨world, thread.doing (.script none (.releaseFor task next))⟩
        ⟨{ world with engine }, thread.doing (.script none (next (.ok ())))⟩ := by
  obtain ⟨htaken, hholders, hfree⟩ := h.takeTokens hneeded htokens
  let taken : Engine := (world.engine.takeTokens task none).2.2
  have hfreed : taken.freeList list = (waiting, (taken.freeList list).2) :=
    Prod.ext h.waiters rfl
  obtain ⟨engine, halike, hsame, hqueue, hinOrder, hleads⟩ :=
    @requeues_all σ { world with engine := (taken.freeList list).2 } queued waiting h.sound
      h.inOrder hplace hnodup hlt hsorted
  exact ⟨engine, ⟨halike.tasks, halike.levels⟩, ⟨hqueue, hinOrder, hsame ▸ hholders,
    fun token => hsame ▸ hfree token⟩, release_leads htaken hfreed hleads⟩

/-! ### The contest -/

/-- A task that needs these tokens, however often and in whatever order it names them, and whose priority is
that of a level. -/
structure Contender (world : World σ) (needed : List Token) (task : TaskIndex) : Prop where
  tokens : ∀ token, token ∈ world.engine.tokens task ↔ token ∈ needed
  priority : world.engine.priority task < world.engine.config.levels

/-- A world in which these contenders are left to be handed out, in this order, while the one that was
handed out last may still hold the tokens. -/
structure Contested (base world : World σ) (needed : List Token)
    (state : List TaskIndex × Option TaskIndex) : Prop where
  known : world.engine.tasks = base.engine.tasks
  levels : world.engine.queue.levels.size = base.engine.config.levels
  contenders : ∀ task ∈ state.2.toList ++ state.1, base.Contender needed task
  nodup : state.1.Nodup
  sorted : state.1.Pairwise fun first second =>
    base.engine.priority first ≤ base.engine.priority second
  place : match state.2 with
    | none => world.engine.Vacant state.1
    | some _ => ∃ list queued waiting, world.engine.Parked needed list queued waiting ∧
        queued ++ waiting = state.1 ∧ (queued = [] ∨ waiting = [])

variable {base : World σ} {left : List TaskIndex} {holder : Option TaskIndex}

theorem Contested.tokens (h : base.Contested world needed (left, holder))
    (hmem : task ∈ holder.toList ++ left) (token : Token) :
    token ∈ world.engine.tokens task ↔ token ∈ needed := by
  rw [Engine.tokens_congr h.known]
  exact (h.contenders task hmem).tokens token

/-- A call is answered, and leaves the contenders in their order. -/
def Answers (base world : World σ) (needed : List Token) (left : List TaskIndex)
    (holder : Option TaskIndex) (call : Call) : Prop :=
  ∃ later answers, base.Contested later needed (afterCall (left, holder) call) ∧
    left = handedOut answers ++ (afterCall (left, holder) call).1 ∧
    ∀ (thread : Thread σ) (calls : List Call) (next : List Answer → Script σ), Moment.Leads
      ⟨world, thread.doing (.script none (.contend (call :: calls) holder next))⟩
      ⟨later, thread.doing (.script none (.contend calls (afterCall (left, holder) call).2
        fun more => next (answers ++ more)))⟩

theorem leads_found {engine : Engine} (hpoll : world.engine.poll = .found task engine)
    (thread : Thread σ) (calls : List Call) (next : List Answer → Script σ) : Moment.Leads
      ⟨world, thread.doing (.script none (.contend (.search :: calls) holder next))⟩
      ⟨{ world with engine }, thread.doing (.script none (.contend calls (some task)
        fun more => next (.found task :: more)))⟩ := by
  refine ⟨1, ?_⟩
  simp only [Moment.after, Moment.next, Thread.step, Thread.doing, Script.contend, Thread.stepScript,
    hpoll, Thread.afterPoll, Thread.turn]

theorem leads_nothing {engine : Engine} (hpoll : world.engine.poll = .exhausted engine)
    (thread : Thread σ) (calls : List Call) (next : List Answer → Script σ) : Moment.Leads
      ⟨world, thread.doing (.script none (.contend (.search :: calls) holder next))⟩
      ⟨{ world with engine }, thread.doing (.script none (.contend calls holder
        fun more => next (.nothing :: more)))⟩ := by
  refine ⟨1, ?_⟩
  simp only [Moment.after, Moment.next, Thread.step, Thread.doing, Script.contend, Thread.stepScript,
    hpoll, Thread.afterPoll, Thread.turn]

theorem Contested.search (h : base.Contested world needed (left, none)) (hneeded : needed ≠ []) :
    base.Answers world needed left none .search := by
  have hplace : world.engine.Vacant left := h.place
  cases left with
  | nil => exact ⟨world, [.nothing], h, rfl, leads_nothing hplace.search_nil⟩
  | cons task left =>
    obtain ⟨engine, list, hpoll, halike, hparked⟩ :=
      hplace.search hneeded (h.tokens List.mem_cons_self)
    have hcontested : base.Contested { world with engine } needed (left, some task) :=
      ⟨halike.tasks.trans h.known, halike.levels.trans h.levels, h.contenders,
        (List.nodup_cons.mp h.nodup).2, (List.pairwise_cons.mp h.sorted).2, list, left, [], hparked,
        List.append_nil _, Or.inr rfl⟩
    exact ⟨{ world with engine }, [.found task], hcontested, rfl, leads_found hpoll⟩

theorem Contested.search_held (h : base.Contested world needed (left, some task))
    (hneeded : needed ≠ []) : base.Answers world needed left (some task) .search := by
  obtain ⟨list, queued, waiting, hparked, hleft, hside⟩ := h.place
  change queued ++ waiting = left at hleft
  obtain ⟨engine, hpoll, halike, hall⟩ := hparked.search hneeded fun other hmem =>
    h.tokens (List.mem_append_right _ (hleft ▸ List.mem_append_left _ hmem))
  have hsame : waiting ++ queued = left := by
    rw [← hleft]
    rcases hside with rfl | rfl
    · exact List.append_nil _
    · exact (List.append_nil _).symm
  have hcontested : base.Contested { world with engine } needed (left, some task) :=
    ⟨halike.tasks.trans h.known, halike.levels.trans h.levels, h.contenders, h.nodup, h.sorted,
      list, [], left, hsame ▸ hall, rfl, Or.inl rfl⟩
  exact ⟨{ world with engine }, [.nothing], hcontested, rfl, leads_nothing hpoll⟩

theorem Contested.release (h : base.Contested world needed (left, some task))
    (hneeded : needed ≠ []) : base.Answers world needed left (some task) .release := by
  obtain ⟨list, queued, waiting, hparked, hleft, hside⟩ := h.place
  change queued ++ waiting = left at hleft
  have hsublist : waiting.Sublist left := hleft ▸ List.sublist_append_right queued waiting
  have hpriority : world.engine.priority = base.engine.priority := Engine.priority_congr h.known
  obtain ⟨engine, halike, hvacant, hleads⟩ := releases hparked hneeded
    (h.tokens List.mem_cons_self) hside (h.nodup.sublist hsublist)
    (fun other hmem => by
      rw [hpriority, h.levels]
      exact (h.contenders other (List.mem_append_right _ (hsublist.subset hmem))).priority)
    (hpriority ▸ h.sorted.sublist hsublist)
  have hcontested : base.Contested { world with engine } needed (left, none) :=
    ⟨halike.tasks.trans h.known, halike.levels.trans h.levels, fun other hmem =>
      h.contenders other (List.mem_append_right _ hmem), h.nodup, h.sorted, hleft ▸ hvacant⟩
  exact ⟨{ world with engine }, [.released task], hcontested, rfl, fun thread calls next =>
    hleads thread fun _ => .contend calls none fun more => next (.released task :: more)⟩

theorem Contested.call (h : base.Contested world needed (left, holder)) (hneeded : needed ≠ [])
    (call : Call) : base.Answers world needed left holder call := by
  cases call with
  | search =>
    cases holder with
    | none => exact h.search hneeded
    | some task => exact h.search_held hneeded
  | release =>
    cases holder with
    | none => exact ⟨world, [], h, rfl, fun thread calls next => .refl _⟩
    | some task => exact h.release hneeded

/-- All calls are answered. -/
theorem Contested.plays {state : List TaskIndex × Option TaskIndex}
    (h : base.Contested world needed state) (hneeded : needed ≠ []) (calls : List Call) :
    ∃ later answers, base.Contested later needed (calls.foldl afterCall state) ∧
      state.1 = handedOut answers ++ (calls.foldl afterCall state).1 ∧
      ∀ (thread : Thread σ) (next : List Answer → Script σ), Moment.Leads
        ⟨world, thread.doing (.script none (.contend calls state.2 next))⟩
        ⟨later, thread.doing (.script none (next answers))⟩ := by
  induction calls generalizing world state with
  | nil => exact ⟨world, [], h, rfl, fun thread next => .refl _⟩
  | cons call calls ih =>
    obtain ⟨middle, given, hmiddle, hgiven, hcall⟩ := h.call hneeded call
    obtain ⟨later, answers, hlater, hanswers, hrest⟩ := ih hmiddle
    refine ⟨later, given ++ answers, hlater, ?_, fun thread next =>
      (hcall thread calls next).trans (hrest thread _)⟩
    rw [handedOut, List.filterMap_append, List.append_assoc]
    exact hgiven.trans (congrArg (handedOut given ++ ·) hanswers)

structure Exhausted (world : World σ) : Prop where
  unqueued : ∀ task, world.engine.queue.contains task = false
  held : world.engine.table.held = 0

theorem Contested.left_eq_nil (h : base.Contested world needed (left, holder)) (hneeded : needed ≠ [])
    (exhausted : world.Exhausted) : left = [] := by
  have hnone {queue : PriorityQueue TaskIndex} (sound : queue.Sound)
      (unqueued : ∀ task, queue.contains task = false) : queue.inOrder = [] := by
    refine List.eq_nil_iff_forall_not_mem.mpr fun task hmem => ?_
    rw [← sound.contains_iff_mem, unqueued] at hmem
    cases hmem
  cases holder with
  | none =>
    have hplace : world.engine.Vacant left := h.place
    exact hplace.inOrder.symm.trans (hnone hplace.sound exhausted.unqueued)
  | some task =>
    obtain ⟨list, queued, waiting, hparked, -, -⟩ := h.place
    obtain ⟨token, hmem⟩ := List.exists_mem_of_ne_nil _ hneeded
    have hholder := hparked.holder token
    rw [if_pos hmem, HolderTable.holder?_eq_none_of_held exhausted.held] at hholder
    cases hholder

theorem Contested.exhausted (h : base.Contested world needed ([], none)) : world.Exhausted := by
  have hplace : world.engine.Vacant [] := h.place
  refine ⟨fun task => Bool.eq_false_iff.mpr fun hqueued => ?_,
    HolderTable.held_eq_zero hplace.holders hplace.free⟩
  rw [hplace.sound.contains_iff_mem, hplace.inOrder] at hqueued
  cases hqueued

theorem Scheduled.contested {order : List TaskIndex} (h : base.Scheduled world order)
    (hnodup : order.Nodup) (contenders : ∀ task ∈ order, base.Contender needed task) :
    base.Contested world needed (order.mergeSort fun first second =>
      decide (base.engine.priority first ≤ base.engine.priority second), none) := by
  have hperm := List.mergeSort_perm order fun first second =>
    decide (base.engine.priority first ≤ base.engine.priority second)
  have hsorted := @List.pairwise_mergeSort _ (fun first second =>
      decide (base.engine.priority first ≤ base.engine.priority second))
    (fun first second third hle hle' => by
      rw [decide_eq_true_eq] at *
      exact Nat.le_trans hle hle')
    (fun first second => by simpa using Nat.le_total _ _) order
  refine ⟨h.known, h.levels, fun task hmem => contenders task (hperm.mem_iff.mp hmem),
    hperm.nodup_iff.mpr hnodup, hsorted.imp of_decide_eq_true, h.tallied.sound,
    h.inOrder fun task hmem => (contenders task hmem).priority, ?_, fun token => ?_⟩
  · rw [h.table]
    exact .empty
  · rw [h.table, HolderTable.holder?_empty]

end World

/-- Contenders for the same tokens are handed out in the order of the stable sort by priority, however often
somebody searches while one of them holds the tokens. All of them are handed out once nothing is queued and
nothing is held, and it takes only more calls to come to that. Runs that differ in nothing but searches that
found nothing hand out the same tasks. -/
theorem contenders_served {world : World σ} (fresh : world.Fresh) {order : List TaskIndex}
    (hnodup : order.Nodup) {needed : List Token} (hneeded : needed ≠ [])
    (contenders : ∀ task ∈ order, world.Contender needed task) :
    ∃ run : List Call → List Answer × World σ,
      (∀ calls self next, Moment.Leads
        ⟨world, .ofScript self (.scheduleAll order (.contend calls none next))⟩
        ⟨(run calls).2, .ofScript self (next (run calls).1)⟩) ∧
      (∀ calls, handedOut (run calls).1 <+: order.mergeSort fun first second =>
        decide (world.engine.priority first ≤ world.engine.priority second)) ∧
      (∀ calls, (run calls).2.Exhausted → handedOut (run calls).1 = order.mergeSort
        fun first second => decide (world.engine.priority first ≤ world.engine.priority second)) ∧
      (∀ calls, ∃ more, (run (calls ++ more)).2.Exhausted) ∧
      ∀ calls others, (run calls).1.filterMap Answer.call? = (run others).1.filterMap Answer.call? →
        handedOut (run calls).1 = handedOut (run others).1 := by
  obtain ⟨scheduled, hscheduled, hschedules⟩ := fresh.scheduled.schedules
    (show ([] ++ order).Nodup from hnodup) fun task hmem => (contenders task hmem).priority
  rw [List.nil_append] at hscheduled
  have hcontested := hscheduled.contested hnodup contenders
  generalize order.mergeSort _ = sorted at hcontested ⊢
  choose later answers hlater hsorted hplays using hcontested.plays hneeded
  have hserved (calls : List Call) : handedOut (answers calls) <+: sorted :=
    ⟨_, (hsorted calls).symm⟩
  refine ⟨fun calls => (answers calls, later calls), fun calls self next => ?_, hserved,
    fun calls exhausted => ?_, fun calls => ?_, fun calls others hsame => ?_⟩
  · obtain ⟨n, hn, -⟩ := hschedules (.ofScript self (.stop .normal)) (.contend calls none next)
    exact Moment.Leads.trans ⟨n, hn⟩ (hplays calls (.ofScript self (.stop .normal)) next)
  · have hnil := (hlater calls).left_eq_nil hneeded exhausted
    have hall := hsorted calls
    rw [hnil, List.append_nil] at hall
    exact hall.symm
  · -- the holder is released, and then the rest is handed out
    let left := (calls.foldl afterCall (sorted, none)).1
    have hend := hlater (calls ++ .release :: rounds left.length)
    rw [List.foldl_append, List.foldl_cons] at hend
    change world.Contested _ needed ((rounds left.length).foldl afterCall (left, none)) at hend
    rw [afterCall_rounds (Nat.le_refl left.length)] at hend
    exact ⟨_, hend.exhausted⟩
  · refine (List.prefix_of_prefix_length_le (hserved calls) (hserved others) ?_).eq_of_length ?_
    · rw [length_handedOut, length_handedOut, hsame]
    · rw [length_handedOut, length_handedOut, hsame]

/-- A world with tasks of two levels that need the same two tokens, which they name in different ways. -/
def World.throng : World Unit :=
  let code : Code Unit := { work := .repeatable (.stop .normal) }
  let queue : PriorityQueue TaskIndex := ⟨Array.replicate 2 .empty, .empty⟩
  let engine := (Engine.idle { levels := 2 } queue).record (.started 1 2)
  let world := World.ofEngine engine ()
  let world := (world.addTask ⟨.repeatable, 1, [.unique 0, .unique 1], false⟩ code).2
  let world := (world.addTask ⟨.repeatable, 0, [.unique 1, .unique 0, .unique 1], false⟩ code).2
  (world.addTask ⟨.repeatable, 1, [.unique 0, .unique 0, .unique 1], false⟩ code).2

theorem World.fresh_throng : World.throng.Fresh :=
  .addTask (.addTask (.addTask (@World.Fresh.start _ { levels := 2 } _ () rfl) _ _) _ _) _ _

theorem World.contender_throng :
    ∀ task ∈ [0, 1, 2], World.throng.Contender [.unique 0, .unique 1] task := by
  intro task hmem
  simp only [List.mem_cons, List.not_mem_nil, or_false] at hmem
  rcases hmem with rfl | rfl | rfl
  · exact ⟨fun token => Iff.rfl, by decide⟩
  · refine ⟨fun token => ?_, by decide⟩
    show token ∈ [.unique 1, .unique 0, .unique 1] ↔ token ∈ [.unique 0, .unique 1]
    simp only [List.mem_cons, List.not_mem_nil, or_false]
    tauto
  · refine ⟨fun token => ?_, by decide⟩
    show token ∈ [.unique 0, .unique 0, .unique 1] ↔ token ∈ [.unique 0, .unique 1]
    simp only [List.mem_cons, List.not_mem_nil, or_false]
    tauto

theorem contenders_served_throng : [0, 1, 2].mergeSort (fun first second => decide
      (World.throng.engine.priority first ≤ World.throng.engine.priority second)) = [1, 0, 2] ∧
    ∃ run : List Call → List Answer × World Unit,
      (∀ calls self next, Moment.Leads
        ⟨.throng, .ofScript self (.scheduleAll [0, 1, 2] (.contend calls none next))⟩
        ⟨(run calls).2, .ofScript self (next (run calls).1)⟩) ∧
      (∀ calls, handedOut (run calls).1 <+: [0, 1, 2].mergeSort fun first second => decide
        (World.throng.engine.priority first ≤ World.throng.engine.priority second)) ∧
      (∀ calls, (run calls).2.Exhausted → handedOut (run calls).1 = [0, 1, 2].mergeSort
        fun first second => decide
          (World.throng.engine.priority first ≤ World.throng.engine.priority second)) ∧
      (∀ calls, ∃ more, (run (calls ++ more)).2.Exhausted) ∧
      ∀ calls others, (run calls).1.filterMap Answer.call? = (run others).1.filterMap Answer.call? →
        handedOut (run calls).1 = handedOut (run others).1 :=
  ⟨(@flatMap_filter_eq_mergeSort _ World.throng.engine.priority 2 _ (by decide)).symm.trans
      (by decide),
    contenders_served World.fresh_throng (by decide) (by decide) World.contender_throng⟩

end Dispatch
