import Dispatch.Proofs.Run

/-!
# What becomes of a submission

A task that has been accepted is queued, waits on a list, has been handed out, or has been told that it
was rejected, and it is one of these as often as it was accepted. In the middle of a release or a search a
task may be in none of these places, but then it is in the hands of that release or search: the invariant
counts what is in hand with the rest (`Engine.Accounted`), and every action moves a task from one place
to another. Nothing is asked of the releases; they may fail, and free whatever they find.
-/

namespace Dispatch

variable {σ : Type}

/-- How often a task is queued, waits, has been handed out or has been rejected. -/
def placed (queue : PriorityQueue TaskIndex) (lists : WaitingLists) (chronicle : List Occurrence)
    (task : TaskIndex) : Nat :=
  (if queue.contains task then 1 else 0) + lists.waiting.count task +
    (handouts chronicle).count task + (rejections chronicle).count task

theorem placed_handedOut (queue : PriorityQueue TaskIndex) (lists : WaitingLists)
    (chronicle : List Occurrence) (task other : TaskIndex) :
    placed queue lists (.handedOut task :: chronicle) other =
      placed queue lists chronicle other + if task == other then 1 else 0 := by
  show _ + (task :: handouts chronicle).count other + (rejections chronicle).count other = _
  rw [List.count_cons, placed]
  omega

theorem placed_rejected (queue : PriorityQueue TaskIndex) (lists : WaitingLists)
    (chronicle : List Occurrence) (task other : TaskIndex) (fault : Fault) :
    placed queue lists (.reported task { cause := .rejected fault } :: chronicle) other =
      placed queue lists chronicle other + if task == other then 1 else 0 := by
  show _ + (task :: rejections chronicle).count other = _
  rw [List.count_cons, placed]
  exact (Nat.add_assoc _ _ _).symm

namespace Engine

/-- Every task has been accepted as often as it has a place or is in hand. -/
structure Accounted (engine : Engine) (hand : List TaskIndex) : Prop where
  sound : engine.queue.Sound
  made : ∀ token list, engine.table.holder? token = some list → list < engine.lists.lists.size
  balance : ∀ task, (submissions engine.chronicle).count task =
    placed engine.queue engine.lists engine.chronicle task + hand.count task

structure Spare (engine : Engine) (list : ListIndex) : Prop where
  made : list < engine.lists.lists.size
  idle : (engine.lists.get list).waiters = []
  unheld : ∀ token, engine.table.holder? token ≠ some list

namespace Accounted

variable {engine after : Engine} {hand : List TaskIndex} {task : TaskIndex} {list : ListIndex}

/-- Occurrences that are none of the three kinds do not matter. -/
theorem of_eq (h : engine.Accounted hand) (hqueue : after.queue = engine.queue)
    (htable : after.table = engine.table) (hlists : after.lists = engine.lists)
    (hsubmissions : submissions after.chronicle = submissions engine.chronicle)
    (hhandouts : handouts after.chronicle = handouts engine.chronicle)
    (hrejections : rejections after.chronicle = rejections engine.chronicle) :
    after.Accounted hand := by
  refine ⟨hqueue ▸ h.sound, fun token list => ?_, fun task => ?_⟩
  · rw [htable, hlists]
    exact h.made token list
  · rw [hsubmissions, placed, hqueue, hlists, hhandouts, hrejections]
    exact h.balance task

theorem of_quiet (h : engine.Accounted hand) (quiet : engine.Quiet after) :
    after.Accounted hand := by
  obtain ⟨news, hnews, hquiet⟩ := quiet.chronicle
  refine h.of_eq quiet.queue quiet.table quiet.lists ?_ ?_ ?_
  · rw [hnews]
    exact filterMap_quiet _ Occurrence.submission?_of_isQuiet hquiet
  · rw [hnews]
    exact filterMap_quiet _ Occurrence.handout?_of_isQuiet hquiet
  · rw [hnews]
    exact filterMap_quiet _ Occurrence.rejection?_of_isQuiet hquiet

theorem perm {other : List TaskIndex} (h : engine.Accounted hand) (hperm : hand.Perm other) :
    engine.Accounted other :=
  ⟨h.sound, h.made, fun task => by rw [← hperm.count_eq]; exact h.balance task⟩

/-- A change of the table moves no task. -/
theorem withTable (h : engine.Accounted hand) {table : HolderTable}
    (hmade : ∀ token list, table.holder? token = some list → list < engine.lists.lists.size) :
    { engine with table }.Accounted hand :=
  ⟨h.sound, hmade, h.balance⟩

/-! ### From the hand to a place, and back -/

theorem submit (h : engine.Accounted hand) (task : TaskIndex) :
    (engine.record (.submitted task)).Accounted (task :: hand) := by
  refine ⟨h.sound, h.made, fun other => ?_⟩
  have hbalance := h.balance other
  show (task :: submissions engine.chronicle).count other =
    placed engine.queue engine.lists engine.chronicle other + (task :: hand).count other
  rw [List.count_cons, List.count_cons]
  omega

theorem handOut (h : engine.Accounted (task :: hand)) :
    (engine.record (.handedOut task)).Accounted hand := by
  refine ⟨h.sound, h.made, fun other => ?_⟩
  have hbalance := h.balance other
  rw [List.count_cons] at hbalance
  show (submissions engine.chronicle).count other =
    placed engine.queue engine.lists (.handedOut task :: engine.chronicle) other + hand.count other
  rw [placed_handedOut]
  omega

theorem reject (h : engine.Accounted (task :: hand)) (fault : Fault) :
    (engine.record (.reported task { cause := .rejected fault })).Accounted hand := by
  refine ⟨h.sound, h.made, fun other => ?_⟩
  have hbalance := h.balance other
  rw [List.count_cons] at hbalance
  show (submissions engine.chronicle).count other = placed engine.queue engine.lists
    (.reported task { cause := .rejected fault } :: engine.chronicle) other + hand.count other
  rw [placed_rejected]
  omega

theorem put (h : engine.Accounted (task :: hand)) {queue : PriorityQueue TaskIndex}
    {priority : Nat} (ok : engine.queue.enqueue task priority = .ok queue) :
    { engine with queue }.Accounted hand := by
  refine ⟨h.sound.enqueue ok, h.made, fun other => ?_⟩
  have hbalance := h.balance other
  have hqueued := PriorityQueue.queued_enqueue ok other
  rw [placed, List.count_cons] at hbalance
  dsimp only
  rw [placed]
  omega

theorem serve (h : engine.Accounted hand) {queue : PriorityQueue TaskIndex} {level : Nat}
    (dequeued : engine.queue.dequeue = (some (level, task), queue)) :
    (engine.serve queue task level).Accounted (task :: hand) := by
  refine ⟨h.sound.dequeue dequeued, h.made, fun other => ?_⟩
  have hbalance := h.balance other
  have hqueued := PriorityQueue.queued_dequeue h.sound dequeued other
  rw [placed] at hbalance
  show (submissions engine.chronicle).count other =
    placed queue engine.lists engine.chronicle other + (task :: hand).count other
  rw [placed, List.count_cons]
  omega

theorem wait (h : engine.Accounted (task :: hand)) {lists : WaitingLists}
    (waits : engine.lists.add? list task = some lists) :
    { engine with lists }.Accounted hand := by
  refine ⟨h.sound, fun token other hheld => ?_, fun other => ?_⟩
  · show other < lists.lists.size
    rw [WaitingLists.size_add? waits]
    exact h.made token other hheld
  · have hbalance := h.balance other
    have hwaiting := WaitingLists.count_waiting_add? waits other
    rw [placed, List.count_cons] at hbalance
    rw [List.count_singleton] at hwaiting
    dsimp only
    rw [placed]
    omega

theorem free (h : engine.Accounted hand) (list : ListIndex) :
    (engine.freeList list).2.Accounted ((engine.freeList list).1 ++ hand) := by
  refine ⟨h.sound, fun token other hheld => ?_, fun other => ?_⟩
  · show other < (engine.lists.free list).2.lists.size
    rw [WaitingLists.size_free]
    exact h.made token other hheld
  · have hbalance := h.balance other
    have hwaiting := WaitingLists.count_waiting_free engine.lists list other
    rw [placed] at hbalance
    show (submissions engine.chronicle).count other =
      placed engine.queue (engine.lists.free list).2 engine.chronicle other +
        ((engine.lists.get list).waiters ++ hand).count other
    rw [placed, List.count_append]
    omega

/-- Moving a queued task leaves it queued. -/
theorem move (h : engine.Accounted hand) {moved : Bool}
    (ok : engine.applyPriority task = .ok (moved, after)) : after.Accounted hand := by
  obtain ⟨source, queue, hmove, hafter⟩ := applyPriority_ok ok
  obtain ⟨hsound, hcontains⟩ := PriorityQueue.contains_moveTo h.sound hmove
  have hmoved : { engine with queue }.Accounted hand := by
    refine ⟨hsound, h.made, fun other => ?_⟩
    have hbalance := h.balance other
    rw [placed] at hbalance
    dsimp only
    rw [placed, hcontains]
    exact hbalance
  rcases hafter with rfl | ⟨level, rfl⟩
  · exact hmoved
  · exact hmoved.of_eq rfl rfl rfl rfl rfl rfl

/-- A release takes tokens out of the table, and leaves every task where it is. -/
theorem take (h : engine.Accounted hand) (task : TaskIndex) (handle : Option HandleIndex) :
    (engine.takeTokens task handle).2.2.Accounted hand := by
  have htable : { engine with
      table := (engine.table.take (Token.distinct (engine.tokens task))).table }.Accounted hand := by
    refine h.withTable fun token list hheld => ?_
    rcases HolderTable.holder?_take engine.table (Token.distinct (engine.tokens task)) token
      with hsame | ⟨hnone, -⟩
    · exact h.made token list (hsame.symm.trans hheld)
    · cases hheld.symm.trans hnone
  exact htable.of_eq rfl rfl rfl rfl rfl rfl

/-! ### Claims -/

theorem make (h : engine.Accounted hand) :
    { engine with lists := engine.lists.make.2 }.Accounted hand ∧
      { engine with lists := engine.lists.make.2 }.Spare engine.lists.lists.size := by
  refine ⟨⟨h.sound, fun token other hheld => ?_, fun other => ?_⟩, ?_, ?_, fun token hheld => ?_⟩
  · show other < engine.lists.make.2.lists.size
    rw [WaitingLists.size_make]
    exact Nat.lt_succ_of_lt (h.made token other hheld)
  · have hbalance := h.balance other
    rw [placed] at hbalance
    dsimp only
    rw [placed, WaitingLists.waiting_make]
    exact hbalance
  · show engine.lists.lists.size < engine.lists.make.2.lists.size
    rw [WaitingLists.size_make]
    exact Nat.lt_succ_self _
  · show (engine.lists.make.2.get engine.lists.lists.size).waiters = []
    rw [WaitingLists.get_make, if_pos rfl]
  · exact Nat.lt_irrefl _ (h.made token _ hheld)

variable {tokens : List Token}

theorem acquired (h : engine.Accounted (task :: hand)) (spare : engine.Spare list)
    (claims : engine.attempt task tokens list = .acquired after) :
    (after.record (.handedOut task)).Accounted hand := by
  obtain ⟨table, htable, rfl⟩ := attempt_acquired claims
  have hafter := (HolderTable.claim_acquired htable).2
  have hclaimed : { engine with table }.Accounted (task :: hand) := by
    refine h.withTable fun token other hheld => ?_
    rw [hafter] at hheld
    split at hheld
    · cases hheld
      exact spare.made
    · exact h.made token other hheld
  exact hclaimed.handOut.of_eq rfl rfl rfl rfl rfl rfl

/-- A task that waits leaves the hand, and the list of its own attempt has no waiters to lose. -/
theorem waiting (h : engine.Accounted (task :: hand)) (spare : engine.Spare list)
    (hnodup : tokens.Nodup) (waits : engine.attempt task tokens list = .waiting after) :
    after.Accounted hand := by
  obtain ⟨holder, table, lists, htable, hadd, rfl⟩ := attempt_waiting waits
  obtain ⟨⟨token, -, hheld⟩, hsame⟩ := HolderTable.claim_held hnodup htable
  have hne : list ≠ holder := fun heq => spare.unheld token (heq ▸ hheld)
  have hidle : (lists.get list).waiters = [] := by
    rw [WaitingLists.get_add? hadd, if_neg hne]
    exact spare.idle
  have hfree := (h.wait hadd).free list
  have hhand : ({ engine with lists }.freeList list).1 ++ hand = hand := by
    show (lists.get list).waiters ++ hand = hand
    rw [hidle]
    rfl
  rw [hhand] at hfree
  have htable' : { engine with table, lists := (lists.free list).2 }.Accounted hand :=
    hfree.withTable fun token other hheld => hfree.made token other ((hsame token).symm.trans hheld)
  exact htable'.of_eq rfl rfl rfl rfl rfl rfl

theorem refused {own : ListIndex} (h : engine.Accounted hand) (spare : engine.Spare list)
    (hnodup : tokens.Nodup) (refuses : engine.attempt task tokens list = .refused after own) :
    after.Accounted hand ∧ after.Spare own := by
  obtain ⟨rfl, holder, table, htable, -, rfl⟩ := attempt_refused refuses
  have hsame := (HolderTable.claim_held hnodup htable).2
  have htable' : { engine with table }.Accounted hand :=
    h.withTable fun token other hheld => h.made token other ((hsame token).symm.trans hheld)
  exact ⟨htable'.of_eq rfl rfl rfl rfl rfl rfl, spare.made, spare.idle,
    fun token hheld => spare.unheld token ((hsame token).symm.trans hheld)⟩

theorem claim_acquired (h : engine.Accounted (task :: hand))
    (claims : engine.claimTokens task = .acquired after) :
    (after.record (.handedOut task)).Accounted hand := by
  rcases claimTokens_cases engine task with ⟨_, hclaim⟩ | ⟨_, hclaim⟩
  · rw [hclaim] at claims
    cases claims
    exact h.handOut
  · exact h.make.1.acquired h.make.2 (hclaim.symm.trans claims)

theorem claim_waiting (h : engine.Accounted (task :: hand))
    (waits : engine.claimTokens task = .waiting after) : after.Accounted hand := by
  rcases claimTokens_cases engine task with ⟨_, hclaim⟩ | ⟨_, hclaim⟩
  · rw [hclaim] at waits
    cases waits
  · exact h.make.1.waiting h.make.2 (Token.nodup_distinct _) (hclaim.symm.trans waits)

theorem claim_refused (h : engine.Accounted hand)
    (refuses : engine.claimTokens task = .refused after list) :
    after.Accounted hand ∧ after.Spare list := by
  rcases claimTokens_cases engine task with ⟨_, hclaim⟩ | ⟨_, hclaim⟩
  · rw [hclaim] at refuses
    cases refuses
  · exact h.make.1.refused h.make.2 (Token.nodup_distinct _) (hclaim.symm.trans refuses)

theorem skips (h : engine.Accounted hand) (skips : engine.Skips after) : after.Accounted hand := by
  induction skips with
  | refl => exact h
  | tail _ dequeued waits ih => exact (ih.serve dequeued).claim_waiting waits

end Accounted

end Engine

/-- The tasks a thread has in hand: the one it tries again to claim the tokens of, and the waiters that it
is to queue again. -/
def Ledger.hand (ledger : Ledger σ) : List TaskIndex :=
  (ledger.retry.map Retry.task).toList ++ ledger.releases.flatMap Freeing.waiters

/-- Every task has been accepted as often as it has a place or is in the hands of the thread, and a claim
that is to be tried again is that of a task taken from the queue. -/
structure Ledger.Accounted (ledger : Ledger σ) : Prop where
  engine : ledger.engine.Accounted ledger.hand
  retry : ∀ retry ∈ ledger.retry, ledger.engine.Spare retry.list ∧ retry.polled = true

/-- A step in which no tokens are claimed outside a search, and no rejection is made up. -/
structure Ordinary (moment : Moment σ) : Prop where
  searches : ¬ moment.thread.Tries
  reports : ∀ failure, moment.thread.Reports failure → failure.isRejection = false

namespace Ledger.Accounted

theorem polled {engine : Engine} {releases : List (Freeing σ)}
    (h : engine.Accounted (releases.flatMap Freeing.waiters)) :
    Ledger.Accounted ⟨engine.poll.engine, releases, engine.poll.retry⟩ := by
  generalize hpoll : engine.poll = poll
  have sought := hpoll ▸ Engine.sought_poll engine
  cases sought with
  | found skips dequeued claims =>
    exact ⟨((h.skips skips).serve dequeued).claim_acquired claims, by simp [Poll.retry]⟩
  | exhausted skips dequeued =>
    have hqueue := PriorityQueue.dequeue_none (h.skips skips).sound dequeued
    exact ⟨(h.skips skips).of_eq hqueue rfl rfl rfl rfl rfl, by simp [Poll.retry]⟩
  | abandoned skips => exact ⟨h.skips skips, by simp [Poll.retry]⟩
  | refused skips dequeued refuses =>
    obtain ⟨hafter, hspare⟩ := ((h.skips skips).serve dequeued).claim_refused refuses
    refine ⟨hafter, fun retry hretry => ?_⟩
    cases hretry
    exact ⟨hspare, rfl⟩

theorem effect {tries : Prop} {reports : Failure → Prop} {before after : Ledger σ}
    (h : before.Accounted) (effect : Effect tries reports before after) (hsearches : ¬ tries)
    (hreports : ∀ failure, reports failure → failure.isRejection = false)
    (hproper : ∀ freeing ∈ before.releases, freeing.after.Proper) : after.Accounted := by
  have hnone {engine : Engine} {releases : List (Freeing σ)}
      (h : engine.Accounted (releases.flatMap Freeing.waiters)) :
      Ledger.Accounted ⟨engine, releases, none⟩ := ⟨h, by simp⟩
  cases effect with
  | quiet quiet => exact hnone (h.engine.of_quiet quiet)
  | @reported engine after releases task failure asked quiet =>
    have hreported := (Engine.Quiet.refl engine).record (.reported task failure)
      (by simp [Occurrence.isQuiet, hreports failure asked])
    exact hnone (h.engine.of_quiet (hreported.trans quiet))
  | scheduled quiet ok =>
    obtain ⟨queue, hqueue, rfl⟩ := Engine.schedule_ok ok
    have hsubmitted := ((h.engine.of_quiet quiet).submit _).put hqueue
    exact hnone (hsubmitted.of_eq rfl rfl rfl rfl rfl rfl)
  | moved ok => exact hnone (h.engine.move ok)
  | polled => exact polled h.engine
  | tried asked => exact absurd asked hsearches
  | refused retry again =>
    obtain ⟨hspare, hpolled⟩ := h.retry retry rfl
    obtain ⟨hafter, hspare⟩ := h.engine.refused hspare (Token.nodup_distinct _) again
    refine ⟨hafter, fun retry hretry => ?_⟩
    cases hretry
    exact ⟨hspare, hpolled⟩
  | acquired retry again =>
    obtain ⟨hspare, hpolled⟩ := h.retry retry rfl
    rw [if_pos hpolled]
    exact hnone (h.engine.acquired hspare again)
  | waiting retry again =>
    obtain ⟨hspare, hpolled⟩ := h.retry retry rfl
    rw [if_pos hpolled, if_pos hpolled]
    exact polled (h.engine.waiting hspare (Token.nodup_distinct _) again)
  | begun _ => exact hnone (h.engine.take _ _)
  | @freed engine releases freeing list lists idle next =>
    have hengine : engine.Accounted (freeing.waiters ++ releases.flatMap Freeing.waiters) :=
      h.engine
    rw [idle] at hengine
    exact hnone (hengine.free list)
  | @requeued engine after releases freeing task waiters next ok =>
    have hengine : engine.Accounted (freeing.waiters ++ releases.flatMap Freeing.waiters) :=
      h.engine
    rw [next] at hengine
    obtain ⟨queue, hqueue, rfl⟩ := Engine.requeue_none ok
    exact hnone ((hengine.put hqueue).of_eq rfl rfl rfl rfl rfl rfl)
  | @rejected engine middle after releases freeing task waiters fault next refusal quiet =>
    have hengine : engine.Accounted (freeing.waiters ++ releases.flatMap Freeing.waiters) :=
      h.engine
    rw [next] at hengine
    obtain rfl := Engine.requeue_some refusal
    have hrejected : ((engine.record (.requeueRefused task fault)).record
        (.reported task { cause := .rejected fault })).Accounted
          (waiters ++ releases.flatMap Freeing.waiters) :=
      (hengine.reject fault).of_eq rfl rfl rfl rfl rfl rfl
    exact hnone (hrejected.of_quiet quiet)
  | @finished engine after releases freeing idle done quiet =>
    have hengine : engine.Accounted (freeing.waiters ++ releases.flatMap Freeing.waiters) :=
      h.engine
    rw [idle] at hengine
    exact hnone (hengine.of_quiet (quiet (hproper freeing List.mem_cons_self)))

end Ledger.Accounted

theorem Engine.Blank.accounted {engine : Engine} (blank : engine.Blank) : engine.Accounted [] := by
  refine ⟨blank.sound, fun token list hheld => ?_, fun task => ?_⟩
  · rw [blank.table, HolderTable.holder?_empty] at hheld
    cases hheld
  · obtain ⟨workers, levels, hchronicle⟩ := blank.chronicle
    rw [placed, blank.unqueued, blank.lists, hchronicle]
    rfl

theorem Reached.accounted {moment : Moment σ} (reached : Reached Ordinary moment) :
    moment.ledger.Accounted :=
  invariant Ledger.Accounted (fun _ fresh => ⟨fresh.blank.accounted, by simp⟩)
    (fun _ prior ok effect ih => ih.effect effect ok.searches ok.reports prior.proper) reached

theorem Ordinary.rivals : ∀ k < 4, Ordinary (Moment.rivals.after k)
  | 0, _ => ⟨id, fun _ => False.elim⟩
  | 1, _ => ⟨id, fun _ => False.elim⟩
  | 2, _ => ⟨id, fun _ => False.elim⟩
  | 3, _ => ⟨id, fun _ => False.elim⟩

end Dispatch
