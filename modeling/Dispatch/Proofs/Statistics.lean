import Dispatch.Proofs.Fate
import Dispatch.Proofs.FirstExecutable
import Dispatch.Proofs.Tally

/-!
# The statistics balance

A task comes into the queue by being accepted or queued again, and out of it by being handed out or losing
a claim. A task that loses a claim waits, until it is queued again or rejected (`Engine.Balanced`). Counted,
these are two equations between the statistics, the queue, the lists and what the chronicle tells of
handouts and rejections (`statistics_balance`). They hold whenever no release is under way and no claim is
being tried again. Once a claim is to be tried again, its holder's list has been freed, and no try ever
succeeds (`Ledger.Stuck`); so no claim was ever refused in a run whose searches have come to an end.
-/

namespace Dispatch

variable {σ : Type}

/-! ### The counters of a chronicle -/

theorem scheduled_tally (chronicle : List Occurrence) :
    (tally chronicle).scheduled = (submissions chronicle).length := by
  induction chronicle with
  | nil => rfl
  | cons occurrence earlier ih =>
    cases occurrence with
    | submitted task => exact congrArg (· + 1) ih
    | _ => exact ih

theorem contentions_tally (chronicle : List Occurrence) :
    (tally chronicle).contentions = (waits chronicle).length + (retries chronicle).length := by
  induction chronicle with
  | nil => rfl
  | cons occurrence earlier ih =>
    cases occurrence with
    | waiting task list =>
      show _ + 1 = (waits earlier).length + 1 + (retries earlier).length
      rw [Nat.add_right_comm, ← ih]
    | retried task => exact congrArg (· + 1) ih
    | _ => exact ih

theorem requeued_tally (chronicle : List Occurrence) :
    (tally chronicle).requeued = (requeues chronicle).length := by
  induction chronicle with
  | nil => rfl
  | cons occurrence earlier ih =>
    cases occurrence with
    | requeued task => exact congrArg (· + 1) ih
    | _ => exact ih

/-! ### Claims that are refused -/

namespace Engine

variable {engine after : Engine} {task : TaskIndex} {list own : ListIndex}

/-- A claim is refused for ever if the list it would wait on has been freed. -/
theorem attempt_of_freed (h : engine.awaited? task = some list)
    (hfreed : (engine.lists.get list).freed = true) (own : ListIndex) :
    ∃ after, engine.attempt task (Token.distinct (engine.tokens task)) own = .refused after own := by
  have hfirst := claim_fst engine task own
  rw [h] at hfirst
  generalize hclaim : engine.table.claim (Token.distinct (engine.tokens task)) own = claimed at hfirst
  obtain ⟨outcome, table⟩ := claimed
  cases hfirst
  rw [attempt]
  simp only [hclaim, WaitingLists.add?_eq_none.mpr hfreed]
  exact ⟨_, rfl⟩

/-- A claim is refused only if the list it would wait on has been freed. -/
theorem freed_of_attempt
    (h : engine.attempt task (Token.distinct (engine.tokens task)) list = .refused after own) :
    ∃ holder, after.awaited? task = some holder ∧ (after.lists.get holder).freed = true := by
  obtain ⟨-, holder, table, hclaim, hfreed, hafter⟩ := attempt_refused h
  have htasks : after.tasks = engine.tasks := by rw [hafter]; rfl
  have hlists : after.lists = engine.lists := by rw [hafter]; rfl
  have hholder : ∀ token, after.table.holder? token = engine.table.holder? token := by
    rw [hafter]
    exact (HolderTable.claim_held (Token.nodup_distinct _) hclaim).2
  have hfirst := claim_fst engine task list
  rw [hclaim] at hfirst
  refine ⟨holder, ?_, hlists ▸ hfreed⟩
  rw [awaited?_congr htasks hholder]
  cases hawaited : engine.awaited? task with
  | none =>
    rw [hawaited] at hfirst
    cases hfirst
  | some found =>
    rw [hawaited] at hfirst
    cases hfirst
    rfl

theorem freed_of_claimTokens (h : engine.claimTokens task = .refused after own) :
    ∃ holder, after.awaited? task = some holder ∧ (after.lists.get holder).freed = true := by
  rcases claimTokens_cases engine task with ⟨-, hclaim⟩ | ⟨-, hclaim⟩
  · rw [hclaim] at h
    cases h
  · rw [hclaim] at h
    exact freed_of_attempt h

theorem freed_of_poll (h : engine.poll = .refused task after own) :
    ∃ holder, after.awaited? task = some holder ∧ (after.lists.get holder).freed = true := by
  cases h ▸ sought_poll engine with
  | refused _ _ refuses => exact freed_of_claimTokens refuses

end Engine

/-- A claim that is to be tried again would wait on a list that has been freed, and as long as none is, no
claim was ever refused. -/
structure Ledger.Stuck (ledger : Ledger σ) : Prop where
  retry : ∀ retry ∈ ledger.retry, ∃ list, ledger.engine.awaited? retry.task = some list ∧
    (ledger.engine.lists.get list).freed = true
  untried : ledger.retry = none → retries ledger.engine.chronicle = []

namespace Ledger.Stuck

/-- The next try is refused as well. -/
theorem refused {engine : Engine} {releases : List (Freeing σ)} {retry : Retry}
    (h : Ledger.Stuck ⟨engine, releases, some retry⟩) :
    ∃ after, engine.attempt retry.task (Token.distinct (engine.tokens retry.task)) retry.list =
      .refused after retry.list := by
  obtain ⟨list, hawaited, hfreed⟩ := h.retry retry rfl
  exact Engine.attempt_of_freed hawaited hfreed retry.list

theorem not_acquired {engine after : Engine} {releases : List (Freeing σ)} {retry : Retry}
    (h : Ledger.Stuck ⟨engine, releases, some retry⟩) : engine.attempt retry.task
      (Token.distinct (engine.tokens retry.task)) retry.list ≠ .acquired after := by
  intro again
  obtain ⟨refused, hrefused⟩ := h.refused
  cases again.symm.trans hrefused

theorem not_waiting {engine after : Engine} {releases : List (Freeing σ)} {retry : Retry}
    (h : Ledger.Stuck ⟨engine, releases, some retry⟩) : engine.attempt retry.task
      (Token.distinct (engine.tokens retry.task)) retry.list ≠ .waiting after := by
  intro again
  obtain ⟨refused, hrefused⟩ := h.refused
  cases again.symm.trans hrefused

theorem effect {tries : Prop} {reports : Failure → Prop} {before after : Ledger σ}
    (h : before.Stuck) (effect : Effect tries reports before after)
    (sound : before.engine.queue.Sound) (hsearches : ¬ tries)
    (hproper : ∀ freeing ∈ before.releases, freeing.after.Proper) : after.Stuck := by
  have hnone {engine : Engine} {releases : List (Freeing σ)}
      (h : retries engine.chronicle = []) : Ledger.Stuck ⟨engine, releases, none⟩ :=
    ⟨by simp, fun _ => h⟩
  have hquiet {engine after : Engine} (quiet : engine.Quiet after)
      (h : retries engine.chronicle = []) : retries after.chronicle = [] := by
    obtain ⟨news, hnews, hquiet⟩ := quiet.chronicle
    rw [hnews, ← h]
    exact filterMap_quiet _ Occurrence.retry?_of_isQuiet hquiet
  cases effect with
  | quiet quiet => exact hnone (hquiet quiet (h.untried rfl))
  | reported _ quiet => exact hnone (hquiet quiet (h.untried rfl))
  | scheduled quiet ok =>
    have huntried := hquiet quiet (h.untried rfl)
    obtain ⟨queue, -, rfl⟩ := Engine.schedule_ok ok
    exact hnone huntried
  | moved ok =>
    obtain ⟨source, queue, -, rfl | ⟨level, rfl⟩⟩ := Engine.applyPriority_ok ok <;>
      exact hnone (h.untried rfl)
  | @polled engine releases =>
    cases hpoll : engine.poll with
    | refused task after list =>
      refine ⟨fun retry hretry => ?_, fun hretry => nomatch hretry⟩
      cases hretry
      exact Engine.freed_of_poll hpoll
    | found | exhausted =>
      obtain ⟨taken, htaken⟩ := Engine.took_poll sound (by rw [hpoll]; rfl)
      rw [hpoll] at htaken
      exact hnone (htaken.retries.trans (h.untried rfl))
  | tried asked => exact absurd asked hsearches
  | refused retry again =>
    refine ⟨fun later hlater => ?_, fun hretry => nomatch hretry⟩
    cases hlater
    exact Engine.freed_of_attempt again
  | acquired retry again => exact absurd again h.not_acquired
  | waiting retry again => exact absurd again h.not_waiting
  | begun | freed => exact hnone (h.untried rfl)
  | requeued next ok =>
    obtain ⟨queue, -, rfl⟩ := Engine.requeue_none ok
    exact hnone (h.untried rfl)
  | rejected next refusal quiet =>
    obtain rfl := Engine.requeue_some refusal
    exact hnone (hquiet quiet (h.untried rfl))
  | finished idle done quiet =>
    exact hnone (hquiet (quiet (hproper _ List.mem_cons_self)) (h.untried rfl))

end Ledger.Stuck

theorem Reached.stuck {moment : Moment σ} (reached : Reached Ordinary moment) :
    moment.ledger.Stuck := by
  refine invariant Ledger.Stuck (fun world fresh => ⟨by simp, fun _ => ?_⟩)
    (fun moment prior ok effect ih => ih.effect effect prior.tallied.sound ok.searches prior.proper)
    reached
  obtain ⟨workers, levels, hchronicle⟩ := fresh.blank.chronicle
  show retries world.engine.chronicle = []
  rw [hchronicle]
  rfl

/-! ### Waiters -/

namespace Engine

/-- Every task has come to wait as often as it was queued again, was rejected, waits, or is in hand. -/
def Balanced (engine : Engine) (hand : List TaskIndex) : Prop :=
  ∀ task, (waits engine.chronicle).count task =
    (requeues engine.chronicle).count task + (rejections engine.chronicle).count task +
      engine.lists.waiting.count task + hand.count task

/-- A task that waits is on a list once more than before. -/
theorem Spare.count_waiting {engine after : Engine} {task : TaskIndex} {tokens : List Token}
    {list : ListIndex} (spare : engine.Spare list) (hnodup : tokens.Nodup)
    (h : engine.attempt task tokens list = .waiting after) (other : TaskIndex) :
    after.lists.waiting.count other = engine.lists.waiting.count other + [task].count other := by
  obtain ⟨holder, table, lists, htable, hadd, rfl⟩ := attempt_waiting h
  obtain ⟨⟨token, -, hheld⟩, -⟩ := HolderTable.claim_held hnodup htable
  have hne : list ≠ holder := fun heq => spare.unheld token (heq ▸ hheld)
  have hidle : (lists.get list).waiters = [] := by
    rw [WaitingLists.get_add? hadd, if_neg hne]
    exact spare.idle
  have hfree := WaitingLists.count_waiting_free lists list other
  have hwaits := WaitingLists.count_waiting_add? hadd other
  rw [hidle, List.count_nil] at hfree
  rw [← hwaits, ← hfree]
  rfl

namespace Balanced

variable {engine after : Engine} {hand : List TaskIndex} {task : TaskIndex} {list : ListIndex}

theorem of_eq (h : engine.Balanced hand) (hlists : after.lists.waiting = engine.lists.waiting)
    (hwaits : waits after.chronicle = waits engine.chronicle)
    (hrequeues : requeues after.chronicle = requeues engine.chronicle)
    (hrejections : rejections after.chronicle = rejections engine.chronicle) :
    after.Balanced hand := by
  intro task
  rw [hwaits, hrequeues, hrejections, hlists]
  exact h task

theorem of_quiet (h : engine.Balanced hand) (quiet : engine.Quiet after) : after.Balanced hand := by
  obtain ⟨news, hnews, hquiet⟩ := quiet.chronicle
  refine h.of_eq (congrArg _ quiet.lists) ?_ ?_ ?_
  · rw [hnews]
    exact filterMap_quiet _ Occurrence.wait?_of_isQuiet hquiet
  · rw [hnews]
    exact filterMap_quiet _ Occurrence.requeue?_of_isQuiet hquiet
  · rw [hnews]
    exact filterMap_quiet _ Occurrence.rejection?_of_isQuiet hquiet

theorem requeue (h : engine.Balanced (task :: hand)) (ok : engine.requeue task = (none, after)) :
    after.Balanced hand := by
  obtain ⟨queue, -, rfl⟩ := requeue_none ok
  intro other
  have hbalance := h other
  show (waits engine.chronicle).count other = (task :: requeues engine.chronicle).count other +
    (rejections engine.chronicle).count other + engine.lists.waiting.count other + hand.count other
  rw [List.count_cons] at hbalance ⊢
  omega

theorem reject (h : engine.Balanced (task :: hand)) (fault : Fault) :
    (engine.record (.reported task { cause := .rejected fault })).Balanced hand := by
  intro other
  have hbalance := h other
  show (waits engine.chronicle).count other = (requeues engine.chronicle).count other +
    (task :: rejections engine.chronicle).count other + engine.lists.waiting.count other +
      hand.count other
  rw [List.count_cons] at hbalance ⊢
  omega

theorem free (h : engine.Balanced hand) (list : ListIndex) :
    (engine.freeList list).2.Balanced ((engine.freeList list).1 ++ hand) := by
  intro other
  have hbalance := h other
  have hfree := WaitingLists.count_waiting_free engine.lists list other
  show (waits engine.chronicle).count other = (requeues engine.chronicle).count other +
    (rejections engine.chronicle).count other + (engine.lists.free list).2.waiting.count other +
      ((engine.lists.get list).waiters ++ hand).count other
  rw [List.count_append]
  omega

/-! ### Claims -/

theorem attempt (h : engine.Balanced hand) (spare : engine.Spare list) {tokens : List Token}
    (hnodup : tokens.Nodup) : (engine.attempt task tokens list).engine.Balanced hand := by
  generalize hadmission : engine.attempt task tokens list = admission
  cases admission with
  | acquired after =>
    obtain ⟨table, -, rfl⟩ := attempt_acquired hadmission
    exact h.of_eq rfl rfl rfl rfl
  | waiting after =>
    have hcount := spare.count_waiting hnodup hadmission
    obtain ⟨holder, table, lists, -, -, rfl⟩ := attempt_waiting hadmission
    intro other
    have hbalance := h other
    have hother := hcount other
    show (task :: waits engine.chronicle).count other = (requeues engine.chronicle).count other +
      (rejections engine.chronicle).count other + (lists.free list).2.waiting.count other +
        hand.count other
    rw [List.count_cons]
    rw [List.count_singleton] at hother
    change (lists.free list).2.waiting.count other = _ at hother
    omega
  | refused after own =>
    obtain ⟨rfl, holder, table, -, -, rfl⟩ := attempt_refused hadmission
    exact h.of_eq rfl rfl rfl rfl

variable {held : List TaskIndex}

theorem claimTokens (h : engine.Balanced hand) (accounted : engine.Accounted held) :
    (engine.claimTokens task).engine.Balanced hand := by
  rcases claimTokens_cases engine task with ⟨-, hclaim⟩ | ⟨-, hclaim⟩
  · rw [hclaim]
    exact h
  · have hmade : { engine with lists := engine.lists.make.2 }.Balanced hand :=
      h.of_eq (WaitingLists.waiting_make _) rfl rfl rfl
    rw [hclaim]
    exact hmade.attempt accounted.make.2 (Token.nodup_distinct _)

/-- A claim for a task that was just taken from the queue. -/
theorem serve (h : engine.Balanced hand) (accounted : engine.Accounted held)
    {queue : PriorityQueue TaskIndex} {level : Nat}
    (dequeued : engine.queue.dequeue = (some (level, task), queue)) :
    ((engine.serve queue task level).claimTokens task).engine.Balanced hand := by
  have hserved : (engine.serve queue task level).Balanced hand := h.of_eq rfl rfl rfl rfl
  exact hserved.claimTokens (accounted.serve dequeued)

theorem skips (h : engine.Balanced hand) (accounted : engine.Accounted held)
    (skips : engine.Skips after) : after.Balanced hand := by
  induction skips with
  | refl => exact h
  | tail prior dequeued waits ih =>
    have hclaimed := ih.serve (accounted.skips prior) dequeued
    rw [waits] at hclaimed
    exact hclaimed

theorem poll (h : engine.Balanced hand) (accounted : engine.Accounted held) :
    engine.poll.engine.Balanced hand := by
  generalize hpoll : engine.poll = poll
  cases hpoll ▸ sought_poll engine with
  | found skips dequeued claims =>
    have hclaimed := (h.skips accounted skips).serve (accounted.skips skips) dequeued
    rw [claims] at hclaimed
    exact hclaimed.of_eq rfl rfl rfl rfl
  | exhausted skips => exact (h.skips accounted skips).of_eq rfl rfl rfl rfl
  | abandoned skips => exact h.skips accounted skips
  | refused skips dequeued refuses =>
    have hclaimed := (h.skips accounted skips).serve (accounted.skips skips) dequeued
    rw [refuses] at hclaimed
    exact hclaimed

end Balanced

end Engine

/-- The waiters in the hands of the releases under way are counted with those that wait. -/
def Ledger.Balanced (ledger : Ledger σ) : Prop :=
  ledger.engine.Balanced (ledger.releases.flatMap Freeing.waiters)

theorem Ledger.Balanced.effect {tries : Prop} {reports : Failure → Prop} {before after : Ledger σ}
    (h : before.Balanced) (accounted : before.Accounted) (stuck : before.Stuck)
    (effect : Effect tries reports before after) (hsearches : ¬ tries)
    (hreports : ∀ failure, reports failure → failure.isRejection = false)
    (hproper : ∀ freeing ∈ before.releases, freeing.after.Proper) : after.Balanced := by
  cases effect with
  | quiet quiet => exact Engine.Balanced.of_quiet h quiet
  | @reported engine after releases task failure asked quiet =>
    have hreported := (Engine.Quiet.refl engine).record (.reported task failure)
      (by simp [Occurrence.isQuiet, hreports failure asked])
    exact Engine.Balanced.of_quiet h (hreported.trans quiet)
  | @scheduled engine middle _ releases _ quiet ok =>
    have hmiddle : middle.Balanced (releases.flatMap Freeing.waiters) :=
      Engine.Balanced.of_quiet h quiet
    obtain ⟨queue, -, rfl⟩ := Engine.schedule_ok ok
    exact hmiddle.of_eq rfl rfl rfl rfl
  | moved ok =>
    obtain ⟨source, queue, -, rfl | ⟨level, rfl⟩⟩ := Engine.applyPriority_ok ok
    · exact h
    · exact Engine.Balanced.of_eq h rfl rfl rfl rfl
  | polled => exact Engine.Balanced.poll h accounted.engine
  | tried asked => exact absurd asked hsearches
  | @refused engine _ releases retry _ again =>
    have hengine : engine.Balanced (releases.flatMap Freeing.waiters) := h
    obtain ⟨-, holder, table, -, -, rfl⟩ := Engine.attempt_refused again
    exact hengine.of_eq rfl rfl rfl rfl
  | acquired retry again => exact absurd again stuck.not_acquired
  | waiting retry again => exact absurd again stuck.not_waiting
  | begun _ => exact Engine.Balanced.of_eq h rfl rfl rfl rfl
  | @freed engine releases freeing list lists idle next =>
    have hengine : engine.Balanced (freeing.waiters ++ releases.flatMap Freeing.waiters) := h
    rw [idle] at hengine
    exact hengine.free list
  | @requeued engine after releases freeing task waiters next ok =>
    have hengine : engine.Balanced (freeing.waiters ++ releases.flatMap Freeing.waiters) := h
    rw [next] at hengine
    exact hengine.requeue ok
  | @rejected engine middle after releases freeing task waiters fault next refusal quiet =>
    have hengine : engine.Balanced (freeing.waiters ++ releases.flatMap Freeing.waiters) := h
    rw [next] at hengine
    obtain rfl := Engine.requeue_some refusal
    have hrejected : ((engine.record (.requeueRefused task fault)).record
        (.reported task { cause := .rejected fault })).Balanced
          (waiters ++ releases.flatMap Freeing.waiters) :=
      (hengine.reject fault).of_eq rfl rfl rfl rfl
    exact hrejected.of_quiet quiet
  | @finished engine after releases freeing idle done quiet =>
    have hengine : engine.Balanced (freeing.waiters ++ releases.flatMap Freeing.waiters) := h
    rw [idle] at hengine
    exact hengine.of_quiet (quiet (hproper freeing List.mem_cons_self))

theorem Reached.balanced {moment : Moment σ} (reached : Reached Ordinary moment) :
    moment.ledger.Balanced := by
  refine invariant Ledger.Balanced (fun world fresh task => ?_)
    (fun moment prior ok effect ih => ih.effect prior.accounted prior.stuck effect ok.searches
      ok.reports prior.proper) reached
  obtain ⟨workers, levels, hchronicle⟩ := fresh.blank.chronicle
  show (waits world.engine.chronicle).count task = (requeues world.engine.chronicle).count task +
    (rejections world.engine.chronicle).count task + world.engine.lists.waiting.count task + 0
  rw [hchronicle, fresh.blank.lists]
  rfl

/-! ### The balance -/

theorem PriorityQueue.Sound.count_inOrder {queue : PriorityQueue TaskIndex} (sound : queue.Sound)
    (task : TaskIndex) : queue.inOrder.count task = if queue.contains task then 1 else 0 := by
  have hnodup : queue.inOrder.Nodup := sound.distinct_inOrder.imp fun h => by simpa using h
  rw [hnodup.count]
  simp only [sound.contains_iff_mem]

/-- Whether a frame waits for the work of an execution, or for the report of its failure. -/
def Frame.isExecution : Frame σ → Bool
  | working .. | reporting .. => true
  | resume .. | attempting .. | running .. | holding .. | closing _ | rejecting .. => false

/-- Where no release is under way, what is under way of executions stands on the stack. -/
theorem Moment.Settled.executions_eq {moment : Moment σ} (settled : moment.Settled)
    (idle : ∀ frame ∈ moment.thread.stack, frame.isExecution = false) :
    moment.thread.executions = 0 := by
  obtain ⟨hcontrol, hbelow⟩ := List.append_eq_nil_iff.mp settled.releases
  have hcalled : moment.thread.called = 0 := by
    refine List.sum_eq_zero fun executions hmem => ?_
    obtain ⟨frame, hframe, rfl⟩ := List.mem_map.mp hmem
    have hidle := idle frame hframe
    have hreleases := List.flatMap_eq_nil_iff.mp hbelow frame hframe
    cases frame with
    | working | reporting => cases hidle
    | rejecting => cases hreleases
    | resume | attempting | running | holding | closing => rfl
  rw [Thread.executions, hcalled]
  cases hdoing : moment.thread.control with
  | freeing own =>
    rw [hdoing] at hcontrol
    cases hcontrol
  | script | claiming | joining | resting => rfl

/-- Whenever no call is under way, what came into the queue is queued, lost a claim or was handed out, and
what lost a claim was queued again, was rejected or waits; and when no execution is under way either, as
many have finished as were called for. -/
theorem statistics_balance {calls : Nat} {moment : Moment σ} (ran : Ran Ordinary calls moment)
    (settled : moment.Settled) :
    (moment.engine.stats.scheduled + moment.engine.stats.requeued =
      moment.engine.pending + moment.engine.stats.contentions +
        (handouts moment.engine.chronicle).length) ∧
    (moment.engine.stats.contentions = moment.engine.stats.requeued +
      (rejections moment.engine.chronicle).length + moment.engine.lists.waiting.length) ∧
    ((∀ frame ∈ moment.thread.stack, frame.isExecution = false) →
      moment.engine.stats.finished = calls) := by
  obtain ⟨honest, hexecutions⟩ := ran.balance
  have hledger : moment.ledger = ⟨moment.engine, [], none⟩ := by
    rw [Moment.ledger, Thread.ledger, settled.releases, settled.retry]
    rfl
  have haccounted := ran.reached.accounted
  have hbalanced := ran.reached.balanced
  have hstuck := ran.reached.stuck
  have htallied := ran.reached.tallied
  rw [hledger] at haccounted hbalanced hstuck
  -- every submission is queued, waits, was handed out or was rejected
  have hsubmissions : (submissions moment.engine.chronicle).Perm
      (moment.engine.queue.inOrder ++ moment.engine.lists.waiting ++
        handouts moment.engine.chronicle ++ rejections moment.engine.chronicle) := by
    refine List.perm_iff_count.mpr fun task => ?_
    have hbalance := haccounted.engine.balance task
    rw [placed, ← htallied.sound.count_inOrder] at hbalance
    rw [List.count_append, List.count_append, List.count_append]
    exact hbalance
  -- everything that came to wait was queued again, was rejected or waits
  have hwaits : (waits moment.engine.chronicle).Perm (requeues moment.engine.chronicle ++
      rejections moment.engine.chronicle ++ moment.engine.lists.waiting) := by
    refine List.perm_iff_count.mpr fun task => ?_
    rw [List.count_append, List.count_append]
    exact hbalanced task
  have hsubmitted := hsubmissions.length_eq
  have hwaited := hwaits.length_eq
  have huntried : retries moment.engine.chronicle = [] := hstuck.untried rfl
  have hpending : moment.engine.pending = moment.engine.queue.inOrder.length :=
    htallied.size_eq_length
  have hscheduled := scheduled_tally moment.engine.chronicle
  have hcontentions := contentions_tally moment.engine.chronicle
  have hrequeued := requeued_tally moment.engine.chronicle
  rw [← honest] at hscheduled hcontentions hrequeued
  rw [huntried, List.length_nil] at hcontentions
  simp only [List.length_append] at hsubmitted hwaited
  refine ⟨by omega, by omega, fun idle => ?_⟩
  rw [settled.executions_eq idle] at hexecutions
  exact hexecutions

/-! ### A run -/

/-- Whether a thread is about to claim tokens outside a search, or to hand a failure to a task on behalf of
a script. -/
def Control.asks : Control σ → Bool
  | script _ (.claim ..) | script _ (.report ..) => true
  | script .. | freeing _ | claiming .. | joining .. | resting .. => false

theorem Ordinary.of_asks {moment : Moment σ} (h : moment.thread.control.asks = false) :
    Ordinary moment := by
  constructor
  · unfold Thread.Tries
    split
    · next hcontrol =>
      rw [hcontrol] at h
      cases h
    · exact id
  · intro failure hreports
    unfold Thread.Reports at hreports
    split at hreports
    · next hcontrol =>
      rw [hcontrol] at h
      cases h
    · cases hreports

/-- The rivals are scheduled; the first is found and the second waits. It is scheduled once more, so that
it is rejected when the first, which has been executed, releases. -/
def Moment.resubmitted : Moment Unit :=
  ⟨.rivals, .ofScript none (.schedule 0 fun _ => .schedule 1 fun _ => .poll fun _ => .poll fun _ =>
    .schedule 1 fun _ => .execute 0 0 (.stop .normal))⟩

theorem Ran.resubmitted : Ran Ordinary 1 (Moment.resubmitted.after 12) := by
  have hran : Ran Ordinary 0 Moment.resubmitted := .begin World.fresh_rivals _ _
  have hasks : ∀ k < 12, (Moment.resubmitted.after k).thread.control.asks = false := by
    decide +kernel
  have hcalls : 0 + Moment.resubmitted.calls 12 = 1 := by decide +kernel
  rw [← hcalls]
  exact hran.steps fun k hk => .of_asks (hasks k hk)

theorem Moment.Settled.resubmitted : (Moment.resubmitted.after 12).Settled :=
  ⟨List.isEmpty_iff.mp (by decide +kernel), Option.isNone_iff_eq_none.mp (by decide +kernel)⟩

theorem statistics_balance_resubmitted :
    (Moment.resubmitted.after 12).engine.stats =
      { scheduled := 3, executed := 1, contentions := 1 } ∧
    (rejections (Moment.resubmitted.after 12).engine.chronicle).length = 1 ∧
    (Moment.resubmitted.after 12).engine.pending +
      (handouts (Moment.resubmitted.after 12).engine.chronicle).length = 2 ∧
    (Moment.resubmitted.after 12).engine.stats.finished = 1 := by
  obtain ⟨hqueue, hwaiting, hfinished⟩ := statistics_balance Ran.resubmitted .resubmitted
  have hstats : (Moment.resubmitted.after 12).engine.stats =
      { scheduled := 3, executed := 1, contentions := 1 } := by decide +kernel
  rw [hstats] at hqueue hwaiting
  dsimp only at hqueue hwaiting
  refine ⟨hstats, ?_, ?_, hfinished (by decide +kernel)⟩
  · have hnobody : (Moment.resubmitted.after 12).engine.lists.waiting.length = 0 := by
      decide +kernel
    omega
  · omega

end Dispatch
