import Dispatch.Proofs.Interleaving
import Dispatch.Proofs.Rollback
import Dispatch.Proofs.Statistics

/-!
# When a claim comes to an end

A claim made outside a search goes on with an answer if no token of the task is held, or if the first one
that is held is held with a list that has not been freed; either way it does so at once
(`claim_returns_iff`). If that list has been freed, which is how a release leaves it that does not take out
all tokens of the holder, every try leaves the engine as it was but for the refusal that is counted and told
(`Engine.refusing`), and so the next try is refused like the one before.

All that is asked of the engine is that its table knows of no lists but those that were made
(`Engine.Made`). This is so at every moment of every run (`Reached.made`), and also when workers claim and
release side by side (`Arena.Reached.made`).
-/

namespace Dispatch

variable {σ : Type}

namespace Engine

variable {engine after : Engine} {task : TaskIndex} {tokens : List Token} {list own : ListIndex}

/-- No token is held with a list that was never made. -/
def Made (engine : Engine) : Prop :=
  ∀ token list, engine.table.holder? token = some list → list < engine.lists.lists.size

/-- The engine after a claim for a task has been refused a number of times: a list was made for it, on which
nobody waits, and each refusal was counted and told. -/
def refusing (engine : Engine) (task : TaskIndex) (turns : Nat) : Engine :=
  { engine with
    lists := engine.lists.make.2
    stats := engine.stats.contend turns
    chronicle := List.replicate turns (.retried task) ++ engine.chronicle }

/-! ### One try -/

/-- A try that is refused changes nothing but the counter and the chronicle. -/
theorem attempt_eq_of_freed (h : engine.awaited? task = some list)
    (hfreed : (engine.lists.get list).freed = true) (own : ListIndex) :
    engine.attempt task (Token.distinct (engine.tokens task)) own =
      .refused ({ engine with stats := engine.stats.countContention }.record (.retried task)) own := by
  obtain ⟨after, hrefused⟩ := attempt_of_freed h hfreed own
  obtain ⟨-, holder, table, hclaim, -, rfl⟩ := attempt_refused hrefused
  rw [hrefused, HolderTable.eq_of_claim_held (Token.nodup_distinct _) hclaim]

/-- The list that a task awaits is not the one that is made for its claim. -/
theorem Made.awaited_lt (made : engine.Made) (h : engine.awaited? task = some list) :
    list < engine.lists.lists.size := by
  obtain ⟨token, -, hheld⟩ := List.exists_of_findSome?_eq_some h
  exact made token list hheld

theorem Made.get_make (made : engine.Made) (h : engine.awaited? task = some list) :
    engine.lists.make.2.get list = engine.lists.get list := by
  rw [WaitingLists.get_make, if_neg (Nat.ne_of_lt (made.awaited_lt h))]

/-- The first try of a claim whose list has been freed. -/
theorem claimTokens_of_freed (made : engine.Made) (h : engine.awaited? task = some list)
    (hfreed : (engine.lists.get list).freed = true) :
    engine.claimTokens task = .refused (engine.refusing task 1) engine.lists.lists.size := by
  rcases claimTokens_cases engine task with ⟨htokens, -⟩ | ⟨-, hclaim⟩
  · rw [awaited?, htokens] at h
    cases h
  · rw [hclaim]
    exact @attempt_eq_of_freed { engine with lists := engine.lists.make.2 } task list h
      ((congrArg WaitingList.freed (made.get_make h)).trans hfreed) engine.lists.lists.size

/-- Any other try of such a claim. -/
theorem attempt_refusing (made : engine.Made) (h : engine.awaited? task = some list)
    (hfreed : (engine.lists.get list).freed = true) (turns : Nat) (own : ListIndex) :
    (engine.refusing task turns).attempt task
        (Token.distinct ((engine.refusing task turns).tokens task)) own =
      .refused (engine.refusing task (turns + 1)) own :=
  @attempt_eq_of_freed (engine.refusing task turns) task list h
    ((congrArg WaitingList.freed (made.get_make h)).trans hfreed) own

/-! ### Lists that were made -/

namespace Made

theorem of_eq (made : engine.Made) (htable : after.table = engine.table)
    (hlists : after.lists = engine.lists) : after.Made := by
  intro token list hheld
  rw [htable] at hheld
  rw [hlists]
  exact made token list hheld

/-- A table that answers less, and lists that are not fewer. -/
theorem mono (made : engine.Made)
    (hholder : ∀ token list, after.table.holder? token = some list →
      engine.table.holder? token = some list)
    (hsize : engine.lists.lists.size ≤ after.lists.lists.size) : after.Made :=
  fun token list hheld => Nat.lt_of_lt_of_le (made token list (hholder token list hheld)) hsize

theorem blank (blank : engine.Blank) : engine.Made := by
  intro token list hheld
  rw [blank.table, HolderTable.holder?_empty] at hheld
  cases hheld

/-- A try with a list that was made; a claim that is to be tried again keeps this list. -/
theorem attempt (made : engine.Made) (hnodup : tokens.Nodup) (hlist : list < engine.lists.lists.size)
    {admission : Admission} (h : engine.attempt task tokens list = admission) :
    admission.engine.Made ∧
      ∀ retry ∈ admission.retry task, retry.list < admission.engine.lists.lists.size := by
  cases admission with
  | acquired after =>
    obtain ⟨table, hclaim, rfl⟩ := attempt_acquired h
    refine ⟨fun token other hheld => ?_, fun _ hmem => nomatch hmem⟩
    have hafter := (HolderTable.claim_acquired hclaim).2 token
    rw [show table.holder? token = some other from hheld] at hafter
    split at hafter
    · cases hafter
      exact hlist
    · exact made token other hafter.symm
  | waiting after =>
    obtain ⟨holder, table, lists, hclaim, hadd, rfl⟩ := attempt_waiting h
    refine ⟨made.mono (fun token other hheld => ?_) ?_, fun _ hmem => nomatch hmem⟩
    · exact ((HolderTable.claim_held hnodup hclaim).2 token).symm.trans hheld
    · show _ ≤ (lists.free list).2.lists.size
      rw [WaitingLists.size_free, WaitingLists.size_add? hadd]
  | refused after own =>
    obtain ⟨rfl, holder, table, hclaim, -, rfl⟩ := attempt_refused h
    refine ⟨made.mono (fun token other hheld => ?_) (Nat.le_refl _), fun retry hmem => ?_⟩
    · exact ((HolderTable.claim_held hnodup hclaim).2 token).symm.trans hheld
    · cases hmem
      exact hlist

theorem claimTokens (made : engine.Made) {admission : Admission}
    (h : engine.claimTokens task = admission) : admission.engine.Made ∧
      ∀ retry ∈ admission.retry task, retry.list < admission.engine.lists.lists.size := by
  rcases claimTokens_cases engine task with ⟨-, hclaim⟩ | ⟨-, hclaim⟩
  · subst h
    rw [hclaim]
    exact ⟨made, fun _ hmem => nomatch hmem⟩
  · have hsize := WaitingLists.size_make engine.lists
    have hmade : { engine with lists := engine.lists.make.2 }.Made :=
      made.mono (fun _ _ hheld => hheld) (hsize ▸ Nat.le_succ _)
    exact hmade.attempt (Token.nodup_distinct _) (hsize ▸ Nat.lt_succ_self _) (hclaim.symm.trans h)

theorem serve (made : engine.Made) (queue : PriorityQueue TaskIndex) (task : TaskIndex) (level : Nat) :
    (engine.serve queue task level).Made :=
  made.of_eq rfl rfl

theorem skips (made : engine.Made) (skips : engine.Skips after) : after.Made := by
  induction skips with
  | refl => exact made
  | tail _ _ waits ih => exact ((ih.serve _ _ _).claimTokens waits).1

theorem poll (made : engine.Made) : engine.poll.engine.Made ∧
    ∀ retry ∈ engine.poll.retry, retry.list < engine.poll.engine.lists.lists.size := by
  have hsought := sought_poll engine
  generalize engine.poll = poll at hsought
  cases hsought with
  | found skips _ claims =>
    have hclaim := (((made.skips skips).serve _ _ _).claimTokens claims).1
    exact ⟨hclaim.of_eq rfl rfl, fun _ hmem => nomatch hmem⟩
  | exhausted skips => exact ⟨(made.skips skips).of_eq rfl rfl, fun _ hmem => nomatch hmem⟩
  | abandoned skips => exact ⟨made.skips skips, fun _ hmem => nomatch hmem⟩
  | refused skips _ refuses =>
    have hclaim := ((made.skips skips).serve _ _ _).claimTokens refuses
    refine ⟨hclaim.1, fun retry hmem => ?_⟩
    cases hmem
    exact hclaim.2 ⟨_, _, false⟩ rfl

end Made

end Engine

structure Ledger.Made (ledger : Ledger σ) : Prop where
  table : ledger.engine.Made
  retry : ∀ retry ∈ ledger.retry, retry.list < ledger.engine.lists.lists.size

namespace Ledger.Made

theorem effect {tries : Prop} {reports : Failure → Prop} {before after : Ledger σ} (made : before.Made)
    (effect : Effect tries reports before after)
    (proper : ∀ freeing ∈ before.releases, freeing.after.Proper) : after.Made := by
  have hidle {engine : Engine} {releases : List (Freeing σ)} (h : engine.Made) :
      Ledger.Made ⟨engine, releases, none⟩ := ⟨h, fun _ hmem => nomatch hmem⟩
  have htable := made.table
  cases effect with
  | quiet quiet => exact hidle (htable.of_eq quiet.table quiet.lists)
  | reported _ quiet => exact hidle (htable.of_eq quiet.table quiet.lists)
  | scheduled quiet ok =>
    obtain ⟨queue, -, rfl⟩ := Engine.schedule_ok ok
    exact hidle (htable.of_eq quiet.table quiet.lists)
  | moved ok =>
    obtain ⟨source, queue, -, rfl | ⟨level, rfl⟩⟩ := Engine.applyPriority_ok ok <;>
      exact hidle (htable.of_eq rfl rfl)
  | polled => exact ⟨htable.poll.1, htable.poll.2⟩
  | tried => exact ⟨(htable.claimTokens rfl).1, (htable.claimTokens rfl).2⟩
  | refused retry again =>
    have hagain := htable.attempt (Token.nodup_distinct _) (made.retry retry rfl) again
    refine ⟨hagain.1, fun later hlater => ?_⟩
    cases hlater
    exact hagain.2 ⟨_, _, false⟩ rfl
  | acquired retry again =>
    have hagain := htable.attempt (Token.nodup_distinct _) (made.retry retry rfl) again
    refine hidle ?_
    split
    · exact hagain.1.of_eq rfl rfl
    · exact hagain.1
  | waiting retry again =>
    have hagain := htable.attempt (Token.nodup_distinct _) (made.retry retry rfl) again
    split
    · exact ⟨hagain.1.poll.1, hagain.1.poll.2⟩
    · exact hidle hagain.1
  | begun =>
    refine hidle (htable.mono (fun token list hheld => ?_) (Nat.le_refl _))
    rcases HolderTable.holder?_take _ _ token with hsame | ⟨hnone, -⟩
    · exact hsame.symm.trans hheld
    · cases hheld.symm.trans hnone
  | freed =>
    exact hidle (htable.mono (fun _ _ hheld => hheld) (Nat.le_of_eq (WaitingLists.size_free _ _).symm))
  | requeued next ok =>
    obtain ⟨queue, -, rfl⟩ := Engine.requeue_none ok
    exact hidle (htable.of_eq rfl rfl)
  | rejected next refusal quiet =>
    obtain rfl := Engine.requeue_some refusal
    exact hidle (htable.of_eq quiet.table quiet.lists)
  | finished idle done quiet =>
    have hquiet := quiet (proper _ List.mem_cons_self)
    exact hidle (htable.of_eq hquiet.table hquiet.lists)

end Ledger.Made

theorem Reached.made {allowed : Moment σ → Prop} {moment : Moment σ} (reached : Reached allowed moment) :
    moment.engine.Made := by
  have hledger : moment.ledger.Made := by
    refine invariant Ledger.Made (fun world fresh => ?_) (fun moment prior _ effect ih => ?_) reached
    · exact ⟨.blank fresh.blank, fun _ hmem => nomatch hmem⟩
    · exact ih.effect effect prior.proper
  exact hledger.table

theorem Arena.Reached.made {arena : Arena} (reached : arena.Reached) : arena.engine.Made :=
  reached.inOrder.accounted.made

/-! ### All tries -/

namespace Moment

variable {moment : Moment σ} {handle : Option HandleIndex} {task : TaskIndex} {list own : ListIndex}
  {next : Bool → Script σ} {frames : List (Frame σ)}

def refusing (moment : Moment σ) (handle : Option HandleIndex) (task : TaskIndex) (next : Bool → Script σ)
    (turns : Nat) : Moment σ :=
  ⟨{ moment.world with engine := moment.engine.refusing task turns },
    moment.thread.doing (.claiming handle task moment.engine.lists.lists.size (.answer next))⟩

theorem next_of_claim (doing : moment.Doing (.script handle (.claim task next)) frames) :
    moment.next =
      ⟨(moment.thread.stepScript moment.world handle (.claim task next)).world,
        (moment.thread.stepScript moment.world handle (.claim task next)).thread⟩ := by
  rw [Moment.next, Thread.step]
  simp only [doing.control]

/-- A claim that is not refused goes on with its answer. -/
theorem next_of_admitted (doing : moment.Doing (.script handle (.claim task next)) frames)
    (h : ∀ list, moment.engine.awaited? task = some list → (moment.engine.lists.get list).freed = false) :
    moment.next.Doing (.script handle (next (moment.engine.isExecutable task))) frames := by
  rw [next_of_claim doing, Engine.isExecutable_eq, Thread.stepScript]
  cases hawaited : moment.engine.awaited? task with
  | none =>
    obtain ⟨after, hclaim, -⟩ := Engine.claimTokens_admits hawaited
    rw [show moment.world.engine.claimTokens task = _ from hclaim]
    exact ⟨rfl, doing.stack⟩
  | some list =>
    obtain ⟨after, hclaim, -⟩ := Engine.claimTokens_defers hawaited (h list hawaited)
    rw [show moment.world.engine.claimTokens task = _ from hclaim]
    exact ⟨rfl, doing.stack⟩

/-- A claim whose list has been freed is to be tried again, however often it has been tried. -/
theorem after_of_freed (made : moment.engine.Made)
    (doing : moment.Doing (.script handle (.claim task next)) frames)
    (h : moment.engine.awaited? task = some list) (hfreed : (moment.engine.lists.get list).freed = true)
    (turns : Nat) : moment.after (turns + 1) = moment.refusing handle task next (turns + 1) := by
  induction turns with
  | zero =>
    show moment.next = _
    rw [next_of_claim doing, Thread.stepScript]
    rw [show moment.world.engine.claimTokens task = _ from Engine.claimTokens_of_freed made h hfreed]
    rfl
  | succ turns ih =>
    show (moment.after (turns + 1)).next = _
    rw [ih, Moment.next, Thread.step]
    simp only [refusing, Thread.doing]
    rw [Engine.attempt_refusing made h hfreed]
    rfl

def Answers (moment : Moment σ) (handle : Option HandleIndex) (next : Bool → Script σ)
    (frames : List (Frame σ)) : Prop :=
  ∃ turns answer, (moment.after (turns + 1)).Doing (.script handle (next answer)) frames

end Moment

/-- A claim goes on with an answer if and only if no token of the task is held, or the first one that is held
is held with a list that has not been freed; then it does so at once, after a single try. If that list has
been freed, the claim is tried for ever, and each try leaves the table, the lists, the queue and all else as
they were, but for the one more refusal that is counted and told. -/
theorem claim_returns_iff {moment : Moment σ} (made : moment.engine.Made) {handle : Option HandleIndex}
    {task : TaskIndex} {next : Bool → Script σ} {frames : List (Frame σ)}
    (doing : moment.Doing (.script handle (.claim task next)) frames) :
    (moment.Answers handle next frames ↔ moment.engine.isExecutable task = true ∨
      ∃ list, moment.engine.awaited? task = some list ∧ (moment.engine.lists.get list).freed = false) ∧
    (moment.Answers handle next frames →
      moment.next.Doing (.script handle (next (moment.engine.isExecutable task))) frames) ∧
    ∀ list, moment.engine.awaited? task = some list → (moment.engine.lists.get list).freed = true →
      ∀ turns, moment.after (turns + 1) = moment.refusing handle task next (turns + 1) := by
  have hadmitted : (∀ list, moment.engine.awaited? task = some list →
      (moment.engine.lists.get list).freed = false) ↔ moment.engine.isExecutable task = true ∨
      ∃ list, moment.engine.awaited? task = some list ∧ (moment.engine.lists.get list).freed = false := by
    rw [Engine.isExecutable_eq]
    cases moment.engine.awaited? task <;> simp
  have hanswers (h : moment.Answers handle next frames) (list : ListIndex)
      (hawaited : moment.engine.awaited? task = some list) :
      (moment.engine.lists.get list).freed = false := by
    obtain ⟨turns, answer, hdoing⟩ := h
    rw [← Bool.not_eq_true]
    intro hfreed
    rw [Moment.after_of_freed made doing hawaited hfreed] at hdoing
    cases hdoing.control
  refine ⟨⟨fun h => hadmitted.mp (hanswers h), fun h => ?_⟩, fun h => ?_, fun list => ?_⟩
  · exact ⟨0, _, Moment.next_of_admitted doing (hadmitted.mpr h)⟩
  · exact Moment.next_of_admitted doing (hanswers h)
  · exact Moment.after_of_freed made doing

/-- A world with a task that needs two tokens, one that needs the first of them and another token, and one
that needs the second of them. -/
def World.orphaned : World Unit :=
  let task (tokens : List Token) : Task := { kind := .repeatable, priority := 0, tokens }
  let code : Code Unit := { work := .repeatable (.stop .normal) }
  let queue : PriorityQueue TaskIndex := ⟨Array.replicate 1 .empty, .empty⟩
  let engine := (Engine.idle { levels := 1 } queue).record (.started 1 1)
  let world := ((World.ofEngine engine ()).addTask (task [.unique 0, .unique 1]) code).2
  let world := (world.addTask (task [.unique 0, .unique 2]) code).2
  (world.addTask (task [.unique 1]) code).2

theorem World.fresh_orphaned : World.orphaned.Fresh :=
  .addTask (.addTask (.addTask (@World.Fresh.start _ { levels := 1 } _ () rfl) _ _) _ _) _ _

/-- The first task gets its tokens, and the second releases one of them, which fails; the other token is left
in the table with a list that has been freed, where the third task finds it. -/
def Moment.orphaned : Moment Unit :=
  ⟨.orphaned, .ofScript none (.claim 0 fun _ => .releaseFor 1 fun _ => .claim 2 fun _ => .stop .normal)⟩

theorem Moment.made_orphaned : (Moment.orphaned.after 4).engine.Made :=
  ((Reached.begin World.fresh_orphaned _ _ : Reached (fun _ => True) Moment.orphaned).steps
    fun _ _ => trivial).made

theorem claim_returns_iff_orphaned : (Moment.orphaned.after 4).engine.awaited? 2 = some 0 ∧
    ((Moment.orphaned.after 4).engine.lists.get 0).freed = true ∧
    ¬ (Moment.orphaned.after 4).Answers none (fun _ => .stop .normal) [] ∧
    ∀ turns, (Moment.orphaned.after 4).after (turns + 1) =
      (Moment.orphaned.after 4).refusing none 2 (fun _ => .stop .normal) (turns + 1) := by
  have hdoing : (Moment.orphaned.after 4).Doing
      (.script none (.claim 2 fun _ => .stop .normal)) [] := ⟨rfl, rfl⟩
  have hawaited : (Moment.orphaned.after 4).engine.awaited? 2 = some 0 := by decide +kernel
  have hfreed : ((Moment.orphaned.after 4).engine.lists.get 0).freed = true := by decide +kernel
  obtain ⟨hiff, -, hrefused⟩ := claim_returns_iff Moment.made_orphaned hdoing
  refine ⟨hawaited, hfreed, fun h => ?_, hrefused 0 hawaited hfreed⟩
  rcases hiff.mp h with hfree | ⟨list, hlist, hopen⟩
  · rw [Engine.isExecutable_eq, hawaited] at hfree
    cases hfree
  · cases hawaited.symm.trans hlist
    cases hfreed.symm.trans hopen

end Dispatch
