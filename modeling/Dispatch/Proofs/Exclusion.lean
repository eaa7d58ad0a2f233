import Dispatch.Proofs.Run

/-!
# Mutual exclusion

A claim is open from the moment a task is handed out until its tokens are taken out of the table. A run
keeps the contract if tasks keep their tokens and no claim is released that is not open. At every moment
of such a run the table is the union of the open claims, no two of which have a token or a list in
common (`Engine.Exclusive`). The invariant adds that the lists which releases are still to free are no
longer in the table, so that freeing them does not touch a claim (`Engine.Orderly`).
-/

namespace Dispatch

variable {σ : Type}

namespace Engine

/-- The open claims as the table shows them: no two of them share a token, their tokens are the held ones,
the tokens of a claim are held with one list, which has not been freed, and those of two claims with
different lists. -/
structure Exclusive (engine : Engine) (claims : List TaskIndex) : Prop where
  disjoint : claims.Pairwise fun first second =>
    ∀ token ∈ engine.tokens first, token ∉ engine.tokens second
  isHeld_iff : ∀ token, engine.table.isHeld token = true ↔
    ∃ task ∈ claims, token ∈ engine.tokens task
  shared : ∀ task ∈ claims, engine.tokens task ≠ [] → ∃ list,
    (engine.lists.get list).freed = false ∧
      ∀ token ∈ engine.tokens task, engine.table.holder? token = some list
  apart : claims.Pairwise fun first second =>
    ∀ token ∈ engine.tokens first, ∀ other ∈ engine.tokens second,
      engine.table.holder? token ≠ engine.table.holder? other

namespace Exclusive

variable {engine after : Engine} {claims rest : List TaskIndex} {task : TaskIndex}
  {token : Token} {list : ListIndex}

theorem held (h : engine.Exclusive claims) (hclaim : task ∈ claims)
    (htoken : token ∈ engine.tokens task) : ∃ list, engine.table.holder? token = some list :=
  HolderTable.isHeld_iff.mp ((h.isHeld_iff token).mpr ⟨task, hclaim, htoken⟩)

theorem not_freed (h : engine.Exclusive claims) (hheld : engine.table.holder? token = some list) :
    (engine.lists.get list).freed = false := by
  obtain ⟨task, hclaim, htoken⟩ :=
    (h.isHeld_iff token).mp (HolderTable.isHeld_iff.mpr ⟨list, hheld⟩)
  obtain ⟨own, hfreed, hown⟩ := h.shared task hclaim (List.ne_nil_of_mem htoken)
  rw [hown token htoken] at hheld
  cases hheld
  exact hfreed

/-- A claim has a list that all its tokens are held with; if it has no tokens, any list will do. -/
theorem exists_list (h : engine.Exclusive claims) (hclaim : task ∈ claims) :
    ∃ list, (engine.tokens task ≠ [] → (engine.lists.get list).freed = false) ∧
      ∀ token ∈ engine.tokens task, engine.table.holder? token = some list := by
  by_cases hnil : engine.tokens task = []
  · exact ⟨0, fun hne => absurd hnil hne, by simp [hnil]⟩
  · obtain ⟨list, hfreed, hown⟩ := h.shared task hclaim hnil
    exact ⟨list, fun _ => hfreed, hown⟩

/-- Different lists for the tokens of different claims make the tokens different. -/
theorem of_apart
    (hheld : ∀ token, engine.table.isHeld token = true ↔
      ∃ task ∈ claims, token ∈ engine.tokens task)
    (hshared : ∀ task ∈ claims, engine.tokens task ≠ [] → ∃ list,
      (engine.lists.get list).freed = false ∧
        ∀ token ∈ engine.tokens task, engine.table.holder? token = some list)
    (hapart : claims.Pairwise fun first second =>
      ∀ token ∈ engine.tokens first, ∀ other ∈ engine.tokens second,
        engine.table.holder? token ≠ engine.table.holder? other) :
    engine.Exclusive claims :=
  ⟨hapart.imp fun h token hfirst hsecond => h token hfirst token hsecond rfl, hheld, hshared, hapart⟩

theorem of_holder?_eq (h : engine.Exclusive claims) (htokens : after.tokens = engine.tokens)
    (htable : ∀ token, after.table.holder? token = engine.table.holder? token)
    (hlists : ∀ token list, engine.table.holder? token = some list →
      (engine.lists.get list).freed = false → (after.lists.get list).freed = false) :
    after.Exclusive claims := by
  refine .of_apart (fun token => ?_) (fun task hclaim hne => ?_) ?_
  · rw [HolderTable.isHeld_eq, htable, htokens, ← HolderTable.isHeld_eq]
    exact h.isHeld_iff token
  · rw [htokens] at hne ⊢
    obtain ⟨list, hfreed, hown⟩ := h.shared task hclaim hne
    obtain ⟨token, htoken⟩ := List.exists_mem_of_ne_nil _ hne
    exact ⟨list, hlists token list (hown token htoken) hfreed, fun token htoken =>
      (htable token).trans (hown token htoken)⟩
  · rw [htokens]
    simp only [htable]
    exact h.apart

/-- The queue and the chronicle do not matter. -/
theorem of_eq (h : engine.Exclusive claims) (htokens : after.tokens = engine.tokens)
    (htable : after.table = engine.table) (hlists : after.lists = engine.lists) :
    after.Exclusive claims :=
  h.of_holder?_eq htokens (fun _ => by rw [htable]) fun _ _ _ hfreed => by rwa [hlists]

theorem perm (h : engine.Exclusive claims) (hperm : claims.Perm rest) : engine.Exclusive rest := by
  refine .of_apart (fun token => ?_) (fun task hclaim => ?_) ?_
  · rw [h.isHeld_iff]
    exact exists_congr fun task => and_congr_left' hperm.mem_iff
  · exact h.shared task (hperm.mem_iff.mpr hclaim)
  · refine (hperm.pairwise_iff fun hapart token htoken other hother heq => ?_).mp h.apart
    exact hapart other hother token htoken heq.symm

/-- A task without tokens may be claimed at any time. -/
theorem cons_of_nil (h : engine.Exclusive claims) (hnil : engine.tokens task = []) :
    engine.Exclusive (task :: claims) := by
  refine .of_apart (fun token => ?_) (fun other hclaim hne => ?_) (List.pairwise_cons.mpr ⟨?_, h.apart⟩)
  · rw [h.isHeld_iff]
    simp [hnil]
  · rcases List.mem_cons.mp hclaim with rfl | hclaim
    · exact absurd hnil hne
    · exact h.shared other hclaim hne
  · intro other _ token htoken
    rw [hnil] at htoken
    cases htoken

/-- A claim that succeeds with a new list opens a claim. -/
theorem enter (h : engine.Exclusive claims) {table : HolderTable}
    (hclaim : engine.table.claim (Token.distinct (engine.tokens task)) list = (.acquired, table))
    (hfreed : (engine.lists.get list).freed = false)
    (hnew : ∀ token, engine.table.holder? token ≠ some list) :
    { engine with table }.Exclusive (task :: claims) := by
  obtain ⟨hfree, hafter⟩ := HolderTable.claim_acquired hclaim
  simp only [Token.mem_distinct] at hfree hafter
  have hown (token : Token) (htoken : token ∈ engine.tokens task) :
      table.holder? token = some list := by
    rw [hafter, if_pos htoken]
  have hkept (other : TaskIndex) (hother : other ∈ claims) (token : Token)
      (htoken : token ∈ engine.tokens other) :
      table.holder? token = engine.table.holder? token := by
    obtain ⟨list', hheld⟩ := h.held hother htoken
    rw [hafter, if_neg]
    intro hmem
    rw [hfree token hmem] at hheld
    cases hheld
  refine .of_apart (fun token => ?_) (fun other hother hne => ?_)
    (List.pairwise_cons.mpr ⟨fun other hother token htoken token' htoken' => ?_,
      h.apart.imp_of_mem fun {first second} hfirst hsecond hapart token htoken token' htoken' => ?_⟩)
  · show table.isHeld token = true ↔ _
    rw [HolderTable.isHeld_eq, hafter]
    by_cases hmem : token ∈ engine.tokens task
    · rw [if_pos hmem]
      exact ⟨fun _ => ⟨task, List.mem_cons_self, hmem⟩, fun _ => rfl⟩
    · rw [if_neg hmem, ← HolderTable.isHeld_eq, h.isHeld_iff]
      constructor
      · rintro ⟨other, hother, htoken⟩
        exact ⟨other, List.mem_cons_of_mem _ hother, htoken⟩
      · rintro ⟨other, hother, htoken⟩
        rcases List.mem_cons.mp hother with rfl | hother
        · exact absurd htoken hmem
        · exact ⟨other, hother, htoken⟩
  · rcases List.mem_cons.mp hother with rfl | hother
    · exact ⟨list, hfreed, hown⟩
    · obtain ⟨list', hfreed', hheld⟩ := h.shared other hother hne
      exact ⟨list', hfreed', fun token htoken =>
        (hkept other hother token htoken).trans (hheld token htoken)⟩
  · show table.holder? token ≠ table.holder? token'
    rw [hown token htoken, hkept other hother token' htoken']
    exact (hnew token').symm
  · show table.holder? token ≠ table.holder? token'
    rw [hkept first hfirst token htoken, hkept second hsecond token' htoken']
    exact hapart token htoken token' htoken'

/-- The release of an open claim finds all its tokens, and closes this claim and no other. No token is
held with the list of the claim any longer. -/
theorem leave (h : engine.Exclusive (task :: rest)) :
    (engine.table.take (Token.distinct (engine.tokens task))).outcome = .ok () ∧
      { engine with
        table := (engine.table.take (Token.distinct (engine.tokens task))).table }.Exclusive rest ∧
      ∀ list ∈ (engine.table.take (Token.distinct (engine.tokens task))).lists,
        (engine.lists.get list).freed = false ∧ ∀ token,
          (engine.table.take (Token.distinct (engine.tokens task))).table.holder? token ≠
            some list := by
  obtain ⟨list, hfreed, hown⟩ := h.exists_list List.mem_cons_self
  obtain ⟨houtcome, hlists, hafter⟩ := HolderTable.take_of_held
    (Token.nodup_distinct (engine.tokens task))
    (fun token htoken => hown token (Token.mem_distinct.mp htoken))
  simp only [Token.mem_distinct] at hafter
  generalize engine.table.take (Token.distinct (engine.tokens task)) = taken
    at houtcome hlists hafter ⊢
  obtain ⟨hdisjoint, -⟩ := List.pairwise_cons.mp h.disjoint
  obtain ⟨hfirst, hrest⟩ := List.pairwise_cons.mp h.apart
  have hkept (other : TaskIndex) (hother : other ∈ rest) (token : Token)
      (htoken : token ∈ engine.tokens other) :
      taken.table.holder? token = engine.table.holder? token := by
    rw [hafter, if_neg fun hmem => hdisjoint other hother token hmem htoken]
  have hheld (token : Token) : taken.table.isHeld token = true ↔
      ∃ other ∈ rest, token ∈ engine.tokens other := by
    rw [HolderTable.isHeld_eq, hafter]
    by_cases hmem : token ∈ engine.tokens task
    · simpa [hmem] using fun other hother => hdisjoint other hother token hmem
    · rw [if_neg hmem, ← HolderTable.isHeld_eq, h.isHeld_iff]
      simp [hmem]
  refine ⟨houtcome, .of_apart hheld (fun other hother hne => ?_)
    (hrest.imp_of_mem fun {first second} hfirst hsecond hapart token htoken token' htoken' => ?_),
    fun list' hmem => ?_⟩
  · obtain ⟨list', hfreed', hother'⟩ := h.shared other (List.mem_cons_of_mem _ hother) hne
    exact ⟨list', hfreed', fun token htoken =>
      (hkept other hother token htoken).trans (hother' token htoken)⟩
  · show taken.table.holder? token ≠ taken.table.holder? token'
    rw [hkept first hfirst token htoken, hkept second hsecond token' htoken']
    exact hapart token htoken token' htoken'
  · have hne : engine.tokens task ≠ [] := by
      intro hnil
      rw [hlists, hnil] at hmem
      cases hmem
    have hlist : list' = list := by
      rw [hlists] at hmem
      split at hmem
      · cases hmem
      · exact List.mem_singleton.mp hmem
    subst hlist
    refine ⟨hfreed hne, fun token hlist => ?_⟩
    obtain ⟨other, hother, htoken⟩ := (hheld token).mp (HolderTable.isHeld_iff.mpr ⟨list', hlist⟩)
    obtain ⟨own, hmem'⟩ := List.exists_mem_of_ne_nil _ hne
    refine hfirst other hother own hmem' token htoken ?_
    rw [hown own hmem', ← hkept other hother token htoken, hlist]

end Exclusive

/-- The table shows the open claims of the chronicle, and the lists that are still to be freed are no
longer in it. -/
structure Orderly (engine : Engine) (pending : List ListIndex) : Prop where
  exclusive : engine.Exclusive (openClaims engine.chronicle)
  made : ∀ list ∈ pending, list < engine.lists.lists.size
  unheld : ∀ list ∈ pending, ∀ token, engine.table.holder? token ≠ some list

namespace Orderly

variable {engine after : Engine} {pending : List ListIndex} {task : TaskIndex} {list : ListIndex}

theorem of_eq (h : engine.Orderly pending) (htokens : after.tokens = engine.tokens)
    (hclaims : openClaims after.chronicle = openClaims engine.chronicle)
    (htable : after.table = engine.table) (hlists : after.lists = engine.lists) :
    after.Orderly pending := by
  refine ⟨?_, fun list hmem => ?_, fun list hmem => ?_⟩
  · rw [hclaims]
    exact h.exclusive.of_eq htokens htable hlists
  · rw [hlists]
    exact h.made list hmem
  · rw [htable]
    exact h.unheld list hmem

theorem of_quiet (h : engine.Orderly pending) (htokens : after.tokens = engine.tokens)
    (quiet : engine.Quiet after) : after.Orderly pending := by
  obtain ⟨news, hnews, hquiet⟩ := quiet.chronicle
  refine h.of_eq htokens ?_ quiet.table quiet.lists
  rw [hnews, openClaims_quiet _ hquiet]

theorem not_held_size (h : engine.Orderly pending) (token : Token) :
    engine.table.holder? token ≠ some engine.lists.lists.size := fun hheld =>
  Nat.lt_irrefl _ (WaitingLists.lt_of_not_freed (h.exclusive.not_freed hheld))

theorem make (h : engine.Orderly pending) :
    { engine with lists := engine.lists.make.2 }.Orderly pending := by
  refine ⟨h.exclusive.of_holder?_eq rfl (fun _ => rfl) fun token list hheld hfreed => ?_,
    fun list hmem => ?_, h.unheld⟩
  · show (engine.lists.make.2.get list).freed = false
    rw [WaitingLists.get_make]
    split
    · rfl
    · exact hfreed
  · show list < engine.lists.make.2.lists.size
    rw [WaitingLists.size_make]
    exact Nat.lt_succ_of_lt (h.made list hmem)

theorem acquired (h : engine.Orderly pending) (claims : engine.claimTokens task = .acquired after) :
    (after.record (.handedOut task)).Orderly pending := by
  rcases claimTokens_cases engine task with ⟨hnil, hclaim⟩ | ⟨hne, hclaim⟩
  · rw [hclaim] at claims
    cases claims
    exact ⟨(h.exclusive.cons_of_nil hnil).of_eq rfl rfl rfl, h.made, h.unheld⟩
  · rw [hclaim] at claims
    obtain ⟨table, htable, rfl⟩ := attempt_acquired claims
    have hmade := h.make
    refine ⟨(hmade.exclusive.enter htable ?_ h.not_held_size).of_eq rfl rfl rfl, hmade.made,
      fun list hmem token => ?_⟩
    · show (engine.lists.make.2.get engine.lists.lists.size).freed = false
      rw [WaitingLists.get_make, if_pos rfl]
    · show table.holder? token ≠ some list
      rw [(HolderTable.claim_acquired htable).2]
      split
      · exact fun heq => Nat.ne_of_gt (h.made list hmem) (Option.some.inj heq)
      · exact h.unheld list hmem token

theorem waiting (h : engine.Orderly pending) (waits : engine.claimTokens task = .waiting after) :
    after.Orderly pending ∧ after.tokens = engine.tokens := by
  rcases claimTokens_cases engine task with ⟨_, hclaim⟩ | ⟨_, hclaim⟩
  · rw [hclaim] at waits
    cases waits
  · rw [hclaim] at waits
    obtain ⟨holder, table, lists, htable, hadd, rfl⟩ := attempt_waiting waits
    have hsame := (HolderTable.claim_held (Token.nodup_distinct _) htable).2
    have hmade := h.make
    refine ⟨⟨hmade.exclusive.of_holder?_eq rfl hsame fun token list hheld hfreed => ?_,
      fun list hmem => ?_, fun list hmem token => ?_⟩, rfl⟩
    · show ((lists.free engine.lists.lists.size).2.get list).freed = false
      have hne : list ≠ engine.lists.lists.size := fun heq => h.not_held_size token (heq ▸ hheld)
      rw [WaitingLists.get_free, if_neg hne, WaitingLists.get_add? hadd]
      split
      · rfl
      · exact hfreed
    · show list < (lists.free engine.lists.lists.size).2.lists.size
      rw [WaitingLists.size_free, WaitingLists.size_add? hadd]
      exact hmade.made list hmem
    · show table.holder? token ≠ some list
      rw [hsame]
      exact h.unheld list hmem token

theorem not_refused (h : engine.Orderly pending) :
    engine.claimTokens task ≠ .refused after list := fun refuses => by
  rcases claimTokens_cases engine task with ⟨_, hclaim⟩ | ⟨_, hclaim⟩
  · rw [hclaim] at refuses
    cases refuses
  · rw [hclaim] at refuses
    obtain ⟨-, holder, table, htable, hfreed, -⟩ := attempt_refused refuses
    obtain ⟨token, -, hheld⟩ := (HolderTable.claim_held (Token.nodup_distinct _) htable).1
    rw [h.make.exclusive.not_freed hheld] at hfreed
    cases hfreed

theorem serve (h : engine.Orderly pending) (queue : PriorityQueue TaskIndex) (task : TaskIndex)
    (level : Nat) : (engine.serve queue task level).Orderly pending :=
  h.of_eq rfl rfl rfl rfl

theorem skips (h : engine.Orderly pending) (skips : engine.Skips after) :
    after.Orderly pending := by
  induction skips with
  | refl => exact h
  | tail _ _ waits ih => exact ((ih.serve _ _ _).waiting waits).1

/-- A search opens a claim for the task it finds, and is never held up. -/
theorem poll (h : engine.Orderly pending) :
    engine.poll.engine.Orderly pending ∧ engine.poll.retry = none := by
  generalize hpoll : engine.poll = poll
  have sought := hpoll ▸ sought_poll engine
  cases sought with
  | found skips _ claims => exact ⟨((h.skips skips).serve _ _ _).acquired claims, rfl⟩
  | exhausted skips _ => exact ⟨(h.skips skips).of_eq rfl rfl rfl rfl, rfl⟩
  | abandoned skips => exact ⟨h.skips skips, rfl⟩
  | refused skips _ refuses => exact absurd refuses ((h.skips skips).serve _ _ _).not_refused

theorem takeTokens (h : engine.Orderly pending) (handle : Option HandleIndex)
    (hopen : task ∈ openClaims engine.chronicle) :
    (engine.takeTokens task handle).2.1 = .ok () ∧
      (engine.takeTokens task handle).2.2.Orderly
        ((engine.takeTokens task handle).1 ++ pending) := by
  have hexclusive := h.exclusive.perm (List.perm_cons_erase hopen)
  obtain ⟨houtcome, hrest, hlists⟩ := hexclusive.leave
  refine ⟨houtcome, hrest.of_eq rfl rfl rfl, fun list hmem => ?_, fun list hmem token => ?_⟩
  · rcases List.mem_append.mp hmem with hmem | hmem
    · exact WaitingLists.lt_of_not_freed (hlists list hmem).1
    · exact h.made list hmem
  · rcases List.mem_append.mp hmem with hmem | hmem
    · exact (hlists list hmem).2 token
    · rcases HolderTable.holder?_take engine.table (Token.distinct (engine.tokens task)) token
        with hsame | ⟨hnone, -⟩
      · exact fun hheld => h.unheld list hmem token (hsame ▸ hheld)
      · exact fun hheld => Option.some_ne_none list (hheld ▸ hnone)

theorem freeList (h : engine.Orderly (list :: pending)) :
    (engine.freeList list).2.Orderly pending := by
  refine ⟨h.exclusive.of_holder?_eq rfl (fun _ => rfl) fun token other hheld hfreed => ?_,
    fun other hmem => ?_, fun other hmem => h.unheld other (List.mem_cons_of_mem _ hmem)⟩
  · show ((engine.lists.free list).2.get other).freed = false
    have hne : other ≠ list := fun heq => h.unheld list List.mem_cons_self token (heq ▸ hheld)
    rw [WaitingLists.get_free, if_neg hne]
    exact hfreed
  · show other < (engine.lists.free list).2.lists.size
    rw [WaitingLists.size_free]
    exact h.made other (List.mem_cons_of_mem _ hmem)

end Orderly

end Engine

/-- A step that keeps the contract: it changes no task's tokens, claims none outside a search, and
releases none but those of an open claim. -/
structure Contract (moment : Moment σ) : Prop where
  tokens : moment.next.engine.tokens = moment.engine.tokens
  searches : ¬ moment.thread.Tries
  releases : onlyClaimsReleased moment.next.engine.chronicle = true

structure Ledger.Orderly (ledger : Ledger σ) : Prop where
  engine : ledger.engine.Orderly (ledger.releases.flatMap Freeing.lists)
  retry : ledger.retry = none

theorem Ledger.Orderly.effect {tries : Prop} {reports : Failure → Prop} {before after : Ledger σ}
    (h : before.Orderly) (effect : Effect tries reports before after) (hsearches : ¬ tries)
    (htokens : after.engine.tokens = before.engine.tokens)
    (hreleases : onlyClaimsReleased after.engine.chronicle = true)
    (hproper : ∀ freeing ∈ before.releases, freeing.after.Proper) : after.Orderly := by
  cases effect with
  | quiet quiet => exact ⟨h.engine.of_quiet htokens quiet, rfl⟩
  | reported _ quiet =>
    obtain ⟨news, hnews, hquiet⟩ := quiet.chronicle
    refine ⟨h.engine.of_eq htokens ?_ quiet.table quiet.lists, rfl⟩
    rw [hnews, openClaims_quiet _ hquiet]
    rfl
  | scheduled quiet ok =>
    obtain ⟨queue, -, rfl⟩ := Engine.schedule_ok ok
    obtain ⟨news, hnews, hquiet⟩ := quiet.chronicle
    refine ⟨h.engine.of_eq htokens ?_ quiet.table quiet.lists, rfl⟩
    exact (congrArg openClaims hnews).trans (openClaims_quiet _ hquiet)
  | moved ok =>
    obtain ⟨source, queue, -, rfl | ⟨level, rfl⟩⟩ := Engine.applyPriority_ok ok
    · exact ⟨h.engine.of_eq rfl rfl rfl rfl, rfl⟩
    · exact ⟨h.engine.of_eq rfl rfl rfl rfl, rfl⟩
  | polled => exact ⟨h.engine.poll.1, h.engine.poll.2⟩
  | tried asked => exact absurd asked hsearches
  | refused retry | acquired retry | waiting retry => cases h.retry
  | begun _ =>
    have hopen := (Bool.and_eq_true_iff.mp hreleases).1
    exact ⟨(h.engine.takeTokens _ (List.contains_iff_mem.mp hopen)).2, rfl⟩
  | freed idle next =>
    refine ⟨Engine.Orderly.freeList ?_, rfl⟩
    have hengine := h.engine
    rw [List.flatMap_cons, next] at hengine
    exact hengine
  | requeued _ ok =>
    obtain ⟨queue, -, rfl⟩ := Engine.requeue_none ok
    exact ⟨h.engine.of_eq htokens rfl rfl rfl, rfl⟩
  | rejected _ refusal quiet =>
    obtain rfl := Engine.requeue_some refusal
    obtain ⟨news, hnews, hquiet⟩ := quiet.chronicle
    refine ⟨h.engine.of_eq htokens ?_ quiet.table quiet.lists, rfl⟩
    rw [hnews, openClaims_quiet _ hquiet]
    rfl
  | finished _ done quiet =>
    have hengine := h.engine
    rw [List.flatMap_cons, done] at hengine
    exact ⟨hengine.of_quiet htokens (quiet (hproper _ List.mem_cons_self)), rfl⟩

theorem Engine.Blank.orderly {engine : Engine} (blank : engine.Blank) : engine.Orderly [] := by
  obtain ⟨workers, levels, hchronicle⟩ := blank.chronicle
  have hclaims : openClaims engine.chronicle = [] := by
    rw [hchronicle]
    rfl
  refine ⟨?_, fun list hmem => absurd hmem List.not_mem_nil,
    fun list hmem => absurd hmem List.not_mem_nil⟩
  rw [hclaims]
  refine .of_apart (fun token => ?_) (fun task hclaim => absurd hclaim List.not_mem_nil) .nil
  rw [HolderTable.isHeld_eq, blank.table, HolderTable.holder?_empty]
  simp

/-- At every moment of a run that keeps the contract the ledger is orderly. -/
theorem Reached.orderly {moment : Moment σ} (reached : Reached Contract moment) :
    moment.ledger.Orderly :=
  invariant Ledger.Orderly (fun _ fresh => ⟨fresh.blank.orderly, rfl⟩)
    (fun _ prior ok effect ih =>
      ih.effect effect ok.searches ok.tokens ok.releases prior.proper) reached

/-- At every moment of a run that keeps the contract the table shows the open claims. -/
theorem exclusive_of_reached {moment : Moment σ} (reached : Reached Contract moment) :
    moment.engine.Exclusive (openClaims moment.engine.chronicle) :=
  reached.orderly.engine.exclusive

theorem Contract.rivals : ∀ k < 4, Contract (Moment.rivals.after k)
  | 0, _ => ⟨rfl, id, by decide +kernel⟩
  | 1, _ => ⟨rfl, id, by decide +kernel⟩
  | 2, _ => ⟨rfl, id, by decide +kernel⟩
  | 3, _ => ⟨Engine.tokens_congr (by decide +kernel), id, by decide +kernel⟩

theorem exclusive_rivals : openClaims (Moment.rivals.after 4).engine.chronicle = [0] ∧
    (Moment.rivals.after 4).engine.Exclusive
      (openClaims (Moment.rivals.after 4).engine.chronicle) :=
  ⟨by decide +kernel, exclusive_of_reached (.rivals Contract.rivals)⟩

end Dispatch
