import Dispatch.Proofs.Run

/-!
# Nobody waits in vain

Whoever waits, waits on a list that will be freed: it is the list of a held token, or a release has it in
hand already (`Engine.Attended`). This asks nothing of the run. A release may be made for a task that never
claimed anything, may find the tokens of several holders and stop half-way; the lists of the tokens it has
taken out by then are still the ones it goes on to free.
-/

namespace Dispatch

variable {σ : Type}

namespace Engine

/-- Every list that somebody waits on is yet to be freed, and stands in the table or is among the lists
that releases have in hand. -/
def Attended (engine : Engine) (pending : List ListIndex) : Prop :=
  ∀ list, (engine.lists.get list).waiters ≠ [] → (engine.lists.get list).freed = false ∧
    ((∃ token, engine.table.holder? token = some list) ∨ list ∈ pending)

namespace Attended

variable {engine after : Engine} {pending : List ListIndex} {task : TaskIndex} {list : ListIndex}
  {tokens : List Token}

theorem of_eq (h : engine.Attended pending) (htable : after.table = engine.table)
    (hlists : after.lists = engine.lists) : after.Attended pending := by
  intro list
  rw [htable, hlists]
  exact h list

/-- A list that is freed has no waiters left. -/
theorem free (h : engine.Attended (list :: pending)) :
    (engine.freeList list).2.Attended pending := by
  intro other hne
  change ((engine.lists.free list).2.get other).waiters ≠ [] at hne
  show ((engine.lists.free list).2.get other).freed = false ∧ _
  rw [WaitingLists.get_free] at hne ⊢
  by_cases hother : other = list
  · rw [if_pos hother] at hne
    exact absurd rfl hne
  · rw [if_neg hother] at hne ⊢
    obtain ⟨hfreed, hheld | hmem⟩ := h other hne
    · exact ⟨hfreed, Or.inl hheld⟩
    · rcases List.mem_cons.mp hmem with heq | hmem
      · exact absurd heq hother
      · exact ⟨hfreed, Or.inr hmem⟩

theorem make (h : engine.Attended pending) :
    { engine with lists := engine.lists.make.2 }.Attended pending := by
  intro list hne
  change (engine.lists.make.2.get list).waiters ≠ [] at hne
  show (engine.lists.make.2.get list).freed = false ∧ _
  rw [WaitingLists.get_make] at hne ⊢
  split at hne
  · exact absurd rfl hne
  · next hlist =>
    rw [if_neg hlist]
    exact h list hne

/-- A token that is entered was held with no list before. -/
theorem acquired (h : engine.Attended pending)
    (claims : engine.attempt task tokens list = .acquired after) : after.Attended pending := by
  obtain ⟨table, htable, rfl⟩ := attempt_acquired claims
  obtain ⟨hfree, hafter⟩ := HolderTable.claim_acquired htable
  intro other hne
  obtain ⟨hfreed, ⟨token, hheld⟩ | hmem⟩ := h other hne
  · refine ⟨hfreed, Or.inl ⟨token, ?_⟩⟩
    show table.holder? token = some other
    rw [hafter, if_neg, hheld]
    intro htoken
    rw [hfree token htoken] at hheld
    cases hheld
  · exact ⟨hfreed, Or.inr hmem⟩

/-- A task waits on the list of a token that is held. -/
theorem waiting (h : engine.Attended pending) (hnodup : tokens.Nodup)
    (waits : engine.attempt task tokens list = .waiting after) : after.Attended pending := by
  obtain ⟨holder, table, lists, htable, hadd, rfl⟩ := attempt_waiting waits
  obtain ⟨⟨token, -, hholder⟩, hsame⟩ := HolderTable.claim_held hnodup htable
  have hadded : { engine with table, lists }.Attended pending := by
    intro other hne
    change (lists.get other).waiters ≠ [] at hne
    show (lists.get other).freed = false ∧
      ((∃ token, table.holder? token = some other) ∨ other ∈ pending)
    rw [WaitingLists.get_add? hadd] at hne ⊢
    by_cases hother : other = holder
    · rw [if_pos hother]
      exact ⟨rfl, Or.inl ⟨token, by rw [hsame, hholder, hother]⟩⟩
    · rw [if_neg hother] at hne ⊢
      obtain ⟨hfreed, ⟨token, hheld⟩ | hmem⟩ := h other hne
      · exact ⟨hfreed, Or.inl ⟨token, (hsame token).trans hheld⟩⟩
      · exact ⟨hfreed, Or.inr hmem⟩
  have hfree : ({ engine with table, lists }.freeList list).2.Attended pending :=
    free fun other hne => (hadded other hne).imp_right (Or.imp_right (List.mem_cons_of_mem _))
  exact hfree.of_eq rfl rfl

theorem refused {own : ListIndex} (h : engine.Attended pending) (hnodup : tokens.Nodup)
    (refuses : engine.attempt task tokens list = .refused after own) : after.Attended pending := by
  obtain ⟨-, holder, table, htable, -, rfl⟩ := attempt_refused refuses
  have hsame := (HolderTable.claim_held hnodup htable).2
  intro other hne
  obtain ⟨hfreed, ⟨token, hheld⟩ | hmem⟩ := h other hne
  · exact ⟨hfreed, Or.inl ⟨token, (hsame token).trans hheld⟩⟩
  · exact ⟨hfreed, Or.inr hmem⟩

theorem attempt (h : engine.Attended pending) (hnodup : tokens.Nodup) :
    (engine.attempt task tokens list).engine.Attended pending := by
  generalize hadmission : engine.attempt task tokens list = admission
  cases admission with
  | acquired after => exact h.acquired hadmission
  | waiting after => exact h.waiting hnodup hadmission
  | refused after own => exact h.refused hnodup hadmission

theorem claimTokens (h : engine.Attended pending) :
    (engine.claimTokens task).engine.Attended pending := by
  rcases claimTokens_cases engine task with ⟨_, hclaim⟩ | ⟨_, hclaim⟩
  · rw [hclaim]
    exact h
  · rw [hclaim]
    exact h.make.attempt (Token.nodup_distinct _)

theorem claim (h : engine.Attended pending) {queue : PriorityQueue TaskIndex} {level : Nat}
    {admission : Admission} (claims : (engine.serve queue task level).claimTokens task = admission) :
    admission.engine.Attended pending :=
  claims ▸ claimTokens (h.of_eq rfl rfl)

theorem skips (h : engine.Attended pending) (skips : engine.Skips after) :
    after.Attended pending := by
  induction skips with
  | refl => exact h
  | tail _ _ waits ih => exact ih.claim waits

theorem poll (h : engine.Attended pending) : engine.poll.engine.Attended pending := by
  generalize hpoll : engine.poll = poll
  have sought := hpoll ▸ sought_poll engine
  cases sought with
  | found skips _ claims => exact ((h.skips skips).claim claims).of_eq rfl rfl
  | exhausted skips _ => exact (h.skips skips).of_eq rfl rfl
  | abandoned skips => exact h.skips skips
  | refused skips _ refuses => exact (h.skips skips).claim refuses

/-- A release has the list of every token that it takes out of the table. -/
theorem takeTokens (h : engine.Attended pending) (task : TaskIndex)
    (handle : Option HandleIndex) :
    (engine.takeTokens task handle).2.2.Attended ((engine.takeTokens task handle).1 ++ pending) := by
  intro list hne
  obtain ⟨hfreed, ⟨token, hheld⟩ | hmem⟩ := h list hne
  · refine ⟨hfreed, ?_⟩
    rcases HolderTable.holder?_take engine.table (Token.distinct (engine.tokens task)) token
      with hsame | ⟨-, taken, hmem, htaken⟩
    · exact Or.inl ⟨token, hsame.trans hheld⟩
    · cases hheld.symm.trans htaken
      exact Or.inr (List.mem_append_left _ hmem)
  · exact ⟨hfreed, Or.inr (List.mem_append_right _ hmem)⟩

end Attended

end Engine

/-- Every list that somebody waits on will be freed. -/
def Ledger.Attended (ledger : Ledger σ) : Prop :=
  ledger.engine.Attended (ledger.releases.flatMap Freeing.lists)

theorem Ledger.Attended.effect {tries : Prop} {reports : Failure → Prop} {before after : Ledger σ}
    (h : before.Attended) (effect : Effect tries reports before after)
    (hproper : ∀ freeing ∈ before.releases, freeing.after.Proper) : after.Attended := by
  cases effect with
  | quiet quiet => exact Engine.Attended.of_eq h quiet.table quiet.lists
  | reported _ quiet => exact Engine.Attended.of_eq h quiet.table quiet.lists
  | scheduled quiet ok =>
    obtain ⟨queue, -, rfl⟩ := Engine.schedule_ok ok
    exact Engine.Attended.of_eq h quiet.table quiet.lists
  | moved ok =>
    obtain ⟨source, queue, -, rfl | ⟨level, rfl⟩⟩ := Engine.applyPriority_ok ok
    · exact Engine.Attended.of_eq h rfl rfl
    · exact Engine.Attended.of_eq h rfl rfl
  | polled => exact Engine.Attended.poll h
  | tried _ => exact Engine.Attended.claimTokens h
  | refused retry again => exact Engine.Attended.refused h (Token.nodup_distinct _) again
  | acquired retry again =>
    have hafter := Engine.Attended.acquired h again
    show Engine.Attended (if retry.polled then _ else _) _
    split
    · exact hafter.of_eq rfl rfl
    · exact hafter
  | waiting retry again =>
    have hafter := Engine.Attended.waiting h (Token.nodup_distinct _) again
    show Engine.Attended (if retry.polled then _ else _) _
    split
    · exact hafter.poll
    · exact hafter
  | begun _ => exact Engine.Attended.takeTokens h _ _
  | @freed engine releases freeing list lists _ next =>
    have hengine : engine.Attended (freeing.lists ++ releases.flatMap Freeing.lists) := h
    rw [next] at hengine
    exact hengine.free
  | requeued _ ok =>
    obtain ⟨queue, -, rfl⟩ := Engine.requeue_none ok
    exact Engine.Attended.of_eq h rfl rfl
  | rejected _ refusal quiet =>
    obtain rfl := Engine.requeue_some refusal
    exact Engine.Attended.of_eq h quiet.table quiet.lists
  | @finished engine after releases freeing _ done quiet =>
    have hengine : engine.Attended (freeing.lists ++ releases.flatMap Freeing.lists) := h
    have hquiet := quiet (hproper freeing List.mem_cons_self)
    rw [done] at hengine
    exact hengine.of_eq hquiet.table hquiet.lists

theorem Engine.Blank.attended {engine : Engine} (blank : engine.Blank) : engine.Attended [] := by
  intro list hne
  rw [blank.lists] at hne
  exact absurd rfl hne

theorem Reached.attended {allowed : Moment σ → Prop} {moment : Moment σ}
    (reached : Reached allowed moment) : moment.ledger.Attended :=
  invariant Ledger.Attended (fun _ fresh => fresh.blank.attended)
    (fun _ prior _ effect ih => ih.effect effect prior.proper) reached

/-- Whenever no call is under way, every list that somebody waits on is yet to be freed and stands in the
table; so if nothing is held, nobody waits. -/
theorem attended_of_reached {allowed : Moment σ → Prop} {moment : Moment σ}
    (reached : Reached allowed moment) (settled : moment.Settled) :
    (∀ list, ∀ task ∈ (moment.engine.lists.get list).waiters,
      (moment.engine.lists.get list).freed = false ∧
        ∃ token, moment.engine.table.holder? token = some list) ∧
      (moment.engine.table.held = 0 → moment.engine.lists.waiting = []) := by
  have hattended := reached.attended
  rw [Ledger.Attended, Moment.ledger, Thread.ledger, settled.releases] at hattended
  have hheld : ∀ list, ∀ task ∈ (moment.engine.lists.get list).waiters,
      (moment.engine.lists.get list).freed = false ∧
        ∃ token, moment.engine.table.holder? token = some list := by
    intro list task hmem
    obtain ⟨hfreed, hheld | hpending⟩ := hattended list (List.ne_nil_of_mem hmem)
    · exact ⟨hfreed, hheld⟩
    · exact absurd hpending List.not_mem_nil
  refine ⟨hheld, fun hnone => List.eq_nil_iff_forall_not_mem.mpr fun task hmem => ?_⟩
  obtain ⟨list, hlist⟩ := WaitingLists.mem_waiting.mp hmem
  obtain ⟨token, htoken⟩ := (hheld list task hlist).2
  rw [HolderTable.holder?_eq_none_of_held hnone] at htoken
  cases htoken

theorem attended_rivals : (Moment.rivals.after 4).engine.lists.waiting = [1] ∧
    (∀ list, ∀ task ∈ ((Moment.rivals.after 4).engine.lists.get list).waiters,
      ((Moment.rivals.after 4).engine.lists.get list).freed = false ∧
        ∃ token, (Moment.rivals.after 4).engine.table.holder? token = some list) ∧
      ((Moment.rivals.after 4).engine.table.held = 0 →
        (Moment.rivals.after 4).engine.lists.waiting = []) :=
  ⟨by decide +kernel,
    attended_of_reached (@Reached.rivals (fun _ => True) fun _ _ => trivial) .rivals⟩

end Dispatch
