import Dispatch.Proofs.IndependentReleases

/-!
# Tasks that name a token more than once

A claim and a release both go through each token of a task once, in the order of the first occurrences
(`Token.pairwise_distinct`). So a claim meets no token that it has entered itself, and what it has entered is
what a release takes out, whichever way the tokens are written down. Entered and taken out again, in any order,
they leave the table as it was (`HolderTable.take_of_claim`). What the release does afterwards leaves the table
alone, but for the handlers of waiters that are rejected (`World.Restores`).
-/

namespace Dispatch

variable {σ : Type}

/-! ### First occurrences -/

namespace Token

variable {tokens others : List Token}

theorem distinct_concat (tokens : List Token) (token : Token) : distinct (tokens ++ [token]) =
    distinct tokens ++ if token ∈ tokens then [] else [token] := by
  rw [distinct, List.eraseDups_append, distinct]
  by_cases hmem : token ∈ tokens <;> simp [List.removeAll, hmem, List.eraseDups_cons]

/-- Tokens are listed in the order of their first occurrences. -/
theorem pairwise_distinct (tokens : List Token) : (distinct tokens).Pairwise fun first second =>
    tokens.idxOf first < tokens.idxOf second := by
  induction tokens using List.reverseRecOn with
  | nil => exact .nil
  | append_singleton tokens token ih =>
    have hbefore {other : Token} (hmem : other ∈ distinct tokens) :
        (tokens ++ [token]).idxOf other = tokens.idxOf other :=
      List.idxOf_append_of_mem (mem_distinct.mp hmem)
    have hpairs : (distinct tokens).Pairwise fun first second =>
        (tokens ++ [token]).idxOf first < (tokens ++ [token]).idxOf second := by
      refine ih.imp_of_mem fun hfirst hsecond hlt => ?_
      rwa [hbefore hfirst, hbefore hsecond]
    rw [distinct_concat]
    split
    · rwa [List.append_nil]
    · next hnew =>
      refine List.pairwise_append.mpr ⟨hpairs, List.pairwise_singleton _ _, fun other hother last hlast => ?_⟩
      obtain rfl := List.mem_singleton.mp hlast
      rw [hbefore hother, List.idxOf_append_of_notMem hnew]
      exact Nat.lt_add_right _ (List.idxOf_lt_length_of_mem (mem_distinct.mp hother))

theorem distinct_perm (same : ∀ token, token ∈ others ↔ token ∈ tokens) :
    (distinct others).Perm (distinct tokens) := by
  refine (List.perm_ext_iff_of_nodup (nodup_distinct others) (nodup_distinct tokens)).mpr fun token => ?_
  rw [mem_distinct, mem_distinct, same]

end Token

/-! ### Tokens that are entered and taken out again -/

namespace HolderTable

variable {table after : HolderTable} {list : ListIndex} {token : Token}
  {entered tokens others : List Token}

theorem eq_of_claimAfter_acquired (h : claimAfter list entered table tokens = (.acquired, after)) :
    after = tokens.foldl (·.enter list ·) table := by
  induction tokens generalizing entered table with
  | nil =>
    rw [claimAfter] at h
    cases h
    rfl
  | cons token rest ih =>
    rw [claimAfter] at h
    split at h
    · cases h
    · next holders heq =>
      have henter : holders = table.holders.put token list := by
        rw [ShardMap.getThenInsertIfNew?] at heq
        split at heq
        · cases heq
        · exact (congrArg Prod.snd heq).symm
      subst henter
      exact ih h

theorem remove_enter_self (h : table.holder? token = none) :
    ((table.enter list token).remove token).2 = table :=
  congrArg HolderTable.mk (ShardMap.remove_put_self h list)

theorem remove_enter_comm {other : Token} (hne : token ≠ other) :
    ((table.enter list token).remove other).2 = (table.remove other).2.enter list token :=
  congrArg HolderTable.mk (ShardMap.remove_put_comm table.holders (by simpa using hne) list)

theorem remove_foldl_enter (h : token ∉ tokens) :
    ((tokens.foldl (·.enter list ·) table).remove token).2 =
      tokens.foldl (·.enter list ·) (table.remove token).2 := by
  induction tokens generalizing table with
  | nil => rfl
  | cons first rest ih =>
    rw [List.mem_cons, not_or] at h
    rw [List.foldl_cons, List.foldl_cons, ih h.2, remove_enter_comm (Ne.symm h.1)]

/-- Different tokens that were not held, entered and taken out again, have never been there. -/
theorem foldl_remove_foldl_enter (nodup : tokens.Nodup)
    (free : ∀ token ∈ tokens, table.holder? token = none) :
    tokens.foldl (fun table token => (table.remove token).2) (tokens.foldl (·.enter list ·) table) =
      table := by
  induction tokens generalizing table with
  | nil => rfl
  | cons token rest ih =>
    obtain ⟨hnot, nodup⟩ := List.nodup_cons.mp nodup
    rw [List.forall_mem_cons] at free
    rw [List.foldl_cons, List.foldl_cons, remove_foldl_enter hnot, remove_enter_self free.1]
    exact ih nodup free.2

/-- A release of the tokens that were claimed last, in any order, does not fail and restores the table. -/
theorem take_of_claim (h : table.claim tokens list = (.acquired, after)) (perm : others.Perm tokens) :
    (after.take others).outcome = .ok () ∧ (after.take others).table = table := by
  obtain ⟨hnodup, hfree, hafter⟩ := claimAfter_acquired h
  have hheld : ∀ token ∈ others, after.holder? token = some list := fun token hmem => by
    rw [hafter, if_pos (perm.mem_iff.mp hmem)]
  obtain ⟨houtcome, -, -⟩ := take_of_held (perm.nodup_iff.mpr hnodup) hheld
  refine ⟨houtcome, ?_⟩
  calc (after.take others).table
      = others.foldl (fun table token => (table.remove token).2) after := takeAfter_of_ok houtcome
    _ = tokens.foldl (fun table token => (table.remove token).2) after := perm.foldl_eq after
    _ = table := by rw [eq_of_claimAfter_acquired h, foldl_remove_foldl_enter hnodup hfree]

/-- A claim of different tokens succeeds exactly if none of them is held. -/
theorem claim_acquired_iff (nodup : tokens.Nodup) :
    (table.claim tokens list).1 = .acquired ↔ ∀ token ∈ tokens, table.isHeld token = false := by
  rw [claim_fst table nodup]
  have hfree : (∀ token ∈ tokens, table.isHeld token = false) ↔ tokens.findSome? table.holder? = none := by
    simp [isHeld_eq, List.findSome?_eq_none_iff]
  rw [hfree]
  cases tokens.findSome? table.holder? with
  | none => exact iff_of_true rfl rfl
  | some holder => exact iff_of_false (fun h => nomatch h) fun h => nomatch h

/-- A claim of different tokens does not meet its own list. -/
theorem claim_ne_held (nodup : tokens.Nodup) (unused : ∀ token, table.holder? token ≠ some list) :
    (table.claim tokens list).1 ≠ .held list := by
  intro hheld
  obtain ⟨⟨token, -, hholder⟩, -⟩ := claim_held nodup (Prod.ext hheld rfl)
  exact unused token hholder

end HolderTable

/-! ### The release -/

namespace Moment

variable {moment later last : Moment σ} {stack : List (Frame σ)} {rest : Freeing σ} {task : TaskIndex}
  {waiters : List TaskIndex} {lists : List ListIndex}

/-- From a moment on, the handlers of waiters that a release from these frames rejects leave the table as they
find it, if they come back. -/
def HandlersSpare (moment : Moment σ) (stack : List (Frame σ)) : Prop :=
  ∀ call freeing task rest ending back, moment.LeadsBy (·.Releasing stack) call →
    call.Doing (.freeing freeing) stack → call.next.Back (.rejecting task rest :: stack) ending back →
      back.engine.table = call.engine.table

theorem HandlersSpare.of_leadsBy (spare : moment.HandlersSpare stack)
    (leads : moment.LeadsBy (·.Releasing stack) later) : later.HandlersSpare stack :=
  fun call freeing task rest ending back hcall => spare call freeing task rest ending back (leads.trans hcall)

theorem Treats.table_eq (doing : moment.Doing (.freeing { rest with waiters := task :: waiters }) stack)
    (treats : Treats stack { rest with waiters } task moment later) (spare : moment.HandlersSpare stack) :
    later.engine.table = moment.engine.table := by
  cases treats with
  | queued _ requeues => rw [requeues.rest]
  | rejected _ hears =>
    obtain ⟨ending, back, hback, -, hworld⟩ := hears.back
    have hafter := spare moment _ _ _ ending back (.refl moment) doing hback
    rwa [engine, hworld]

theorem TreatsAll.table_eq (treats : TreatsAll stack rest waiters moment last)
    (spare : moment.HandlersSpare stack) : last.engine.table = moment.engine.table := by
  induction treats with
  | nil => rfl
  | cons doing first _ ih =>
    have hothers := ih (spare.of_leadsBy (first.leadsBy doing))
    exact hothers.trans (first.table_eq doing spare)

theorem FreesAll.table_eq (frees : FreesAll stack rest lists moment last)
    (spare : moment.HandlersSpare stack) : last.engine.table = moment.engine.table := by
  induction frees with
  | nil => rfl
  | @cons list lists moment middle last doing frees treated others ih =>
    have hfreed : moment.LeadsBy (·.Releasing stack) moment.next :=
      .single (.freeing doing (.inr (List.cons_ne_nil _ _)))
    have hfirst : moment.next.engine.table = moment.engine.table := by
      rw [engine, frees.world]
    have hspare := spare.of_leadsBy hfreed
    have hothers := ih (hspare.of_leadsBy treated.leadsBy)
    exact hothers.trans ((treated.table_eq hspare).trans hfirst)

end Moment

namespace World

variable {world : World σ} {task : TaskIndex} {table : HolderTable} {tokens : List Token} {list : ListIndex}

/-- The release of a task, whoever asks for it and whatever follows, restores this table. -/
structure Restores (world : World σ) (task : TaskIndex) (table : HolderTable) : Prop where
  /-- The table is restored in the first step. -/
  restored : ∀ (thread : Thread σ) (handle : Option HandleIndex) (after : AfterRelease σ),
    (Moment.of (Thread.beginRelease world thread task handle after)).engine.table = table
  /-- If the tasks that wait can all be queued the release comes back without a fault and with this table. -/
  unrejected : world.engine.HasRoomFor (world.engine.waitersOf task) →
    ∀ (thread : Thread σ) (handle : Option HandleIndex) (after : AfterRelease σ), ∃ later : World σ,
      (Moment.of (Thread.beginRelease world thread task handle after)).LeadsBy (¬ ·.Rejects)
        (.of (Thread.finishRelease later thread after (.ok ()))) ∧ later.engine.table = table
  /-- If some of them cannot be, it comes back without a fault when their handlers do, and with this table when
  they leave it as they find it. -/
  handled : ∀ (thread : Thread σ) (handle : Option HandleIndex) (after : AfterRelease σ),
    (Moment.of (Thread.beginRelease world thread task handle after)).HandlersReturn thread.stack →
      ∃ (later : World σ) (last : Thread σ), last.stack = thread.stack ∧
        (Moment.of (Thread.beginRelease world thread task handle after)).Leads
          (.of (Thread.finishRelease later last after (.ok ()))) ∧
        ((Moment.of (Thread.beginRelease world thread task handle after)).HandlersSpare thread.stack →
          later.engine.table = table)

/-- A release comes back if no waiter is rejected. The table is then as its first step has left it. -/
theorem exists_unrejected (owned : ∀ token ∈ world.engine.tokens task,
      world.engine.table.holder? token = some list)
    (room : world.engine.HasRoomFor (world.engine.waitersOf task)) (thread : Thread σ)
    (handle : Option HandleIndex) (after : AfterRelease σ) : ∃ later : World σ,
      (Moment.of (Thread.beginRelease world thread task handle after)).LeadsBy (¬ ·.Rejects)
        (.of (Thread.finishRelease later thread after (.ok ()))) ∧
      later.engine.table = (world.engine.table.take (Token.distinct (world.engine.tokens task))).table := by
  by_cases htokens : world.engine.tokens task = []
  · have hbegins : Thread.beginRelease world thread task handle after =
        ({ world with engine := (world.engine.takeTokens task handle).2.2 },
          thread.doing (.freeing
            { task, waiters := [], lists := [], freed := 0, outcome := .ok (), after })) := by
      rw [Thread.beginRelease, Engine.takeTokens, htokens]
      rfl
    rw [hbegins]
    exact ⟨_, queueing_nil_leadsBy _ thread task 0 after, rfl⟩
  · have held : world.engine.HeldWith task list := ⟨htokens, owned⟩
    rw [held.waitersOf_eq] at room
    obtain ⟨queue, hqueue⟩ := Engine.exists_enqueueAll_iff.mpr room
    let vacated : World σ := { world with engine := world.engine.vacated task handle list }
    have hqueueing : vacated.engine.queue.enqueueAll vacated.engine.priority
        (world.engine.lists.get list).waiters = some queue := hqueue
    exact ⟨_, ((beginRelease_leadsBy held thread handle after).trans (Moment.queueing_all hqueueing)).trans
      (queueing_nil_leadsBy _ thread task 1 after), rfl⟩

/-- A release comes back when the handlers of rejected waiters do. If these leave the table as they find it, it
is as the first step of the release has left it. -/
theorem exists_handled (ok : (world.engine.table.take
      (Token.distinct (world.engine.tokens task))).outcome = .ok ()) (thread : Thread σ)
    (handle : Option HandleIndex) (after : AfterRelease σ)
    (handlers : (Moment.of (Thread.beginRelease world thread task handle after)).HandlersReturn
      thread.stack) : ∃ (later : World σ) (last : Thread σ), last.stack = thread.stack ∧
        (Moment.of (Thread.beginRelease world thread task handle after)).Leads
          (.of (Thread.finishRelease later last after (.ok ()))) ∧
        ((Moment.of (Thread.beginRelease world thread task handle after)).HandlersSpare thread.stack →
          later.engine.table =
            (world.engine.table.take (Token.distinct (world.engine.tokens task))).table) := by
  have hverdict : (world.releaseOf task after).outcome = .ok () := by
    obtain ⟨houtcome, -, -⟩ :=
      world.engine.table.take_exact (Token.nodup_distinct (world.engine.tokens task))
    exact houtcome.symm.trans ok
  rw [Thread.beginRelease_eq] at handlers ⊢
  have hdoing : (Moment.of ({ world with engine := (world.engine.takeTokens task handle).2.2 },
      thread.doing (.freeing (world.releaseOf task after)))).Doing (.freeing (world.releaseOf task after))
        thread.stack := ⟨rfl, rfl⟩
  obtain ⟨last, hall⟩ :=
    @Moment.Doing.freesAll _ _ thread.stack (world.releaseOf task after) _ hdoing handlers
  have hlast := hall.doing_last.next_freed
  rw [hverdict] at hlast
  let later : World σ :=
    { last.world with engine := last.engine.tell (world.releaseOf task after).notice }
  have hback : last.next = .of (Thread.finishRelease later last.thread after (.ok ())) :=
    congrArg Moment.of hlast.symm
  exact ⟨later, last.thread, hall.doing_last.stack, hback ▸ hall.leadsBy.leads.tail,
    fun spare => hall.table_eq spare⟩

/-- Tokens that were claimed last leave the table as it was before, in whichever order and however often the
task names them. -/
theorem restores_of_claim (h : table.claim tokens list = (.acquired, world.engine.table))
    (perm : (Token.distinct (world.engine.tokens task)).Perm tokens) : world.Restores task table := by
  obtain ⟨hok, htable⟩ := HolderTable.take_of_claim h perm
  have howned : ∀ token ∈ world.engine.tokens task, world.engine.table.holder? token = some list := by
    intro token hmem
    rw [(HolderTable.claim_acquired h).2, if_pos (perm.mem_iff.mp (Token.mem_distinct.mpr hmem))]
  refine ⟨fun thread handle after => htable, fun room thread handle after => ?_,
    fun thread handle after handlers => ?_⟩
  · have hback := exists_unrejected howned room thread handle after
    rwa [htable] at hback
  · have hback := exists_handled hok thread handle after handlers
    rwa [htable] at hback

end World

/-! ### Claims of repeated tokens -/

def HolderTable.single : HolderTable :=
  (HolderTable.empty.claim [.unique 7] 0).2

/-- Three tokens, two of them named twice. -/
def Token.stuttered : List Token :=
  [.unique 0, .named "disk", .unique 0, .unique 1, .named "disk"]

/-- These tokens have been claimed by a task that names them otherwise, and another task waits for one. -/
def World.stuttering : World Unit :=
  let task (tokens : List Token) : Task := { kind := .repeatable, priority := 0, tokens }
  let code : Code Unit := { work := .repeatable (.stop .normal) }
  let queue : PriorityQueue TaskIndex := ⟨Array.replicate 1 .empty, .empty⟩
  let engine : Engine := { Engine.idle { levels := 1 } queue with
    table := (HolderTable.single.claim (Token.distinct Token.stuttered) 1).2
    lists := ⟨#[{}, { waiters := [1] }]⟩ }
  let world := World.ofEngine engine ()
  let world := (world.addTask (task [.named "disk", .unique 1, .unique 1, .unique 0]) code).2
  (world.addTask (task [.named "disk"]) code).2

theorem HolderTable.single_unused (token : Token) : HolderTable.single.holder? token ≠ some 1 := by
  have hclaim : HolderTable.empty.claim [.unique 7] 0 = (.acquired, HolderTable.single) :=
    Prod.ext (by decide +kernel) rfl
  rw [(HolderTable.claim_acquired hclaim).2, HolderTable.holder?_empty]
  split <;> decide

/-- A token that is named twice is entered once, at its first place. So no claim meets its own list, whatever
tokens are held, and a claim succeeds exactly if none of its tokens is held. The release of a task that names the
same tokens, in whichever order and however often, does not fail and restores the table. -/
theorem repetitions_harmless (tokens : List Token) :
    (Token.distinct tokens).Nodup ∧ (∀ token, token ∈ Token.distinct tokens ↔ token ∈ tokens) ∧
    ((Token.distinct tokens).Pairwise fun first second => tokens.idxOf first < tokens.idxOf second) ∧
    ∀ (table : HolderTable) (list : ListIndex), (∀ token, table.holder? token ≠ some list) →
      (table.claim (Token.distinct tokens) list).1 ≠ .held list ∧
      ((table.claim (Token.distinct tokens) list).1 = .acquired ↔
        ∀ token ∈ tokens, table.isHeld token = false) ∧
      ((table.claim (Token.distinct tokens) list).1 = .acquired →
        ∀ (σ : Type) (world : World σ) (task : TaskIndex),
          world.engine.table = (table.claim (Token.distinct tokens) list).2 →
          (∀ token, token ∈ world.engine.tokens task ↔ token ∈ tokens) → world.Restores task table) := by
  have hnodup := Token.nodup_distinct tokens
  refine ⟨hnodup, fun token => Token.mem_distinct, Token.pairwise_distinct tokens,
    fun table list unused => ⟨HolderTable.claim_ne_held hnodup unused, ?_, ?_⟩⟩
  · rw [HolderTable.claim_acquired_iff hnodup]
    exact forall_congr' fun token => by rw [Token.mem_distinct]
  · intro hacquired σ world task htable hsame
    have hclaim : table.claim (Token.distinct tokens) list = (.acquired, world.engine.table) :=
      Prod.ext hacquired htable.symm
    exact World.restores_of_claim hclaim (Token.distinct_perm hsame)

theorem repetitions_harmless_stuttering :
    (∀ token, HolderTable.single.holder? token ≠ some 1) ∧
    (HolderTable.single.claim (Token.distinct Token.stuttered) 1).1 = .acquired ∧
    (∀ token, token ∈ World.stuttering.engine.tokens 0 ↔ token ∈ Token.stuttered) ∧
    World.stuttering.engine.waitersOf 0 = [1] ∧ World.stuttering.engine.HasRoomFor [1] ∧
    World.stuttering.Restores 0 HolderTable.single := by
  have hacquired : (HolderTable.single.claim (Token.distinct Token.stuttered) 1).1 = .acquired := by
    decide +kernel
  have hsame : ∀ token, token ∈ World.stuttering.engine.tokens 0 ↔ token ∈ Token.stuttered := by
    intro token
    show token ∈ [Token.named "disk", .unique 1, .unique 1, .unique 0] ↔
      token ∈ [Token.unique 0, .named "disk", .unique 0, .unique 1, .named "disk"]
    simp only [List.mem_cons, List.not_mem_nil, or_false]
    tauto
  obtain ⟨-, -, -, hclaims⟩ := repetitions_harmless Token.stuttered
  obtain ⟨-, -, hrestores⟩ := hclaims HolderTable.single 1 HolderTable.single_unused
  exact ⟨HolderTable.single_unused, hacquired, hsame, by decide +kernel, ⟨by decide, by decide +kernel⟩,
    hrestores hacquired Unit World.stuttering 0 rfl hsame⟩

end Dispatch
