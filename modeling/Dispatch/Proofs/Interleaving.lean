import Dispatch.Proofs.Fate
import Dispatch.Proofs.Ownership
import Mathlib.Data.List.Perm.Basic

/-!
# Workers side by side are safe

In an arena tasks are submitted, each once, and any number of workers claim and release, one action at a
time and in any order. The invariant joins who owns which list (`Owned`) with where every task is
(`Engine.Accounted`), and adds what each worker knows of its own doings (`Phase.Sound`). From it follows
that no two workers hold a token at once, that no release fails, that every task is in one place until it is
handed out, and that whoever waits, waits on a list that a worker is yet to free (`safe_of_reached`).
-/

namespace Dispatch

namespace Phase

def hand : Phase → List TaskIndex
  | entering task .. | withdrawing task .. => [task]
  | freeing waiters _ => waiters
  | idle | holding _ | taking .. => []

/-- What a worker knows of its own doings. -/
def Sound (engine : Engine) : Phase → Prop
  | entering task _ entered rest =>
    engine.tokens task ≠ [] ∧ entered ++ rest = Token.distinct (engine.tokens task)
  | withdrawing task _ _ entered => engine.tokens task ≠ [] ∧ entered.Nodup
  | taking _ rest lists => rest.Nodup ∧ lists.length = 1
  | freeing _ lists => lists.length ≤ 1
  | idle | holding _ => True

theorem sound_congr {engine after : Engine} (htokens : after.tokens = engine.tokens)
    {phase : Phase} (h : phase.Sound engine) : phase.Sound after := by
  cases phase with
  | entering task list entered rest =>
    rw [Sound, htokens]
    exact h
  | withdrawing task list holder entered =>
    rw [Sound, htokens]
    exact h
  | _ => exact h

end Phase

/-- No task was submitted twice or at a priority that no level has, none was rejected, and no release
failed. -/
structure Engine.Clean (engine : Engine) : Prop where
  once : (submissions engine.chronicle).Nodup
  inRange : ∀ task ∈ submissions engine.chronicle,
    engine.priority task < engine.queue.levels.size
  unrejected : rejections engine.chronicle = []
  faultless : refusals engine.chronicle = []

namespace Engine

variable {engine after : Engine} {task : TaskIndex}

theorem Clean.of_eq (h : engine.Clean) (htasks : after.tasks = engine.tasks)
    (hlevels : after.queue.levels.size = engine.queue.levels.size)
    (hsubmissions : submissions after.chronicle = submissions engine.chronicle)
    (hrejections : rejections after.chronicle = rejections engine.chronicle)
    (hrefusals : refusals after.chronicle = refusals engine.chronicle) : after.Clean := by
  refine ⟨hsubmissions ▸ h.once, fun task hmem => ?_, hrejections ▸ h.unrejected,
    hrefusals ▸ h.faultless⟩
  rw [hlevels, priority_congr htasks]
  exact h.inRange task (hsubmissions ▸ hmem)

/-- A task in hand can be queued. -/
theorem Clean.enqueue (h : engine.Clean) {hand : List TaskIndex}
    (accounted : engine.Accounted (task :: hand)) :
    ∃ queue, engine.queue.enqueue task (engine.priority task) = .ok queue := by
  have hbalance := accounted.balance task
  have honce := List.nodup_iff_count.mp h.once task
  rw [placed, List.count_cons_self] at hbalance
  have hmem : task ∈ submissions engine.chronicle := by
    rw [← List.count_pos_iff]
    omega
  have hqueued : engine.queue.contains task = false := by
    cases hcontains : engine.queue.contains task with
    | false => rfl
    | true =>
      rw [hcontains, if_pos rfl] at hbalance
      omega
  have hnone : engine.queue.levelOf.get? task = none :=
    Option.isNone_iff_eq_none.mp (Option.isSome_eq_false_iff.mp hqueued)
  exact ⟨_, PriorityQueue.enqueue_eq_ok.mpr ⟨h.inRange task hmem, hnone, rfl⟩⟩

end Engine

theorem Engine.Blank.clean {engine : Engine} (blank : engine.Blank) : engine.Clean := by
  obtain ⟨workers, levels, hchronicle⟩ := blank.chronicle
  refine ⟨?_, fun task hmem => ?_, ?_, ?_⟩
  · rw [hchronicle]
    exact List.nodup_nil
  · rw [hchronicle] at hmem
    cases hmem
  · rw [hchronicle]
    rfl
  · rw [hchronicle]
    rfl

structure InOrder (engine : Engine) (workers : List Phase) : Prop where
  owned : Owned engine workers
  phases : ∀ phase ∈ workers, phase.Sound engine
  accounted : engine.Accounted (workers.flatMap Phase.hand)
  empty : ∀ list, (engine.lists.get list).freed = true → (engine.lists.get list).waiters = []
  clean : engine.Clean

namespace InOrder

variable {engine after : Engine} {workers rest : List Phase} {phase next : Phase}
  {task : TaskIndex} {list holder : ListIndex} {token : Token}

theorem perm {others : List Phase} (h : InOrder engine workers) (hperm : workers.Perm others) :
    InOrder engine others :=
  ⟨h.owned.perm hperm, fun phase hmem => h.phases phase (hperm.mem_iff.mpr hmem),
    h.accounted.perm (hperm.flatMap_right Phase.hand), h.empty, h.clean⟩

theorem act (h : InOrder engine (phase :: rest)) (htokens : after.tokens = engine.tokens)
    (owned : Owned after (next :: rest)) (sound : next.Sound after)
    (accounted : after.Accounted (next.hand ++ rest.flatMap Phase.hand))
    (empty : ∀ list, (after.lists.get list).freed = true → (after.lists.get list).waiters = [])
    (clean : after.Clean) : InOrder after (next :: rest) := by
  refine ⟨owned, fun other hmem => ?_, accounted, empty, clean⟩
  rcases List.mem_cons.mp hmem with rfl | hmem
  · exact sound
  · exact Phase.sound_congr htokens (h.phases other (List.mem_cons_of_mem _ hmem))

/-! ### The actions of a worker -/

theorem beginClaim {level : Nat} {queue : PriorityQueue TaskIndex}
    (h : InOrder engine (.idle :: rest))
    (dequeued : engine.queue.dequeue = (some (level, task), queue)) :
    InOrder ((engine.serve queue task level).beginClaim task).1
      (((engine.serve queue task level).beginClaim task).2 :: rest) := by
  have haccounted := h.accounted.serve dequeued
  have hclean : (engine.serve queue task level).Clean :=
    h.clean.of_eq rfl (PriorityQueue.size_dequeue h.accounted.sound dequeued) rfl rfl rfl
  rw [Engine.beginClaim]
  cases htokens : (engine.serve queue task level).tokens task with
  | nil =>
    show InOrder ((engine.serve queue task level).record (.handedOut task)) (.holding task :: rest)
    have hnil : engine.tokens task = [] := htokens
    refine h.act rfl (h.owned.still rfl rfl (fun _ => rfl) (fun token => ?_) fun list => ?_) trivial
      haccounted.handOut h.empty (hclean.of_eq rfl rfl rfl rfl rfl)
    · show token ∈ engine.tokens task ↔ token ∈ []
      rw [hnil]
    · show (∃ token ∈ engine.tokens task, _) ↔ False
      simp [hnil]
  | cons token tokens =>
    have hne : engine.tokens task ≠ [] := fun hnil => by
      rw [show engine.tokens task = token :: tokens from htokens] at hnil
      cases hnil
    have hempty : (Token.distinct (token :: tokens)).isEmpty = false := by
      rw [Token.distinct, List.eraseDups_cons]
      rfl
    simp only [hempty]
    show InOrder { engine.serve queue task level with lists := engine.lists.make.2 }
      (.entering task engine.lists.lists.size [] (Token.distinct (token :: tokens)) :: rest)
    have hnew : (engine.lists.get engine.lists.lists.size).freed = true := by
      rw [WaitingLists.get_of_size_le (Nat.le_refl _)]
    refine h.act rfl (h.owned.make rfl rfl (fun other => ?_) hnew (fun _ => List.not_mem_nil)
      (fun _ => List.not_mem_nil) (fun _ => id) fun other => Iff.rfl) ⟨hne, ?_⟩ haccounted.make.1
      (fun other hfreed => ?_) (hclean.of_eq rfl rfl rfl rfl rfl)
    · show (engine.lists.make.2.get other).freed = _
      rw [WaitingLists.get_make]
      split <;> rfl
    · rw [← htokens]
      rfl
    · change (engine.lists.make.2.get other).freed = true at hfreed
      show (engine.lists.make.2.get other).waiters = []
      rw [WaitingLists.get_make] at hfreed ⊢
      split at hfreed
      · cases hfreed
      · next hother =>
        rw [if_neg hother]
        exact h.empty other hfreed

theorem enterToken {entered tokens : List Token}
    (h : InOrder engine (.entering task list entered (token :: tokens) :: rest)) :
    InOrder (engine.enterToken task list entered token tokens).1
      ((engine.enterToken task list entered token tokens).2 :: rest) := by
  obtain ⟨hne, htokens⟩ := h.phases _ List.mem_cons_self
  have hnodup : (entered ++ token :: tokens).Nodup := by
    rw [htokens]
    exact Token.nodup_distinct _
  have hfst := ShardMap.getThenInsertIfNew?_fst engine.table.holders token list
  have htable := HolderTable.holder?_enter engine.table list token
  rw [Engine.enterToken]
  generalize engine.table.holders.getThenInsertIfNew? token list = answer at hfst htable ⊢
  obtain ⟨found, holders⟩ := answer
  cases found with
  | some holder =>
    exact h.act rfl (h.owned.still rfl rfl (fun _ => rfl) (fun _ => Iff.rfl) fun _ => Iff.rfl)
      ⟨hne, (List.nodup_append.mp hnodup).1⟩ h.accounted h.empty h.clean
  | none =>
    have hfree : engine.table.holder? token = none := hfst.symm
    have howned : Owned { engine with table := ⟨holders⟩ }
        (.entering task list (entered ++ [token]) tokens :: rest) := by
      refine h.owned.enter token list rfl (fun other => ?_) hfree rfl (fun other => ?_) rfl
        fun _ => Iff.rfl
      · rw [htable]
        simp [hfree]
      · simp [Phase.held]
    refine h.act rfl howned ⟨hne, ?_⟩ (h.accounted.withTable fun _ _ hheld => howned.lt_size hheld)
      h.empty (h.clean.of_eq rfl rfl rfl rfl rfl)
    rw [List.append_assoc]
    exact htokens

theorem claimed {entered : List Token} (h : InOrder engine (.entering task list entered [] :: rest)) :
    InOrder ((engine.record (.claimed task entered.length)).record (.handedOut task))
      (.holding task :: rest) := by
  obtain ⟨hne, htokens⟩ := h.phases _ List.mem_cons_self
  rw [List.append_nil] at htokens
  have hmem (token : Token) : token ∈ engine.tokens task ↔ token ∈ entered := by
    rw [htokens, Token.mem_distinct]
  have hholder (token : Token) (htoken : token ∈ entered) :
      engine.table.holder? token = some list :=
    h.owned.holder_eq List.mem_cons_self htoken rfl
  refine h.act rfl (h.owned.still rfl rfl (fun _ => rfl) hmem fun other => ?_) trivial
    (h.accounted.handOut.of_eq rfl rfl rfl rfl rfl rfl) h.empty (h.clean.of_eq rfl rfl rfl rfl rfl)
  -- the list of the worker is from now on the one that its tokens are held with
  constructor
  · rintro ⟨token, htoken, hheld⟩
    have hown := hholder token ((hmem token).mp htoken)
    exact Option.some.inj (hheld.symm.trans hown)
  · rintro rfl
    obtain ⟨token, htoken⟩ := List.exists_mem_of_ne_nil _ hne
    exact ⟨token, htoken, hholder token ((hmem token).mp htoken)⟩

theorem withdraw {entered : List Token}
    (h : InOrder engine (.withdrawing task list holder (token :: entered) :: rest)) :
    InOrder { engine with table := engine.table.withdraw list token }
      (.withdrawing task list holder entered :: rest) := by
  obtain ⟨hne, hnodup⟩ := h.phases _ List.mem_cons_self
  obtain ⟨hnot, hnodup⟩ := List.nodup_cons.mp hnodup
  have hheld : engine.table.holder? token = some list :=
    h.owned.holder_eq List.mem_cons_self List.mem_cons_self rfl
  have howned : Owned { engine with table := engine.table.withdraw list token }
      (.withdrawing task list holder entered :: rest) := by
    refine h.owned.leave token rfl (fun other => ?_) List.mem_cons_self rfl
      (fun other => ?_) fun _ => Iff.rfl
    · show (engine.table.withdraw list token).holder? other = _
      rw [HolderTable.holder?_withdraw]
      simp [hheld]
    · show other ∈ entered ↔ other ∈ token :: entered ∧ other ≠ token
      constructor
      · intro hmem
        exact ⟨List.mem_cons_of_mem _ hmem, fun heq => hnot (heq ▸ hmem)⟩
      · rintro ⟨hmem, hother⟩
        exact (List.mem_cons.mp hmem).resolve_left hother
  exact h.act rfl howned ⟨hne, hnodup⟩ (h.accounted.withTable fun _ _ hheld => howned.lt_size hheld)
    h.empty (h.clean.of_eq rfl rfl rfl rfl rfl)

theorem register (h : InOrder engine (.withdrawing task list holder [] :: rest)) :
    InOrder (engine.register task list holder).1
      ((engine.register task list holder).2 :: rest) := by
  obtain ⟨hne, -⟩ := h.phases _ List.mem_cons_self
  rw [Engine.register]
  dsimp only
  split
  · exact h.act rfl (h.owned.still rfl rfl (fun _ => rfl) (fun _ => Iff.rfl) fun _ => Iff.rfl)
      ⟨hne, rfl⟩ (h.accounted.of_eq rfl rfl rfl rfl rfl rfl) h.empty
      (h.clean.of_eq rfl rfl rfl rfl rfl)
  · next lists hadd =>
    have hget := WaitingLists.get_add? hadd
    have hfreed (other : ListIndex) : (lists.get other).freed = (engine.lists.get other).freed := by
      rw [hget]
      split
      · next heq => rw [heq, WaitingLists.not_freed_of_add? hadd]
      · rfl
    refine h.act rfl (h.owned.still rfl rfl hfreed (fun _ => Iff.rfl) fun other => ?_)
      (Nat.le_refl 1) ((h.accounted.wait hadd).of_eq rfl rfl rfl rfl rfl rfl)
      (fun other hfreed' => ?_) (h.clean.of_eq rfl rfl rfl rfl rfl)
    · exact List.mem_singleton
    · change (lists.get other).freed = true at hfreed'
      show (lists.get other).waiters = []
      rw [hget] at hfreed' ⊢
      split at hfreed'
      · cases hfreed'
      · next hother =>
        rw [if_neg hother]
        exact h.empty other hfreed'

/-- The next token of a worker that releases is held with the list of the tokens before it. -/
theorem takeNext {tokens : List Token} {lists : List ListIndex}
    (h : InOrder engine (phase :: rest)) (hhand : phase.hand = [])
    (hheld : ∀ token, token ∈ phase.held engine ↔ token ∈ tokens) (hnodup : tokens.Nodup)
    (hlists : ∀ list ∈ lists, phase.Owns engine list) (hlength : lists.length ≤ 1)
    (hlast : tokens = [] → ∀ list, phase.Owns engine list → list ∈ lists) :
    InOrder (engine.takeNext task lists tokens).1
      ((engine.takeNext task lists tokens).2 :: rest) := by
  have haccounted : engine.Accounted (rest.flatMap Phase.hand) := by
    have hall := h.accounted
    rw [List.flatMap_cons, hhand] at hall
    exact hall
  cases tokens with
  | nil =>
    exact h.act rfl (h.owned.still rfl rfl (fun _ => rfl) (fun token => (hheld token).symm)
      fun list => ⟨hlists list, hlast rfl list⟩) hlength (haccounted.of_eq rfl rfl rfl rfl rfl rfl)
      h.empty (h.clean.of_eq rfl rfl rfl rfl rfl)
  | cons token tokens =>
    obtain ⟨hnot, hnodup⟩ := List.nodup_cons.mp hnodup
    have hmem : token ∈ phase.held engine := (hheld token).mpr List.mem_cons_self
    obtain ⟨list, hlist, hown⟩ := h.owned.held phase List.mem_cons_self token hmem
    have hsingle (other : ListIndex) (hother : phase.Owns engine other) : other = list :=
      h.owned.single phase List.mem_cons_self other list hother hown
    have hfst := HolderTable.remove_fst engine.table token
    have htable := HolderTable.holder?_remove engine.table token
    rw [hlist] at hfst
    rw [Engine.takeNext]
    generalize engine.table.remove token = removed at hfst htable ⊢
    obtain ⟨found, table⟩ := removed
    cases hfst
    have hnext : InOrder { engine with table } (.taking task tokens [list] :: rest) := by
      have howned : Owned { engine with table } (.taking task tokens [list] :: rest) := by
        refine h.owned.leave token rfl htable hmem rfl (fun other => ?_) fun other => ?_
        · rw [hheld]
          constructor
          · intro hin
            exact ⟨List.mem_cons_of_mem _ hin, fun heq => hnot (heq ▸ hin)⟩
          · rintro ⟨hin, hother⟩
            exact (List.mem_cons.mp hin).resolve_left hother
        · constructor
          · intro hin
            rw [List.mem_singleton.mp hin]
            exact hown
          · exact fun hother => List.mem_singleton.mpr (hsingle other hother)
      exact h.act rfl howned ⟨hnodup, rfl⟩
        (haccounted.withTable fun _ _ hheld => howned.lt_size hheld) h.empty
        (h.clean.of_eq rfl rfl rfl rfl rfl)
    -- the list of the token is the first one, or the one found before
    cases lists with
    | nil => exact hnext
    | cons first others =>
      have hfirst := hsingle first (hlists first List.mem_cons_self)
      have hothers : others = [] := List.length_eq_zero_iff.mp (Nat.le_zero.mp
        (Nat.le_of_succ_le_succ hlength))
      subst hfirst hothers
      dsimp only
      rw [if_pos (List.contains_iff_mem.mpr List.mem_cons_self)]
      exact hnext

theorem requeue {waiters : List TaskIndex} {lists : List ListIndex}
    (h : InOrder engine (.freeing (task :: waiters) lists :: rest)) :
    InOrder (engine.requeueOrReject task) (.freeing waiters lists :: rest) := by
  have haccounted : engine.Accounted (task :: (waiters ++ rest.flatMap Phase.hand)) := h.accounted
  obtain ⟨queue, hqueue⟩ := h.clean.enqueue haccounted
  obtain ⟨after, hafter⟩ : ∃ after, engine.requeue task = (none, after) := by
    rw [Engine.requeue, Engine.enqueue, hqueue]
    exact ⟨_, rfl⟩
  obtain ⟨queue', hqueue', rfl⟩ := Engine.requeue_none hafter
  rw [Engine.requeueOrReject, hafter]
  exact h.act rfl (h.owned.still rfl rfl (fun _ => rfl) (fun _ => Iff.rfl) fun _ => Iff.rfl)
    (h.phases _ List.mem_cons_self) ((haccounted.put hqueue').of_eq rfl rfl rfl rfl rfl rfl) h.empty
    (h.clean.of_eq rfl (PriorityQueue.size_enqueue hqueue') rfl rfl rfl)

theorem freeList {lists : List ListIndex}
    (h : InOrder engine (.freeing [] (list :: lists) :: rest)) :
    InOrder (engine.freeList list).2 (.freeing (engine.freeList list).1 lists :: rest) := by
  have hnil : lists = [] := List.length_eq_zero_iff.mp (Nat.le_zero.mp
    (Nat.le_of_succ_le_succ (h.phases _ List.mem_cons_self)))
  subst hnil
  have hget := WaitingLists.get_free engine.lists list
  refine h.act rfl (h.owned.free rfl rfl List.mem_cons_self (fun other => ?_)
    (fun _ => List.not_mem_nil) (fun _ => List.not_mem_nil) fun _ => List.not_mem_nil)
    (Nat.zero_le 1) (h.accounted.free list) (fun other hfreed => ?_)
    (h.clean.of_eq rfl rfl rfl rfl rfl)
  · show ((engine.lists.free list).2.get other).freed = _
    rw [hget]
    split <;> rfl
  · change ((engine.lists.free list).2.get other).freed = true at hfreed
    show ((engine.lists.free list).2.get other).waiters = []
    rw [hget] at hfreed ⊢
    split
    · rfl
    · next hother =>
      rw [if_neg hother] at hfreed
      exact h.empty other hfreed

/-- Every action of every worker keeps the order. -/
theorem step (h : InOrder engine (phase :: rest)) :
    InOrder (phase.step engine).1 ((phase.step engine).2 :: rest) := by
  cases phase with
  | idle =>
    rw [Phase.step]
    split
    · next queue hdequeue =>
      obtain rfl := PriorityQueue.dequeue_none h.accounted.sound hdequeue
      exact h
    · next level task queue hdequeue => exact h.beginClaim hdequeue
  | entering task list entered tokens =>
    cases tokens with
    | nil => exact h.claimed
    | cons token tokens => exact h.enterToken
  | withdrawing task list holder entered =>
    cases entered with
    | nil => exact h.register
    | cons token entered => exact h.withdraw
  | holding task =>
    refine h.takeNext rfl (fun token => Token.mem_distinct.symm) (Token.nodup_distinct _)
      (fun list hmem => absurd hmem List.not_mem_nil) (Nat.zero_le 1) fun hnil list hown => ?_
    obtain ⟨token, htoken, -⟩ := hown
    rw [← Token.mem_distinct, hnil] at htoken
    cases htoken
  | taking task tokens lists =>
    obtain ⟨hnodup, hlength⟩ := h.phases _ List.mem_cons_self
    exact h.takeNext rfl (fun _ => Iff.rfl) hnodup (fun _ => id) (Nat.le_of_eq hlength)
      fun _ _ => id
  | freeing waiters lists =>
    cases waiters with
    | cons task waiters => exact h.requeue
    | nil =>
      cases lists with
      | cons list lists => exact h.freeList
      | nil =>
        exact h.act rfl (h.owned.still rfl rfl (fun _ => rfl) (fun _ => Iff.rfl) fun _ => by
          show False ↔ _ ∈ []
          simp) trivial h.accounted h.empty h.clean

theorem submit {arena : Arena} (h : InOrder arena.engine arena.workers)
    (hnew : task ∉ submissions arena.engine.chronicle) :
    InOrder (arena.submit task).engine (arena.submit task).workers := by
  rw [Arena.submit]
  split
  · next after hschedule =>
    obtain ⟨queue, hqueue, rfl⟩ := Engine.schedule_ok hschedule
    refine ⟨h.owned.of_eq rfl rfl rfl, fun phase hmem => Phase.sound_congr rfl (h.phases phase hmem),
      ((h.accounted.submit task).put hqueue).of_eq rfl rfl rfl rfl rfl rfl, h.empty,
      List.nodup_cons.mpr ⟨hnew, h.clean.once⟩, fun other hmem => ?_, h.clean.unrejected,
      h.clean.faultless⟩
    show arena.engine.priority other < queue.levels.size
    rw [PriorityQueue.size_enqueue hqueue]
    rcases List.mem_cons.mp hmem with rfl | hmem
    · exact (PriorityQueue.enqueue_eq_ok.mp hqueue).1
    · exact h.clean.inRange other hmem
  · exact h

theorem start (blank : engine.Blank) (count : Nat) :
    InOrder engine (List.replicate count .idle) := by
  have hfreed (list : ListIndex) : engine.lists.get list = { freed := true } := by
    rw [blank.lists]
    exact WaitingLists.get_of_size_le (Nat.zero_le list)
  have hhand : (List.replicate count Phase.idle).flatMap Phase.hand = [] := by
    refine List.flatMap_eq_nil_iff.mpr fun phase hmem => ?_
    rw [List.eq_of_mem_replicate hmem]
    rfl
  refine ⟨.start (fun token => ?_) (fun list => ?_) count, fun phase hmem => ?_, ?_,
    fun list _ => ?_, blank.clean⟩
  · rw [blank.table, HolderTable.holder?_empty]
  · rw [hfreed]
  · rw [List.eq_of_mem_replicate hmem]
    trivial
  · rw [hhand]
    exact blank.accounted
  · rw [hfreed]

end InOrder

namespace Arena

/-- The arenas that come about when workers act in any order, while tasks are submitted, each once. -/
inductive Reached : Arena → Prop
  | start {world : World Unit} (fresh : world.Fresh) (workers : Nat) :
      Reached (.ofEngine world.engine workers)
  | submit {arena : Arena} (prior : Reached arena) {task : TaskIndex}
      (new : task ∉ submissions arena.engine.chronicle) : Reached (arena.submit task)
  | step {arena : Arena} (prior : Reached arena) (worker : Nat) : Reached (arena.step worker)

theorem Reached.inOrder {arena : Arena} (reached : arena.Reached) :
    InOrder arena.engine arena.workers := by
  induction reached with
  | start fresh workers => exact .start fresh.blank workers
  | submit _ new ih => exact ih.submit new
  | @step arena _ worker ih =>
    rw [Arena.step]
    split
    · exact ih
    · next phase hphase =>
      obtain ⟨hlt, rfl⟩ := List.getElem?_eq_some_iff.mp hphase
      have hsplit := ih.perm (List.getElem_cons_eraseIdx_perm hlt).symm
      exact hsplit.step.perm (List.set_perm_cons_eraseIdx hlt _).symm

/-- No two workers hold a token at once, no release has failed, every task is in one place, and every list
that somebody waits on is owned by a worker that is yet to free it. -/
structure Safe (arena : Arena) : Prop where
  exclusive : arena.workers.Pairwise fun first second => ∀ task other,
    first = .holding task → second = .holding other →
      ∀ token ∈ arena.engine.tokens task, token ∉ arena.engine.tokens other
  faultless : ∀ task handle outcome,
    .released task handle outcome ∈ arena.engine.chronicle → outcome = .ok ()
  placed : ∀ task ∈ submissions arena.engine.chronicle,
    (if arena.engine.queue.contains task then 1 else 0) + arena.engine.lists.waiting.count task +
      (arena.workers.flatMap Phase.hand).count task +
      (handouts arena.engine.chronicle).count task = 1
  attended : ∀ list, (arena.engine.lists.get list).waiters ≠ [] →
    (arena.engine.lists.get list).freed = false ∧
      ∃ phase ∈ arena.workers, phase.Owns arena.engine list

/-- Whatever the order in which the workers act, the arena is safe. -/
theorem safe_of_reached {arena : Arena} (reached : arena.Reached) : arena.Safe := by
  have h := reached.inOrder
  refine ⟨?_, fun task handle outcome hmem => ?_, fun task hmem => ?_, fun list hne => ?_⟩
  · refine h.owned.apart.imp_of_mem fun {first second} hfirst hsecond hapart => ?_
    rintro task other rfl rfl token htoken hother
    obtain ⟨list, hlist, hown⟩ := h.owned.held _ hfirst token htoken
    exact hapart list hown ⟨token, hother, hlist⟩
  · cases outcome with
    | ok done => rfl
    | error fault =>
      have hnone := List.filterMap_eq_nil_iff.mp h.clean.faultless _ hmem
      cases hnone
  · have hbalance := h.accounted.balance task
    have honce := List.nodup_iff_count.mp h.clean.once task
    have hpos := List.count_pos_iff.mpr hmem
    rw [Dispatch.placed, h.clean.unrejected, List.count_nil] at hbalance
    omega
  · have hfreed : (arena.engine.lists.get list).freed = false := by
      cases hfreed : (arena.engine.lists.get list).freed with
      | false => rfl
      | true => exact absurd (h.empty list hfreed) hne
    exact ⟨hfreed, h.owned.owner list hfreed⟩

theorem Reached.foldl {arena : Arena} (reached : arena.Reached) (order : List Nat) :
    (order.foldl Arena.step arena).Reached := by
  induction order generalizing arena with
  | nil => exact reached
  | cons worker order ih => exact ih (reached.step worker)

/-- Two workers have turned to the rivals, taking turns: one holds the token, and the other has put its task
on the list of the first and is about to free its own. -/
def rivals : Arena :=
  [0, 1, 0, 1, 0, 1].foldl Arena.step (((ofEngine World.rivals.engine 2).submit 0).submit 1)

theorem safe_rivals : rivals.workers = [.holding 0, .freeing [] [1]] ∧ rivals.Safe :=
  ⟨by decide +kernel, safe_of_reached (Reached.foldl (.submit (.submit (.start World.fresh_rivals 2)
    (by decide +kernel)) (by decide +kernel)) _)⟩

end Arena

end Dispatch
