import Dispatch.Engine.Interleaving
import Dispatch.Proofs.Fate
import Mathlib.Logic.Relation

/-!
# A worker that is not disturbed

A worker that acts while all others rest does, action by action, what the engine does in one: its claim
ends as the attempt of the engine ends, in the same state (`Alone.acquired`, `Alone.waiting`,
`Alone.refused`), and its release takes the same tokens and lists out of the table (`Alone.takeTokens`).
-/

namespace Dispatch

/-- The second state is that of an engine and a worker after actions of this worker alone. -/
abbrev Alone : Engine × Phase → Engine × Phase → Prop :=
  Relation.ReflTransGen fun before after => after = before.2.step before.1

namespace Alone

variable {engine after : Engine} {task : TaskIndex} {list holder : ListIndex}
  {entered rest : List Token} {table : HolderTable}

theorem step {engine : Engine} {phase : Phase} {state : Engine × Phase}
    (h : Alone (phase.step engine) state) : Alone (engine, phase) state :=
  .head rfl h

/-- Entering one token after the other, until all of them are entered. -/
theorem entering_acquired
    (h : HolderTable.claimAfter list entered engine.table rest = (.acquired, table)) :
    Alone (engine, .entering task list entered rest)
      ({ engine with table }, .entering task list (entered ++ rest) []) := by
  induction rest generalizing entered engine with
  | nil =>
    rw [HolderTable.claimAfter] at h
    cases h
    rw [List.append_nil]
  | cons token rest ih =>
    refine step ?_
    rw [HolderTable.claimAfter] at h
    rw [Phase.step, Engine.enterToken]
    generalize engine.table.holders.getThenInsertIfNew? token list = answer at h ⊢
    obtain ⟨found, holders⟩ := answer
    cases found with
    | some found => cases h
    | none =>
      have hrest : Alone ({ engine with table := ⟨holders⟩ },
          .entering task list (entered ++ [token]) rest)
          ({ engine with table }, .entering task list (entered ++ [token] ++ rest) []) := ih h
      rw [List.append_assoc] at hrest
      exact hrest

theorem withdrawing (engine : Engine) (entered : List Token) :
    Alone (engine, .withdrawing task list holder entered)
      ({ engine with table := entered.foldl (HolderTable.withdraw · list) engine.table },
        .withdrawing task list holder []) := by
  induction entered generalizing engine with
  | nil => exact .refl
  | cons token entered ih =>
    exact step (ih { engine with table := engine.table.withdraw list token })

theorem entering_held
    (h : HolderTable.claimAfter list entered engine.table rest = (.held holder, table)) :
    Alone (engine, .entering task list entered rest)
      ({ engine with table }, .withdrawing task list holder []) := by
  induction rest generalizing entered engine with
  | nil =>
    rw [HolderTable.claimAfter] at h
    cases h
  | cons token rest ih =>
    refine step ?_
    rw [HolderTable.claimAfter] at h
    rw [Phase.step, Engine.enterToken]
    generalize engine.table.holders.getThenInsertIfNew? token list = answer at h ⊢
    obtain ⟨found, holders⟩ := answer
    cases found with
    | some found =>
      cases h
      exact withdrawing engine entered
    | none =>
      have hrest : Alone ({ engine with table := ⟨holders⟩ },
          .entering task list (entered ++ [token]) rest)
          ({ engine with table }, .withdrawing task list holder []) := ih h
      exact hrest

/-! ### Claims -/

theorem acquired
    (h : engine.attempt task (Token.distinct (engine.tokens task)) list = .acquired after) :
    Alone (engine, .entering task list [] (Token.distinct (engine.tokens task)))
      (after.record (.handedOut task), .holding task) := by
  obtain ⟨table, htable, rfl⟩ := Engine.attempt_acquired h
  refine (entering_acquired htable).trans (step ?_)
  rw [List.nil_append]
  exact .refl

theorem refused {own : ListIndex}
    (h : engine.attempt task (Token.distinct (engine.tokens task)) list = .refused after own) :
    Alone (engine, .entering task list [] (Token.distinct (engine.tokens task)))
      (after, .entering task list [] (Token.distinct (engine.tokens task))) := by
  obtain ⟨-, holder, table, htable, hfreed, rfl⟩ := Engine.attempt_refused h
  refine (entering_held htable).trans (step ?_)
  have hadd : engine.lists.add? holder task = none := WaitingLists.add?_eq_none.mpr hfreed
  rw [Phase.step, Engine.register]
  dsimp only
  rw [hadd]
  exact .refl

/-- Nobody waits on the list of the attempt as long as the worker is not disturbed, so that none has to be
queued again when it is freed. -/
theorem waiting (spare : engine.Spare list)
    (h : engine.attempt task (Token.distinct (engine.tokens task)) list = .waiting after) :
    Alone (engine, .entering task list [] (Token.distinct (engine.tokens task))) (after, .idle) := by
  obtain ⟨holder, table, lists, htable, hadd, rfl⟩ := Engine.attempt_waiting h
  obtain ⟨⟨token, -, hheld⟩, -⟩ := HolderTable.claim_held (Token.nodup_distinct _) htable
  have hne : list ≠ holder := fun heq => spare.unheld token (heq ▸ hheld)
  have hidle : (lists.get list).waiters = [] := by
    rw [WaitingLists.get_add? hadd, if_neg hne]
    exact spare.idle
  refine (entering_held htable).trans (step ?_)
  rw [Phase.step, Engine.register]
  dsimp only
  rw [hadd]
  refine step ?_
  rw [Phase.step, Engine.freeList]
  dsimp only [Engine.record]
  rw [WaitingLists.free_fst, hidle]
  exact step .refl

/-! ### Releases -/

theorem takeAfter (engine : Engine) (lists : List ListIndex) (rest : List Token) :
    Alone (engine.takeNext task lists rest)
      ({ engine with table := (HolderTable.takeAfter lists engine.table rest).table }.record
        (.released task none (HolderTable.takeAfter lists engine.table rest).outcome),
        .freeing [] (HolderTable.takeAfter lists engine.table rest).lists) := by
  induction rest generalizing engine lists with
  | nil => exact .refl
  | cons token rest ih =>
    rw [HolderTable.takeAfter, Engine.takeNext]
    generalize engine.table.remove token = removed
    obtain ⟨found, table⟩ := removed
    cases found with
    | none => exact .refl
    | some list =>
      dsimp only
      split
      · exact step (ih { engine with table } lists)
      · split
        · exact step (ih { engine with table } [list])
        · exact .refl

/-- The release of the engine for a task whose tokens a worker holds. -/
theorem takeTokens (engine : Engine) (task : TaskIndex) :
    Alone (engine, .holding task)
      ((engine.takeTokens task none).2.2, .freeing [] (engine.takeTokens task none).1) :=
  step (takeAfter engine [] (Token.distinct (engine.tokens task)))

end Alone

end Dispatch
