import Dispatch.Engine.Interleaving
import Dispatch.Proofs.Engine

/-!
# Who owns a list

Among workers side by side every list that has not been freed is owned by one of them, which is yet to free
it, and every held token was entered by one of them with the list it owns (`Owned`). A worker touches no
token and no list but its own; that the others keep theirs is proved here once for all actions
(`Owned.frame`), together with the four ways in which a table or the lists are changed: a worker makes a
list, enters a token, takes one out, and frees its list.
-/

namespace Dispatch

namespace Phase

def held (engine : Engine) : Phase → List Token
  | entering _ _ entered _ | withdrawing _ _ _ entered => entered
  | holding task => engine.tokens task
  | taking _ rest _ => rest
  | idle | freeing .. => []

def Owns (engine : Engine) : Phase → ListIndex → Prop
  | entering _ list _ _, other | withdrawing _ list _ _, other => other = list
  | holding task, other => ∃ token ∈ engine.tokens task, engine.table.holder? token = some other
  | taking _ _ lists, other | freeing _ lists, other => other ∈ lists
  | idle, _ => False

theorem held_congr {engine after : Engine} (htokens : after.tokens = engine.tokens)
    (phase : Phase) : phase.held after = phase.held engine := by
  cases phase with
  | holding task => exact congrFun htokens task
  | _ => rfl

theorem owns_congr {engine after : Engine} (htokens : after.tokens = engine.tokens) {phase : Phase}
    (hheld : ∀ token ∈ phase.held engine,
      after.table.holder? token = engine.table.holder? token) (list : ListIndex) :
    phase.Owns after list ↔ phase.Owns engine list := by
  cases phase with
  | holding task =>
    rw [Owns, Owns, htokens]
    exact exists_congr fun token => and_congr_right fun htoken => by rw [hheld token htoken]
  | _ => exact Iff.rfl

end Phase

/-- The workers own the lists that have not been freed, each of them at most one and no two the same, and
every held token is held by a worker with its list. -/
structure Owned (engine : Engine) (workers : List Phase) : Prop where
  apart : workers.Pairwise fun first second =>
    ∀ list, first.Owns engine list → ¬ second.Owns engine list
  held : ∀ phase ∈ workers, ∀ token ∈ phase.held engine, ∃ list,
    engine.table.holder? token = some list ∧ phase.Owns engine list
  single : ∀ phase ∈ workers, ∀ list other,
    phase.Owns engine list → phase.Owns engine other → list = other
  unfreed : ∀ phase ∈ workers, ∀ list, phase.Owns engine list →
    (engine.lists.get list).freed = false
  holder : ∀ token list, engine.table.holder? token = some list →
    ∃ phase ∈ workers, token ∈ phase.held engine
  owner : ∀ list, (engine.lists.get list).freed = false →
    ∃ phase ∈ workers, phase.Owns engine list

namespace Owned

variable {engine after : Engine} {workers others rest : List Phase} {phase next : Phase}
  {token : Token} {list : ListIndex}

theorem start (htable : ∀ token, engine.table.holder? token = none)
    (hlists : ∀ list, (engine.lists.get list).freed = true) (count : Nat) :
    Owned engine (List.replicate count .idle) := by
  refine ⟨?_, fun phase hmem token htoken => ?_, fun phase hmem list _ hown => ?_,
    fun phase hmem list hown => ?_, fun token list hheld => ?_, fun list hfreed => ?_⟩
  · exact List.pairwise_replicate.mpr (Or.inr fun list hown => hown.elim)
  · rw [List.eq_of_mem_replicate hmem] at htoken
    cases htoken
  · rw [List.eq_of_mem_replicate hmem] at hown
    cases hown
  · rw [List.eq_of_mem_replicate hmem] at hown
    cases hown
  · rw [htable] at hheld
    cases hheld
  · rw [hlists] at hfreed
    cases hfreed

theorem perm (h : Owned engine workers) (hperm : workers.Perm others) : Owned engine others where
  apart := (hperm.pairwise_iff fun hapart list hfirst hsecond =>
    hapart list hsecond hfirst).mp h.apart
  held phase hmem := h.held phase (hperm.mem_iff.mpr hmem)
  single phase hmem := h.single phase (hperm.mem_iff.mpr hmem)
  unfreed phase hmem := h.unfreed phase (hperm.mem_iff.mpr hmem)
  holder token list hheld := by
    obtain ⟨phase, hmem, htoken⟩ := h.holder token list hheld
    exact ⟨phase, hperm.mem_iff.mp hmem, htoken⟩
  owner list hfreed := by
    obtain ⟨phase, hmem, howns⟩ := h.owner list hfreed
    exact ⟨phase, hperm.mem_iff.mp hmem, howns⟩

theorem of_eq (h : Owned engine workers) (htokens : after.tokens = engine.tokens)
    (htable : after.table = engine.table) (hlists : after.lists = engine.lists) :
    Owned after workers := by
  have howns (phase : Phase) (list : ListIndex) :
      phase.Owns after list ↔ phase.Owns engine list :=
    Phase.owns_congr htokens (fun token _ => by rw [htable]) list
  refine ⟨?_, ?_, ?_, ?_, ?_, ?_⟩
  · simp only [howns]
    exact h.apart
  · simp only [howns, Phase.held_congr htokens, htable]
    exact h.held
  · simp only [howns]
    exact h.single
  · simp only [howns, hlists]
    exact h.unfreed
  · simp only [Phase.held_congr htokens, htable]
    exact h.holder
  · simp only [howns, hlists]
    exact h.owner

theorem lt_size (h : Owned engine workers) (hheld : engine.table.holder? token = some list) :
    list < engine.lists.lists.size := by
  obtain ⟨phase, hmem, htoken⟩ := h.holder token list hheld
  obtain ⟨own, hown, howns⟩ := h.held phase hmem token htoken
  cases hheld.symm.trans hown
  exact WaitingLists.lt_of_not_freed (h.unfreed phase hmem list howns)

/-- The tokens of a worker are held with the list it owns. -/
theorem holder_eq (h : Owned engine workers) (hmem : phase ∈ workers)
    (htoken : token ∈ phase.held engine) (howns : phase.Owns engine list) :
    engine.table.holder? token = some list := by
  obtain ⟨own, hown, howns'⟩ := h.held phase hmem token htoken
  rw [hown, h.single phase hmem own list howns' howns]

/-- No two workers have a token in common. -/
theorem held_apart (h : Owned engine (phase :: rest)) {other : Phase} (hother : other ∈ rest)
    (htoken : token ∈ phase.held engine) : token ∉ other.held engine := by
  intro htoken'
  obtain ⟨list, hlist, howns⟩ := h.held phase List.mem_cons_self token htoken
  obtain ⟨list', hlist', howns'⟩ := h.held other (List.mem_cons_of_mem _ hother) token htoken'
  cases hlist.symm.trans hlist'
  exact (List.pairwise_cons.mp h.apart).1 other hother list howns howns'

/-- An action that touches no tokens and no lists but those of the worker that takes it. -/
theorem frame (h : Owned engine (phase :: rest)) (htokens : after.tokens = engine.tokens)
    (hkept : ∀ token, token ∉ phase.held engine → engine.table.holder? token ≠ none →
      after.table.holder? token = engine.table.holder? token)
    (hfound : ∀ token, token ∉ next.held after → after.table.holder? token ≠ none →
      token ∉ phase.held engine ∧ engine.table.holder? token ≠ none)
    (hheld : ∀ token ∈ next.held after, ∃ list,
      after.table.holder? token = some list ∧ next.Owns after list)
    (hsingle : ∀ list other, next.Owns after list → next.Owns after other → list = other)
    (hunfreed : ∀ list, next.Owns after list → (after.lists.get list).freed = false)
    (howns : ∀ list, next.Owns after list → phase.Owns engine list ∨
      (engine.lists.get list).freed = true)
    (hlists : ∀ list, (after.lists.get list).freed = (engine.lists.get list).freed ∨
      phase.Owns engine list ∨ next.Owns after list)
    (howner : ∀ list, phase.Owns engine list → next.Owns after list ∨
      (after.lists.get list).freed = true) : Owned after (next :: rest) := by
  obtain ⟨hapart, hrest⟩ := List.pairwise_cons.mp h.apart
  -- the tokens of the others stay in the table, and so the lists they own are the same as before
  have hother (other : Phase) (hmem : other ∈ rest) (token : Token)
      (htoken : token ∈ other.held engine) :
      after.table.holder? token = engine.table.holder? token := by
    obtain ⟨list, hlist, -⟩ := h.held other (List.mem_cons_of_mem _ hmem) token htoken
    refine hkept token (fun hown => h.held_apart hmem hown htoken) ?_
    rw [hlist]
    exact Option.some_ne_none list
  have hiff (other : Phase) (hmem : other ∈ rest) (list : ListIndex) :
      other.Owns after list ↔ other.Owns engine list :=
    Phase.owns_congr htokens (hother other hmem) list
  -- what the worker owns now it owned before, or it was nobody's
  have hclash (other : Phase) (hmem : other ∈ rest) (list : ListIndex)
      (hnext : next.Owns after list) : ¬ other.Owns engine list := by
    intro howns'
    rcases howns list hnext with hphase | hfreed
    · exact hapart other hmem list hphase howns'
    · rw [h.unfreed other (List.mem_cons_of_mem _ hmem) list howns'] at hfreed
      cases hfreed
  refine ⟨List.pairwise_cons.mpr ⟨fun other hmem list hnext howns' => ?_, ?_⟩, ?_, ?_, ?_, ?_, ?_⟩
  · exact hclash other hmem list hnext ((hiff other hmem list).mp howns')
  · refine hrest.imp_of_mem fun {first second} hfirst hsecond hne list hown hown' => ?_
    exact hne list ((hiff first hfirst list).mp hown) ((hiff second hsecond list).mp hown')
  · intro other hmem token htoken
    rcases List.mem_cons.mp hmem with rfl | hmem
    · exact hheld token htoken
    · rw [Phase.held_congr htokens] at htoken
      obtain ⟨list, hlist, howns'⟩ := h.held other (List.mem_cons_of_mem _ hmem) token htoken
      exact ⟨list, (hother other hmem token htoken).trans hlist, (hiff other hmem list).mpr howns'⟩
  · intro other hmem list list' hown hown'
    rcases List.mem_cons.mp hmem with rfl | hmem
    · exact hsingle list list' hown hown'
    · exact h.single other (List.mem_cons_of_mem _ hmem) list list'
        ((hiff other hmem list).mp hown) ((hiff other hmem list').mp hown')
  · intro other hmem list hown
    rcases List.mem_cons.mp hmem with rfl | hmem
    · exact hunfreed list hown
    · have hown' := (hiff other hmem list).mp hown
      have hfreed := h.unfreed other (List.mem_cons_of_mem _ hmem) list hown'
      rcases hlists list with hsame | hphase | hnext
      · rw [hsame, hfreed]
      · exact absurd hown' (hapart other hmem list hphase)
      · exact absurd hown' (hclash other hmem list hnext)
  · intro token list hlist
    have hne : after.table.holder? token ≠ none := by
      rw [hlist]
      exact Option.some_ne_none list
    by_cases htoken : token ∈ next.held after
    · exact ⟨next, List.mem_cons_self, htoken⟩
    · obtain ⟨hnot, hbefore⟩ := hfound token htoken hne
      obtain ⟨found, hfound⟩ := Option.ne_none_iff_exists'.mp hbefore
      obtain ⟨other, hmem, hown⟩ := h.holder token found hfound
      rcases List.mem_cons.mp hmem with rfl | hmem
      · exact absurd hown hnot
      · refine ⟨other, List.mem_cons_of_mem _ hmem, ?_⟩
        rw [Phase.held_congr htokens]
        exact hown
  · intro list hfreed
    have hphase (hown : phase.Owns engine list) : next.Owns after list := by
      rcases howner list hown with hnext | hfreed'
      · exact hnext
      · rw [hfreed] at hfreed'
        cases hfreed'
    rcases hlists list with hsame | hown | hown
    · rw [hsame] at hfreed
      obtain ⟨other, hmem, hown⟩ := h.owner list hfreed
      rcases List.mem_cons.mp hmem with rfl | hmem
      · exact ⟨next, List.mem_cons_self, hphase hown⟩
      · exact ⟨other, List.mem_cons_of_mem _ hmem, (hiff other hmem list).mpr hown⟩
    · exact ⟨next, List.mem_cons_self, hphase hown⟩
    · exact ⟨next, List.mem_cons_self, hown⟩

theorem still (h : Owned engine (phase :: rest)) (htokens : after.tokens = engine.tokens)
    (htable : after.table = engine.table)
    (hlists : ∀ list, (after.lists.get list).freed = (engine.lists.get list).freed)
    (hheld : ∀ token, token ∈ next.held after ↔ token ∈ phase.held engine)
    (howns : ∀ list, next.Owns after list ↔ phase.Owns engine list) : Owned after (next :: rest) := by
  refine h.frame htokens ?_ ?_ ?_ ?_ ?_ ?_ ?_ ?_
  · intro token _ _
    rw [htable]
  · intro token hnot hne
    rw [htable] at hne
    exact ⟨fun hmem => hnot ((hheld token).mpr hmem), hne⟩
  · intro token htoken
    obtain ⟨list, hlist, hown⟩ := h.held phase List.mem_cons_self token ((hheld token).mp htoken)
    exact ⟨list, by rw [htable, hlist], (howns list).mpr hown⟩
  · intro list other hlist hother
    exact h.single phase List.mem_cons_self list other ((howns list).mp hlist)
      ((howns other).mp hother)
  · intro list hown
    rw [hlists]
    exact h.unfreed phase List.mem_cons_self list ((howns list).mp hown)
  · exact fun list hown => Or.inl ((howns list).mp hown)
  · exact fun list => Or.inl (hlists list)
  · exact fun list hown => Or.inl ((howns list).mpr hown)

theorem make (h : Owned engine (phase :: rest)) (htokens : after.tokens = engine.tokens)
    (htable : after.table = engine.table)
    (hlists : ∀ other, (after.lists.get other).freed =
      if other = list then false else (engine.lists.get other).freed)
    (hnew : (engine.lists.get list).freed = true)
    (hnone : ∀ token, token ∉ phase.held engine) (hnone' : ∀ token, token ∉ next.held after)
    (hidle : ∀ other, ¬ phase.Owns engine other) (howns : ∀ other, next.Owns after other ↔ other = list) :
    Owned after (next :: rest) := by
  refine h.frame htokens ?_ ?_ ?_ ?_ ?_ ?_ ?_ ?_
  · intro token _ _
    rw [htable]
  · intro token _ hne
    rw [htable] at hne
    exact ⟨hnone token, hne⟩
  · exact fun token htoken => absurd htoken (hnone' token)
  · intro first second hfirst hsecond
    rw [(howns first).mp hfirst, (howns second).mp hsecond]
  · intro other hown
    rw [hlists, if_pos ((howns other).mp hown)]
  · intro other hown
    rw [(howns other).mp hown]
    exact Or.inr hnew
  · intro other
    by_cases hother : other = list
    · exact Or.inr (Or.inr ((howns other).mpr hother))
    · exact Or.inl (by rw [hlists, if_neg hother])
  · exact fun other hown => absurd hown (hidle other)

theorem enter (h : Owned engine (phase :: rest)) (token : Token) (list : ListIndex)
    (htokens : after.tokens = engine.tokens)
    (htable : ∀ other, after.table.holder? other =
      if token = other then some list else engine.table.holder? other)
    (hfree : engine.table.holder? token = none) (hlists : after.lists = engine.lists)
    (hheld : ∀ other, other ∈ next.held after ↔ other ∈ phase.held engine ∨ other = token)
    (hown : next.Owns after list)
    (howns : ∀ other, next.Owns after other ↔ phase.Owns engine other) :
    Owned after (next :: rest) := by
  have hphase := (howns list).mp hown
  refine h.frame htokens ?_ ?_ ?_ ?_ ?_ ?_ ?_ ?_
  · intro other _ hne
    rw [htable, if_neg]
    rintro rfl
    exact hne hfree
  · intro other hnot hne
    rw [hheld, not_or] at hnot
    rw [htable, if_neg (Ne.symm hnot.2)] at hne
    exact ⟨hnot.1, hne⟩
  · intro other hmem
    refine ⟨list, ?_, hown⟩
    rw [htable]
    split
    · rfl
    · next hne =>
      rcases (hheld other).mp hmem with hmem | heq
      · exact h.holder_eq List.mem_cons_self hmem hphase
      · exact absurd heq.symm hne
  · intro first second hfirst hsecond
    exact h.single phase List.mem_cons_self first second ((howns first).mp hfirst)
      ((howns second).mp hsecond)
  · intro other hother
    rw [hlists]
    exact h.unfreed phase List.mem_cons_self other ((howns other).mp hother)
  · exact fun other hother => Or.inl ((howns other).mp hother)
  · exact fun other => Or.inl (by rw [hlists])
  · exact fun other hother => Or.inl ((howns other).mpr hother)

theorem leave (h : Owned engine (phase :: rest)) (token : Token)
    (htokens : after.tokens = engine.tokens)
    (htable : ∀ other, after.table.holder? other =
      if token = other then none else engine.table.holder? other)
    (hmem : token ∈ phase.held engine) (hlists : after.lists = engine.lists)
    (hheld : ∀ other, other ∈ next.held after ↔ other ∈ phase.held engine ∧ other ≠ token)
    (howns : ∀ other, next.Owns after other ↔ phase.Owns engine other) :
    Owned after (next :: rest) := by
  refine h.frame htokens ?_ ?_ ?_ ?_ ?_ ?_ ?_ ?_
  · intro other hnot _
    rw [htable, if_neg]
    rintro rfl
    exact hnot hmem
  · intro other hnot hne
    rw [htable] at hne
    split at hne
    · exact absurd rfl hne
    · next hother =>
      exact ⟨fun hin => hnot ((hheld other).mpr ⟨hin, Ne.symm hother⟩), hne⟩
  · intro other hin
    obtain ⟨hin, hother⟩ := (hheld other).mp hin
    obtain ⟨list, hlist, hown⟩ := h.held phase List.mem_cons_self other hin
    exact ⟨list, by rw [htable, if_neg (Ne.symm hother), hlist], (howns list).mpr hown⟩
  · intro first second hfirst hsecond
    exact h.single phase List.mem_cons_self first second ((howns first).mp hfirst)
      ((howns second).mp hsecond)
  · intro other hother
    rw [hlists]
    exact h.unfreed phase List.mem_cons_self other ((howns other).mp hother)
  · exact fun other hother => Or.inl ((howns other).mp hother)
  · exact fun other => Or.inl (by rw [hlists])
  · exact fun other hother => Or.inl ((howns other).mpr hother)

theorem free (h : Owned engine (phase :: rest)) (htokens : after.tokens = engine.tokens)
    (htable : after.table = engine.table) (hown : phase.Owns engine list)
    (hlists : ∀ other, (after.lists.get other).freed =
      if other = list then true else (engine.lists.get other).freed)
    (hnone : ∀ token, token ∉ phase.held engine) (hnone' : ∀ token, token ∉ next.held after)
    (hidle : ∀ other, ¬ next.Owns after other) : Owned after (next :: rest) := by
  refine h.frame htokens ?_ ?_ ?_ ?_ ?_ ?_ ?_ ?_
  · intro token _ _
    rw [htable]
  · intro token _ hne
    rw [htable] at hne
    exact ⟨hnone token, hne⟩
  · exact fun token htoken => absurd htoken (hnone' token)
  · exact fun other _ hother => absurd hother (hidle other)
  · exact fun other hother => absurd hother (hidle other)
  · exact fun other hother => absurd hother (hidle other)
  · intro other
    by_cases hother : other = list
    · exact Or.inr (Or.inl (hother ▸ hown))
    · exact Or.inl (by rw [hlists, if_neg hother])
  · intro other hother
    rw [h.single phase List.mem_cons_self other list hother hown]
    exact Or.inr (by rw [hlists, if_pos rfl])

end Owned

end Dispatch
