import Dispatch.HolderTable
import Dispatch.Proofs.ShardMap

/-!
# What the table of holders answers

The table is known by `holder?`, and every operation by what it does to that answer. A claim either enters
all its tokens, none of which was held (`claim_acquired`), or changes nothing and names the list of the
first token that it could not enter (`claim_held`). A release that finds all its tokens with one list takes
out exactly these (`take_of_held`); whatever it finds, it takes no token out without naming its list
(`holder?_take`).
-/

namespace Dispatch

namespace Token

theorem mem_distinct {token : Token} {tokens : List Token} :
    token ∈ distinct tokens ↔ token ∈ tokens :=
  List.mem_eraseDups

theorem nodup_distinct (tokens : List Token) : (distinct tokens).Nodup := by
  induction hn : tokens.length using Nat.strongRecOn generalizing tokens with
  | _ n ih =>
    cases tokens with
    | nil => exact List.nodup_nil
    | cons token rest =>
      rw [distinct, List.eraseDups_cons, List.nodup_cons]
      have hlen : (rest.filter fun other => !other == token).length < n := by
        subst hn
        exact Nat.lt_succ_of_le (List.length_filter_le _ _)
      exact ⟨by simp [List.mem_eraseDups], ih _ hlen _ rfl⟩

/-- Leaving out a token in which nothing is found changes nothing. -/
theorem findSome?_filter_ne {β : Type} {f : Token → Option β} {token : Token} (h : f token = none)
    (tokens : List Token) :
    (tokens.filter fun other => !other == token).findSome? f = tokens.findSome? f := by
  induction tokens with
  | nil => rfl
  | cons other tokens ih =>
    by_cases he : other = token
    · rw [List.filter_cons_of_neg (by simp [he]), ih, List.findSome?_cons, he, h]
    · rw [List.filter_cons_of_pos (by simpa using he), List.findSome?_cons, List.findSome?_cons, ih]

/-- What is found first among tokens is found first among them without repetitions. -/
theorem findSome?_distinct {β : Type} (f : Token → Option β) (tokens : List Token) :
    (distinct tokens).findSome? f = tokens.findSome? f := by
  induction hn : tokens.length using Nat.strongRecOn generalizing tokens with
  | _ n ih =>
    cases tokens with
    | nil => rfl
    | cons token rest =>
      have hlen : (rest.filter fun other => !other == token).length < n := by
        subst hn
        exact Nat.lt_succ_of_le (List.length_filter_le _ _)
      have hrest := ih _ hlen _ rfl
      rw [distinct] at hrest
      rw [distinct, List.eraseDups_cons, List.findSome?_cons, List.findSome?_cons, hrest]
      cases hfound : f token with
      | some found => rfl
      | none => exact findSome?_filter_ne hfound rest

end Token

namespace HolderTable

theorem isHeld_eq (table : HolderTable) (token : Token) :
    table.isHeld token = (table.holder? token).isSome := rfl

theorem isHeld_iff {table : HolderTable} {token : Token} :
    table.isHeld token = true ↔ ∃ list, table.holder? token = some list := by
  rw [isHeld, ShardMap.contains, Option.isSome_iff_exists]
  rfl

theorem holder?_empty (token : Token) : empty.holder? token = none :=
  ShardMap.get?_empty token

theorem holder?_eq_none_of_held {table : HolderTable} (h : table.held = 0) (token : Token) :
    table.holder? token = none :=
  ShardMap.get?_eq_none_of_size h token

theorem remove_fst (table : HolderTable) (token : Token) :
    (table.remove token).1 = table.holder? token :=
  ShardMap.remove_fst table.holders token

theorem holder?_remove (table : HolderTable) (token other : Token) :
    (table.remove token).2.holder? other =
      if token = other then none else table.holder? other := by
  have h := ShardMap.get?_remove table.holders token other
  simp only [beq_iff_eq] at h
  exact h

theorem holder?_withdraw (table : HolderTable) (list : ListIndex) (token other : Token) :
    (table.withdraw list token).holder? other =
      if token = other ∧ table.holder? token = some list then none else table.holder? other := by
  rw [withdraw]
  split
  · next h => simp [holder?_remove, h]
  · next h => simp [h]

theorem holder?_foldl_withdraw (list : ListIndex) (tokens : List Token) (table : HolderTable)
    (other : Token) :
    (tokens.foldl (withdraw · list) table).holder? other =
      if other ∈ tokens ∧ table.holder? other = some list then none else table.holder? other := by
  induction tokens generalizing table with
  | nil => simp
  | cons token rest ih =>
    rw [List.foldl_cons, ih, holder?_withdraw]
    by_cases htoken : token = other
    · subst htoken
      by_cases hlist : table.holder? token = some list <;> simp [hlist]
    · simp [htoken, Ne.symm htoken]

/-- The answers of the table after a token has been entered with a list, if it was not held. -/
theorem holder?_enter (table : HolderTable) (list : ListIndex) (token other : Token) :
    HolderTable.holder? ⟨(table.holders.getThenInsertIfNew? token list).2⟩ other =
      if token = other ∧ table.holder? token = none then some list else table.holder? other := by
  have h := ShardMap.get?_getThenInsertIfNew? table.holders token other list
  simp only [beq_iff_eq] at h
  exact h

/-! ### Claims -/

theorem claimAfter_acquired {list : ListIndex} {entered tokens : List Token}
    {table after : HolderTable}
    (h : claimAfter list entered table tokens = (.acquired, after)) :
    tokens.Nodup ∧ (∀ token ∈ tokens, table.holder? token = none) ∧
      ∀ token, after.holder? token = if token ∈ tokens then some list else table.holder? token := by
  induction tokens generalizing entered table with
  | nil =>
    rw [claimAfter] at h
    cases h
    simp
  | cons token rest ih =>
    rw [claimAfter] at h
    have hfst := ShardMap.getThenInsertIfNew?_fst table.holders token list
    have henter := holder?_enter table list token
    split at h
    · cases h
    · next holders heq =>
      rw [heq] at hfst henter
      have hfree : table.holder? token = none := hfst.symm
      obtain ⟨hnodup, hrest, hafter⟩ := ih h
      have hnot : token ∉ rest := fun hmem => by
        have := hrest token hmem
        rw [henter, if_pos ⟨rfl, hfree⟩] at this
        cases this
      refine ⟨List.nodup_cons.mpr ⟨hnot, hnodup⟩, fun other hother => ?_, fun other => ?_⟩
      · rcases List.mem_cons.mp hother with rfl | hmem
        · exact hfree
        · have hne : token ≠ other := fun he => hnot (he ▸ hmem)
          have := hrest other hmem
          rwa [henter, if_neg fun hand => hne hand.1] at this
      · rw [hafter, henter]
        by_cases hmem : other ∈ rest
        · simp [hmem]
        · by_cases he : token = other
          · subst he
            simp [hfree]
          · simp [hmem, he, Ne.symm he]

theorem claimAfter_held {list holder : ListIndex} {entered tokens : List Token}
    {table after : HolderTable}
    (h : claimAfter list entered table tokens = (.held holder, after)) :
    (∃ before token rest, tokens = before ++ token :: rest ∧ before.Nodup ∧
      (∀ earlier ∈ before, table.holder? earlier = none) ∧
      (table.holder? token = some holder ∨ token ∈ before ∧ holder = list)) ∧
      ∀ token, after.holder? token =
        if token ∈ entered ∧ table.holder? token = some list then none
        else table.holder? token := by
  induction tokens generalizing entered table with
  | nil =>
    rw [claimAfter] at h
    cases h
  | cons token rest ih =>
    rw [claimAfter] at h
    have hfst := ShardMap.getThenInsertIfNew?_fst table.holders token list
    have henter := holder?_enter table list token
    split at h
    · next found _ heq =>
      rw [heq] at hfst
      cases h
      refine ⟨⟨[], token, rest, rfl, List.nodup_nil, by simp, Or.inl hfst.symm⟩, fun other => ?_⟩
      exact holder?_foldl_withdraw list entered table other
    · next holders heq =>
      rw [heq] at hfst henter
      have hfree : table.holder? token = none := hfst.symm
      obtain ⟨⟨before, found, later, rfl, hnodup, hbefore, hfound⟩, hafter⟩ := ih h
      have hnot : token ∉ before := fun hmem => by
        have := hbefore token hmem
        rw [henter, if_pos ⟨rfl, hfree⟩] at this
        cases this
      refine ⟨⟨token :: before, found, later, rfl, List.nodup_cons.mpr ⟨hnot, hnodup⟩, ?_, ?_⟩,
        fun other => ?_⟩
      · intro earlier hmem
        rcases List.mem_cons.mp hmem with rfl | hmem
        · exact hfree
        · have := hbefore earlier hmem
          rw [henter] at this
          split at this
          · cases this
          · exact this
      · rcases hfound with hfound | ⟨hmem, rfl⟩
        · rw [henter] at hfound
          split at hfound
          · next hand =>
            exact Or.inr ⟨by simp [hand.1], (Option.some.inj hfound).symm⟩
          · exact Or.inl hfound
        · exact Or.inr ⟨List.mem_cons_of_mem _ hmem, rfl⟩
      · rw [hafter, henter]
        by_cases he : token = other
        · subst he
          simp [hfree]
        · simp [he, Ne.symm he]

/-- A claim that succeeds has entered its tokens, none of which was held, and nothing else. -/
theorem claim_acquired {table after : HolderTable} {tokens : List Token} {list : ListIndex}
    (h : table.claim tokens list = (.acquired, after)) :
    (∀ token ∈ tokens, table.holder? token = none) ∧
      ∀ token, after.holder? token = if token ∈ tokens then some list else table.holder? token :=
  (claimAfter_acquired h).2

/-- A claim that fails changes no answer, and names the list of the first token that is held. -/
theorem claim_held {table after : HolderTable} {tokens : List Token} {list holder : ListIndex}
    (hnodup : tokens.Nodup) (h : table.claim tokens list = (.held holder, after)) :
    (∃ token ∈ tokens, table.holder? token = some holder) ∧
      ∀ token, after.holder? token = table.holder? token := by
  obtain ⟨⟨before, token, rest, rfl, -, -, hfound⟩, hafter⟩ := claimAfter_held h
  refine ⟨⟨token, by simp, ?_⟩, fun other => ?_⟩
  · rcases hfound with hfound | ⟨hmem, _⟩
    · exact hfound
    · exact absurd rfl ((List.nodup_append.mp hnodup).2.2 token hmem token List.mem_cons_self)
  · rw [hafter]
    simp

/-- A claim fails with the list of the first token that is held, and succeeds if none is. -/
theorem claim_fst (table : HolderTable) {tokens : List Token} (hnodup : tokens.Nodup)
    (list : ListIndex) :
    (table.claim tokens list).1 =
      match tokens.findSome? table.holder? with
      | some holder => .held holder
      | none => .acquired := by
  cases hclaim : table.claim tokens list with
  | mk outcome after =>
    cases outcome with
    | acquired =>
      rw [List.findSome?_eq_none_iff.mpr (claim_acquired hclaim).1]
    | held holder =>
      obtain ⟨⟨before, token, rest, rfl, -, hbefore, hfound⟩, -⟩ := claimAfter_held hclaim
      have hheld : table.holder? token = some holder := by
        rcases hfound with hfound | ⟨hmem, -⟩
        · exact hfound
        · exact absurd rfl ((List.nodup_append.mp hnodup).2.2 token hmem token List.mem_cons_self)
      rw [List.findSome?_append, List.findSome?_eq_none_iff.mpr hbefore, List.findSome?_cons, hheld]
      rfl

/-! ### Releases -/

theorem takeAfter_of_held {list : ListIndex} {lists : List ListIndex} {tokens : List Token}
    {table : HolderTable} (hlists : lists = [] ∨ lists = [list]) (hnodup : tokens.Nodup)
    (hheld : ∀ token ∈ tokens, table.holder? token = some list) :
    (takeAfter lists table tokens).outcome = .ok () ∧
      (takeAfter lists table tokens).lists = (if tokens = [] then lists else [list]) ∧
      ∀ token, (takeAfter lists table tokens).table.holder? token =
        if token ∈ tokens then none else table.holder? token := by
  induction tokens generalizing lists table with
  | nil => simp [takeAfter]
  | cons token rest ih =>
    obtain ⟨hnot, hnodup⟩ := List.nodup_cons.mp hnodup
    have hfst := remove_fst table token
    have hremove := holder?_remove table token
    rw [hheld token List.mem_cons_self] at hfst
    rw [takeAfter]
    generalize table.remove token = removed at hfst hremove ⊢
    obtain ⟨found, table'⟩ := removed
    cases hfst
    have hrest : ∀ other ∈ rest, table'.holder? other = some list := fun other hmem => by
      rw [hremove, if_neg fun he : token = other => hnot (he ▸ hmem)]
      exact hheld other (List.mem_cons_of_mem _ hmem)
    have hcontinue : (if lists.contains list then takeAfter lists table' rest
        else if lists.isEmpty then takeAfter [list] table' rest
        else ⟨table', lists ++ [list], .error .mixedHolders⟩) = takeAfter [list] table' rest := by
      rcases hlists with rfl | rfl <;> simp
    simp only [hcontinue]
    obtain ⟨houtcome, htaken, hafter⟩ := ih (Or.inr rfl) hnodup hrest
    refine ⟨houtcome, ?_, fun other => ?_⟩
    · rw [htaken]
      simp
    · rw [hafter, hremove]
      by_cases hmem : other ∈ rest
      · simp [hmem]
      · by_cases he : token = other
        · simp [he]
        · simp [hmem, he, Ne.symm he]

/-- A release of tokens that are all held with one list takes out exactly these. -/
theorem take_of_held {list : ListIndex} {tokens : List Token} {table : HolderTable}
    (hnodup : tokens.Nodup) (hheld : ∀ token ∈ tokens, table.holder? token = some list) :
    (table.take tokens).outcome = .ok () ∧
      (table.take tokens).lists = (if tokens = [] then [] else [list]) ∧
      ∀ token, (table.take tokens).table.holder? token =
        if token ∈ tokens then none else table.holder? token :=
  takeAfter_of_held (Or.inl rfl) hnodup hheld

theorem holder?_takeAfter (lists : List ListIndex) (tokens : List Token) (table : HolderTable)
    (token : Token) :
    lists ⊆ (takeAfter lists table tokens).lists ∧
      ((takeAfter lists table tokens).table.holder? token = table.holder? token ∨
        (takeAfter lists table tokens).table.holder? token = none ∧
          ∃ list ∈ (takeAfter lists table tokens).lists, table.holder? token = some list) := by
  induction tokens generalizing lists table with
  | nil => exact ⟨List.Subset.refl _, Or.inl rfl⟩
  | cons first rest ih =>
    have hfst := remove_fst table first
    have hremove := holder?_remove table first token
    rw [takeAfter]
    generalize table.remove first = removed at hfst hremove ⊢
    obtain ⟨found, table'⟩ := removed
    dsimp only at hfst hremove
    cases found with
    | none =>
      refine ⟨List.Subset.refl _, Or.inl ?_⟩
      rw [hremove]
      split
      · next he => rw [← he, ← hfst]
      · rfl
    | some list =>
      -- the list of the token just taken out is among those named in the end
      have step (lists' : List ListIndex) (taken : Taken) (hsub : lists ⊆ lists')
          (hmem : list ∈ lists') (hgrow : lists' ⊆ taken.lists)
          (hans : taken.table.holder? token = table'.holder? token ∨
            taken.table.holder? token = none ∧
              ∃ list ∈ taken.lists, table'.holder? token = some list) :
          lists ⊆ taken.lists ∧ (taken.table.holder? token = table.holder? token ∨
            taken.table.holder? token = none ∧
              ∃ list ∈ taken.lists, table.holder? token = some list) := by
        refine ⟨fun _ h => hgrow (hsub h), ?_⟩
        by_cases he : first = token
        · subst he
          rw [if_pos rfl] at hremove
          refine Or.inr ⟨?_, list, hgrow hmem, hfst.symm⟩
          rcases hans with hans | hans
          · rw [hans, hremove]
          · exact hans.1
        · rw [if_neg he] at hremove
          rwa [hremove] at hans
      dsimp only
      split
      · next hcontains =>
        have hmem := List.contains_iff_mem.mp hcontains
        have hih := ih lists table'
        exact step lists _ (List.Subset.refl _) hmem hih.1 hih.2
      · split
        · next hempty =>
          have hih := ih [list] table'
          obtain rfl := List.isEmpty_iff.mp hempty
          exact step [list] _ (List.nil_subset _) (by simp) hih.1 hih.2
        · exact step (lists ++ [list]) _ (List.subset_append_left _ _) (by simp)
            (List.Subset.refl _) (Or.inl rfl)

/-- A release takes no token out of the table without naming the list it was held with. -/
theorem holder?_take (table : HolderTable) (tokens : List Token) (token : Token) :
    (table.take tokens).table.holder? token = table.holder? token ∨
      (table.take tokens).table.holder? token = none ∧
        ∃ list ∈ (table.take tokens).lists, table.holder? token = some list :=
  (holder?_takeAfter [] tokens table token).2

/-! ### The number of held tokens -/

theorem sound_remove {table : HolderTable} (sound : table.holders.Sound) (token : Token) :
    (table.remove token).2.holders.Sound :=
  ShardMap.Sound.remove sound token

theorem sound_withdraw {table : HolderTable} (sound : table.holders.Sound) (list : ListIndex)
    (token : Token) : (table.withdraw list token).holders.Sound := by
  unfold withdraw
  split
  · exact sound_remove sound token
  · exact sound

theorem sound_foldl_withdraw {table : HolderTable} (sound : table.holders.Sound) (list : ListIndex)
    (tokens : List Token) : (tokens.foldl (withdraw · list) table).holders.Sound := by
  induction tokens generalizing table with
  | nil => exact sound
  | cons token rest ih => exact ih (sound_withdraw sound list token)

theorem sound_claimAfter {table : HolderTable} (sound : table.holders.Sound) (list : ListIndex)
    (entered tokens : List Token) : (claimAfter list entered table tokens).2.holders.Sound := by
  induction tokens generalizing table entered with
  | nil => exact sound
  | cons token rest ih =>
    have henter := ShardMap.Sound.getThenInsertIfNew? sound token list
    unfold claimAfter
    split
    · exact sound_foldl_withdraw sound list entered
    · next holders heq =>
      rw [heq] at henter
      exact ih henter _

theorem sound_claim {table : HolderTable} (sound : table.holders.Sound) (tokens : List Token)
    (list : ListIndex) : (table.claim tokens list).2.holders.Sound :=
  sound_claimAfter sound list [] tokens

theorem sound_takeAfter {table : HolderTable} (sound : table.holders.Sound)
    (lists : List ListIndex) (tokens : List Token) :
    (takeAfter lists table tokens).table.holders.Sound := by
  induction tokens generalizing table lists with
  | nil => exact sound
  | cons token rest ih =>
    have hremove := sound_remove sound token
    unfold takeAfter
    generalize table.remove token = removed at hremove ⊢
    obtain ⟨found, table'⟩ := removed
    cases found with
    | none => exact hremove
    | some list =>
      dsimp only
      split
      · exact ih hremove _
      · split
        · exact ih hremove _
        · exact hremove

theorem sound_take {table : HolderTable} (sound : table.holders.Sound) (tokens : List Token) :
    (table.take tokens).table.holders.Sound :=
  sound_takeAfter sound [] tokens

/-- A table that answers for no token holds none. -/
theorem held_eq_zero {table : HolderTable} (sound : table.holders.Sound)
    (hfree : ∀ token, table.holder? token = none) : table.held = 0 :=
  sound.size_eq_zero hfree

end HolderTable

end Dispatch
