import Mathlib.Data.List.TakeWhile
import Dispatch.Proofs.HolderTable

/-!
# Claims and releases of tokens, exactly

A claim enters all its tokens or leaves every answer of the table as it was (`claim_all_or_nothing`); it
fails at the first token that is held or repeats an earlier one. A release takes tokens out as long as they
are held with the list of the first one (`take_exact`). The first token of which that is not true ends the
release, and is still taken out if it is held.
-/

namespace Dispatch

namespace HolderTable

variable {table : HolderTable} {tokens before behind : List Token} {token : Token}
  {list holder other : ListIndex}

/-! ### Claims -/

/-- A token stands in the way of those before it, with this list: it is held with the list, or it is one of
them, and then the list is that of the claim. -/
def Obstructs (table : HolderTable) (list : ListIndex) (before : List Token) (token : Token)
    (holder : ListIndex) : Prop :=
  table.holder? token = some holder ∨ token ∈ before ∧ holder = list

/-- The first token of a claim that is held, or repeats an earlier one, stands in its way with this list. -/
def Meets (table : HolderTable) (list : ListIndex) (tokens : List Token) (holder : ListIndex) : Prop :=
  ∃ before token rest, tokens = before ++ token :: rest ∧ before.Nodup ∧
    (∀ earlier ∈ before, table.holder? earlier = none) ∧ table.Obstructs list before token holder

theorem Obstructs.unique (free : ∀ earlier ∈ before, table.holder? earlier = none)
    (first : table.Obstructs list before token holder)
    (second : table.Obstructs list before token other) : holder = other := by
  rcases first, second with ⟨hheld | ⟨hmem, rfl⟩, hheld' | ⟨hmem', rfl⟩⟩
  · exact Option.some.inj (hheld.symm.trans hheld')
  · cases (free token hmem').symm.trans hheld
  · cases (free token hmem).symm.trans hheld'
  · rfl

/-- Among different tokens that are not held none stands in the way. -/
theorem not_obstructs (nodup : (before ++ token :: behind).Nodup)
    (free : ∀ earlier ∈ before ++ token :: behind, table.holder? earlier = none) :
    ¬ table.Obstructs list before token holder := by
  rintro (hheld | ⟨hmem, -⟩)
  · rw [free token (by simp)] at hheld
    cases hheld
  · exact absurd rfl ((List.nodup_append.mp nodup).2.2 token hmem token List.mem_cons_self)

theorem Meets.not_free (meets : table.Meets list tokens holder) :
    ¬ (tokens.Nodup ∧ ∀ token ∈ tokens, table.holder? token = none) := by
  rintro ⟨nodup, free⟩
  obtain ⟨before, token, rest, rfl, -, -, hobstructs⟩ := meets
  exact not_obstructs nodup free hobstructs

/-- A claim meets one holder at most, since neither of two first tokens stands before the other. -/
theorem Meets.unique (first : table.Meets list tokens holder) (second : table.Meets list tokens other) :
    holder = other := by
  obtain ⟨before, token, rest, rfl, nodup, free, hobstructs⟩ := first
  obtain ⟨before', token', rest', hsplit, nodup', free', hobstructs'⟩ := second
  rcases List.append_eq_append_iff.mp hsplit with ⟨between, rfl, hrest⟩ | ⟨between, rfl, hrest⟩
  · cases between with
    | nil =>
      obtain ⟨rfl, -⟩ := List.cons.inj hrest
      rw [List.append_nil] at hobstructs'
      exact hobstructs.unique free hobstructs'
    | cons _ between =>
      obtain ⟨rfl, -⟩ := List.cons.inj hrest
      exact absurd hobstructs (not_obstructs nodup' free')
  · cases between with
    | nil =>
      obtain ⟨rfl, -⟩ := List.cons.inj hrest
      rw [List.append_nil] at hobstructs
      exact hobstructs.unique free' hobstructs'
    | cons _ between =>
      obtain ⟨rfl, -⟩ := List.cons.inj hrest
      exact absurd hobstructs' (not_obstructs nodup free)

/-- A claim succeeds exactly if its tokens are different and none of them is held, and has then entered
these and nothing else. It fails with the list that the first held or repeated token is found with, and then
has changed no answer of the table. -/
theorem claim_all_or_nothing (table : HolderTable) (tokens : List Token) (list : ListIndex) :
    ((table.claim tokens list).1 = .acquired ↔
      tokens.Nodup ∧ ∀ token ∈ tokens, table.holder? token = none) ∧
    (∀ holder, (table.claim tokens list).1 = .held holder ↔ table.Meets list tokens holder) ∧
    ∀ token, (table.claim tokens list).2.holder? token =
      if (table.claim tokens list).1 = .acquired ∧ token ∈ tokens then some list
      else table.holder? token := by
  cases hclaim : table.claim tokens list with
  | mk outcome after =>
    cases outcome with
    | acquired =>
      obtain ⟨hnodup, hfree, hafter⟩ := claimAfter_acquired hclaim
      refine ⟨by simpa using ⟨hnodup, hfree⟩, fun holder => ?_, fun token => ?_⟩
      · exact ⟨nofun, fun hmeets => absurd ⟨hnodup, hfree⟩ hmeets.not_free⟩
      · simpa using hafter token
    | held holder =>
      obtain ⟨hmeets, hafter⟩ := claimAfter_held hclaim
      have hmeets : table.Meets list tokens holder := hmeets
      refine ⟨⟨nofun, fun hfree => absurd hfree hmeets.not_free⟩, fun other => ⟨fun heq => ?_, fun h => ?_⟩,
        fun token => ?_⟩
      · cases heq
        exact hmeets
      · exact congrArg Claim.held (hmeets.unique h)
      · simpa using hafter token

/-! ### Releases -/

def isJoint (table : HolderTable) (tokens : List Token) (token : Token) : Bool :=
  table.isHeld token && table.holder? token == tokens.head?.bind table.holder?

/-- The first token of a release that is not held, or not with the list of the first token. -/
def stray? (table : HolderTable) (tokens : List Token) : Option Token :=
  tokens.find? fun token => !table.isJoint tokens token

/-- The tokens that a release takes out: those before the stray one, and that one as well if it is held. -/
def leaving (table : HolderTable) (tokens : List Token) : List Token :=
  tokens.takeWhile (table.isJoint tokens) ++ ((table.stray? tokens).filter table.isHeld).toList

def verdict (table : HolderTable) (tokens : List Token) : Except Fault Unit :=
  match table.stray? tokens with
  | none => .ok ()
  | some token => .error (if table.isHeld token then .mixedHolders else .notHeld token)

/-- The lists that tokens are held with, each once, in the order of the tokens. -/
def listsOf (table : HolderTable) (tokens : List Token) : List ListIndex :=
  (tokens.filterMap table.holder?).eraseDups

/-- Tokens that are held with one list, and one more that is not, are held with these lists. -/
theorem listsOf_append {stray : Option Token} (hheld : table.holder? token = some list)
    (together : ∀ other ∈ before, table.holder? other = some list)
    (hstray : ∀ other ∈ stray, table.holder? other ≠ some list) :
    table.listsOf (token :: before ++ stray.toList) = list :: (stray.bind table.holder?).toList := by
  have hbefore : (before.filterMap table.holder?).filter (fun other => !other == list) = [] := by
    rw [List.filter_eq_nil_iff]
    intro found hfound
    obtain ⟨other, hmem, hother⟩ := List.mem_filterMap.mp hfound
    rw [together other hmem] at hother
    simpa using (Option.some.inj hother).symm
  rw [listsOf, List.cons_append, List.filterMap_cons_some hheld, List.eraseDups_cons,
    List.filterMap_append, List.filter_append, hbefore, List.nil_append]
  cases stray with
  | none => simp
  | some other =>
    cases hother : table.holder? other with
    | none => simp [hother]
    | some found =>
      have hne : found ≠ list := fun heq => hstray other rfl (heq ▸ hother)
      simp [hother, hne, List.eraseDups_cons]

theorem bind_filter_isHeld (table : HolderTable) (stray : Option Token) :
    (stray.filter table.isHeld).bind table.holder? = stray.bind table.holder? := by
  cases stray with
  | none => rfl
  | some token => cases hholder : table.holder? token <;> simp [Option.filter, isHeld_eq, hholder]

/-- A release that has met one list takes out the tokens held with it, and the first other one if that is
held. What the tokens to come were held with at first is told by `look`. -/
theorem takeAfter_exact {look : Token → Option ListIndex} (nodup : tokens.Nodup)
    (hlook : ∀ token ∈ tokens, table.holder? token = look token) :
    (takeAfter [list] table tokens).outcome =
        (match tokens.find? fun token => !(look token == some list) with
        | none => .ok ()
        | some token => .error (if (look token).isSome then .mixedHolders else .notHeld token)) ∧
      (takeAfter [list] table tokens).lists =
        list :: ((tokens.find? fun token => !(look token == some list)).bind look).toList ∧
      ∀ token, (takeAfter [list] table tokens).table.holder? token =
        if token ∈ (tokens.takeWhile fun token => look token == some list) ++
            ((tokens.find? fun token => !(look token == some list)).filter fun token =>
              (look token).isSome).toList then none
        else table.holder? token := by
  induction tokens generalizing table with
  | nil => simp [takeAfter]
  | cons first rest ih =>
    obtain ⟨hnot, nodup⟩ := List.nodup_cons.mp nodup
    have hfst := remove_fst table first
    have hremove := holder?_remove table first
    rw [hlook first List.mem_cons_self] at hfst
    rw [takeAfter]
    generalize table.remove first = removed at hfst hremove ⊢
    obtain ⟨found, table'⟩ := removed
    dsimp only at hfst hremove
    subst hfst
    cases hfirst : look first with
    | none =>
      refine ⟨by simp [hfirst], by simp [hfirst], fun token => ?_⟩
      rw [hremove]
      by_cases heq : first = token
      · subst heq
        simp [hfirst, hlook first List.mem_cons_self]
      · simp [hfirst, heq]
    | some found =>
      by_cases hsame : found = list
      · subst hsame
        have hrest : ∀ token ∈ rest, table'.holder? token = look token := by
          intro token hmem
          rw [hremove, if_neg fun heq : first = token => hnot (heq ▸ hmem)]
          exact hlook token (List.mem_cons_of_mem _ hmem)
        obtain ⟨houtcome, hlists, hafter⟩ := ih nodup hrest
        refine ⟨by simpa [hfirst] using houtcome, by simpa [hfirst] using hlists, fun token => ?_⟩
        have htoken := hafter token
        rw [hremove] at htoken
        by_cases heq : first = token
        · subst heq
          simpa [hfirst] using htoken
        · simpa [hfirst, heq, Ne.symm heq] using htoken
      · refine ⟨by simp [hfirst, hsame], by simp [hfirst, hsame], fun token => ?_⟩
        by_cases heq : first = token
        · subst heq
          simp [hfirst, hsame, hremove]
        · simp [hfirst, hsame, hremove, heq]

/-- A release takes out the tokens that are held with the list of the first one, up to the stray token, and
that one as well if it is held. It names the lists these were held with, and ends as the stray token says. -/
theorem take_exact (table : HolderTable) (nodup : tokens.Nodup) :
    (table.take tokens).outcome = table.verdict tokens ∧
      (table.take tokens).lists = table.listsOf (table.leaving tokens) ∧
      ∀ token, (table.take tokens).table.holder? token =
        if token ∈ table.leaving tokens then none else table.holder? token := by
  cases tokens with
  | nil => exact ⟨rfl, rfl, fun token => rfl⟩
  | cons first rest =>
    obtain ⟨hnot, nodup⟩ := List.nodup_cons.mp nodup
    have hfst := remove_fst table first
    have hremove := holder?_remove table first
    rw [take, takeAfter]
    generalize table.remove first = removed at hfst hremove ⊢
    obtain ⟨found, table'⟩ := removed
    dsimp only at hfst hremove
    subst hfst
    cases hfirst : table.holder? first with
    | none =>
      have hstray : table.stray? (first :: rest) = some first := by
        simp [stray?, isJoint, isHeld_eq, hfirst]
      have hleaving : table.leaving (first :: rest) = [] := by
        simp [leaving, hstray, isJoint, isHeld_eq, hfirst, Option.filter]
      refine ⟨by simp [verdict, hstray, isHeld_eq, hfirst], by simp [hleaving, listsOf], fun token => ?_⟩
      rw [hremove, hleaving]
      by_cases heq : first = token
      · subst heq
        simp [hfirst]
      · simp [heq]
    | some list =>
      have hjoint : table.isJoint (first :: rest) = fun token => table.holder? token == some list := by
        funext token
        rw [isJoint, isHeld_eq, List.head?_cons, Option.bind_some, hfirst]
        cases table.holder? token <;> simp
      have hfind : table.stray? (first :: rest) =
          rest.find? fun token => !(table.holder? token == some list) := by
        rw [stray?, hjoint, List.find?_cons_of_neg (by simp [hfirst])]
      have hleaving : table.leaving (first :: rest) =
          first :: (rest.takeWhile fun token => table.holder? token == some list) ++
            ((rest.find? fun token => !(table.holder? token == some list)).filter table.isHeld).toList := by
        rw [leaving, hfind, hjoint, List.takeWhile_cons_of_pos (by simp [hfirst])]
      have hrest : ∀ token ∈ rest, table'.holder? token = table.holder? token := by
        intro token hmem
        rw [hremove, if_neg fun heq : first = token => hnot (heq ▸ hmem)]
      obtain ⟨houtcome, hlists, hafter⟩ := @takeAfter_exact table' rest list table.holder? nodup hrest
      simp only [List.contains_nil, List.isEmpty_nil, if_true, Bool.false_eq_true, if_false]
      refine ⟨?_, ?_, fun token => ?_⟩
      · rw [houtcome, verdict, hfind]
        rfl
      · rw [hlists, hleaving, listsOf_append hfirst]
        · rw [bind_filter_isHeld]
        · intro token hmem
          simpa using List.mem_takeWhile_imp hmem
        · intro token hmem
          have hfound := List.find?_some (Option.mem_filter_iff.mp hmem).1
          simpa using hfound
      · rw [hafter, hleaving, hremove]
        by_cases heq : first = token
        · subst heq
          simp
        · simp only [if_neg heq, List.cons_append, List.mem_cons, Ne.symm heq, false_or]
          rfl

end HolderTable

end Dispatch
