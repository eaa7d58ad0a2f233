import Dispatch.Config
import Dispatch.Proofs.Numerals

/-!
# Settings overridden by the environment

What the settings are to be is said setting by setting: the value of the variable if it is set, and what stood
before otherwise (`Config.Overrides`). What is wrong is said fault by fault, of the settings before and the
variables alone (`Config.Faulty`). Settings are overridden exactly if nothing is wrong, and if something is, the
fault that is told is the one that is looked for first. Overriding twice is overriding once, by the variables of
the second environment and those of the first that the second leaves unset (`Config.overrides_in_order`).
-/

namespace Dispatch

def Variable.place : Variable → Nat
  | workers => 0
  | levels => 1
  | threadName => 2
  | stackSize => 3

def Setting.place : Setting → Nat
  | levels => 0
  | threadName => 1
  | stackSize => 2

/-- The place of a fault among those that are looked for: settings are checked when all variables have been
read. -/
def ConfigFault.place : ConfigFault → Nat
  | unreadable var _ _ => var.place
  | invalid setting => 4 + setting.place

theorem Variable.place_lt (var : Variable) : var.place < 4 := by
  cases var <;> decide

theorem Variable.place_inj {var other : Variable} (h : var.place = other.place) : var = other := by
  cases var <;> cases other <;> simp_all [place]

theorem Setting.place_inj {setting other : Setting} (h : setting.place = other.place) :
    setting = other := by
  cases setting <;> cases other <;> simp_all [place]

/-- The variables of one environment, and of another one those that are not set there. -/
def Variable.layered (upper lower : Variable → Option String) (var : Variable) : Option String :=
  (upper var).or (lower var)

namespace Config

variable {config between merged other : Config} {lookup upper lower : Variable → Option String}
  {var : Variable} {before middle after value : Option Nat} {setting : Setting}
  {fault first second : ConfigFault} {text : String} {reason : Text.UnsignedFault}

/-- The variables that are to be numbers are numbers where they are set. -/
def Readable (lookup : Variable → Option String) : Prop :=
  ∀ var text, var ≠ .threadName → lookup var = some text → ∃ number, Text.Numeral text number

/-- What a number is to be: the value of its variable if that is set, and what stood before otherwise. -/
inductive Settles (lookup : Variable → Option String) (var : Variable) (before : Option Nat) :
    Option Nat → Prop
  | kept (unset : lookup var = none) : Settles lookup var before before
  | overridden {text : String} {number : Nat} (set : lookup var = some text)
      (numeral : Text.Numeral text number) : Settles lookup var before (some number)

/-- The settings after every variable that is set has overridden its setting. -/
structure Overrides (config : Config) (lookup : Variable → Option String) (merged : Config) : Prop where
  workers : Settles lookup .workers (some config.workers) (some merged.workers)
  levels : Settles lookup .levels (some config.levels) (some merged.levels)
  threadName : merged.threadName = (lookup .threadName).getD config.threadName
  stackSize : Settles lookup .stackSize config.stackSize merged.stackSize

/-- Something is wrong with settings that are to be overridden: a variable is set that is to be a number and is
none, or a setting is to be zero or empty. -/
inductive Faulty (config : Config) (lookup : Variable → Option String) : ConfigFault → Prop
  | unreadable {var : Variable} {text : String} {reason : Text.UnsignedFault}
      (number : var ≠ .threadName) (set : lookup var = some text)
      (unreadable : Text.Unreadable text reason) : Faulty config lookup (.unreadable var text reason)
  | levels (zero : Settles lookup .levels (some config.levels) (some 0)) :
      Faulty config lookup (.invalid .levels)
  | threadName (empty : (lookup .threadName).getD config.threadName = "") :
      Faulty config lookup (.invalid .threadName)
  | stackSize (zero : Settles lookup .stackSize config.stackSize (some 0)) :
      Faulty config lookup (.invalid .stackSize)

structure FaultyFirst (config : Config) (lookup : Variable → Option String) (fault : ConfigFault) :
    Prop where
  faulty : config.Faulty lookup fault
  first : ∀ other, config.Faulty lookup other → fault.place ≤ other.place

/-- How it ends when settings are to be overridden: they are and pass the check, or what is wrong first is
told. -/
inductive Merges (config : Config) (lookup : Variable → Option String) : Except ConfigFault Config → Prop
  | merged {merged : Config} (overrides : config.Overrides lookup merged) (checked : merged.check = .ok ()) :
      Merges config lookup (.ok merged)
  | failed {fault : ConfigFault} (first : config.FaultyFirst lookup fault) :
      Merges config lookup (.error fault)

def Lacks (config : Config) : Setting → Prop
  | .levels => config.levels = 0
  | .threadName => config.threadName = ""
  | .stackSize => config.stackSize = some 0

/-! ### Checks -/

theorem check_eq_ok_iff : config.check = .ok () ↔ ∀ setting, ¬ config.Lacks setting := by
  rw [check]
  constructor
  · intro hok setting hlacks
    split_ifs at hok with hlevels hname hstack
    cases setting with
    | levels => exact hlevels hlacks
    | threadName => exact hname hlacks
    | stackSize => exact hstack hlacks
  · intro hall
    have hlevels : config.levels ≠ 0 := hall .levels
    have hname : config.threadName ≠ "" := hall .threadName
    have hstack : config.stackSize ≠ some 0 := hall .stackSize
    rw [if_neg hlevels, if_neg hname, if_neg hstack]

/-- A check fails for the first setting that is zero or empty. -/
theorem check_eq_error (h : config.check = .error fault) : ∃ setting, fault = .invalid setting ∧
    config.Lacks setting ∧ ∀ other, config.Lacks other → setting.place ≤ other.place := by
  rw [check] at h
  split_ifs at h with hlevels hname hstack
  · cases h
    refine ⟨.levels, rfl, hlevels, fun other _ => ?_⟩
    cases other <;> decide
  · cases h
    refine ⟨.threadName, rfl, hname, fun other hlacks => ?_⟩
    cases other with
    | levels => exact absurd hlacks hlevels
    | threadName | stackSize => decide
  · cases h
    refine ⟨.stackSize, rfl, hstack, fun other hlacks => ?_⟩
    cases other with
    | levels => exact absurd hlacks hlevels
    | threadName => exact absurd hlacks hname
    | stackSize => exact Nat.le_refl _

/-! ### Numbers -/

theorem numberOr_eq_ok_iff : numberOr lookup var before = .ok value ↔ Settles lookup var before value := by
  rw [numberOr]
  cases hset : lookup var with
  | none =>
    constructor
    · intro hok
      cases hok
      exact .kept hset
    · rintro (_ | ⟨hset', -⟩)
      · rfl
      · cases hset.symm.trans hset'
  | some text =>
    dsimp only
    cases hread : Text.readUnsigned text with
    | ok number =>
      constructor
      · intro hok
        cases hok
        exact .overridden hset (Text.readUnsigned_eq_ok_iff.mp hread)
      · rintro (hunset | ⟨hset', hnumeral⟩)
        · cases hset.symm.trans hunset
        · cases hset.symm.trans hset'
          cases hread.symm.trans (Text.readUnsigned_eq_ok_iff.mpr hnumeral)
          rfl
    | error reason =>
      refine iff_of_false (fun hok => nomatch hok) ?_
      rintro (hunset | ⟨hset', hnumeral⟩)
      · cases hset.symm.trans hunset
      · cases hset.symm.trans hset'
        cases hread.symm.trans (Text.readUnsigned_eq_ok_iff.mpr hnumeral)

theorem numberOr_eq_error_iff : numberOr lookup var before = .error fault ↔ ∃ text reason,
    lookup var = some text ∧ Text.Unreadable text reason ∧ fault = .unreadable var text reason := by
  rw [numberOr]
  cases hset : lookup var with
  | none => exact iff_of_false (fun herror => nomatch herror) fun ⟨_, _, hset', _⟩ => nomatch hset'
  | some text =>
    dsimp only
    cases hread : Text.readUnsigned text with
    | ok number =>
      refine iff_of_false (fun herror => nomatch herror) ?_
      rintro ⟨_, reason, hset', hunreadable, -⟩
      cases hset'
      cases hread.symm.trans (Text.readUnsigned_eq_error_iff.mpr hunreadable)
    | error reason =>
      constructor
      · intro herror
        cases herror
        exact ⟨text, reason, rfl, Text.readUnsigned_eq_error_iff.mp hread, rfl⟩
      · rintro ⟨_, reason', hset', hunreadable, rfl⟩
        cases hset'
        cases hread.symm.trans (Text.readUnsigned_eq_error_iff.mpr hunreadable)
        rfl

namespace Settles

theorem unique (h : Settles lookup var before value) (h' : Settles lookup var before after) :
    value = after :=
  Except.ok.inj ((numberOr_eq_ok_iff.mpr h).symm.trans (numberOr_eq_ok_iff.mpr h'))

/-- A number that was there before is there afterwards. -/
theorem isSome {number : Nat} (h : Settles lookup var (some number) value) : ∃ n, value = some n := by
  cases h with
  | kept => exact ⟨number, rfl⟩
  | @overridden text n => exact ⟨n, rfl⟩

/-- A variable that has overridden a number leaves it as it is. -/
theorem again (h : Settles lookup var before after) : Settles lookup var after after := by
  cases h with
  | kept unset => exact .kept unset
  | overridden set numeral => exact .overridden set numeral

/-- Overriding by the one environment and then by the other is overriding by both. -/
theorem layered (h : Settles lower var before middle) (h' : Settles upper var middle after) :
    Settles (Variable.layered upper lower) var before after := by
  cases h' with
  | kept unset =>
    have hlower : Variable.layered upper lower var = lower var := by
      rw [Variable.layered, unset, Option.none_or]
    cases h with
    | kept unset' => exact .kept (hlower.trans unset')
    | overridden set numeral => exact .overridden (hlower.trans set) numeral
  | overridden set numeral =>
    exact .overridden (by rw [Variable.layered, set, Option.some_or]) numeral

end Settles

namespace Faulty

theorem numberOr_eq (h : config.Faulty lookup (.unreadable var text reason)) (before : Option Nat) :
    numberOr lookup var before = .error (.unreadable var text reason) := by
  cases h with
  | unreadable _ set unreadable => exact numberOr_eq_error_iff.mpr ⟨text, reason, set, unreadable, rfl⟩

end Faulty

/-! ### Settings -/

namespace Overrides

theorem unique (h : config.Overrides lookup merged) (h' : config.Overrides lookup other) :
    merged = other := by
  have hworkers := Option.some.inj (h.workers.unique h'.workers)
  have hlevels := Option.some.inj (h.levels.unique h'.levels)
  have hname := h.threadName.trans h'.threadName.symm
  have hstack := h.stackSize.unique h'.stackSize
  cases merged
  cases other
  cases hworkers
  cases hlevels
  cases hname
  cases hstack
  rfl

theorem again (h : config.Overrides lookup merged) : merged.Overrides lookup merged where
  workers := h.workers.again
  levels := h.levels.again
  threadName := by
    have hname := h.threadName
    cases hset : lookup .threadName with
    | none => rfl
    | some name => rwa [hset] at hname
  stackSize := h.stackSize.again

theorem layered (h : config.Overrides lower between) (h' : between.Overrides upper merged) :
    config.Overrides (Variable.layered upper lower) merged where
  workers := h.workers.layered h'.workers
  levels := h.levels.layered h'.levels
  threadName := by
    rw [h'.threadName, h.threadName, Variable.layered]
    cases upper .threadName <;> rfl
  stackSize := h.stackSize.layered h'.stackSize

/-- What is wrong with settings that can be overridden is what is wrong with the outcome. -/
theorem faulty_iff (h : config.Overrides lookup merged) :
    config.Faulty lookup fault ↔ ∃ setting, fault = .invalid setting ∧ merged.Lacks setting := by
  constructor
  · intro hfaulty
    cases hfaulty with
    | @unreadable var text reason number set unreadable =>
      have herror := (Faulty.unreadable number set unreadable : config.Faulty lookup _).numberOr_eq
      cases var with
      | workers => cases (numberOr_eq_ok_iff.mpr h.workers).symm.trans (herror _)
      | levels => cases (numberOr_eq_ok_iff.mpr h.levels).symm.trans (herror _)
      | threadName => exact absurd rfl number
      | stackSize => cases (numberOr_eq_ok_iff.mpr h.stackSize).symm.trans (herror _)
    | levels zero => exact ⟨.levels, rfl, Option.some.inj (h.levels.unique zero)⟩
    | threadName empty => exact ⟨.threadName, rfl, h.threadName.trans empty⟩
    | stackSize zero => exact ⟨.stackSize, rfl, h.stackSize.unique zero⟩
  · rintro ⟨setting, rfl, hlacks⟩
    cases setting with
    | levels => exact .levels (hlacks ▸ h.levels)
    | threadName => exact .threadName (h.threadName.symm.trans hlacks)
    | stackSize => exact .stackSize (hlacks ▸ h.stackSize)

/-- Settings that can be overridden are overridden and then checked. -/
theorem merge_eq (h : config.Overrides lookup merged) :
    config.merge lookup = merged.check.map fun _ => merged := by
  have hworkers := numberOr_eq_ok_iff.mpr h.workers
  have hlevels := numberOr_eq_ok_iff.mpr h.levels
  have hstack := numberOr_eq_ok_iff.mpr h.stackSize
  rw [merge, hworkers, hlevels, hstack, ← h.threadName]
  show (merged.check >>= fun _ => pure merged) = _
  cases merged.check <;> rfl

theorem merges (h : config.Overrides lookup merged) : config.Merges lookup (config.merge lookup) := by
  rw [h.merge_eq]
  cases hcheck : merged.check with
  | ok done => exact .merged h hcheck
  | error fault =>
    obtain ⟨setting, rfl, hlacks, hfirst⟩ := check_eq_error hcheck
    refine .failed ⟨h.faulty_iff.mpr ⟨setting, rfl, hlacks⟩, fun other hother => ?_⟩
    obtain ⟨setting', rfl, hlacks'⟩ := h.faulty_iff.mp hother
    exact Nat.add_le_add_left (hfirst setting' hlacks') 4

end Overrides

namespace Faulty

/-- There is one fault in every place. -/
theorem eq_of_place (h : config.Faulty lookup first) (h' : config.Faulty lookup second)
    (hplace : first.place = second.place) : first = second := by
  cases first with
  | unreadable var text reason =>
    have hvar := var.place_lt
    cases second with
    | unreadable var' text' reason' =>
      obtain rfl := Variable.place_inj hplace
      exact Except.error.inj ((h.numberOr_eq none).symm.trans (h'.numberOr_eq none))
    | invalid setting =>
      rw [ConfigFault.place, ConfigFault.place] at hplace
      omega
  | invalid setting =>
    cases second with
    | unreadable var text reason =>
      have hvar := var.place_lt
      rw [ConfigFault.place, ConfigFault.place] at hplace
      omega
    | invalid setting' =>
      exact congrArg ConfigFault.invalid (Setting.place_inj (Nat.add_left_cancel hplace))

end Faulty

/-- A variable that cannot be read is what is wrong first, if those before it can be. -/
theorem FaultyFirst.of_numberOr (h : numberOr lookup var before = .error fault) (number : var ≠ .threadName)
    (clear : ∀ earlier, earlier ≠ .threadName → earlier.place < var.place →
      ∃ before value, numberOr lookup earlier before = .ok value) : config.FaultyFirst lookup fault := by
  obtain ⟨text, reason, hset, hunreadable, rfl⟩ := numberOr_eq_error_iff.mp h
  refine ⟨.unreadable number hset hunreadable, fun other hother => ?_⟩
  cases other with
  | unreadable earlier text' reason' =>
    refine Nat.le_of_not_lt fun hlt => ?_
    have hnumber : earlier ≠ .threadName := by
      cases hother with
      | unreadable number => exact number
    obtain ⟨before', value, hok⟩ := clear earlier hnumber hlt
    cases hok.symm.trans (hother.numberOr_eq before')
  | invalid setting => exact Nat.le_trans (Nat.le_of_lt var.place_lt) (Nat.le_add_right 4 _)

/-! ### The outcome -/

theorem merges (config : Config) (lookup : Variable → Option String) :
    config.Merges lookup (config.merge lookup) := by
  cases hworkers : numberOr lookup .workers (some config.workers) with
  | error fault =>
    have hmerge : config.merge lookup = .error fault := by
      rw [merge, hworkers]
      rfl
    rw [hmerge]
    refine .failed (.of_numberOr hworkers (by decide) fun earlier _ hlt => ?_)
    exact absurd hlt (Nat.not_lt_zero _)
  | ok workers =>
    cases hlevels : numberOr lookup .levels (some config.levels) with
    | error fault =>
      have hmerge : config.merge lookup = .error fault := by
        rw [merge, hworkers, hlevels]
        rfl
      rw [hmerge]
      refine .failed (.of_numberOr hlevels (by decide) fun earlier _ hlt => ?_)
      obtain rfl : earlier = .workers := Variable.place_inj (Nat.lt_one_iff.mp hlt)
      exact ⟨_, _, hworkers⟩
    | ok levels =>
      cases hstack : numberOr lookup .stackSize config.stackSize with
      | error fault =>
        have hmerge : config.merge lookup = .error fault := by
          rw [merge, hworkers, hlevels, hstack]
          rfl
        rw [hmerge]
        refine .failed (.of_numberOr hstack (by decide) fun earlier hnumber hlt => ?_)
        cases earlier with
        | workers => exact ⟨_, _, hworkers⟩
        | levels => exact ⟨_, _, hlevels⟩
        | threadName => exact absurd rfl hnumber
        | stackSize => exact absurd hlt (Nat.lt_irrefl _)
      | ok stackSize =>
        rw [numberOr_eq_ok_iff] at hworkers hlevels hstack
        obtain ⟨workers, rfl⟩ := hworkers.isSome
        obtain ⟨levels, rfl⟩ := hlevels.isSome
        have hoverrides : config.Overrides lookup
            { workers, levels, threadName := (lookup .threadName).getD config.threadName, stackSize } :=
          ⟨hworkers, hlevels, rfl, hstack⟩
        exact hoverrides.merges

/-- It can end in one way only: nothing is wrong with settings that can be overridden and pass the check, and
there is one fault in every place. -/
theorem Merges.unique {outcome outcome' : Except ConfigFault Config} (h : config.Merges lookup outcome)
    (h' : config.Merges lookup outcome') : outcome = outcome' := by
  have hclear {merged : Config} {fault : ConfigFault} (hoverrides : config.Overrides lookup merged)
      (hchecked : merged.check = .ok ()) : ¬ config.FaultyFirst lookup fault := by
    intro hfirst
    obtain ⟨setting, -, hlacks⟩ := hoverrides.faulty_iff.mp hfirst.faulty
    exact check_eq_ok_iff.mp hchecked setting hlacks
  cases h with
  | merged overrides checked =>
    cases h' with
    | merged overrides' _ => exact congrArg Except.ok (overrides.unique overrides')
    | failed first => exact absurd first (hclear overrides checked)
  | failed first =>
    cases h' with
    | merged overrides checked => exact absurd first (hclear overrides checked)
    | failed first' =>
      have hplace := Nat.le_antisymm (first.first _ first'.faulty) (first'.first _ first.faulty)
      exact congrArg Except.error (first.faulty.eq_of_place first'.faulty hplace)

theorem merge_eq_iff {outcome : Except ConfigFault Config} :
    config.merge lookup = outcome ↔ config.Merges lookup outcome := by
  constructor
  · rintro rfl
    exact merges config lookup
  · exact (merges config lookup).unique

theorem merge_eq_ok_iff :
    config.merge lookup = .ok merged ↔ config.Overrides lookup merged ∧ merged.check = .ok () := by
  rw [merge_eq_iff]
  constructor
  · rintro ⟨overrides, checked⟩
    exact ⟨overrides, checked⟩
  · exact fun ⟨overrides, checked⟩ => .merged overrides checked

theorem merge_eq_error_iff : config.merge lookup = .error fault ↔ config.FaultyFirst lookup fault := by
  rw [merge_eq_iff]
  constructor
  · rintro (_ | ⟨first⟩)
    exact first
  · exact .failed

theorem Readable.exists_settles (h : Readable lookup) (var : Variable) (before : Option Nat)
    (hvar : var ≠ .threadName) : ∃ after, Settles lookup var before after := by
  cases hset : lookup var with
  | none => exact ⟨before, .kept hset⟩
  | some text =>
    obtain ⟨number, hnumeral⟩ := h var text hvar hset
    exact ⟨some number, .overridden hset hnumeral⟩

theorem Settles.exists_numeral (h : Settles lookup var before after) (hset : lookup var = some text) :
    ∃ number, Text.Numeral text number := by
  cases h with
  | kept unset => cases hset.symm.trans unset
  | @overridden text' number set numeral =>
    cases hset.symm.trans set
    exact ⟨number, numeral⟩

theorem exists_overrides_iff : (∃ merged, config.Overrides lookup merged) ↔ Readable lookup := by
  constructor
  · rintro ⟨merged, hoverrides⟩ var text hvar hset
    cases var with
    | workers => exact hoverrides.workers.exists_numeral hset
    | levels => exact hoverrides.levels.exists_numeral hset
    | threadName => exact absurd rfl hvar
    | stackSize => exact hoverrides.stackSize.exists_numeral hset
  · intro hreadable
    obtain ⟨after, hworkers⟩ := hreadable.exists_settles .workers (some config.workers) (by decide)
    obtain ⟨after', hlevels⟩ := hreadable.exists_settles .levels (some config.levels) (by decide)
    obtain ⟨stackSize, hstack⟩ := hreadable.exists_settles .stackSize config.stackSize (by decide)
    obtain ⟨workers, rfl⟩ := hworkers.isSome
    obtain ⟨levels, rfl⟩ := hlevels.isSome
    exact ⟨{ workers, levels, threadName := _, stackSize }, hworkers, hlevels, rfl, hstack⟩

def unusable : Config :=
  { workers := 3, levels := 0, threadName := "", stackSize := some 0 }

def site : Variable → Option String
  | .workers => some "\t+8 "
  | .levels => some "0016"
  | .threadName => some "batch"
  | .stackSize => some "18446744073709551615"

def user : Variable → Option String
  | .workers => some " 2\n"
  | .threadName => some " "
  | .levels | .stackSize => none

def garbled : Variable → Option String
  | .workers => none
  | .levels => some "18446744073709551616th"
  | .threadName => some ""
  | .stackSize => some "+"

/-- Settings are overridden exactly if the variables that are to be numbers can be read where they are set and
the outcome passes the check. Every setting then has the value of its variable, if that is set, and the one it
had before otherwise. If they are not overridden, what is told is what is wrong first. Overriding by one
environment and then by another is overriding by both, of which the later one counts, and overriding once more
by the same changes nothing. -/
theorem overrides_in_order (config : Config) (lookup : Variable → Option String) :
    ((∃ merged, config.merge lookup = .ok merged) ↔
      Readable lookup ∧ ∀ merged, config.Overrides lookup merged → merged.check = .ok ()) ∧
    (∀ merged, config.merge lookup = .ok merged ↔
      config.Overrides lookup merged ∧ merged.check = .ok ()) ∧
    (∀ fault, config.merge lookup = .error fault ↔ config.FaultyFirst lookup fault) ∧
    (∀ upper between merged, config.merge lookup = .ok between → between.merge upper = .ok merged →
      config.merge (Variable.layered upper lookup) = .ok merged) ∧
    ∀ merged, config.merge lookup = .ok merged → merged.merge lookup = .ok merged := by
  refine ⟨?_, fun merged => merge_eq_ok_iff, fun fault => merge_eq_error_iff, ?_, ?_⟩
  · constructor
    · rintro ⟨merged, hmerge⟩
      obtain ⟨hoverrides, hchecked⟩ := merge_eq_ok_iff.mp hmerge
      refine ⟨exists_overrides_iff.mp ⟨merged, hoverrides⟩, fun other hother => ?_⟩
      rwa [hother.unique hoverrides]
    · rintro ⟨hreadable, hchecked⟩
      obtain ⟨merged, hoverrides⟩ := (@exists_overrides_iff config lookup).mpr hreadable
      exact ⟨merged, merge_eq_ok_iff.mpr ⟨hoverrides, hchecked merged hoverrides⟩⟩
  · intro upper between merged hlower hupper
    obtain ⟨hfirst, -⟩ := merge_eq_ok_iff.mp hlower
    obtain ⟨hsecond, hchecked⟩ := merge_eq_ok_iff.mp hupper
    exact merge_eq_ok_iff.mpr ⟨hfirst.layered hsecond, hchecked⟩
  · intro merged hmerge
    obtain ⟨hoverrides, hchecked⟩ := merge_eq_ok_iff.mp hmerge
    exact merge_eq_ok_iff.mpr ⟨hoverrides.again, hchecked⟩

theorem overrides_in_order_site :
    let stacked : Config :=
      { workers := 2, levels := 16, threadName := " ", stackSize := some 18446744073709551615 }
    (∃ between, unusable.merge site = .ok between ∧ between.merge user = .ok stacked) ∧
    unusable.merge (Variable.layered user site) = .ok stacked ∧ stacked.merge user = .ok stacked ∧
    unusable.FaultyFirst garbled (.unreadable .levels "18446744073709551616th" .tooLarge) ∧
    unusable.FaultyFirst user (.invalid .levels) := by
  intro stacked
  let between : Config :=
    { workers := 8, levels := 16, threadName := "batch", stackSize := some 18446744073709551615 }
  have hsite : unusable.merge site = .ok between := rfl
  have huser : between.merge user = .ok stacked := rfl
  obtain ⟨-, -, -, hlayered, -⟩ := overrides_in_order unusable site
  obtain ⟨-, -, -, -, hagain⟩ := overrides_in_order between user
  obtain ⟨-, -, hgarbled, -, -⟩ := overrides_in_order unusable garbled
  obtain ⟨-, -, hunset, -, -⟩ := overrides_in_order unusable user
  exact ⟨⟨between, hsite, huser⟩, hlayered user between stacked hsite huser, hagain stacked huser,
    (hgarbled _).mp rfl, (hunset _).mp rfl⟩

end Config

end Dispatch
