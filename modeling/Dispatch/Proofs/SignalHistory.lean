import Dispatch.Proofs.SignalEvents

/-!
# The history of a signal

A signal that has been made keeps its cancel handler. It is completed by the first call that says how, and
cancelled by the first that asks for it; nothing else changes either (`evolves`). So what it is at any time
can be read off the calls that were made before.
-/

namespace Dispatch

variable {σ : Type}

/-- How a script is about to complete a signal. -/
def SignalScript.completes? (script : SignalScript σ) (signal : SignalIndex) : Option Completion :=
  match script with
  | .complete other result _ => if other = signal then some result else none
  | .stop _ | .remember _ _ | .recall _ | .attempt _ _ | .make _ _ | .makeCompleted _ | .listen _ _ _
  | .cancel _ _ | .look _ _ | .makeFlag _ | .raise _ _ | .isRaised _ _ => none

def SignalScript.cancels (script : SignalScript σ) (signal : SignalIndex) : Bool :=
  match script with
  | .cancel other _ => other = signal
  | .stop _ | .remember _ _ | .recall _ | .attempt _ _ | .make _ _ | .makeCompleted _ | .complete _ _ _
  | .listen _ _ _ | .look _ _ | .makeFlag _ | .raise _ _ | .isRaised _ _ => false

namespace SignalThread

variable {thread later : SignalThread σ} {signal : SignalIndex}

structure Evolves (thread later : SignalThread σ) (signal : SignalIndex) : Prop where
  size : thread.world.signals.size ≤ later.world.signals.size
  handler : (later.world.get signal).cancelHandler = (thread.world.get signal).cancelHandler
  cancelled : (later.world.get signal).cancelled =
    ((thread.world.get signal).cancelled || thread.script.cancels signal)
  finished : (later.world.get signal).finished =
    (thread.world.get signal).finished.or (thread.script.completes? signal)

theorem evolves_of_same (hsignals : later.world.signals = thread.world.signals)
    (hcancels : thread.script.cancels signal = true → (thread.world.get signal).cancelled = true)
    (hcompletes : thread.script.completes? signal = none ∨
      (thread.world.get signal).finished.isSome) : thread.Evolves later signal := by
  have hget : later.world.get signal = thread.world.get signal := by
    rw [SignalWorld.get, SignalWorld.get, hsignals]
  refine ⟨hsignals ▸ Nat.le_refl _, congrArg _ hget, ?_, ?_⟩
  · rw [hget]
    cases hc : thread.script.cancels signal with
    | false => rw [Bool.or_false]
    | true => rw [hcancels hc]; rfl
  · rw [hget]
    obtain hnone | hsome := hcompletes
    · rw [hnone, Option.or_none]
    · rw [Option.or_of_isSome hsome]

theorem evolves_of_set {other : SignalIndex} {changed : Signal σ}
    (hsignals : later.world.signals = (thread.world.set other changed).signals)
    (hlt : other < thread.world.signals.size)
    (hhandler : changed.cancelHandler = (thread.world.get other).cancelHandler)
    (hcancelled : changed.cancelled =
      ((thread.world.get other).cancelled || thread.script.cancels other))
    (hfinished : changed.finished =
      (thread.world.get other).finished.or (thread.script.completes? other))
    (hothers : ∀ signal, signal ≠ other → thread.script.cancels signal = false ∧
      thread.script.completes? signal = none) : thread.Evolves later signal := by
  have hget : later.world.get signal = (thread.world.set other changed).get signal := by
    rw [SignalWorld.get, SignalWorld.get, hsignals]
  have hsize : thread.world.signals.size ≤ later.world.signals.size := by
    rw [hsignals, SignalWorld.size_set]
  by_cases heq : signal = other
  · subst heq
    rw [SignalWorld.get_set_self _ hlt] at hget
    exact ⟨hsize, hget ▸ hhandler, hget ▸ hcancelled, hget ▸ hfinished⟩
  · rw [SignalWorld.get_set_of_ne _ heq] at hget
    obtain ⟨hcancels, hcompletes⟩ := hothers signal heq
    refine ⟨hsize, congrArg _ hget, ?_, ?_⟩
    · rw [hget, hcancels, Bool.or_false]
    · rw [hget, hcompletes, Option.or_none]

theorem evolves_of_push {made : Signal σ}
    (hsignals : later.world.signals = thread.world.signals.push made)
    (hlt : signal < thread.world.signals.size) (hcancels : thread.script.cancels signal = false)
    (hcompletes : thread.script.completes? signal = none) : thread.Evolves later signal := by
  have hget : later.world.get signal = thread.world.get signal := by
    have hpush := @SignalWorld.get_push σ thread.world signal made
    rw [if_neg (Nat.ne_of_lt hlt)] at hpush
    rw [← hpush, SignalWorld.get, SignalWorld.get, hsignals]
  refine ⟨?_, congrArg _ hget, ?_, ?_⟩
  · rw [hsignals, Array.size_push]
    exact Nat.le_succ _
  · rw [hget, hcancels, Bool.or_false]
  · rw [hget, hcompletes, Option.or_none]

theorem signals_finish (thread : SignalThread σ) (ending : Ending) (frame : SignalFrame σ) :
    (thread.finish ending frame).world.signals = thread.world.signals := by
  cases frame with
  | resume next | cancelling next => cases ending <;> rfl
  | attempting next => rfl
  | notifying result due next => cases ending <;> cases due <;> rfl

/-- Every step does to a signal what its script says. -/
theorem evolves (h : thread.step = .inr later) (hlt : signal < thread.world.signals.size) :
    thread.Evolves later signal := by
  obtain ⟨world, script, stack⟩ := thread
  cases script with
  | stop ending =>
    cases stack with
    | nil => cases h
    | cons frame stack =>
      cases h
      exact evolves_of_same (signals_finish _ ending frame) (fun h => nomatch h) (.inl rfl)
  | remember _ _ | «recall» _ | attempt _ _ | look _ _ | makeFlag _ | raise _ _ | isRaised _ _ =>
    cases h
    exact evolves_of_same rfl (fun h => nomatch h) (.inl rfl)
  | make _ _ | makeCompleted _ =>
    cases h
    exact evolves_of_push rfl hlt rfl rfl
  | complete other result next =>
    unfold step Signal.complete? at h
    dsimp only at h
    cases hfinished : (world.get other).finished with
    | some winner =>
      rw [hfinished] at h
      cases h
      refine evolves_of_same rfl (fun h => nomatch h) ?_
      by_cases heq : other = signal
      · subst heq
        exact .inr (by rw [hfinished]; rfl)
      · exact .inl (if_neg heq)
    | none =>
      rw [hfinished] at h
      cases h
      have hother : other < world.signals.size :=
        SignalWorld.lt_of_get fun heq => by rw [heq] at hfinished; cases hfinished
      refine evolves_of_set (congrArg SignalWorld.signals (world_notify _ result (next true) _)) hother rfl
        (Bool.or_false _).symm ?_ fun signal hne => ⟨rfl, if_neg (Ne.symm hne)⟩
      rw [hfinished]
      exact (if_pos rfl).symm
  | listen other listener next =>
    unfold step at h
    dsimp only at h
    cases hfinished : (world.get other).finished with
    | some result =>
      rw [hfinished] at h
      cases h
      exact evolves_of_same rfl (fun h => nomatch h) (.inl rfl)
    | none =>
      rw [hfinished] at h
      cases h
      have hother : other < world.signals.size :=
        SignalWorld.lt_of_get fun heq => by rw [heq] at hfinished; cases hfinished
      exact evolves_of_set rfl hother rfl (Bool.or_false _).symm (Option.or_none).symm
        fun _ _ => ⟨rfl, rfl⟩
  | cancel other next =>
    unfold step at h
    dsimp only at h
    split at h
    · next hcancelled =>
      cases h
      refine evolves_of_same rfl (fun hcancels => ?_) (.inl rfl)
      rw [← of_decide_eq_true hcancels]
      exact hcancelled
    · next hcancelled =>
      cases h
      have hother : other < world.signals.size :=
        SignalWorld.lt_of_get fun heq => by rw [heq] at hcancelled; exact hcancelled rfl
      refine evolves_of_set rfl hother rfl ?_ (Option.or_none).symm fun signal hne =>
        ⟨decide_eq_false (Ne.symm hne), rfl⟩
      simp [SignalScript.cancels]

theorem completes?_eq_some {script : SignalScript σ} {result : Completion} :
    script.completes? signal = some result ↔ ∃ next, script = .complete signal result next := by
  cases script with
  | complete other given next =>
    unfold SignalScript.completes?
    dsimp only
    split
    · next heq =>
      subst heq
      simp
    · next hne => simp [hne]
  | stop _ | remember _ _ | «recall» _ | attempt _ _ | make _ _ | makeCompleted _ | listen _ _ _
  | cancel _ _ | look _ _ | makeFlag _ | raise _ _ | isRaised _ _ => simp [SignalScript.completes?]

/-! ### Over time -/

variable {start : SignalThread σ} {made time : Nat} {handler : SignalIndex → SignalScript σ}

abbrev after (start : SignalThread σ) (time : Nat) : SignalThread σ :=
  caller.after start time

theorem evolves_after (start : SignalThread σ) {time : Nat}
    (hlt : signal < (start.after time).world.signals.size) :
    (start.after time).Evolves (start.after (time + 1)) signal := by
  cases hstep : step (start.after time) with
  | inl ending =>
    have hsame : start.after (time + 1) = start.after time := advance_of_inl hstep
    rw [hsame]
    refine evolves_of_same rfl ?_ (.inl ?_) <;> rw [(ended hstep).1]
    · exact fun h => nomatch h
    · rfl
  | inr later =>
    have hlater : start.after (time + 1) = later := advance_of_inr hstep
    rw [hlater]
    exact evolves hstep hlt

theorem size_le (start : SignalThread σ) {time later : Nat} (hle : time ≤ later) :
    (start.after time).world.signals.size ≤ (start.after later).world.signals.size := by
  induction later, hle using Nat.le_induction with
  | base => exact Nat.le_refl _
  | succ later hle ih =>
    refine Nat.le_trans ih ?_
    obtain hnone | hsome := Nat.eq_zero_or_pos (start.after later).world.signals.size
    · rw [hnone]
      exact Nat.zero_le _
    · exact (evolves_after start hsome).size

def MadeAt (start : SignalThread σ) (made : Nat) (signal : SignalIndex)
    (handler : SignalIndex → SignalScript σ) : Prop :=
  (∃ next, (start.after made).script = .make handler next) ∧
    (start.after made).world.signals.size = signal

theorem MadeAt.world (h : start.MadeAt made signal handler) :
    (start.after (made + 1)).world.signals =
      (start.after made).world.signals.push { cancelHandler := handler signal } := by
  obtain ⟨⟨next, hscript⟩, rfl⟩ := h
  have hnext : start.after (made + 1) = advance step (start.after made) := rfl
  rw [hnext]
  generalize start.after made = thread at hscript ⊢
  obtain ⟨world, script, stack⟩ := thread
  cases hscript
  rfl

theorem MadeAt.lt_size (h : start.MadeAt made signal handler) (hlt : made < time) :
    signal < (start.after time).world.signals.size := by
  refine Nat.lt_of_lt_of_le ?_ (size_le start (Nat.succ_le_of_lt hlt))
  rw [h.world, Array.size_push, h.2]
  exact Nat.lt_succ_self signal

theorem MadeAt.get (h : start.MadeAt made signal handler) :
    (start.after (made + 1)).world.get signal = { cancelHandler := handler signal } := by
  have hget := @SignalWorld.get_push σ (start.after made).world signal { cancelHandler := handler signal }
  rw [if_pos h.2.symm] at hget
  rw [← hget, SignalWorld.get, SignalWorld.get, h.world]

theorem MadeAt.lt_of_completes (h : start.MadeAt made signal handler) {result : Completion}
    (hcompletes : (start.after time).Completes signal result) : made < time := by
  by_contra hnot
  have hsize := size_le start (Nat.le_of_not_lt hnot)
  rw [h.2] at hsize
  have hnone := hcompletes.2
  rw [SignalWorld.get_of_size_le hsize] at hnone
  cases hnone

theorem MadeAt.cancelHandler (h : start.MadeAt made signal handler) (hlt : made < time) :
    ((start.after time).world.get signal).cancelHandler = handler signal := by
  induction time, hlt using Nat.le_induction with
  | base => rw [h.get]
  | succ time hlt ih => rw [(evolves_after start (h.lt_size hlt)).handler, ih]

/-- A signal has been cancelled if it was asked for. -/
theorem MadeAt.cancelled_iff (h : start.MadeAt made signal handler) (hlt : made < time) :
    ((start.after time).world.get signal).cancelled = true ↔
      ∃ call, made < call ∧ call < time ∧ (start.after call).script.cancels signal := by
  induction time, hlt using Nat.le_induction with
  | base =>
    rw [h.get]
    constructor
    · intro hcancelled
      cases hcancelled
    · rintro ⟨call, hcall, hbefore, -⟩
      omega
  | succ time hlt ih =>
    rw [(evolves_after start (h.lt_size hlt)).cancelled, Bool.or_eq_true, ih]
    constructor
    · rintro (⟨call, hcall, hbefore, hcancels⟩ | hcancels)
      · exact ⟨call, hcall, Nat.lt_succ_of_lt hbefore, hcancels⟩
      · exact ⟨time, hlt, Nat.lt_succ_self time, hcancels⟩
    · rintro ⟨call, hcall, hbefore, hcancels⟩
      obtain hbefore | rfl := Nat.lt_succ_iff_lt_or_eq.mp hbefore
      · exact .inl ⟨call, hcall, hbefore, hcancels⟩
      · exact .inr hcancels

/-- A signal has completed as the call said that completed it. -/
theorem MadeAt.finished_iff (h : start.MadeAt made signal handler) (hlt : made < time)
    {result : Completion} : ((start.after time).world.get signal).finished = some result ↔
      ∃ call, call < time ∧ (start.after call).Completes signal result := by
  induction time, hlt using Nat.le_induction with
  | base =>
    rw [h.get]
    constructor
    · intro hfinished
      cases hfinished
    · rintro ⟨call, hbefore, hcompletes⟩
      have := h.lt_of_completes hcompletes
      omega
  | succ time hlt ih =>
    rw [(evolves_after start (h.lt_size hlt)).finished, Option.or_eq_some_iff, ih, completes?_eq_some]
    constructor
    · rintro (⟨call, hbefore, hcompletes⟩ | ⟨hnone, hscript⟩)
      · exact ⟨call, Nat.lt_succ_of_lt hbefore, hcompletes⟩
      · exact ⟨time, Nat.lt_succ_self time, hscript, hnone⟩
    · rintro ⟨call, hbefore, hcompletes⟩
      obtain hbefore | rfl := Nat.lt_succ_iff_lt_or_eq.mp hbefore
      · exact .inl ⟨call, hbefore, hcompletes⟩
      · exact .inr ⟨hcompletes.2, hcompletes.1⟩

/-- One call at most completes a signal. -/
theorem MadeAt.completes_inj (h : start.MadeAt made signal handler) {first second : Nat}
    {result other : Completion} (hfirst : (start.after first).Completes signal result)
    (hsecond : (start.after second).Completes signal other) : first = second := by
  by_contra hne
  wlog hlt : first < second generalizing first second result other
  · exact this hsecond hfirst (Ne.symm hne) (by omega)
  have hfinished := (h.finished_iff (h.lt_of_completes hsecond)).mpr ⟨first, hlt, hfirst⟩
  cases hsecond.2.symm.trans hfinished

end SignalThread

end Dispatch
