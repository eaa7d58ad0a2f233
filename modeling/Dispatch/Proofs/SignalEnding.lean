import Dispatch.Proofs.Course
import Dispatch.Signal.Thread

/-!
# Every run of signals ends

What a thread has still to do is its script, what its frames will do, the listeners that wait and the cancel
handlers of the signals that have not been cancelled. A listener is a script that is told how its signal was
completed. A step replaces one of these by parts of it or by nothing (`less_todo`), and scripts do not go on
forever (`part_wf`).
-/

namespace Dispatch

variable {σ : Type}

inductive SignalTodo (σ : Type) where
  | script (script : SignalScript σ)
  | branch (next : Ending → SignalScript σ)
  | listener (listener : Completion → SignalScript σ)

namespace SignalTodo

inductive Part : SignalTodo σ → SignalTodo σ → Prop
  | remember {change : σ → σ} {next : SignalScript σ} :
      Part (.script next) (.script (.remember change next))
  | recall {next : σ → SignalScript σ} (memory : σ) :
      Part (.script (next memory)) (.script (.recall next))
  | body {body : SignalScript σ} {next : Ending → SignalScript σ} :
      Part (.script body) (.script (.attempt body next))
  | attempt {body : SignalScript σ} {next : Ending → SignalScript σ} :
      Part (.branch next) (.script (.attempt body next))
  | branch {next : Ending → SignalScript σ} (ending : Ending) :
      Part (.script (next ending)) (.branch next)
  | listener {listener : Completion → SignalScript σ} (result : Completion) :
      Part (.script (listener result)) (.listener listener)
  | handler {handler next : SignalIndex → SignalScript σ} (signal : SignalIndex) :
      Part (.script (handler signal)) (.script (.make handler next))
  | make {handler next : SignalIndex → SignalScript σ} (signal : SignalIndex) :
      Part (.script (next signal)) (.script (.make handler next))
  | makeCompleted {next : SignalIndex → SignalScript σ} (signal : SignalIndex) :
      Part (.script (next signal)) (.script (.makeCompleted next))
  | complete {signal : SignalIndex} {result : Completion} {next : Bool → SignalScript σ} (did : Bool) :
      Part (.script (next did)) (.script (.complete signal result next))
  | waiting {signal : SignalIndex} {listener : Completion → SignalScript σ} {next : SignalScript σ} :
      Part (.listener listener) (.script (.listen signal listener next))
  | called {signal : SignalIndex} {listener : Completion → SignalScript σ} {next : SignalScript σ}
      (result : Completion) : Part (.script (listener result)) (.script (.listen signal listener next))
  | listen {signal : SignalIndex} {listener : Completion → SignalScript σ} {next : SignalScript σ} :
      Part (.script next) (.script (.listen signal listener next))
  | cancel {signal : SignalIndex} {next : Bool → SignalScript σ} (did : Bool) :
      Part (.script (next did)) (.script (.cancel signal next))
  | look {signal : SignalIndex} {next : SignalView → SignalScript σ} (view : SignalView) :
      Part (.script (next view)) (.script (.look signal next))
  | makeFlag {next : FlagIndex → SignalScript σ} (flag : FlagIndex) :
      Part (.script (next flag)) (.script (.makeFlag next))
  | raise {flag : FlagIndex} {next : SignalScript σ} :
      Part (.script next) (.script (.raise flag next))
  | isRaised {flag : FlagIndex} {next : Bool → SignalScript σ} (raised : Bool) :
      Part (.script (next raised)) (.script (.isRaised flag next))

theorem acc_listener {listener : Completion → SignalScript σ}
    (h : ∀ result, Acc Part (.script (listener result))) : Acc Part (.listener listener) := by
  refine .intro _ fun todo part => ?_
  cases part
  exact h _

theorem acc_branch {next : Ending → SignalScript σ} (h : ∀ ending, Acc Part (.script (next ending))) :
    Acc Part (.branch next) := by
  refine .intro _ fun todo part => ?_
  cases part
  exact h _

theorem acc_script (script : SignalScript σ) : Acc Part (.script script) := by
  induction script with
  | stop ending => exact .intro _ fun todo part => nomatch part
  | remember change next ih =>
    refine .intro _ fun todo part => ?_
    cases part
    exact ih
  | «recall» next ih =>
    refine .intro _ fun todo part => ?_
    cases part
    exact ih _
  | attempt body next ihBody ih =>
    refine .intro _ fun todo part => ?_
    cases part with
    | body => exact ihBody
    | attempt => exact acc_branch ih
  | make handler next ihHandler ih =>
    refine .intro _ fun todo part => ?_
    cases part with
    | handler signal => exact ihHandler signal
    | make signal => exact ih signal
  | makeCompleted next ih =>
    refine .intro _ fun todo part => ?_
    cases part
    exact ih _
  | complete signal result next ih =>
    refine .intro _ fun todo part => ?_
    cases part
    exact ih _
  | listen signal listener next ihListener ih =>
    refine .intro _ fun todo part => ?_
    cases part with
    | waiting => exact acc_listener ihListener
    | called result => exact ihListener result
    | listen => exact ih
  | cancel signal next ih =>
    refine .intro _ fun todo part => ?_
    cases part
    exact ih _
  | look signal next ih =>
    refine .intro _ fun todo part => ?_
    cases part
    exact ih _
  | makeFlag next ih =>
    refine .intro _ fun todo part => ?_
    cases part
    exact ih _
  | raise flag next ih =>
    refine .intro _ fun todo part => ?_
    cases part
    exact ih
  | isRaised flag next ih =>
    refine .intro _ fun todo part => ?_
    cases part
    exact ih _

/-- No script goes on forever. -/
theorem part_wf : WellFounded (Part (σ := σ)) := by
  refine ⟨fun todo => ?_⟩
  cases todo with
  | script script => exact acc_script script
  | branch next => exact acc_branch fun ending => acc_script (next ending)
  | listener listener => exact acc_listener fun result => acc_script (listener result)

def all (listeners : List (Completion → SignalScript σ)) : Multiset (SignalTodo σ) :=
  (listeners.map fun listener => {.listener listener}).sum

end SignalTodo

open SignalTodo

def SignalFrame.todo : SignalFrame σ → Multiset (SignalTodo σ)
  | .resume next => {.script next}
  | .attempting next => {.branch next}
  | .notifying _ due next => all due + {.script next}
  | .cancelling next => {.script next}

def Signal.handlerTodo (signal : Signal σ) : Multiset (SignalTodo σ) :=
  if signal.cancelled then 0 else {.script signal.cancelHandler}

def Signal.todo (signal : Signal σ) : Multiset (SignalTodo σ) :=
  all signal.listeners + signal.handlerTodo

def SignalWorld.todo (world : SignalWorld σ) : Multiset (SignalTodo σ) :=
  (world.signals.toList.map Signal.todo).sum

namespace SignalWorld

/-- A signal that was never made has nothing to do, and changing it does nothing. -/
theorem get_of_size_le {world : SignalWorld σ} {signal : SignalIndex}
    (h : world.signals.size ≤ signal) : world.get signal = .completed := by
  rw [get, Array.getD_eq_getD_getElem?, Array.getElem?_eq_none h]
  rfl

theorem get_of_lt {world : SignalWorld σ} {signal : SignalIndex} (h : signal < world.signals.size) :
    world.get signal = world.signals[signal] := by
  rw [get, Array.getD_eq_getD_getElem?, Array.getElem?_eq_getElem h]
  rfl

theorem lt_of_get {world : SignalWorld σ} {signal : SignalIndex} (h : world.get signal ≠ .completed) :
    signal < world.signals.size :=
  Nat.lt_of_not_le fun hle => h (get_of_size_le hle)

/-- What there is to do is that of a signal and that of the others. -/
theorem todo_set (world : SignalWorld σ) {signal : SignalIndex} (h : signal < world.signals.size) :
    ∃ others, world.todo = (world.get signal).todo + others ∧
      ∀ changed, (world.set signal changed).todo = changed.todo + others := by
  have hlength : signal < world.signals.toList.length := by simpa using h
  have hsplit (changed : Signal σ) : (world.signals.toList.set signal changed).map Signal.todo =
      (world.signals.toList.take signal).map Signal.todo ++
        changed.todo :: (world.signals.toList.drop (signal + 1)).map Signal.todo := by
    rw [List.set_eq_take_append_cons_drop, if_pos hlength, List.map_append, List.map_cons]
  refine ⟨((world.signals.toList.take signal).map Signal.todo).sum +
    ((world.signals.toList.drop (signal + 1)).map Signal.todo).sum, ?_, fun changed => ?_⟩
  · have hsame : world.signals.toList.set signal (world.get signal) = world.signals.toList := by
      rw [get_of_lt h, ← Array.getElem_toList]
      exact List.set_getElem_self hlength
    have htodo := congrArg (fun signals => (signals.map Signal.todo).sum) hsame
    simp only [hsplit, List.sum_append, List.sum_cons] at htodo
    rw [todo, ← htodo]
    abel
  · rw [todo, set, Array.toList_setIfInBounds, hsplit, List.sum_append, List.sum_cons]
    abel

theorem todo_push (world : SignalWorld σ) (made : Signal σ) :
    ({ world with signals := world.signals.push made } : SignalWorld σ).todo =
      made.todo + world.todo := by
  rw [todo, Array.toList_push, List.map_append, List.sum_append, List.map_singleton, List.sum_singleton,
    add_comm]
  rfl

end SignalWorld

namespace SignalThread

variable {thread after : SignalThread σ}

def rest (thread : SignalThread σ) : Multiset (SignalTodo σ) :=
  (thread.stack.map SignalFrame.todo).sum + thread.world.todo

def todo (thread : SignalThread σ) : Multiset (SignalTodo σ) :=
  {.script thread.script} + thread.rest

theorem todo_calling (thread : SignalThread σ) (frame : SignalFrame σ) (script : SignalScript σ) :
    (thread.calling frame script).todo = {.script script} + (frame.todo + thread.rest) := by
  rw [todo, rest, rest, calling, List.map_cons, List.sum_cons, add_assoc]

theorem less_doing (thread : SignalThread σ) (script : SignalScript σ) :
    Less Part (thread.doing script).todo ({.script script} + thread.todo) := by
  have hsame : {.script script} + thread.todo =
      {.script thread.script} + ({.script script} + thread.rest) := by
    rw [todo]
    abel
  rw [hsame]
  exact less_add _ _

theorem notify_cases (thread : SignalThread σ) (result : Completion) (next : SignalScript σ)
    (due : List (Completion → SignalScript σ)) :
    (thread.notify result next due).todo = {.script next} + (all due + thread.rest) ∨
      Less Part (thread.notify result next due).todo ({.script next} + (all due + thread.rest)) := by
  cases due with
  | nil => exact .inl (by simp [notify, doing, todo, rest, all])
  | cons listener due =>
    refine .inr ?_
    have hsame : {.script next} + (all (listener :: due) + thread.rest) =
        {.listener listener} + (all due + {.script next} + thread.rest) := by
      rw [all, List.map_cons, List.sum_cons, ← all]
      abel
    rw [hsame, notify, todo_calling]
    exact less_of_part (.listener result) _

/-- When a thread returns, its frame does less than is known of it. -/
theorem less_finish (thread : SignalThread σ) (ending : Ending) (frame : SignalFrame σ) :
    Less Part (thread.finish ending frame).todo (frame.todo + thread.todo) := by
  cases frame with
  | resume next =>
    cases ending with
    | panicked payload => exact less_add (.script next) thread.todo
    | normal | failed _ => exact less_doing thread next
  | attempting next =>
    exact .trans (less_doing thread (next ending)) (less_of_part (.branch ending) thread.todo)
  | notifying result due next =>
    have hnotify (noted : SignalThread σ) (hrest : noted.rest = thread.rest) :
        Less Part (noted.notify result next due).todo
          (SignalFrame.todo (.notifying result due next) + thread.todo) := by
      have hsame : SignalFrame.todo (.notifying result due next) + thread.todo =
          {.script thread.script} + ({.script next} + (all due + noted.rest)) := by
        rw [SignalFrame.todo, todo, hrest]
        abel
      rw [hsame]
      have hless : Less Part ({.script next} + (all due + noted.rest))
          ({.script thread.script} + ({.script next} + (all due + noted.rest))) := less_add _ _
      exact (notify_cases noted result next due).elim (fun heq => heq ▸ hless) fun h => h.trans hless
    cases ending <;> exact hnotify _ rfl
  | cancelling next =>
    cases ending with
    | panicked payload => exact less_doing (thread.within (thread.world.note (handlerPanicked payload))) next
    | normal | failed _ => exact less_doing thread next

theorem todo_within (thread : SignalThread σ) (world : SignalWorld σ) (next : SignalScript σ) :
    ((thread.within world).doing next).todo =
      {.script next} + ((thread.stack.map SignalFrame.todo).sum + world.todo) := rfl

theorem less_grown {old added : SignalTodo σ} {next : SignalScript σ} {world : SignalWorld σ}
    (hnext : Part (.script next) old) (hadded : Part added old)
    (hworld : world.todo = {added} + thread.world.todo) :
    Less Part ((thread.within world).doing next).todo ({old} + thread.rest) := by
  have hsame : ((thread.within world).doing next).todo = {.script next} + ({added} + thread.rest) := by
    rw [todo_within, hworld, rest]
    abel
  rw [hsame]
  exact less_of_two hnext hadded thread.rest

/-- The listeners that a completion hands out had waited. -/
theorem less_complete {signal : SignalIndex} {result : Completion} {next : Bool → SignalScript σ}
    {due : List (Completion → SignalScript σ)} {completed : Signal σ}
    (h : (thread.world.get signal).complete? result = some (due, completed)) :
    Less Part ((thread.within (thread.world.set signal completed)).notify result (next true) due).todo
      ({.script (.complete signal result next)} + thread.rest) := by
  unfold Signal.complete? at h
  split at h
  · cases h
  · next hfinished =>
    cases h
    have hlt : signal < thread.world.signals.size :=
      SignalWorld.lt_of_get fun heq => by rw [heq] at hfinished; cases hfinished
    obtain ⟨others, hworld, hset⟩ := thread.world.todo_set hlt
    have hcompleted : ({ thread.world.get signal with
        finished := some result, listeners := [] } : Signal σ).todo =
          (thread.world.get signal).handlerTodo := zero_add _
    generalize ({ thread.world.get signal with finished := some result, listeners := [] } : Signal σ) =
      completed at hcompleted
    let notified : SignalThread σ := thread.within (thread.world.set signal completed)
    have hrest : all (thread.world.get signal).listeners + notified.rest = thread.rest := by
      have hnotified : notified.rest =
          (thread.stack.map SignalFrame.todo).sum + (thread.world.set signal completed).todo := rfl
      rw [hnotified, rest, hset, hworld, hcompleted, Signal.todo]
      abel
    have hless : Less Part ({.script (next true)} + thread.rest)
        ({.script (.complete signal result next)} + thread.rest) := less_of_part (.complete true) _
    rw [← hrest] at hless ⊢
    exact (notify_cases notified result (next true) _).elim (fun heq => heq ▸ hless) fun h => h.trans hless

theorem less_cancel {signal : SignalIndex} {next : Bool → SignalScript σ} {cancelled : Signal σ}
    (h : ¬ (thread.world.get signal).cancelled)
    (hcancelled : cancelled.todo = all (thread.world.get signal).listeners) :
    Less Part ((thread.within (thread.world.set signal cancelled)).calling (.cancelling (next true))
        (thread.world.get signal).cancelHandler).todo
      ({.script (.cancel signal next)} + thread.rest) := by
  have hlt : signal < thread.world.signals.size :=
    SignalWorld.lt_of_get fun heq => by rw [heq] at h; exact h rfl
  obtain ⟨others, hworld, hset⟩ := thread.world.todo_set hlt
  have hhandler : (thread.world.get signal).handlerTodo =
      {.script (thread.world.get signal).cancelHandler} := if_neg h
  let called : SignalThread σ := thread.within (thread.world.set signal cancelled)
  have hrest : called.rest =
      (thread.stack.map SignalFrame.todo).sum + (thread.world.set signal cancelled).todo := rfl
  have hsame : {.script (thread.world.get signal).cancelHandler} +
      (SignalFrame.todo (.cancelling (next true)) + called.rest) =
        {.script (next true)} + thread.rest := by
    rw [hrest, hset, hcancelled, rest, hworld, Signal.todo, hhandler, SignalFrame.todo]
    abel
  rw [todo_calling, hsame]
  exact less_of_part (.cancel true) thread.rest

theorem less_todo (h : thread.step = .inr after) : Less Part after.todo thread.todo := by
  obtain ⟨world, script, stack⟩ := thread
  cases script with
  | stop ending =>
    cases stack with
    | nil => cases h
    | cons frame stack =>
      cases h
      have hless := less_finish ⟨world, .stop ending, stack⟩ ending frame
      simpa only [todo, rest, List.map_cons, List.sum_cons, add_assoc, add_left_comm] using hless
  | remember change next => cases h; exact less_of_part .remember _
  | «recall» next => cases h; exact less_of_part (.recall _) _
  | attempt body next =>
    cases h
    rw [todo_calling]
    exact less_of_two .body .attempt _
  | make handler next =>
    cases h
    have hmade : ({ cancelHandler := handler world.signals.size } : Signal σ).todo =
        {.script (handler world.signals.size)} := by simp [Signal.todo, Signal.handlerTodo, all]
    exact less_grown (.make world.signals.size) (.handler world.signals.size)
      (hmade ▸ world.todo_push { cancelHandler := handler world.signals.size })
  | makeCompleted next =>
    cases h
    have hmade : (Signal.completed (σ := σ)).todo = 0 := by
      simp [Signal.todo, Signal.handlerTodo, Signal.completed, all]
    have hworld := world.todo_push .completed
    rw [hmade, zero_add] at hworld
    rw [todo_within, hworld]
    exact less_of_part (.makeCompleted world.signals.size) _
  | complete signal result next =>
    unfold step at h
    dsimp only at h
    split at h
    · cases h; exact less_of_part (.complete false) _
    · next due completed hcomplete =>
      cases h
      exact less_complete hcomplete
  | listen signal listener next =>
    unfold step at h
    dsimp only at h
    split at h
    · next result hfinished =>
      cases h
      rw [todo_calling]
      exact less_of_two (.called result) .listen _
    · next hfinished =>
      cases h
      have hlt : signal < world.signals.size :=
        SignalWorld.lt_of_get fun heq => by rw [heq] at hfinished; cases hfinished
      obtain ⟨others, hworld, hset⟩ := world.todo_set hlt
      refine less_grown .listen .waiting ?_
      show (world.set signal _).todo = {.listener listener} + world.todo
      have hhandler : ((world.get signal).listen listener).handlerTodo =
          (world.get signal).handlerTodo := rfl
      rw [hset, hworld, Signal.todo, hhandler]
      simp only [Signal.listen, Signal.todo, all, List.map_append, List.map_singleton, List.sum_append,
        List.sum_singleton]
      abel
  | cancel signal next =>
    unfold step at h
    dsimp only at h
    split at h
    · cases h; exact less_of_part (.cancel false) _
    · next hcancelled =>
      cases h
      exact less_cancel hcancelled (add_zero _)
  | look signal next => cases h; exact less_of_part (.look _) _
  | makeFlag next => cases h; exact less_of_part (.makeFlag _) _
  | raise flag next => cases h; exact less_of_part .raise _
  | isRaised flag next => cases h; exact less_of_part (.isRaised _) _

/-- Every run of signals ends. -/
theorem ends (thread : SignalThread σ) : Ends step thread :=
  ends_of_less part_wf todo (fun _ _ => less_todo) thread

end SignalThread

end Dispatch
