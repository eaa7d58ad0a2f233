import Dispatch.Proofs.Course
import Dispatch.ReferenceCounter.Thread

/-!
# Every run of a counter ends

A listener may register other listeners and give back the last reference itself, so a run is not bounded by
the length of its script. But it does no more than its scripts say. What a thread has still to do is its
script, those its frames will go on with, and the listeners that wait; a step replaces one of these by parts
of it or by nothing (`less_todo`), and scripts do not go on forever (`part_wf`).
-/

namespace Dispatch

variable {σ : Type}

/-- What a thread still has to do: a script, or one that is told how something ended. -/
inductive CounterTodo (σ : Type) where
  | script (script : CounterScript σ)
  | branch (next : Ending → CounterScript σ)

namespace CounterTodo

/-- What there is to do after the first step of something. -/
inductive Part : CounterTodo σ → CounterTodo σ → Prop
  | remember {change : σ → σ} {next : CounterScript σ} :
      Part (.script next) (.script (.remember change next))
  | recall {next : CounterView → σ → CounterScript σ} (view : CounterView) (memory : σ) :
      Part (.script (next view memory)) (.script (.recall next))
  | body {body : CounterScript σ} {next : Ending → CounterScript σ} :
      Part (.script body) (.script (.attempt body next))
  | attempt {body : CounterScript σ} {next : Ending → CounterScript σ} :
      Part (.branch next) (.script (.attempt body next))
  | branch {next : Ending → CounterScript σ} (ending : Ending) :
      Part (.script (next ending)) (.branch next)
  | increment {next : CounterScript σ} : Part (.script next) (.script (.increment next))
  | decrement {next : CounterScript σ} : Part (.script next) (.script (.decrement next))
  | underflow {next : CounterScript σ} (ending : Ending) :
      Part (.script (.stop ending)) (.script (.decrement next))
  | listener {listener next : CounterScript σ} :
      Part (.script listener) (.script (.listen listener next))
  | listen {listener next : CounterScript σ} :
      Part (.script next) (.script (.listen listener next))
  | onceListener {listener next : CounterScript σ} :
      Part (.script listener) (.script (.listenOnce listener next))
  | listenOnce {listener next : CounterScript σ} :
      Part (.script next) (.script (.listenOnce listener next))
  | hold {next : GuardRef → CounterScript σ} (guard : GuardRef) :
      Part (.script (next guard)) (.script (.hold next))
  | letGo {guard : GuardRef} {next : CounterScript σ} :
      Part (.script next) (.script (.letGo guard next))
  | guardUnderflow {guard : GuardRef} {next : CounterScript σ} (ending : Ending) :
      Part (.script (.stop ending)) (.script (.letGo guard next))

theorem acc_script (script : CounterScript σ) : Acc Part (.script script) := by
  have hstop (ending : Ending) : Acc Part (.script (.stop ending : CounterScript σ)) :=
    .intro _ fun todo h => nomatch h
  induction script with
  | stop ending => exact hstop ending
  | remember change next ih =>
    refine .intro _ fun todo h => ?_
    cases h
    exact ih
  | «recall» next ih =>
    refine .intro _ fun todo h => ?_
    cases h
    exact ih _ _
  | attempt body next ihBody ih =>
    refine .intro _ fun todo h => ?_
    cases h with
    | body => exact ihBody
    | attempt =>
      refine .intro _ fun todo h => ?_
      cases h
      exact ih _
  | increment next ih =>
    refine .intro _ fun todo h => ?_
    cases h
    exact ih
  | decrement next ih =>
    refine .intro _ fun todo h => ?_
    cases h with
    | decrement => exact ih
    | underflow ending => exact hstop ending
  | listen listener next ihListener ih =>
    refine .intro _ fun todo h => ?_
    cases h with
    | listener => exact ihListener
    | listen => exact ih
  | listenOnce listener next ihListener ih =>
    refine .intro _ fun todo h => ?_
    cases h with
    | onceListener => exact ihListener
    | listenOnce => exact ih
  | hold next ih =>
    refine .intro _ fun todo h => ?_
    cases h
    exact ih _
  | letGo guard next ih =>
    refine .intro _ fun todo h => ?_
    cases h with
    | letGo => exact ih
    | guardUnderflow ending => exact hstop ending

/-- No script goes on forever. -/
theorem part_wf : WellFounded (Part (σ := σ)) := by
  refine ⟨fun todo => ?_⟩
  cases todo with
  | script script => exact acc_script script
  | branch next =>
    refine .intro _ fun todo h => ?_
    cases h
    exact acc_script _

def all (scripts : List (CounterScript σ)) : Multiset (CounterTodo σ) :=
  (scripts.map fun script => {.script script}).sum

end CounterTodo

open CounterTodo

def CounterFrame.todo : CounterFrame σ → Multiset (CounterTodo σ)
  | .resume next => {.script next}
  | .attempting next => {.branch next}
  | .firing due next => all due + {.script next}

def ReferenceCounter.todo (counter : ReferenceCounter σ) : Multiset (CounterTodo σ) :=
  all counter.listeners + all counter.once.toList

namespace CounterThread

variable {thread after : CounterThread σ}

def rest (thread : CounterThread σ) : Multiset (CounterTodo σ) :=
  (thread.stack.map CounterFrame.todo).sum + thread.world.counter.todo

def todo (thread : CounterThread σ) : Multiset (CounterTodo σ) :=
  {.script thread.script} + thread.rest

theorem todo_fire (thread : CounterThread σ) (next : CounterScript σ) (due : List (CounterScript σ)) :
    (thread.fire next due).todo = {.script next} + (all due + thread.rest) := by
  cases due with
  | nil => simp [fire, doing, todo, rest, all]
  | cons listener due =>
    simp only [fire, calling, todo, rest, all, CounterFrame.todo, List.map_cons, List.sum_cons]
    abel

/-- What is due at a zero crossing had waited. -/
theorem decrement?_todo {counter left : ReferenceCounter σ} {due : List (CounterScript σ)}
    (h : counter.decrement? = some (due, left)) : all due + left.todo = counter.todo := by
  unfold ReferenceCounter.decrement? at h
  split at h
  · cases h
  · cases h
    simp [ReferenceCounter.todo, all]
  · cases h
    simp [ReferenceCounter.todo, all]

theorem less_decrement {old next : CounterScript σ} (hnext : Part (.script next) (.script old))
    (hunderflow : ∀ ending, Part (.script (.stop ending)) (.script old)) :
    Less Part (thread.decrement next).todo ({.script old} + thread.rest) := by
  unfold decrement
  split
  · exact less_of_part (hunderflow _) thread.rest
  · next due counter h =>
    have hrest : all due + (thread.setCounter counter).rest = thread.rest := by
      rw [rest, rest, ← decrement?_todo h, setCounter]
      abel
    rw [todo_fire, hrest]
    exact less_of_part hnext thread.rest

theorem less_doing (thread : CounterThread σ) (script : CounterScript σ) :
    Less Part (thread.doing script).todo ({.script script} + thread.todo) := by
  have hsame : {.script script} + thread.todo =
      {.script thread.script} + ({.script script} + thread.rest) := by
    rw [todo]
    abel
  rw [hsame]
  exact less_add _ _

/-- When a thread returns, its frame does less than is known of it. -/
theorem less_finish (thread : CounterThread σ) (ending : Ending) (frame : CounterFrame σ) :
    Less Part (thread.finish ending frame).todo (frame.todo + thread.todo) := by
  cases frame with
  | resume next =>
    cases ending with
    | panicked payload => exact less_add (.script next) thread.todo
    | normal | failed _ => exact less_doing thread next
  | attempting next =>
    exact .trans (less_doing thread (next ending)) (less_of_part (.branch ending) thread.todo)
  | firing due next =>
    have hfire (log : List LogEntry) :
        Less Part (({ thread with world := { thread.world with log } } : CounterThread σ).fire next due).todo
          (CounterFrame.todo (.firing due next) + thread.todo) := by
      have hsame : CounterFrame.todo (.firing due next) + thread.todo =
          {.script thread.script} + ({.script next} + (all due + thread.rest)) := by
        rw [CounterFrame.todo, todo]
        abel
      rw [todo_fire, hsame]
      exact less_add _ _
    cases ending <;> exact hfire _

theorem todo_calling (thread : CounterThread σ) (frame : CounterFrame σ) (script : CounterScript σ) :
    (thread.calling frame script).todo = {.script script} + (frame.todo + thread.rest) := by
  rw [todo, rest, rest, calling, List.map_cons, List.sum_cons, add_assoc]

theorem less_wait {old listener next : CounterScript σ} {counter : ReferenceCounter σ}
    (hnext : Part (.script next) (.script old)) (hlistener : Part (.script listener) (.script old))
    (hwaits : counter.todo = {.script listener} + thread.world.counter.todo ∨ ∃ replaced,
      {.script replaced} + counter.todo = {.script listener} + thread.world.counter.todo) :
    Less Part ((thread.setCounter counter).doing next).todo ({.script old} + thread.rest) := by
  let stack := (thread.stack.map CounterFrame.todo).sum
  have htodo : ((thread.setCounter counter).doing next).todo =
      {.script next} + (stack + counter.todo) := rfl
  have hboth : {.script next} + ({.script listener} + thread.rest) =
      {.script next} + (stack + ({.script listener} + thread.world.counter.todo)) := by
    rw [rest]
    abel
  have hless := hboth ▸ less_of_two hnext hlistener thread.rest
  rw [htodo]
  obtain heq | ⟨replaced, heq⟩ := hwaits
  · rw [heq]
    exact hless
  · rw [← heq] at hless
    have hsame : {.script next} + (stack + ({.script replaced} + counter.todo)) =
        {.script replaced} + ({.script next} + (stack + counter.todo)) := by abel
    rw [hsame] at hless
    exact .trans (less_add _ _) hless

theorem less_todo (h : thread.step = .inr after) : Less Part after.todo thread.todo := by
  obtain ⟨world, script, stack⟩ := thread
  cases script with
  | stop ending =>
    cases stack with
    | nil => cases h
    | cons frame stack =>
      cases h
      have hless := less_finish ⟨world, .stop ending, stack⟩ ending frame
      simpa only [todo, rest, List.map_cons, List.sum_cons, add_assoc, add_left_comm] using hless
  | remember change next => cases h; exact less_of_part .remember _
  | «recall» next => cases h; exact less_of_part (.recall _ _) _
  | attempt body next =>
    cases h
    rw [todo_calling]
    exact less_of_two .body .attempt _
  | increment next => cases h; exact less_of_part .increment _
  | decrement next => cases h; exact less_decrement .decrement .underflow
  | listen listener next =>
    unfold step at h
    dsimp only at h
    split at h
    · cases h
      refine less_wait .listen .listener (.inl ?_)
      simp only [ReferenceCounter.todo, ReferenceCounter.listen, all, List.map_append, List.sum_append,
        List.map_singleton, List.sum_singleton]
      abel
    · cases h
      rw [todo_calling]
      exact less_of_two .listener .listen _
  | listenOnce listener next =>
    unfold step at h
    dsimp only at h
    split at h
    · cases h
      refine less_wait .listenOnce .onceListener ?_
      obtain ⟨count, listeners, once⟩ := world.counter
      cases once with
      | none =>
        refine .inl ?_
        simp [ReferenceCounter.todo, ReferenceCounter.listenOnce, all, add_comm]
      | some replaced =>
        refine .inr ⟨replaced, ?_⟩
        simp only [ReferenceCounter.todo, ReferenceCounter.listenOnce, all, Option.toList_some,
          List.map_singleton, List.sum_singleton]
        abel
    · cases h
      rw [todo_calling]
      exact less_of_two .onceListener .listenOnce _
  | hold next => cases h; exact less_of_part (.hold _) _
  | letGo guard next =>
    unfold step at h
    dsimp only at h
    split at h
    · cases h
      exact less_decrement .letGo .guardUnderflow
    · cases h
      exact less_of_part .letGo _

/-- Every run of a counter ends. -/
theorem ends (thread : CounterThread σ) : Ends step thread :=
  ends_of_less part_wf todo (fun _ _ => less_todo) thread

end CounterThread

end Dispatch
