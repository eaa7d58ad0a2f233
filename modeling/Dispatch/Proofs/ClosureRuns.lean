import Dispatch.Engine.Crew
import Dispatch.Proofs.Closures
import Mathlib.Data.Nat.Count

/-!
# How the run of a closure task ends

A run that finds the closure taken does nothing but release through its own handle, and ends as that release
does (`Moment.OnlyReleases`). So does the first run where the closure has ended normally; where it has failed or
panicked, the run ends as the closure did, and its handle has not been used (`Moment.Invokes`). Both hold
whatever other threads do in between, and whatever the handlers of rejected waiters do. With the count of the
runs this is `closure_runs_once`.
-/

namespace Dispatch

variable {σ : Type}

/-! ### The release at the end of a run -/

/-- How the run of a closure task ends that ends with this outcome of a release. -/
def Ending.ofRelease : Except Fault Unit → Ending
  | .ok () => .normal
  | .error fault => .failed (.ofFault fault)

theorem Thread.finishRelease_closureEnd (world : World σ) (thread : Thread σ)
    (outcome : Except Fault Unit) : finishRelease world thread .closureEnd outcome =
      (world, thread.doing (.script none (.stop (.ofRelease outcome)))) := by
  cases outcome <;> rfl

namespace Moment

variable {moment last : Moment σ} {task : TaskIndex} {own : HandleIndex} {frames : List (Frame σ)}
  {outcome : Except Fault Unit}

/-- A run that these frames wait for is in the release with which it ends, or in the handler of a waiter that
this release has rejected, or it has ended as the release did. -/
inductive Concluding (outcome : Except Fault Unit) (frames : List (Frame σ)) (moment : Moment σ) : Prop
  | freeing {release : Freeing σ} (doing : moment.Doing (.freeing release) frames)
      (after : release.after = .closureEnd) (same : release.outcome = outcome)
  | rejecting {task : TaskIndex} {release : Freeing σ}
      (suffix : .rejecting task release :: frames <:+ moment.thread.stack)
      (after : release.after = .closureEnd) (same : release.outcome = outcome)
  | ended (doing : moment.Doing (.script none (.stop (.ofRelease outcome))) frames)

namespace Concluding

theorem next_of_freeing {release : Freeing σ} (doing : moment.Doing (.freeing release) frames)
    (hafter : release.after = .closureEnd) (hsame : release.outcome = outcome) :
    moment.next.Concluding outcome frames := by
  obtain ⟨hcontrol, rfl⟩ := doing
  have hnext := Doing.next_freeing ⟨hcontrol, rfl⟩
  rw [Thread.stepFreeing] at hnext
  split at hnext
  · next task waiters hwaiters =>
    dsimp only at hnext
    split at hnext
    · have hdoing : moment.next.Doing (.freeing { release with waiters }) moment.thread.stack := by
        rw [hnext]
        exact ⟨rfl, rfl⟩
      exact .freeing hdoing hafter hsame
    · have hsuffix : .rejecting task { release with waiters } :: moment.thread.stack <:+
          moment.next.thread.stack := by
        rw [hnext]
        exact List.suffix_refl _
      exact .rejecting hsuffix hafter hsame
  · split at hnext
    · next list lists hlists =>
      dsimp only at hnext
      have hdoing : moment.next.Doing
          (.freeing { release with waiters := (moment.world.engine.freeList list).1, lists })
          moment.thread.stack := by
        rw [hnext]
        exact ⟨rfl, rfl⟩
      exact .freeing hdoing hafter hsame
    · subst hsame
      refine .ended ?_
      rw [hnext, hafter, Thread.finishRelease_closureEnd]
      exact ⟨rfl, rfl⟩

theorem next (concluding : moment.Concluding outcome frames) (within : moment.Within frames) :
    moment.next.Concluding outcome frames := by
  cases concluding with
  | freeing doing after same => exact next_of_freeing doing after same
  | @rejecting task release suffix after same =>
    rcases moment.stack_next with hkept | ⟨frame, rest, ⟨handle, ending, hdoing⟩, hrest⟩
    · exact .rejecting (suffix.trans hkept) after same
    · rw [hdoing.stack] at suffix
      rcases List.suffix_cons_iff.mp suffix with heq | hbelow
      · obtain ⟨rfl, rfl⟩ := List.cons.inj heq
        exact .freeing hdoing.next_rejecting.1 after same
      · exact .rejecting (hbelow.trans hrest) after same
  | ended doing => exact absurd ⟨none, _, doing⟩ within.unstopped

theorem of_meanwhile (concluding : moment.Concluding outcome frames)
    (meanwhile : moment.Meanwhile own frames last) : last.Concluding outcome frames := by
  induction meanwhile with
  | refl => exact concluding
  | step _ within ih => exact ih.next within
  | others _ _ ih =>
    cases ih with
    | freeing doing after same => exact .freeing ⟨doing.control, doing.stack⟩ after same
    | rejecting suffix after same => exact .rejecting suffix after same
    | ended doing => exact .ended ⟨doing.control, doing.stack⟩

/-- Where the run has come back to its frames, it has ended as the release did. -/
theorem ending_eq (concluding : last.Concluding outcome frames) {handle : Option HandleIndex}
    {ending : Ending} (doing : last.Doing (.script handle (.stop ending)) frames) :
    ending = .ofRelease outcome := by
  cases concluding with
  | freeing releases => cases releases.control.symm.trans doing.control
  | rejecting suffix =>
    have hle := suffix.length_le
    rw [doing.stack, List.length_cons] at hle
    omega
  | ended ended =>
    cases ended.control.symm.trans doing.control
    rfl

end Concluding

/-- The release with which a run ends comes to its end if the handlers of rejected waiters do. -/
theorem Doing.back_of_release {release : Freeing σ} (doing : moment.Doing (.freeing release) frames)
    (hwaiters : release.waiters = []) (hafter : release.after = .closureEnd)
    (handlers : moment.HandlersReturn frames) :
    ∃ last, moment.Back frames (.ofRelease release.outcome) last := by
  have hdoing : moment.Doing (.freeing { release with waiters := [], lists := release.lists }) frames := by
    rw [← hwaiters]
    exact doing
  obtain ⟨freed, hall⟩ := hdoing.freesAll handlers
  have hfreed := hall.doing_last.next_freed
  have hstopped : freed.next.Stopped frames := by
    rw [hafter, Thread.finishRelease_closureEnd] at hfreed
    obtain ⟨-, hthread⟩ := Prod.mk.inj hfreed
    refine ⟨none, .ofRelease release.outcome, ?_, ?_⟩
    · rw [← hthread]
      rfl
    · rw [← hthread]
      exact hall.doing_last.stack
  obtain ⟨ending, last, hback⟩ :=
    exists_back (Thread.suffix_of_eq doing.stack) hall.leadsBy.leads.tail hstopped
  -- it has ended as the release did, since nothing else can have come of the release
  have hlast : last.Concluding release.outcome frames :=
    .of_meanwhile (.freeing doing hafter rfl) (hback.meanwhile : moment.Meanwhile 0 frames last)
  obtain ⟨handle, hended⟩ := hback.doing
  obtain rfl := hlast.ending_eq hended
  exact ⟨last, hback⟩

/-- All that is left of the run of a task is the release through its handle, which takes the tokens of the task
out of the table. The run ends as this release does. -/
structure OnlyReleases (moment : Moment σ) (task : TaskIndex) (own : HandleIndex) (frames : List (Frame σ)) :
    Prop where
  asks : moment.asks? = some own
  begun : moment.next.Doing (.freeing (moment.world.releaseOf task .closureEnd)) frames
  used : moment.next.world.handles[own]? = some ⟨task, true⟩
  /-- Nothing else is done, whatever other threads do. -/
  only : ∀ last, moment.next.Meanwhile own frames last →
    last.Concluding (moment.world.releaseOf task .closureEnd).outcome frames
  ended : ∀ last handle ending, moment.next.Meanwhile own frames last →
    last.Doing (.script handle (.stop ending)) frames →
      ending = .ofRelease (moment.world.releaseOf task .closureEnd).outcome
  /-- The run comes to its end if the handlers of rejected waiters do. -/
  returns : moment.next.HandlersReturn frames →
    ∃ last, moment.next.Back frames (.ofRelease (moment.world.releaseOf task .closureEnd).outcome) last

theorem OnlyReleases.of_releaseThrough {world : World σ} (asks : moment.asks? = some own)
    (held : world.handles[own]? = some ⟨task, false⟩) (engine : world.engine = moment.engine)
    (hnext : moment.next = .of (Thread.releaseThrough world { moment.thread with stack := frames } own
      .closureEnd)) : moment.OnlyReleases task own frames := by
  rw [Thread.releaseThrough_eq held] at hnext
  have hrelease : world.releaseOf task .closureEnd = moment.world.releaseOf task .closureEnd := by
    rw [World.releaseOf, World.releaseOf, engine]
    rfl
  have hbegun : moment.next.Doing (.freeing (moment.world.releaseOf task .closureEnd)) frames := by
    rw [hnext, ← hrelease]
    exact ⟨rfl, rfl⟩
  have hconcluding (last : Moment σ) (meanwhile : moment.next.Meanwhile own frames last) :
      last.Concluding (moment.world.releaseOf task .closureEnd).outcome frames :=
    .of_meanwhile (.freeing hbegun rfl rfl) meanwhile
  refine ⟨asks, hbegun, ?_, hconcluding, fun last handle ending meanwhile doing => ?_, fun handlers => ?_⟩
  · obtain ⟨hlt, -⟩ := Array.getElem?_eq_some_iff.mp held
    rw [hnext]
    exact Array.getElem?_setIfInBounds_self_of_lt hlt
  · exact (hconcluding last meanwhile).ending_eq doing
  · exact hbegun.back_of_release rfl rfl handlers

/-- The next step calls the closure of a task, with the mark set and a new handle. The handle is not used while
the closure runs. If the closure ends normally the run releases through the handle and ends with this; otherwise
it ends as the closure did, and nothing is released. -/
structure Invokes (moment : Moment σ) (task : TaskIndex) (closure : Script σ) (own : HandleIndex)
    (frames : List (Frame σ)) : Prop where
  taken : moment.next.engine.isTaken task = true
  called : moment.next.Doing (.script none closure) (.closing own :: frames)
  unused : ∀ last, moment.next.Meanwhile own (.closing own :: frames) last →
    last.world.handles[own]? = some ⟨task, false⟩
  released : ∀ last handle, moment.next.Meanwhile own (.closing own :: frames) last →
    last.Doing (.script handle (.stop .normal)) (.closing own :: frames) → last.OnlyReleases task own frames
  passed : ∀ last handle ending, moment.next.Meanwhile own (.closing own :: frames) last →
    last.Doing (.script handle (.stop ending)) (.closing own :: frames) → ending ≠ .normal →
      last.asks? = none ∧ last.next.world = last.world ∧
        last.next.Doing (.script none (.stop ending)) frames

variable {closure : Script σ}

theorem Enters.invokes (enters : moment.Enters task frames) (paired : moment.world.Paired)
    (hwork : moment.world.code[task]?.map Code.work = some (.closure closure))
    (untaken : moment.engine.isTaken task = false) :
    moment.Invokes task closure moment.world.handles.size frames := by
  have hnext := enters.next_of_untaken hwork untaken
  have hcalled : moment.next.Doing (.script none closure)
      (.closing moment.world.handles.size :: frames) := by
    rw [hnext]
    exact ⟨rfl, rfl⟩
  have hheld : moment.next.world.handles[moment.world.handles.size]? = some ⟨task, false⟩ := by
    rw [hnext]
    exact held_made moment task
  have hlacks : moment.next.thread.Lacks moment.world.handles.size
      (.closing moment.world.handles.size :: frames) := by
    constructor
    · rw [hcalled.control]
      exact nofun
    · rw [hcalled.stack]
      exact .refl _ _
  refine ⟨?_, hcalled, fun last meanwhile => (meanwhile.unreleased hheld hlacks).1,
    fun last handle meanwhile doing => ?_, fun last handle ending _ doing hne => ?_⟩
  · have hopens := moment.next_opens paired
    rw [enters.invokes?_of_untaken hwork untaken] at hopens
    exact (hopens.taken task).trans (if_pos rfl)
  · have hasks : last.asks? = some moment.world.handles.size := by
      rw [asks?, Thread.asks?, doing.control, doing.stack]
      rfl
    exact .of_releaseThrough hasks (meanwhile.unreleased hheld hlacks).1 rfl doing.next_finish
  · have hfinish := doing.next_finish
    refine ⟨?_, ?_⟩
    · rw [asks?, Thread.asks?, doing.control, doing.stack]
      exact if_neg hne
    · rw [hfinish]
      cases ending with
      | normal => exact absurd rfl hne
      | failed report => exact ⟨rfl, rfl, rfl⟩
      | panicked payload => exact ⟨rfl, rfl, rfl⟩

theorem Enters.onlyReleases (enters : moment.Enters task frames)
    (hwork : moment.world.code[task]?.map Code.work = some (.closure closure))
    (taken : moment.engine.isTaken task = true) :
    moment.OnlyReleases task moment.world.handles.size frames := by
  have hasks : moment.asks? = some moment.world.handles.size := by
    have hspent : moment.world.isSpent task = true := by
      rw [World.isSpent, hwork]
      exact taken
    rw [asks?, Thread.asks?]
    cases enters with
    | run doing | execute doing =>
      rw [doing.control]
      exact if_pos hspent
  exact .of_releaseThrough hasks (held_made moment task) rfl
    (enters.next_of_taken hwork taken)

end Moment

/-! ### Threads and crews -/

variable {world : World σ} {task : TaskIndex} {runs invoked : Nat}

theorem World.Counts.after {moment : Moment σ} (counts : moment.world.Counts task runs invoked) (n : Nat) :
    (moment.after n).world.Counts task
      (runs + Nat.count (fun k => (moment.after k).runs? = some task) n)
      (invoked + Nat.count (fun k => (moment.after k).invokes? = some task) n) := by
  induction n with
  | zero => exact counts
  | succ n ih =>
    rw [Nat.count_succ, Nat.count_succ, ← Nat.add_assoc, ← Nat.add_assoc]
    exact .step ih (moment.after n).thread

namespace Crew

variable {crew : Crew σ}

theorem relieve_keeps (world : World σ) (index : Nat) : world.Keeps (relieve world index).1 := by
  rw [relieve]
  split <;> exact .of_eq rfl rfl

theorem opened_keeps (world : World σ) (index : Nat) (ending : Ending) :
    world.Keeps (opened world index ending) := by
  cases ending <;> exact .of_eq rfl rfl

theorem counts_turn (counts : crew.world.Counts task runs invoked) (index : Nat) :
    ∃ runs' invoked', (crew.turn index).2.world.Counts task runs' invoked' := by
  rw [turn]
  split
  · exact ⟨runs, invoked, counts⟩
  · next worker hworker =>
    split
    · exact ⟨runs, invoked, counts⟩
    · have hstep := World.Counts.step counts worker.thread
      dsimp only
      split
      · exact ⟨_, _, hstep⟩
      · exact ⟨_, _, hstep⟩
      · exact ⟨_, _, hstep⟩
      · next ending hended =>
        refine ⟨_, _, World.Counts.aside (World.Counts.aside hstep ?_) (relieve_keeps _ index)⟩
        split
        · exact opened_keeps _ index ending
        · exact .refl _

theorem counts_round (counts : crew.world.Counts task runs invoked) :
    ∃ runs' invoked', crew.round.2.world.Counts task runs' invoked' := by
  rw [round]
  generalize List.range crew.workers.size = turns
  generalize false = moved
  induction turns generalizing crew moved runs invoked with
  | nil => exact ⟨runs, invoked, counts⟩
  | cons index turns ih =>
    obtain ⟨runs, invoked, counts⟩ := counts_turn counts index
    exact ih counts _

/-- Up to the time when the crew has nothing left to do there is a history of every task. -/
theorem counts_settle (counts : crew.world.Counts task runs invoked) (bound : Nat) :
    ∃ runs' invoked', (crew.settle bound).2.world.Counts task runs' invoked' := by
  induction bound generalizing crew runs invoked with
  | zero => exact ⟨runs, invoked, counts⟩
  | succ bound ih =>
    obtain ⟨runs, invoked, counts⟩ := counts_round counts
    rw [settle]
    split
    · next later hround =>
      rw [hround] at counts
      exact ih counts
    · next later hround =>
      rw [hround] at counts
      exact ⟨runs, invoked, counts⟩

end Crew

/-! ### A run -/

/-- A closure that runs its own task and then panics. -/
def Script.reentrant : Script Unit :=
  .run 0 fun _ _ => .stop (.panicked .other)

def World.reentrant : World Unit :=
  let queue : PriorityQueue TaskIndex := ⟨Array.replicate 1 .empty, .empty⟩
  let engine := (Engine.idle { levels := 1 } queue).record (.started 1 1)
  ((World.ofEngine engine ()).addClosure { tokens := [.unique 0] }
    { work := .closure .reentrant }).2

theorem World.fresh_reentrant : World.reentrant.Fresh :=
  .addClosure (@World.Fresh.start _ { levels := 1 } _ () rfl) _ _

def Moment.reentrant : Moment Unit :=
  ⟨.reentrant, .ofScript none (.execute 0 0 (.stop .normal))⟩

def Moment.reentrantFrames : List (Frame Unit) :=
  [.working 0 0 0, .resume none (.stop .normal)]

theorem World.Counts.reentrant : (Moment.reentrant.after 1).world.Counts 0 1 1 := by
  have hbegin : Moment.reentrant.world.Counts 0 0 0 := .begin World.fresh_reentrant rfl
  have hruns : Nat.count (fun k => (Moment.reentrant.after k).runs? = some 0) 1 = 1 := by decide +kernel
  have hinvokes : Nat.count (fun k => (Moment.reentrant.after k).invokes? = some 0) 1 = 1 := by
    decide +kernel
  have hafter := hbegin.after 1
  rw [hruns, hinvokes] at hafter
  exact hafter

/-! ### All runs of a task -/

/-- The closure of a task is invoked by the first run and by no other one, whoever runs the task and wherever,
also from inside the closure itself and from failure handlers. It is marked as taken from the first run on. The
first run releases if the closure ends normally, and otherwise leaves its handle unused; every later run does
nothing but release through its own handle. -/
theorem closure_runs_once {world : World σ} {task : TaskIndex} {runs invoked : Nat} {closure : Script σ}
    (counts : world.Counts task runs invoked)
    (hwork : world.code[task]?.map Code.work = some (.closure closure)) :
    invoked = min runs 1 ∧ world.engine.isTaken task = decide (0 < runs) ∧
      ∀ (thread : Thread σ) (frames : List (Frame σ)), Moment.Enters ⟨world, thread⟩ task frames →
        Moment.runs? ⟨world, thread⟩ = some task ∧
        (runs = 0 → Moment.invokes? ⟨world, thread⟩ = some task ∧
          Moment.Invokes ⟨world, thread⟩ task closure world.handles.size frames) ∧
        (0 < runs → Moment.invokes? ⟨world, thread⟩ = none ∧
          Moment.OnlyReleases ⟨world, thread⟩ task world.handles.size frames) := by
  obtain ⟨paired, hmark⟩ := counts.mark
  have hclosure : world.ClosureAt task := by
    intro code hcode
    rw [hcode] at hwork
    exact ⟨closure, Option.some.inj hwork⟩
  obtain ⟨hinvoked, htaken⟩ := hmark hclosure
  refine ⟨hinvoked, htaken, fun thread frames enters => ?_⟩
  refine ⟨enters.runs?_eq (world.known_of_work hwork), fun hzero => ?_, fun hpos => ?_⟩
  · have huntaken : world.engine.isTaken task = false := by
      rw [htaken, hzero]
      rfl
    exact ⟨enters.invokes?_of_untaken hwork huntaken, enters.invokes paired hwork huntaken⟩
  · have hspent : world.engine.isTaken task = true := htaken.trans (decide_eq_true hpos)
    exact ⟨enters.invokes?_of_stack (enters.stack_of_taken hwork hspent),
      enters.onlyReleases hwork hspent⟩

/-- The closure is invoked by the execution. The run inside it begins while the closure is on the stack, and has
nothing to do but release. -/
theorem closure_runs_once_reentrant :
    World.reentrant.code[0]?.map Code.work = some (.closure Script.reentrant) ∧
    World.reentrant.Counts 0 0 0 ∧ Moment.reentrant.Enters 0 Moment.reentrantFrames ∧
    Moment.reentrant.Invokes 0 Script.reentrant 0 Moment.reentrantFrames ∧
    (Moment.reentrant.after 1).world.Counts 0 1 1 ∧ ∃ next,
      (Moment.reentrant.after 1).Enters 0 (.running none 1 next :: .closing 0 :: Moment.reentrantFrames) ∧
      (Moment.reentrant.after 1).OnlyReleases 0 1
        (.running none 1 next :: .closing 0 :: Moment.reentrantFrames) := by
  have hwork : World.reentrant.code[0]?.map Code.work = some (.closure Script.reentrant) := rfl
  have hwork' : (Moment.reentrant.after 1).world.code[0]?.map Code.work = some (.closure Script.reentrant) :=
    rfl
  have hbegin : World.reentrant.Counts 0 0 0 := .begin World.fresh_reentrant rfl
  have hfirst : Moment.reentrant.Enters 0 Moment.reentrantFrames := .execute ⟨rfl, rfl⟩
  have hagain : (Moment.reentrant.after 1).Enters 0 (.running none 1
      (fun _ _ => .stop (.panicked .other)) :: .closing 0 :: Moment.reentrantFrames) := .run ⟨rfl, rfl⟩
  obtain ⟨-, -, hbefore⟩ := closure_runs_once hbegin hwork
  obtain ⟨-, -, hafter⟩ := closure_runs_once World.Counts.reentrant hwork'
  obtain ⟨-, hinvokes, -⟩ := hbefore _ _ hfirst
  obtain ⟨-, -, honly⟩ := hafter _ _ hagain
  exact ⟨hwork, hbegin, hfirst, (hinvokes rfl).2, .reentrant, _, hagain, (honly Nat.one_pos).2⟩

end Dispatch
