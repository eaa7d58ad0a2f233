import Dispatch.Proofs.Effect

/-!
# Runs

A run begins in a fresh world, in which an engine has been started and tasks have been made, with a script
that is free to do anything; when the script has ended, another may follow. Every state in between is a
moment of the run: between two calls of a script, inside the work of a task, inside a failure handler, in
the middle of a release. `Reached allowed` are the moments of the runs that take no step but those that are
allowed. What holds of fresh worlds and is preserved by every effect holds at all of them
(`Reached.invariant`).
-/

namespace Dispatch

variable {σ : Type}

/-- A world in which tasks have been made, and nothing else has been done. -/
inductive World.Fresh : World σ → Prop
  | start {config : Config} {engine : Engine} (memory : σ) (ok : Engine.start config = .ok engine) :
      Fresh (.ofEngine engine memory)
  | addTask {world : World σ} (fresh : Fresh world) (task : Task) (code : Code σ) :
      Fresh (world.addTask task code).2
  | addClosure {world : World σ} (fresh : Fresh world) (draft : Draft) (code : Code σ) :
      Fresh (world.addClosure draft code).2

structure Moment (σ : Type) where
  world : World σ
  thread : Thread σ

namespace Moment

def engine (moment : Moment σ) : Engine :=
  moment.world.engine

def ledger (moment : Moment σ) : Ledger σ :=
  moment.thread.ledger moment.world

def next (moment : Moment σ) : Moment σ :=
  ⟨(moment.thread.step moment.world).world, (moment.thread.step moment.world).thread⟩

def after (moment : Moment σ) : Nat → Moment σ
  | 0 => moment
  | n + 1 => (moment.after n).next

theorem after_add (moment : Moment σ) (n k : Nat) :
    moment.after (n + k) = (moment.after n).after k := by
  induction k with
  | zero => rfl
  | succ k ih => exact congrArg next ih

def Leads (moment later : Moment σ) : Prop :=
  ∃ n, moment.after n = later

namespace Leads

variable {moment middle later : Moment σ}

theorem refl (moment : Moment σ) : moment.Leads moment := ⟨0, rfl⟩

theorem single (moment : Moment σ) : moment.Leads moment.next := ⟨1, rfl⟩

theorem trans (first : moment.Leads middle) (second : middle.Leads later) : moment.Leads later := by
  obtain ⟨n, rfl⟩ := first
  obtain ⟨k, rfl⟩ := second
  exact ⟨n + k, moment.after_add n k⟩

theorem tail (first : moment.Leads middle) : moment.Leads middle.next :=
  first.trans (.single middle)

end Leads

structure Doing (moment : Moment σ) (control : Control σ) (stack : List (Frame σ)) : Prop where
  control : moment.thread.control = control
  stack : moment.thread.stack = stack

structure Over (moment : Moment σ) : Prop where
  control : ∃ handle ending, moment.thread.control = .script handle (.stop ending)
  stack : moment.thread.stack = []

theorem Over.ledger {moment : Moment σ} (ended : moment.Over) :
    moment.ledger = ⟨moment.world.engine, [], none⟩ := by
  obtain ⟨⟨handle, ending, hcontrol⟩, hstack⟩ := ended
  rw [Moment.ledger, Thread.ledger_of_script hcontrol, Thread.below, hstack]
  rfl

/-- Once its script has ended a thread stays where it is. -/
theorem Over.next {moment : Moment σ} (ended : moment.Over) : moment.next = moment := by
  obtain ⟨⟨handle, ending, hcontrol⟩, hstack⟩ := ended
  unfold Moment.next Thread.step
  simp only [hcontrol, Thread.stepScript, hstack]

theorem Over.leads {moment later : Moment σ} (ended : moment.Over) (leads : moment.Leads later) :
    later = moment := by
  obtain ⟨n, rfl⟩ := leads
  induction n with
  | zero => rfl
  | succ n ih =>
    show (moment.after n).next = moment
    rw [ih, ended.next]

/-- No call is under way that the engine is concerned with: no release, and no claim that is to be tried
again. -/
structure Settled (moment : Moment σ) : Prop where
  releases : moment.thread.releases = []
  retry : moment.thread.control.retry = none

end Moment

/-- The moments of the runs that take allowed steps only. -/
inductive Reached (allowed : Moment σ → Prop) : Moment σ → Prop
  | begin {world : World σ} (fresh : world.Fresh) (worker : Option Nat) (script : Script σ) :
      Reached allowed ⟨world, .ofScript worker script⟩
  | step {moment : Moment σ} (prior : Reached allowed moment) (ok : allowed moment) :
      Reached allowed moment.next
  | again {moment : Moment σ} (prior : Reached allowed moment) (ended : moment.Over)
      (worker : Option Nat) (script : Script σ) :
      Reached allowed ⟨moment.world, .ofScript worker script⟩

/-- An engine that was just started, whatever tasks have been made for it. -/
structure Engine.Blank (engine : Engine) : Prop where
  sound : engine.queue.Sound
  unqueued : ∀ task, engine.queue.contains task = false
  table : engine.table = .empty
  lists : engine.lists = {}
  chronicle : ∃ workers levels, engine.chronicle = [.started workers levels]

theorem Engine.Blank.of_start {config : Config} {engine : Engine}
    (ok : Engine.start config = .ok engine) : engine.Blank := by
  rw [Engine.start] at ok
  split at ok
  · cases ok
  · split at ok
    · cases ok
    · next queue hqueue =>
      cases ok
      have sound := PriorityQueue.Sound.ofLevels hqueue
      refine ⟨sound, fun task => ?_, rfl, rfl, _, _, rfl⟩
      rw [PriorityQueue.ofLevels] at hqueue
      split at hqueue
      · cases hqueue
      · cases hqueue
        exact congrArg Option.isSome (ShardMap.get?_empty task)

theorem World.Fresh.blank {world : World σ} (fresh : world.Fresh) : world.engine.Blank := by
  induction fresh with
  | start memory ok => exact .of_start ok
  | addTask fresh task code ih => exact ⟨ih.1, ih.2, ih.3, ih.4, ih.5⟩
  | addClosure fresh draft code ih => exact ⟨ih.1, ih.2, ih.3, ih.4, ih.5⟩

namespace Reached

variable {allowed : Moment σ → Prop} {moment : Moment σ}

/-- What holds of the engines of fresh worlds and is preserved by the effect of every allowed step holds
at every moment that is reached. -/
theorem invariant (Inv : Ledger σ → Prop)
    (fresh : ∀ world : World σ, world.Fresh → Inv ⟨world.engine, [], none⟩)
    (preserved : ∀ moment : Moment σ, Reached allowed moment → allowed moment →
      Effect moment.thread.Tries moment.thread.Reports moment.ledger moment.next.ledger →
      Inv moment.ledger → Inv moment.next.ledger)
    (reached : Reached allowed moment) : Inv moment.ledger := by
  induction reached with
  | begin hfresh worker script => exact fresh _ hfresh
  | @step moment prior ok ih =>
    exact preserved moment prior ok (Thread.step_effect moment.world moment.thread) ih
  | @again moment prior ended worker script ih =>
    rw [ended.ledger] at ih
    exact ih

/-- A run that is allowed to take any number of steps. -/
theorem steps {n : Nat} (reached : Reached allowed moment)
    (ok : ∀ k < n, allowed (moment.after k)) : Reached allowed (moment.after n) := by
  induction n with
  | zero => exact reached
  | succ n ih =>
    exact .step (ih fun k hk => ok k (Nat.lt_succ_of_lt hk)) (ok n (Nat.lt_succ_self n))

/-- No release that is under way has a rejected failure to report after it. -/
theorem proper (reached : Reached allowed moment) :
    ∀ freeing ∈ moment.ledger.releases, freeing.after.Proper := by
  refine invariant (fun ledger => ∀ freeing ∈ ledger.releases, freeing.after.Proper)
    (fun world hfresh => ?_) (fun moment _ _ effect ih => ?_) reached
  · exact fun freeing hmem => absurd hmem List.not_mem_nil
  · generalize moment.ledger = before at effect ih
    generalize moment.next.ledger = after at effect
    cases effect with
    | quiet | reported | scheduled | moved | polled | tried | refused | acquired | waiting =>
      exact ih
    | begun proper =>
      intro freeing hmem
      rcases List.mem_cons.mp hmem with rfl | hmem
      · exact proper
      · exact ih freeing hmem
    | freed | requeued | rejected =>
      have hown := ih _ List.mem_cons_self
      intro freeing hmem
      rcases List.mem_cons.mp hmem with rfl | hmem
      · exact hown
      · exact ih freeing (List.mem_cons_of_mem _ hmem)
    | finished => exact fun freeing hmem => ih freeing (List.mem_cons_of_mem _ hmem)

end Reached

/-! ### A run -/

/-- A world with two tasks that need the same token. -/
def World.rivals : World Unit :=
  let task : Task := { kind := .repeatable, priority := 0, tokens := [.unique 0] }
  let code : Code Unit := { work := .repeatable (.stop .normal) }
  let queue : PriorityQueue TaskIndex := ⟨Array.replicate 1 .empty, .empty⟩
  let engine := (Engine.idle { levels := 1 } queue).record (.started 1 1)
  (((World.ofEngine engine ()).addTask task code).2.addTask task code).2

theorem World.fresh_rivals : World.rivals.Fresh :=
  .addTask (.addTask (@World.Fresh.start _ { levels := 1 } _ () rfl) _ _) _ _

/-- The rivals are about to be scheduled and searched for: the first is found, and the second waits. -/
def Moment.rivals : Moment Unit :=
  ⟨.rivals, .ofScript none
    (.schedule 0 fun _ => .schedule 1 fun _ => .poll fun _ => .poll fun _ => .stop .normal)⟩

theorem Moment.Settled.rivals : (Moment.rivals.after 4).Settled :=
  ⟨List.isEmpty_iff.mp (by decide +kernel), Option.isNone_iff_eq_none.mp (by decide +kernel)⟩

theorem Reached.rivals {allowed : Moment Unit → Prop}
    (ok : ∀ k < 4, allowed (Moment.rivals.after k)) : Reached allowed (Moment.rivals.after 4) :=
  (Reached.begin World.fresh_rivals _ _).steps ok

end Dispatch
