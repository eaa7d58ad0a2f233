import Dispatch.Proofs.Run

/-!
# Calls and returns

The frames below a call stay as they are until the thread comes back to them: a step takes a frame off only
where a script has ended, and then no more than the topmost one (`stack_next`). So the first time at which a
script has ended with exactly these frames below it is the return of the call (`exists_back`). A run that
comes to its end has come back from every call (`CallsReturn.of_over`).
-/

namespace Dispatch

variable {σ : Type}

/-! ### What a step does to the frames -/

namespace Thread

variable {world : World σ} {thread : Thread σ} {handle : Option HandleIndex}

theorem suffix_of_eq {before after : List (Frame σ)} (h : after = before) : before <:+ after := by
  subst h
  exact List.suffix_refl _

theorem suffix_finishExecution (world : World σ) (thread : Thread σ) (worker : Nat) (task : TaskIndex)
    (failure : Option Failure) :
    thread.stack <:+ (finishExecution world thread worker task failure).2.stack := by
  cases failure with
  | none => exact List.suffix_refl _
  | some failure => exact List.suffix_cons _ _

theorem suffix_finishRelease (world : World σ) (thread : Thread σ) (after : AfterRelease σ)
    (outcome : Except Fault Unit) :
    thread.stack <:+ (finishRelease world thread after outcome).2.stack := by
  cases after with
  | answer handle next => exact List.suffix_refl _
  | closureEnd => cases outcome <;> exact List.suffix_refl _
  | execution worker task failure =>
    cases outcome with
    | ok done => exact suffix_finishExecution world thread worker task failure
    | error fault => exact suffix_finishExecution _ thread worker task _

theorem suffix_releaseThrough (world : World σ) (thread : Thread σ) (own : HandleIndex)
    (after : AfterRelease σ) : thread.stack <:+ (releaseThrough world thread own after).2.stack := by
  rw [releaseThrough]
  split
  · exact suffix_finishRelease world thread after _
  · split
    · exact suffix_finishRelease world thread after _
    · exact List.suffix_refl _

theorem suffix_beginWork (world : World σ) (thread : Thread σ) (task : TaskIndex) (own : HandleIndex) :
    thread.stack <:+ (beginWork world thread task own).2.stack := by
  rw [beginWork]
  split
  · exact List.suffix_refl _
  · exact List.suffix_refl _
  · split
    · exact suffix_releaseThrough world thread own .closureEnd
    · exact List.suffix_cons _ _

theorem suffix_finish (world : World σ) (thread : Thread σ) (ending : Ending) (frame : Frame σ) :
    thread.stack <:+ (finish world thread ending frame).2.stack := by
  cases frame with
  | resume handle next => cases ending <;> exact List.suffix_refl _
  | attempting handle next => exact List.suffix_refl _
  | running handle own next => cases ending <;> exact List.suffix_refl _
  | holding handle own next => cases ending <;> exact List.suffix_refl _
  | working worker task own => exact suffix_releaseThrough world thread own _
  | reporting worker task => cases ending <;> exact List.suffix_refl _
  | closing own =>
    cases ending with
    | normal => exact suffix_releaseThrough world thread own .closureEnd
    | failed _ | panicked _ => exact List.suffix_refl _
  | rejecting task freeing => cases ending <;> exact List.suffix_refl _

theorem suffix_stepFreeing (world : World σ) (thread : Thread σ) (freeing : Freeing σ) :
    thread.stack <:+ (stepFreeing world thread freeing).2.stack := by
  rw [stepFreeing]
  split
  · dsimp only
    split
    · exact List.suffix_refl _
    · exact List.suffix_cons _ _
  · split
    · exact List.suffix_refl _
    · exact suffix_finishRelease _ thread freeing.after freeing.outcome

theorem stack_afterPoll (world : World σ) (thread : Thread σ) (handle : Option HandleIndex)
    (next : Option TaskIndex → Script σ) (poll : Poll) :
    (afterPoll world thread handle next poll).thread.stack = thread.stack := by
  cases poll <;> rfl

theorem stack_afterAttempt (world : World σ) (thread : Thread σ) (handle : Option HandleIndex)
    (task : TaskIndex) (after : AfterClaim σ) (admission : Admission) :
    (afterAttempt world thread handle task after admission).thread.stack = thread.stack := by
  cases admission with
  | acquired engine => cases after <;> rfl
  | waiting engine =>
    cases after with
    | answer next => rfl
    | poll next => exact stack_afterPoll world thread handle next engine.poll
  | refused engine list => rfl

/-- A script that has not ended leaves the frames below it alone. -/
theorem suffix_stepScript (world : World σ) (thread : Thread σ) (handle : Option HandleIndex)
    {script : Script σ} (unended : ∀ ending, script ≠ .stop ending) :
    thread.stack <:+ (stepScript world thread handle script).thread.stack := by
  cases script with
  | stop ending => exact absurd rfl (unended ending)
  | remember change next => exact List.suffix_refl _
  | «recall» next => exact List.suffix_refl _
  | attempt body next => exact List.suffix_cons _ _
  | schedule task next =>
    rw [stepScript]
    split <;> exact List.suffix_refl _
  | submit priority closure next =>
    rw [stepScript]
    dsimp only
    split <;> exact List.suffix_refl _
  | poll next => exact suffix_of_eq (stack_afterPoll ..)
  | claim task next =>
    rw [stepScript]
    split
    · exact List.suffix_refl _
    · exact suffix_of_eq (stack_afterAttempt ..)
  | releaseFor task next => exact List.suffix_refl _
  | release next =>
    cases handle with
    | none => exact List.suffix_refl _
    | some own => exact suffix_releaseThrough world thread own _
  | atHand next => exact List.suffix_refl _
  | run task next =>
    exact (List.suffix_cons _ _).trans (suffix_beginWork (world.makeHandle task).2
      { thread with stack := .running handle (world.makeHandle task).1 next :: thread.stack } task _)
  | execute worker task next =>
    have hframes : thread.stack <:+ .working worker task (world.makeHandle task).1 ::
        .resume handle next :: thread.stack := List.suffix_append [_, _] thread.stack
    exact hframes.trans (suffix_beginWork (world.makeHandle task).2
      { thread with stack := .working worker task (world.makeHandle task).1 :: .resume handle next ::
          thread.stack } task _)
  | withHandle task body next => exact List.suffix_cons _ _
  | report task failure next => exact List.suffix_cons _ _
  | setPriority task priority next => exact List.suffix_refl _
  | setTokens task tokens next => exact List.suffix_refl _
  | applyPriority task next =>
    rw [stepScript]
    split <;> exact List.suffix_refl _
  | shutDown next => exact List.suffix_refl _
  | join next => exact List.suffix_refl _
  | signal name next => exact List.suffix_refl _
  | await name next =>
    rw [stepScript]
    split <;> exact List.suffix_refl _
  | rest worker next =>
    rw [stepScript]
    split <;> exact List.suffix_refl _
  | whoAmI next => exact List.suffix_refl _

end Thread

namespace Moment

variable {moment middle later call last : Moment σ} {frames : List (Frame σ)} {frame : Frame σ}

/-- What the thread did has ended, and it is to go on with these frames. -/
def Stopped (moment : Moment σ) (frames : List (Frame σ)) : Prop :=
  ∃ handle ending, moment.Doing (.script handle (.stop ending)) frames

/-- Where a script has ended the thread goes on with the topmost frame. -/
theorem Doing.next_finish {handle : Option HandleIndex} {ending : Ending}
    (doing : moment.Doing (.script handle (.stop ending)) (frame :: frames)) : moment.next =
      ⟨(Thread.finish moment.world { moment.thread with stack := frames } ending frame).1,
        (Thread.finish moment.world { moment.thread with stack := frames } ending frame).2⟩ := by
  rw [next, Thread.step, doing.control]
  dsimp only
  rw [Thread.stepScript, doing.stack]
  rfl

/-- A step keeps all frames, or it takes off the topmost one where a script has ended. -/
theorem stack_next (moment : Moment σ) : moment.thread.stack <:+ moment.next.thread.stack ∨
    ∃ frame frames, moment.Stopped (frame :: frames) ∧ frames <:+ moment.next.thread.stack := by
  rw [next, Thread.step]
  cases hcontrol : moment.thread.control with
  | script handle script =>
    by_cases hended : ∃ ending, script = .stop ending
    · obtain ⟨ending, rfl⟩ := hended
      dsimp only
      rw [Thread.stepScript]
      split
      · exact .inl (List.suffix_refl _)
      · next frame frames hstack =>
        refine .inr ⟨frame, frames, ⟨handle, ending, hcontrol, hstack⟩, ?_⟩
        exact Thread.suffix_finish moment.world { moment.thread with stack := frames } ending frame
    · exact .inl (Thread.suffix_stepScript moment.world moment.thread handle
        fun ending heq => hended ⟨ending, heq⟩)
  | freeing freeing => exact .inl (Thread.suffix_stepFreeing moment.world moment.thread freeing)
  | claiming handle task list after =>
    exact .inl (Thread.suffix_of_eq (Thread.stack_afterAttempt ..))
  | joining handle workers next =>
    dsimp only
    split <;> exact .inl (List.suffix_refl _)
  | resting handle worker next =>
    dsimp only
    split <;> exact .inl (List.suffix_refl _)

/-! ### Ways between moments -/

theorem after_succ (moment : Moment σ) (n : Nat) : moment.after (n + 1) = moment.next.after n := by
  rw [Nat.add_comm]
  exact moment.after_add 1 n

/-- What is so on both parts of a way is so on the whole way. -/
theorem forall_after_add (kind : Moment σ → Prop) {n m : Nat} (first : ∀ k < n, kind (moment.after k))
    (second : ∀ k < m, kind ((moment.after n).after k)) : ∀ k < n + m, kind (moment.after k) := by
  intro k hk
  rcases Nat.lt_or_ge k n with hlt | hge
  · exact first k hlt
  · obtain ⟨j, rfl⟩ := Nat.exists_eq_add_of_le hge
    rw [after_add]
    exact second j (by omega)

/-- What is so before a step and behind it is so on the whole way, that step excepted. -/
theorem forall_after_except (kind : Moment σ → Prop) {n m : Nat} (before : ∀ k < n, kind (moment.after k))
    (behind : ∀ k < m, kind ((moment.after n).next.after k)) :
    ∀ k < n + 1 + m, k ≠ n → kind (moment.after k) := by
  intro k hk hne
  rcases Nat.lt_or_gt_of_ne hne with hlt | hgt
  · exact before k hlt
  · obtain ⟨j, rfl⟩ := Nat.exists_eq_add_of_le hgt
    rw [after_add]
    exact behind j (by omega)

/-- The thread gets from the one moment to the other by steps that are taken at moments of this kind. -/
def LeadsBy (moment : Moment σ) (kind : Moment σ → Prop) (later : Moment σ) : Prop :=
  ∃ n, moment.after n = later ∧ ∀ k < n, kind (moment.after k)

namespace LeadsBy

variable {kind other : Moment σ → Prop}

theorem refl (moment : Moment σ) : moment.LeadsBy kind moment :=
  ⟨0, rfl, fun k hk => absurd hk (Nat.not_lt_zero k)⟩

theorem single (h : kind moment) : moment.LeadsBy kind moment.next := by
  refine ⟨1, rfl, fun k hk => ?_⟩
  obtain rfl := Nat.lt_one_iff.mp hk
  exact h

theorem trans (first : moment.LeadsBy kind middle) (second : middle.LeadsBy kind later) :
    moment.LeadsBy kind later := by
  obtain ⟨n, rfl, hfirst⟩ := first
  obtain ⟨m, rfl, hsecond⟩ := second
  exact ⟨n + m, moment.after_add n m, forall_after_add kind hfirst hsecond⟩

theorem step (hnext : moment.next = later) (h : kind moment) : moment.LeadsBy kind later :=
  hnext ▸ single h

theorem head (hnext : moment.next = middle) (h : kind moment) (rest : middle.LeadsBy kind later) :
    moment.LeadsBy kind later :=
  (step hnext h).trans rest

theorem tail (first : moment.LeadsBy kind middle) (h : kind middle) :
    moment.LeadsBy kind middle.next :=
  first.trans (single h)

theorem mono (leads : moment.LeadsBy kind later) (h : ∀ moment, kind moment → other moment) :
    moment.LeadsBy other later := by
  obtain ⟨n, hlater, hkind⟩ := leads
  exact ⟨n, hlater, fun k hk => h _ (hkind k hk)⟩

theorem leads (leads : moment.LeadsBy kind later) : moment.Leads later := by
  obtain ⟨n, hlater, -⟩ := leads
  exact ⟨n, hlater⟩

end LeadsBy

/-! ### Coming back -/

/-- The thread is in a call with these frames below it, from which it has not come back. -/
structure Within (moment : Moment σ) (frames : List (Frame σ)) : Prop where
  suffix : frames <:+ moment.thread.stack
  unstopped : ¬ moment.Stopped frames

/-- In a call the frames below it stay as they are. -/
theorem Within.suffix_next (within : moment.Within frames) : frames <:+ moment.next.thread.stack := by
  rcases moment.stack_next with hkept | ⟨frame, rest, hstopped, hrest⟩
  · exact within.suffix.trans hkept
  · obtain ⟨handle, ending, hdoing⟩ := hstopped
    have hsuffix := within.suffix
    rw [hdoing.stack] at hsuffix
    rcases List.suffix_cons_iff.mp hsuffix with rfl | hbelow
    · exact absurd ⟨handle, ending, hdoing⟩ within.unstopped
    · exact hbelow.trans hrest

/-- The thread comes back from a call to these frames with this ending. Until then it is in the call. -/
structure Back (call : Moment σ) (frames : List (Frame σ)) (ending : Ending) (last : Moment σ) :
    Prop where
  leads : call.LeadsBy (·.Within frames) last
  doing : ∃ handle, last.Doing (.script handle (.stop ending)) frames

/-- A thread that is ever to go on with the frames below a call comes back from it. -/
theorem exists_back (hsuffix : frames <:+ call.thread.stack) (leads : call.Leads later)
    (stopped : later.Stopped frames) : ∃ ending last, call.Back frames ending last := by
  obtain ⟨n, rfl⟩ := leads
  induction n generalizing call with
  | zero =>
    obtain ⟨handle, ending, hdoing⟩ := stopped
    exact ⟨ending, call, .refl call, handle, hdoing⟩
  | succ n ih =>
    by_cases hstopped : call.Stopped frames
    · obtain ⟨handle, ending, hdoing⟩ := hstopped
      exact ⟨ending, call, .refl call, handle, hdoing⟩
    · have within : call.Within frames := ⟨hsuffix, hstopped⟩
      rw [after_succ] at stopped
      obtain ⟨ending, last, hback⟩ := ih within.suffix_next stopped
      exact ⟨ending, last, (LeadsBy.single within).trans hback.leads, hback.doing⟩

/-- The thread runs a script with exactly these frames below it. -/
def Runs (moment : Moment σ) (frames : List (Frame σ)) : Prop :=
  ∃ handle script, moment.Doing (.script handle script) frames

/-- Until the thread runs a script from these frames, every call of this kind that it makes from them comes
back. -/
def CallsReturn (moment : Moment σ) (kind : Frame σ → Prop) (frames : List (Frame σ)) : Prop :=
  ∀ call frame, kind frame → moment.LeadsBy (¬ ·.Runs frames) call →
    frame :: frames <:+ call.thread.stack → ∃ later, call.Leads later ∧ later.Stopped (frame :: frames)

theorem Within.not_runs (within : moment.Within (frame :: frames)) : ¬ moment.Runs frames := by
  rintro ⟨handle, script, hdoing⟩
  have hle := within.suffix.length_le
  rw [hdoing.stack, List.length_cons] at hle
  omega

theorem Stopped.not_runs (stopped : moment.Stopped (frame :: frames)) : ¬ moment.Runs frames := by
  rintro ⟨handle, script, hdoing⟩
  obtain ⟨own, ending, hstopped⟩ := stopped
  exact absurd (congrArg List.length (hstopped.stack.symm.trans hdoing.stack)) (by simp)

namespace CallsReturn

variable {kind : Frame σ → Prop}

theorem of_leadsBy (returns : moment.CallsReturn kind frames)
    (leads : moment.LeadsBy (¬ ·.Runs frames) later) : later.CallsReturn kind frames :=
  fun call frame hkind hcall => returns call frame hkind (leads.trans hcall)

theorem mono {other : Frame σ → Prop} (returns : moment.CallsReturn kind frames)
    (h : ∀ frame, other frame → kind frame) : moment.CallsReturn other frames :=
  fun call frame hother => returns call frame (h frame hother)

theorem back (returns : moment.CallsReturn kind frames) (hkind : kind frame)
    (leads : moment.LeadsBy (¬ ·.Runs frames) call) (hsuffix : frame :: frames <:+ call.thread.stack) :
    ∃ ending last, call.Back (frame :: frames) ending last := by
  obtain ⟨later, hlater, hstopped⟩ := returns call frame hkind leads hsuffix
  exact exists_back hsuffix hlater hstopped

/-- Where nothing is left below the end of a run, it has come back from all it called. -/
theorem of_over (leads : moment.Leads later) (ended : later.Over) : moment.CallsReturn kind frames := by
  intro call frame _ hcall hsuffix
  obtain ⟨n, rfl⟩ := leads
  obtain ⟨k, rfl⟩ := hcall.leads
  -- the end is reached from the call as well, since nothing moves any more once it is reached
  have hend : (moment.after k).after n = moment.after n := by
    rw [← after_add, Nat.add_comm, after_add]
    exact ended.leads ⟨k, rfl⟩
  refine Classical.byContradiction fun hnever => ?_
  have hkept : ∀ m, frame :: frames <:+ ((moment.after k).after m).thread.stack := by
    intro m
    induction m with
    | zero => exact hsuffix
    | succ m ih =>
      have within : ((moment.after k).after m).Within (frame :: frames) :=
        ⟨ih, fun hstopped => hnever ⟨_, ⟨m, rfl⟩, hstopped⟩⟩
      exact within.suffix_next
  have hbottom := (hkept n).length_le
  rw [hend, ended.stack, List.length_cons, List.length_nil] at hbottom
  omega

end CallsReturn

end Moment

end Dispatch
