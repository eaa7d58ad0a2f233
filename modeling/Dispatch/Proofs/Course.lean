import Mathlib.Logic.Hydra
import Mathlib.Tactic.Abel
import Dispatch.Failure

/-!
# The course of a thread

The users of a counter, of signals and of a pool are threads that take step after step until everything has
ended. The course of a thread is what it is after each number of steps. It ends if every step leaves less to
do (`ends_of_less`). What there is to do is a multiset of things, and less of it is to replace one of them by
any number of parts of it, over and over, which cannot go on forever if taking parts cannot (`less_wf`). A
thread that keeps a stack comes back from every call, and leaves what was below the call alone until then
(`Stacked.comes_back`).
-/

namespace Dispatch

variable {α ε φ : Type} {step : α → ε ⊕ α} {thread after : α} {ending : ε}

/-- A thread after a step. One that has ended stays as it is. -/
def advance (step : α → ε ⊕ α) (thread : α) : α :=
  match step thread with
  | .inl _ => thread
  | .inr after => after

def course (step : α → ε ⊕ α) (thread : α) : Nat → α
  | 0 => thread
  | time + 1 => advance step (course step thread time)

theorem advance_of_inr (h : step thread = .inr after) : advance step thread = after := by
  rw [advance, h]

theorem advance_of_inl (h : step thread = .inl ending) : advance step thread = thread := by
  rw [advance, h]

theorem course_of_inr (h : step thread = .inr after) (time : Nat) :
    course step thread (time + 1) = course step after time := by
  induction time with
  | zero => exact advance_of_inr h
  | succ time ih => exact congrArg (advance step) ih

/-- What has ended stays as it is. -/
theorem course_of_ended {time : Nat} (h : step (course step thread time) = .inl ending) {later : Nat}
    (hle : time ≤ later) : course step thread later = course step thread time := by
  induction later, hle using Nat.le_induction with
  | base => rfl
  | succ later hle ih =>
    rw [course, ih]
    exact advance_of_inl h

def Ends (step : α → ε ⊕ α) (thread : α) : Prop :=
  ∃ time ending, step (course step thread time) = .inl ending

/-! ### Having less to do -/

section Less

variable {τ : Type} {Part : τ → τ → Prop} {old new first second : τ}

/-- Less is to do when things have been replaced by parts of them. -/
def Less (Part : τ → τ → Prop) : Multiset τ → Multiset τ → Prop :=
  Relation.TransGen (Relation.CutExpand Part)

theorem less_wf (wf : WellFounded Part) : WellFounded (Less Part) :=
  wf.cutExpand.transGen

theorem less_of_parts {parts : Multiset τ} (h : ∀ part ∈ parts, Part part old) (rest : Multiset τ) :
    Less Part (parts + rest) ({old} + rest) :=
  .single ⟨parts, old, h, by abel⟩

theorem less_of_part (h : Part new old) (rest : Multiset τ) :
    Less Part ({new} + rest) ({old} + rest) :=
  less_of_parts (fun _ hmem => Multiset.mem_singleton.mp hmem ▸ h) rest

theorem less_of_two (hfirst : Part first old) (hsecond : Part second old) (rest : Multiset τ) :
    Less Part ({first} + ({second} + rest)) ({old} + rest) := by
  rw [← add_assoc]
  refine less_of_parts (fun part hmem => ?_) rest
  obtain hmem | hmem := Multiset.mem_add.mp hmem
  · exact Multiset.mem_singleton.mp hmem ▸ hfirst
  · exact Multiset.mem_singleton.mp hmem ▸ hsecond

theorem less_add (old : τ) (rest : Multiset τ) : Less Part rest ({old} + rest) := by
  simpa using less_of_parts (fun part hmem => absurd hmem (Multiset.notMem_zero part)) rest

theorem ends_of_less (wf : WellFounded Part) (todo : α → Multiset τ)
    (descends : ∀ thread after, step thread = .inr after → Less Part (todo after) (todo thread))
    (thread : α) : Ends step thread := by
  induction htodo : todo thread using (less_wf wf).induction generalizing thread with
  | _ _ ih =>
    subst htodo
    cases hstep : step thread with
    | inl ending => exact ⟨0, ending, hstep⟩
    | inr after =>
      obtain ⟨time, ending, hended⟩ := ih _ (descends thread after hstep) after rfl
      exact ⟨time + 1, ending, (course_of_inr hstep time).symm ▸ hended⟩

end Less

/-! ### Coming back -/

/-- What a step may do to the stack of a thread: only a thread that returns touches what is there, and then
no more than the top. A thread ends when it returns with nothing on the stack. -/
structure Stacked (step : α → ε ⊕ α) (stack : α → List φ) (returns : α → Prop) : Prop where
  keeps : ∀ {thread after}, step thread = .inr after →
    stack thread <:+ stack after ∨ returns thread ∧ (stack thread).tail <:+ stack after
  ended : ∀ {thread ending}, step thread = .inl ending → returns thread ∧ stack thread = []

namespace Stacked

variable {stack : α → List φ} {returns : α → Prop}

/-- The times at which a call that is made at the first of them is under way: what was on the stack before
is below whatever the thread does. -/
def Within (step : α → ε ⊕ α) (stack : α → List φ) (thread : α) (first last : Nat) : Prop :=
  ∀ time, first ≤ time → time ≤ last →
    stack (course step thread first) <:+ stack (course step thread time)

structure Back (step : α → ε ⊕ α) (stack : α → List φ) (returns : α → Prop) (thread : α)
    (first back : Nat) : Prop where
  le : first ≤ back
  within : Within step stack thread first back
  level : stack (course step thread back) = stack (course step thread first)
  returns : returns (course step thread back)

/-- A call is under way until the thread comes back from it. -/
theorem back_or_within (h : Stacked step stack returns) (thread : α) (first k : Nat) :
    (∃ back, Back step stack returns thread first back) ∨ Within step stack thread first (first + k) := by
  induction k with
  | zero =>
    refine .inr fun time hge hle => ?_
    rw [Nat.le_antisymm hle hge]
    exact List.suffix_refl _
  | succ k ih =>
    refine ih.elim .inl fun hwithin => ?_
    have hnow := hwithin (first + k) (Nat.le_add_right first k) (Nat.le_refl _)
    -- the call goes on if what was below it is still there after the next step
    have hgo (hnext : stack (course step thread first) <:+ stack (course step thread (first + k + 1))) :
        Within step stack thread first (first + k + 1) := fun time hge hle =>
      (Nat.le_succ_iff.mp hle).elim (hwithin time hge) fun heq => heq ▸ hnext
    cases hstep : step (course step thread (first + k)) with
    | inl ending =>
      refine .inr (hgo ?_)
      rw [course, advance_of_inl hstep]
      exact hnow
    | inr after =>
      have hafter : course step thread (first + k + 1) = after := advance_of_inr hstep
      obtain hkeeps | ⟨hreturns, htail⟩ := h.keeps hstep
      · exact .inr (hgo (hafter ▸ hnow.trans hkeeps))
      · by_cases hbelow : stack (course step thread (first + k)) = stack (course step thread first)
        · exact .inl ⟨first + k, Nat.le_add_right first k, hwithin, hbelow, hreturns⟩
        · refine .inr (hgo (hafter ▸ List.IsSuffix.trans ?_ htail))
          cases hstack : stack (course step thread (first + k)) with
          | nil =>
            rw [hstack] at hnow hbelow
            exact absurd (List.suffix_nil.mp hnow).symm hbelow
          | cons frame rest =>
            rw [hstack] at hnow hbelow
            exact (List.suffix_cons_iff.mp hnow).resolve_left fun heq => hbelow heq.symm

/-- A thread whose course ends comes back from every call. -/
theorem comes_back (h : Stacked step stack returns) (ends : Ends step thread) (first : Nat) :
    ∃ back, Back step stack returns thread first back := by
  obtain ⟨last, ending, hlast⟩ := ends
  obtain hback | hwithin := h.back_or_within thread first last
  · exact hback
  · -- nothing is left at the end, so there was nothing below
    have hend := course_of_ended hlast (Nat.le_add_left last first)
    obtain ⟨hreturns, hnil⟩ := h.ended (hend.symm ▸ hlast)
    have hle := Nat.le_add_right first last
    have hbottom := hwithin _ hle (Nat.le_refl _)
    rw [hnil, List.suffix_nil] at hbottom
    exact ⟨first + last, hle, hwithin, hnil.trans hbottom.symm, hreturns⟩

end Stacked

end Dispatch
