import Dispatch.Chronicle

/-!
# What the chronicle tells

The chronicle is read in two ways. Counted, it says how often a task was accepted, handed out, released and
rejected. Followed from the beginning, it says which claims are open: those of the tasks that have been
handed out and not released since. If no claim is released that is not open, the two agree
(`count_openClaims`).
-/

namespace Dispatch

namespace Failure

def isRejection (failure : Failure) : Bool :=
  match failure.cause with
  | .rejected _ => true
  | .error _ | .panic _ => false

/-- Work that failed was not rejected. -/
theorem isRejection_of_ofEnding? {ending : Ending} {failure : Failure}
    (h : ofEnding? ending = some failure) : failure.isRejection = false := by
  cases ending <;> cases h <;> rfl

end Failure

/-- Whether an occurrence leaves all tasks and all tokens where they are. -/
def Occurrence.isQuiet : Occurrence → Bool
  | submitted _ | enqueued .. | dequeued .. | moved .. | claimed .. | retried _ | waiting ..
  | handedOut _ | released .. | requeued _ | requeueRefused .. => false
  | reported _ failure => !failure.isRejection
  | started .. | shuttingDown _ | releaseFailed .. | opened _ | executed _ | failed ..
  | releaseRefused .. | unheard .. | handlerPanicked .. | initializerPanicked .. | workerStarted _
  | workerParked _ | workerStopped _ => true

namespace Occurrence

def submission? : Occurrence → Option TaskIndex
  | submitted task => some task
  | _ => none

def handout? : Occurrence → Option TaskIndex
  | handedOut task => some task
  | _ => none

def release? : Occurrence → Option TaskIndex
  | released task _ _ => some task
  | _ => none

def refusal? : Occurrence → Option Fault
  | released _ _ (.error fault) => some fault
  | _ => none

def rejection? : Occurrence → Option TaskIndex
  | reported task failure => if failure.isRejection then some task else none
  | _ => none

def serving? : Occurrence → Option TaskIndex
  | dequeued task _ => some task
  | _ => none

def retry? : Occurrence → Option TaskIndex
  | retried task => some task
  | _ => none

def wait? : Occurrence → Option TaskIndex
  | waiting task _ => some task
  | _ => none

def requeue? : Occurrence → Option TaskIndex
  | requeued task => some task
  | _ => none

theorem submission?_of_isQuiet {occurrence : Occurrence} (h : occurrence.isQuiet = true) :
    occurrence.submission? = none := by
  cases occurrence <;> first | rfl | cases h

theorem handout?_of_isQuiet {occurrence : Occurrence} (h : occurrence.isQuiet = true) :
    occurrence.handout? = none := by
  cases occurrence <;> first | rfl | cases h

theorem refusal?_of_isQuiet {occurrence : Occurrence} (h : occurrence.isQuiet = true) :
    occurrence.refusal? = none := by
  cases occurrence <;> first | rfl | cases h

theorem retry?_of_isQuiet {occurrence : Occurrence} (h : occurrence.isQuiet = true) :
    occurrence.retry? = none := by
  cases occurrence <;> first | rfl | cases h

theorem wait?_of_isQuiet {occurrence : Occurrence} (h : occurrence.isQuiet = true) :
    occurrence.wait? = none := by
  cases occurrence <;> first | rfl | cases h

theorem requeue?_of_isQuiet {occurrence : Occurrence} (h : occurrence.isQuiet = true) :
    occurrence.requeue? = none := by
  cases occurrence <;> first | rfl | cases h

theorem rejection?_of_isQuiet {occurrence : Occurrence} (h : occurrence.isQuiet = true) :
    occurrence.rejection? = none := by
  cases occurrence with
  | reported task failure =>
    rw [isQuiet, Bool.not_eq_true'] at h
    simp [rejection?, h]
  | _ => rfl

end Occurrence

/-! ### What is counted

A task is listed as often as this has happened to it. -/

def submissions (chronicle : List Occurrence) : List TaskIndex :=
  chronicle.filterMap Occurrence.submission?

def handouts (chronicle : List Occurrence) : List TaskIndex :=
  chronicle.filterMap Occurrence.handout?

def releases (chronicle : List Occurrence) : List TaskIndex :=
  chronicle.filterMap Occurrence.release?

def refusals (chronicle : List Occurrence) : List Fault :=
  chronicle.filterMap Occurrence.refusal?

def rejections (chronicle : List Occurrence) : List TaskIndex :=
  chronicle.filterMap Occurrence.rejection?

def servings (chronicle : List Occurrence) : List TaskIndex :=
  chronicle.filterMap Occurrence.serving?

def retries (chronicle : List Occurrence) : List TaskIndex :=
  chronicle.filterMap Occurrence.retry?

def waits (chronicle : List Occurrence) : List TaskIndex :=
  chronicle.filterMap Occurrence.wait?

def requeues (chronicle : List Occurrence) : List TaskIndex :=
  chronicle.filterMap Occurrence.requeue?

theorem filterMap_quiet {α : Type} {f : Occurrence → Option α} {news : List Occurrence}
    (earlier : List Occurrence) (hf : ∀ {occurrence}, occurrence.isQuiet = true → f occurrence = none)
    (h : ∀ occurrence ∈ news, occurrence.isQuiet = true) :
    (news ++ earlier).filterMap f = earlier.filterMap f := by
  rw [List.filterMap_append, List.filterMap_eq_nil_iff.mpr fun occurrence hmem => hf (h _ hmem)]
  rfl

/-! ### Open claims -/

/-- The tasks that have been handed out and not released since, as often as they have, the latest
first. -/
def openClaims : List Occurrence → List TaskIndex
  | [] => []
  | .handedOut task :: earlier => task :: openClaims earlier
  | .released task _ _ :: earlier => (openClaims earlier).erase task
  | _ :: earlier => openClaims earlier

/-- Whether tokens were released only for tasks with an open claim. -/
def onlyClaimsReleased : List Occurrence → Bool
  | [] => true
  | .released task _ _ :: earlier => (openClaims earlier).contains task && onlyClaimsReleased earlier
  | _ :: earlier => onlyClaimsReleased earlier

theorem openClaims_quiet {news : List Occurrence} (earlier : List Occurrence)
    (h : ∀ occurrence ∈ news, occurrence.isQuiet = true) :
    openClaims (news ++ earlier) = openClaims earlier := by
  induction news with
  | nil => rfl
  | cons occurrence news ih =>
    have hrest := ih fun other hmem => h other (List.mem_cons_of_mem _ hmem)
    have hquiet := h occurrence List.mem_cons_self
    cases occurrence <;> first | exact hrest | cases hquiet

/-- A task has as many open claims as it has been handed out more often than released. -/
theorem count_openClaims {chronicle : List Occurrence} (h : onlyClaimsReleased chronicle = true)
    (task : TaskIndex) : (openClaims chronicle).count task + (releases chronicle).count task =
      (handouts chronicle).count task := by
  induction chronicle with
  | nil => rfl
  | cons occurrence earlier ih =>
    cases occurrence with
    | handedOut other =>
      have hcount := ih h
      show (other :: openClaims earlier).count task + _ = (other :: handouts earlier).count task
      rw [List.count_cons, List.count_cons]
      show _ + _ + (releases earlier).count task = _
      omega
    | released other handle outcome =>
      obtain ⟨hopen, h⟩ := Bool.and_eq_true_iff.mp h
      have hcount := ih h
      have hperm := (List.perm_cons_erase (List.contains_iff_mem.mp hopen)).count_eq task
      show ((openClaims earlier).erase other).count task + (other :: releases earlier).count task =
        (handouts earlier).count task
      rw [List.count_cons] at hperm ⊢
      omega
    | _ => exact ih h

end Dispatch
