import Dispatch.HolderTable

/-!
# Waiting lists, one at a time and together

The lists are known by `get`, which tells of each whether it has been freed and who waits on it. The tasks
on all lists together are `waiting`, in which a task stands as often as it waits: a new list adds nothing
to it, a task that is put on a list stands in it once more, and a list that is freed takes its own waiters
away (`count_waiting_free`).
-/

namespace Dispatch

/-- Replacing one member of a list changes how often something is met in what the members stand for by
what the two members stand for. -/
theorem count_flatMap_set {α β : Type} [BEq β] (f : α → List β) (x : β) (xs : List α) {i : Nat}
    (hi : i < xs.length) (y : α) :
    ((xs.set i y).flatMap f).count x + (f xs[i]).count x =
      (xs.flatMap f).count x + (f y).count x := by
  induction xs generalizing i with
  | nil => exact absurd hi (Nat.not_lt_zero i)
  | cons head tail ih =>
    cases i with
    | zero =>
      simp only [List.set_cons_zero, List.flatMap_cons, List.count_append, List.getElem_cons_zero]
      omega
    | succ i =>
      have h := ih (Nat.lt_of_succ_lt_succ hi)
      simp only [List.set_cons_succ, List.flatMap_cons, List.count_append,
        List.getElem_cons_succ] at h ⊢
      omega

namespace WaitingLists

variable {lists after : WaitingLists} {list : ListIndex} {task : TaskIndex}

/-- A list that was never made. -/
theorem get_of_size_le (h : lists.lists.size ≤ list) : lists.get list = { freed := true } := by
  simp [get, Array.getElem?_eq_none h]

theorem get_of_lt (h : list < lists.lists.size) : lists.get list = lists.lists[list] := by
  simp [get, h]

theorem lt_of_not_freed (h : (lists.get list).freed = false) : list < lists.lists.size := by
  refine Nat.lt_of_not_le fun hle => ?_
  rw [get_of_size_le hle] at h
  cases h

theorem lt_of_mem_waiters (h : task ∈ (lists.get list).waiters) : list < lists.lists.size := by
  refine Nat.lt_of_not_le fun hle => ?_
  rw [get_of_size_le hle] at h
  cases h

/-! ### The tasks on all lists -/

/-- The tasks on all lists, each as often as it waits. -/
def waiting (lists : WaitingLists) : List TaskIndex :=
  lists.lists.toList.flatMap WaitingList.waiters

theorem mem_waiting : task ∈ lists.waiting ↔ ∃ list, task ∈ (lists.get list).waiters := by
  rw [waiting, List.mem_flatMap]
  constructor
  · rintro ⟨found, hfound, htask⟩
    obtain ⟨i, hi, rfl⟩ := List.mem_iff_getElem.mp hfound
    refine ⟨i, ?_⟩
    rw [get_of_lt (by simpa using hi)]
    simpa using htask
  · rintro ⟨i, htask⟩
    have hi := lt_of_mem_waiters htask
    rw [get_of_lt hi] at htask
    exact ⟨lists.lists[i], by simp, htask⟩

theorem count_waiting_set (hi : list < lists.lists.size) (changed : WaitingList)
    (task : TaskIndex) :
    (WaitingLists.mk (lists.lists.setIfInBounds list changed)).waiting.count task +
        (lists.get list).waiters.count task =
      lists.waiting.count task + changed.waiters.count task := by
  have h := count_flatMap_set WaitingList.waiters task lists.lists.toList
    (by simpa using hi) changed
  rw [get_of_lt hi]
  simpa [waiting] using h

theorem get_set (hi : list < lists.lists.size) (changed : WaitingList) (other : ListIndex) :
    (WaitingLists.mk (lists.lists.setIfInBounds list changed)).get other =
      if other = list then changed else lists.get other := by
  by_cases h : other = list
  · subst h
    simp [get, hi]
  · simp [get, Array.getElem?_setIfInBounds_ne (Ne.symm h), h]

/-! ### New lists -/

@[simp] theorem size_make (lists : WaitingLists) :
    lists.make.2.lists.size = lists.lists.size + 1 := by
  simp [make]

theorem get_make (lists : WaitingLists) (list : ListIndex) :
    lists.make.2.get list = if list = lists.lists.size then {} else lists.get list := by
  simp only [get, make, Array.getD_eq_getD_getElem?, Array.getElem?_push]
  split <;> rfl

@[simp] theorem waiting_make (lists : WaitingLists) : lists.make.2.waiting = lists.waiting := by
  simp [waiting, make]

/-! ### Waiting and freeing -/

theorem add?_eq_none : lists.add? list task = none ↔ (lists.get list).freed = true := by
  rw [add?, WaitingList.add?]
  split <;> simp_all

theorem not_freed_of_add? (h : lists.add? list task = some after) :
    (lists.get list).freed = false := by
  cases hfreed : (lists.get list).freed with
  | false => rfl
  | true =>
    rw [add?_eq_none.mpr hfreed] at h
    cases h

theorem eq_of_add? (h : lists.add? list task = some after) :
    after = ⟨lists.lists.setIfInBounds list
      { freed := false, waiters := (lists.get list).waiters ++ [task] }⟩ := by
  have hfreed := not_freed_of_add? h
  rw [add?, WaitingList.add?, hfreed] at h
  simpa using h.symm

theorem get_add? (h : lists.add? list task = some after) (other : ListIndex) :
    after.get other =
      if other = list then { freed := false, waiters := (lists.get list).waiters ++ [task] }
      else lists.get other := by
  rw [eq_of_add? h, get_set (lt_of_not_freed (not_freed_of_add? h))]

theorem size_add? (h : lists.add? list task = some after) :
    after.lists.size = lists.lists.size := by
  rw [eq_of_add? h]
  exact Array.size_setIfInBounds

theorem count_waiting_add? (h : lists.add? list task = some after) (other : TaskIndex) :
    after.waiting.count other = lists.waiting.count other + [task].count other := by
  have hset := count_waiting_set (lt_of_not_freed (not_freed_of_add? h))
    { freed := false, waiters := (lists.get list).waiters ++ [task] } other
  rw [← eq_of_add? h] at hset
  simp only [List.count_append] at hset
  omega

@[simp] theorem free_fst (lists : WaitingLists) (list : ListIndex) :
    (lists.free list).1 = (lists.get list).waiters := rfl

@[simp] theorem size_free (lists : WaitingLists) (list : ListIndex) :
    (lists.free list).2.lists.size = lists.lists.size :=
  Array.size_setIfInBounds

theorem get_free (lists : WaitingLists) (list other : ListIndex) :
    (lists.free list).2.get other = if other = list then { freed := true } else lists.get other := by
  by_cases hi : list < lists.lists.size
  · exact get_set hi _ other
  · have hsame : (lists.free list).2 = lists := by
      simp only [free, WaitingList.free]
      rw [Array.setIfInBounds_eq_of_size_le (Nat.le_of_not_lt hi)]
    rw [hsame]
    split
    · next he => rw [he, get_of_size_le (Nat.le_of_not_lt hi)]
    · rfl

theorem count_waiting_free (lists : WaitingLists) (list : ListIndex) (task : TaskIndex) :
    (lists.free list).2.waiting.count task + (lists.get list).waiters.count task =
      lists.waiting.count task := by
  by_cases hi : list < lists.lists.size
  · exact count_waiting_set hi { freed := true } task
  · have hsame : (lists.free list).2 = lists := by
      simp only [free, WaitingList.free]
      rw [Array.setIfInBounds_eq_of_size_le (Nat.le_of_not_lt hi)]
    rw [hsame, get_of_size_le (Nat.le_of_not_lt hi)]
    rfl

/-- While nobody waits, a list that is freed has nobody to hand out. -/
theorem free_of_waiting_eq_nil (h : lists.waiting = []) (list : ListIndex) :
    (lists.free list).1 = [] ∧ (lists.free list).2.waiting = [] := by
  have hcount (task : TaskIndex) : (lists.free list).2.waiting.count task = 0 ∧
      (lists.get list).waiters.count task = 0 := by
    have hsum := count_waiting_free lists list task
    rw [h, List.count_nil] at hsum
    omega
  constructor
  · refine List.eq_nil_iff_forall_not_mem.mpr fun task => ?_
    exact List.count_eq_zero.mp (hcount task).2
  · refine List.eq_nil_iff_forall_not_mem.mpr fun task => ?_
    exact List.count_eq_zero.mp (hcount task).1

end WaitingLists

end Dispatch
