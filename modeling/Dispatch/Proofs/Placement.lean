import Dispatch.Proofs.Shutdown

/-!
# Queued tasks stand at their current priority

The priority of a task may change at any time, whether it is queued, waits, runs or is idle. In the runs
considered here it changes to that of a level only, and word of it is given at once (`Punctual`). Between their
steps every queued task stands at its current priority and at no other (`placed_of_punctual`): what is queued
or moved by a step goes to the priority that the task has after the step (`Effect.queue_preserves`), and no
step but the setting of a priority changes that of a task that has been made (`Engine.Keeps`).
-/

namespace Dispatch

variable {σ : Type}

namespace Engine

variable {engine middle after : Engine} {task : TaskIndex}

/-! ### What is known of the tasks -/

/-- All tasks of the first engine are known to the second, with the same priorities, and what has been
accepted since is known to it, too. -/
structure Keeps (engine after : Engine) : Prop where
  size : engine.tasks.size ≤ after.tasks.size
  priority : ∀ task < engine.tasks.size, after.priority task = engine.priority task
  submissions : ∀ task ∈ submissions after.chronicle,
    task ∈ submissions engine.chronicle ∨ task < after.tasks.size

namespace Keeps

theorem of_tasks (htasks : after.tasks = engine.tasks)
    (hsubmissions : Dispatch.submissions after.chronicle = Dispatch.submissions engine.chronicle) :
    engine.Keeps after := by
  refine ⟨Nat.le_of_eq (congrArg Array.size htasks).symm, ?_, ?_⟩
  · intro task _
    rw [priority_congr htasks]
  · intro task hmem
    rw [hsubmissions] at hmem
    exact .inl hmem

theorem refl (engine : Engine) : engine.Keeps engine := .of_tasks rfl rfl

theorem trans (first : engine.Keeps middle) (second : middle.Keeps after) : engine.Keeps after := by
  refine ⟨first.size.trans second.size, ?_, ?_⟩
  · intro task hlt
    rw [second.priority task (Nat.lt_of_lt_of_le hlt first.size), first.priority task hlt]
  · intro task hmem
    rcases second.submissions task hmem with hmem | hlt
    · rcases first.submissions task hmem with hmem | hlt
      · exact .inl hmem
      · exact .inr (Nat.lt_of_lt_of_le hlt second.size)
    · exact .inr hlt

theorem schedule (known : task < engine.tasks.size) (ok : engine.schedule task = .ok after) :
    engine.Keeps after := by
  obtain ⟨queue, -, rfl⟩ := schedule_ok ok
  refine ⟨Nat.le_refl _, fun _ _ => rfl, fun other hmem => ?_⟩
  rcases List.mem_cons.mp hmem with rfl | hmem
  · exact .inr known
  · exact .inl hmem

theorem addClosure (engine : Engine) (draft : Draft) : engine.Keeps (engine.addClosure draft).2 := by
  let tasks := engine.tasks.push (draft.build engine.nextSerial)
  have hsize : tasks.size = engine.tasks.size + 1 := Array.size_push _
  refine ⟨?_, ?_, fun _ hmem => .inl hmem⟩
  · show engine.tasks.size ≤ tasks.size
    omega
  · intro task hlt
    show (tasks[task]?.map Task.priority).getD 0 = _
    rw [Array.getElem?_push_lt hlt, Engine.priority, Array.getElem?_eq_getElem hlt]

theorem modifyTask (engine : Engine) (task : TaskIndex) {change : Task → Task}
    (h : ∀ known, (change known).priority = known.priority) :
    engine.Keeps (engine.modifyTask task change) := by
  refine ⟨Nat.le_of_eq Array.size_modify.symm, fun other _ => ?_, fun _ hmem => .inl hmem⟩
  show ((engine.tasks.modify task change)[other]?.map Task.priority).getD 0 = _
  rw [Array.getElem?_modify, Engine.priority]
  split
  · rw [Option.map_map, show Task.priority ∘ change = Task.priority from funext h]
  · rfl

theorem of_act {accepts : TaskIndex → Prop} {sets : Prop}
    (known : ∀ task, accepts task → task < engine.tasks.size) (steady : ¬ sets)
    (act : Act accepts sets engine after) : engine.Keeps after := by
  cases act with
  | told occurrence unsubmitted _ tasks chronicle =>
    refine .of_tasks tasks ?_
    rw [chronicle]
    exact List.filterMap_cons_none unsubmitted
  | tells tells tasks => exact .of_tasks tasks tells.unsubmitted
  | accepted asked ok => exact .schedule (asked.elim (known _) id) ok
  | made draft => exact .addClosure engine draft
  | changed task change priority => exact .modifyTask engine task priority
  | prioritised asked => exact absurd asked steady
  | shutDown =>
    rw [Engine.shutDown]
    split
    · exact .refl engine
    · exact .of_tasks rfl rfl

theorem of_acts {accepts : TaskIndex → Prop} {sets : Prop}
    (known : ∀ task, accepts task → task < engine.tasks.size) (steady : ¬ sets)
    (acts : Acts accepts sets engine after) : engine.Keeps after := by
  induction acts with
  | refl => exact .refl engine
  | tail _ act ih =>
    exact ih.trans (.of_act (fun task asked => Nat.lt_of_lt_of_le (known task asked) ih.size) steady act)

end Keeps

/-! ### Where the tasks stand -/

structure UpToDate (engine : Engine) : Prop where
  known : ∀ task ∈ submissions engine.chronicle, task < engine.tasks.size
  entered : ∀ task level, engine.queue.levelOf.get? task = some level → level = engine.priority task

end Engine

structure PriorityQueue.Entered (queue : PriorityQueue TaskIndex) (priority : TaskIndex → Nat) : Prop where
  tallied : queue.Tallied
  entered : ∀ task level, queue.levelOf.get? task = some level → level = priority task

namespace PriorityQueue.Entered

variable {queue after : PriorityQueue TaskIndex} {priority : TaskIndex → Nat} {task : TaskIndex}

theorem dequeue (h : queue.Entered priority) : queue.dequeue.2.Entered priority := by
  refine ⟨h.tallied.dequeue, fun other level hget => ?_⟩
  rcases h.tallied.sound.dequeue_cases with ⟨hnone, -⟩ | ⟨_, first, _, -, -, -, hsome⟩
  · rw [hnone] at hget
    exact h.entered other level hget
  · rw [hsome] at hget
    change (queue.levelOf.remove first).2.get? other = some level at hget
    rw [ShardMap.get?_remove] at hget
    split at hget
    · cases hget
    · exact h.entered other level hget

theorem enqueue (h : queue.Entered priority) (ok : queue.enqueue task (priority task) = .ok after) :
    after.Entered priority := by
  refine ⟨h.tallied.enqueue ok, fun other level hget => ?_⟩
  obtain ⟨-, -, rfl⟩ := enqueue_eq_ok.mp ok
  change (queue.levelOf.put task (priority task)).get? other = some level at hget
  rw [ShardMap.get?_put] at hget
  split at hget
  · next heq =>
    cases hget
    rw [eq_of_beq heq]
  · exact h.entered other level hget

/-- Moving one task to its priority is enough when all others are entered at theirs. -/
theorem moveTo (tallied : queue.Tallied) {source : Option Nat}
    (others : ∀ other level, other ≠ task → queue.levelOf.get? other = some level →
      level = priority other)
    (ok : queue.moveTo task (priority task) = .ok (source, after)) : after.Entered priority := by
  refine ⟨(tallied.moveTo ok).1, fun other level hget => ?_⟩
  rcases tallied.sound.moveTo_cases (lt_of_moveTo ok) task with ⟨hstay, hsame⟩ | ⟨_, _, _, _, -, -, -, -, hmove⟩
  · cases ok.symm.trans hstay
    by_cases heq : other = task
    · subst heq
      exact hsame level hget
    · exact others other level heq hget
  · cases ok.symm.trans hmove
    change (queue.levelOf.put task (priority task)).get? other = some level at hget
    rw [ShardMap.get?_put] at hget
    split at hget
    · next heq =>
      cases hget
      rw [eq_of_beq heq]
    · next hne => exact others other level (fun heq => hne (beq_iff_eq.mpr heq.symm)) hget

end PriorityQueue.Entered

/-- A step that keeps what is known leaves every queued task entered at its priority. -/
theorem Effect.upToDate {tries : Prop} {reports : Failure → Prop} {before after : Ledger σ}
    (effect : Effect tries reports before after)
    (proper : ∀ freeing ∈ before.releases, freeing.after.Proper)
    (tallied : before.engine.queue.Tallied) (keeps : before.engine.Keeps after.engine)
    (queued : ∀ task, before.engine.queue.contains task = true →
      task ∈ submissions before.engine.chronicle)
    (h : before.engine.UpToDate) : after.engine.UpToDate := by
  have hbefore : before.engine.queue.Entered after.engine.priority := by
    refine ⟨tallied, fun task level hget => ?_⟩
    have hcontains : before.engine.queue.contains task = true :=
      PriorityQueue.contains_iff.mpr ⟨level, hget⟩
    rw [keeps.priority task (h.known task (queued task hcontains))]
    exact h.entered task level hget
  have hafter : after.engine.queue.Entered after.engine.priority :=
    effect.queue_preserves proper (·.Entered after.engine.priority) (fun h => h.dequeue)
      (fun h ok => h.enqueue ok)
      (fun h ok => .moveTo h.tallied (fun other level _ => h.entered other level) ok) hbefore
  refine ⟨fun task hmem => ?_, hafter.entered⟩
  rcases keeps.submissions task hmem with hmem | hlt
  · exact Nat.lt_of_lt_of_le (h.known task hmem) keeps.size
  · exact hlt

/-! ### Changes of priority -/

namespace PriorityQueue

variable {queue after : PriorityQueue TaskIndex} {task : TaskIndex} {priority : Nat}

/-- Where a task stands once only, taking it out is erasing it. -/
theorem erase_of_split {elements ahead behind : List TaskIndex}
    (distinct : elements.Pairwise fun x y => (x == y) = false)
    (split : elements = ahead ++ task :: behind) : elements.erase task = ahead ++ behind := by
  subst split
  have habsent : task ∉ ahead := by
    intro hmem
    have hne := (List.pairwise_append.mp distinct).2.2 task hmem task List.mem_cons_self
    rw [beq_self_eq_true] at hne
    cases hne
  rw [List.erase_append_right _ habsent, List.erase_cons_head]

/-- A task that stands at another level is moved to the end of the one it is to be at, and leaves its old
place. -/
theorem Sound.moves (sound : queue.Sound) (lt : priority < queue.levels.size) (task : TaskIndex) :
    ∃ source after, queue.moveTo task priority = .ok (source, after) ∧
      (source.isSome = true ↔ ∃ current, queue.levelOf.get? task = some current ∧ current ≠ priority) ∧
      (source.isSome = true → ∀ level, after.elementsAt level =
        if level = priority then queue.elementsAt level ++ [task]
        else (queue.elementsAt level).erase task) ∧
      (source.isSome = false → after = queue) := by
  rcases sound.moveTo_cases lt task with
    ⟨hstay, hsame⟩ | ⟨current, ahead, copy, behind, hget, hne, hcopy, hsplit, hmove⟩
  · refine ⟨none, queue, hstay, iff_of_false nofun ?_, nofun, fun _ => rfl⟩
    rintro ⟨current, hget, hne⟩
    exact hne (hsame current hget)
  · obtain rfl := eq_of_beq hcopy
    refine ⟨some current, _, hmove, iff_of_true rfl ⟨current, hget, hne⟩, fun _ level => ?_, nofun⟩
    rw [elementsAt_moved _ hsplit lt hne]
    by_cases hlevel : level = priority
    · rw [hlevel, Function.update_self, if_pos rfl]
    · rw [Function.update_of_ne hlevel, if_neg hlevel]
      by_cases hcurrent : level = current
      · rw [hcurrent, Function.update_self, erase_of_split (sound.distinct current) hsplit]
      · rw [Function.update_of_ne hcurrent, List.erase_of_not_mem]
        intro hmem
        have hentry := sound.levelOf_of_mem hmem
        rw [hget] at hentry
        exact hcurrent (Option.some.inj hentry).symm

end PriorityQueue

namespace Engine

variable {engine after : Engine} {task : TaskIndex} {priority : Nat}

theorem priority_setPriority (engine : Engine) (task : TaskIndex) (priority : Nat) (other : TaskIndex) :
    (engine.setPriority task priority).priority other =
      if task = other ∧ other < engine.tasks.size then priority else engine.priority other := by
  show ((engine.tasks.modify task _)[other]?.map Task.priority).getD 0 = _
  rw [Array.getElem?_modify, Engine.priority]
  by_cases hlt : other < engine.tasks.size
  · rw [Array.getElem?_eq_getElem hlt]
    by_cases heq : task = other
    · simp [heq, hlt]
    · simp [heq]
  · rw [Array.getElem?_eq_none (Nat.le_of_not_lt hlt)]
    simp [hlt]

theorem priority_of_unknown (h : engine.tasks.size ≤ task) : engine.priority task = 0 := by
  rw [Engine.priority, Array.getElem?_eq_none h]
  rfl

/-- A priority that is set to that of a level is that of a level, also if the task is not known. -/
theorem priority_setPriority_lt {levels : Nat} (lt : priority < levels) :
    (engine.setPriority task priority).priority task < levels := by
  rw [priority_setPriority]
  split
  · exact lt
  · next hunknown =>
    have hle : engine.tasks.size ≤ task := by
      by_contra hlt
      exact hunknown ⟨rfl, Nat.lt_of_not_le hlt⟩
    rw [priority_of_unknown hle]
    omega

/-- Word of a priority is answered by whether the task was moved. -/
theorem applyPriority_of_moveTo {source : Option Nat} {queue : PriorityQueue TaskIndex}
    (moves : engine.queue.moveTo task (engine.priority task) = .ok (source, queue)) :
    ∃ after, engine.applyPriority task = .ok (source.isSome, after) ∧ after.queue = queue ∧
      after.tasks = engine.tasks ∧ submissions after.chronicle = submissions engine.chronicle := by
  rw [applyPriority, moves]
  cases source with
  | none => exact ⟨_, rfl, rfl, rfl, rfl⟩
  | some source => exact ⟨_, rfl, rfl, rfl, rfl⟩

/-- What comes of a change of priority of which word is given at once: the task is moved if it is queued and
its priority was another one before, and then it becomes the last of its new level. -/
structure Reprioritises (engine : Engine) (task : TaskIndex) (priority : Nat) (moved : Bool)
    (after : Engine) : Prop where
  priorities : ∀ other, after.priority other =
    if task = other ∧ other < engine.tasks.size then priority else engine.priority other
  moved_iff : moved = true ↔ engine.queue.contains task = true ∧ priority ≠ engine.priority task
  elementsAt : moved = true → ∀ level, after.queue.elementsAt level =
    if level = priority then engine.queue.elementsAt level ++ [task]
    else (engine.queue.elementsAt level).erase task
  stays : moved = false → after.queue = engine.queue

/-- A task whose priority is changed, and of which word is given, is moved if there is need. -/
theorem UpToDate.reprioritises (h : engine.UpToDate) (tallied : engine.queue.Tallied)
    (queued : engine.queue.contains task = true → task < engine.tasks.size)
    (lt : priority < engine.queue.levels.size) :
    ∃ moved after, (engine.setPriority task priority).applyPriority task = .ok (moved, after) ∧
      engine.Reprioritises task priority moved after ∧ after.UpToDate := by
  have hpriority := priority_setPriority engine task priority
  have hqueued {current : Nat} (hget : engine.queue.levelOf.get? task = some current) :
      (engine.setPriority task priority).priority task = priority ∧ current = engine.priority task := by
    have hlt := queued (PriorityQueue.contains_iff.mpr ⟨current, hget⟩)
    rw [hpriority, if_pos ⟨rfl, hlt⟩]
    exact ⟨rfl, h.entered task current hget⟩
  obtain ⟨source, queue, hmove, hsource, helements, hstays⟩ :=
    tallied.sound.moves (priority_setPriority_lt lt) task
  have hentered : queue.Entered (engine.setPriority task priority).priority := by
    refine .moveTo tallied (fun other level hne hget => ?_) hmove
    rw [hpriority, if_neg fun hand => hne hand.1.symm]
    exact h.entered other level hget
  obtain ⟨after, happly, rfl, htasks, hsubmissions⟩ :=
    applyPriority_of_moveTo (show (engine.setPriority task priority).queue.moveTo task _ = _ from hmove)
  have hafter := priority_congr htasks
  refine ⟨source.isSome, after, happly, ⟨?_, ?_, ?_, hstays⟩, ⟨?_, ?_⟩⟩
  · intro other
    rw [hafter, hpriority]
  · rw [hsource, PriorityQueue.contains_iff]
    constructor
    · rintro ⟨current, hget, hne⟩
      obtain ⟨hnew, hold⟩ := hqueued hget
      refine ⟨⟨current, hget⟩, ?_⟩
      omega
    · rintro ⟨⟨current, hget⟩, hne⟩
      obtain ⟨hnew, hold⟩ := hqueued hget
      refine ⟨current, hget, ?_⟩
      omega
  · intro hsome level
    obtain ⟨current, hget, -⟩ := hsource.mp hsome
    rw [helements hsome level, (hqueued hget).1]
  · intro other hmem
    rw [hsubmissions] at hmem
    rw [htasks]
    show other < (engine.tasks.modify task _).size
    rw [Array.size_modify]
    exact h.known other hmem
  · rw [hafter]
    exact hentered.entered

end Engine

/-! ### Runs -/

/-- The moments between the steps of runs in which a priority is changed only to that of a level, and the
word that it has changed is given at once; the two steps are taken for one. The tasks that are handed in have
been made before. -/
inductive Punctual : Moment σ → Prop
  | begin {world : World σ} (fresh : world.Fresh) (worker : Option Nat) (script : Script σ) :
      Punctual ⟨world, .ofScript worker script⟩
  | step {moment : Moment σ} (prior : Punctual moment) (ordinary : Ordinary moment)
      (made : ∀ task ∈ moment.thread.control.handsIn?, task < moment.engine.tasks.size)
      (steady : moment.thread.control.prioritises = false) : Punctual moment.next
  | change {moment : Moment σ} (prior : Punctual moment) {handle : Option HandleIndex}
      {task : TaskIndex} {priority : Nat} {next : Except Fault Bool → Script σ} {frames : List (Frame σ)}
      (doing : moment.Doing (.script handle (.setPriority task priority (.applyPriority task next))) frames)
      (lt : priority < moment.engine.queue.levels.size) : Punctual moment.next.next
  | again {moment : Moment σ} (prior : Punctual moment) (ended : moment.Over)
      (worker : Option Nat) (script : Script σ) : Punctual ⟨moment.world, .ofScript worker script⟩

namespace Moment

variable {moment : Moment σ} {handle : Option HandleIndex} {task : TaskIndex} {priority : Nat}
  {frames : List (Frame σ)}

theorem Doing.next_setPriority {next : Script σ}
    (doing : moment.Doing (.script handle (.setPriority task priority next)) frames) :
    moment.next.Doing (.script handle next) frames ∧ moment.next.world =
      { moment.world with engine := moment.engine.setPriority task priority } := by
  rw [Moment.next, Thread.step]
  simp only [doing.control]
  exact ⟨⟨rfl, doing.stack⟩, rfl⟩

theorem Doing.next_applyPriority {next : Except Fault Bool → Script σ} {moved : Bool} {after : Engine}
    (doing : moment.Doing (.script handle (.applyPriority task next)) frames)
    (ok : moment.engine.applyPriority task = .ok (moved, after)) :
    moment.next.Doing (.script handle (next (.ok moved))) frames ∧ moment.next.engine = after := by
  rw [Moment.engine, Moment.next, Thread.step]
  simp only [doing.control, Thread.stepScript]
  rw [show moment.world.engine.applyPriority task = _ from ok]
  exact ⟨⟨rfl, doing.stack⟩, rfl⟩

/-- A priority is changed to that of a level, and word of it is given. -/
theorem Doing.reprioritises {next : Except Fault Bool → Script σ}
    (doing : moment.Doing (.script handle (.setPriority task priority (.applyPriority task next))) frames)
    (upToDate : moment.engine.UpToDate) (tallied : moment.engine.queue.Tallied)
    (queued : moment.engine.queue.contains task = true → task < moment.engine.tasks.size)
    (lt : priority < moment.engine.queue.levels.size) :
    ∃ moved, moment.next.next.Doing (.script handle (next (.ok moved))) frames ∧
      moment.engine.Reprioritises task priority moved moment.next.next.engine ∧
      moment.next.next.engine.UpToDate := by
  obtain ⟨hset, hworld⟩ := doing.next_setPriority
  obtain ⟨moved, after, happly, hchange, hafter⟩ := upToDate.reprioritises tallied queued lt
  have hengine : moment.next.engine = moment.engine.setPriority task priority :=
    congrArg World.engine hworld
  obtain ⟨hdoing, rfl⟩ := hset.next_applyPriority (hengine ▸ happly)
  exact ⟨moved, hdoing, hchange, hafter⟩

end Moment

/-- What is queued has been accepted. -/
theorem Reached.accepted {moment : Moment σ} (reached : Reached Ordinary moment) {task : TaskIndex}
    (h : moment.engine.queue.contains task = true) : task ∈ submissions moment.engine.chronicle := by
  have hcount := reached.count_submissions task
  rw [reached.tallied.sound.count_inOrder, if_pos h] at hcount
  refine List.count_pos_iff.mp ?_
  omega

namespace Punctual

variable {moment : Moment σ}

theorem reached (punctual : Punctual moment) : Reached Ordinary moment := by
  induction punctual with
  | begin fresh worker script => exact .begin fresh worker script
  | step prior ordinary made steady ih => exact .step ih ordinary
  | change prior doing lt ih =>
    have hnext := doing.next_setPriority.1
    refine .step (.step ih (.of_asks ?_)) (.of_asks ?_)
    · rw [doing.control]
      rfl
    · rw [hnext.control]
      rfl
  | again prior ended worker script ih => exact .again ih ended worker script

theorem upToDate (punctual : Punctual moment) : moment.engine.UpToDate := by
  induction punctual with
  | @begin world fresh worker script =>
    have hblank := fresh.blank
    obtain ⟨workers, levels, hchronicle⟩ := hblank.chronicle
    refine ⟨fun task hmem => ?_, fun task level hget => ?_⟩
    · rw [Moment.engine, hchronicle] at hmem
      cases hmem
    · have hcontains : world.engine.queue.contains task = true :=
        PriorityQueue.contains_iff.mpr ⟨level, hget⟩
      rw [hblank.unqueued] at hcontains
      cases hcontains
  | @step moment prior ordinary made steady ih =>
    have hreached := prior.reached
    have hkeeps : moment.engine.Keeps moment.next.engine :=
      .of_acts made (by rw [steady]; exact Bool.false_ne_true) (Thread.step_acts moment.world moment.thread)
    exact (Thread.step_effect moment.world moment.thread).upToDate hreached.proper hreached.tallied hkeeps
      (fun task => hreached.accepted) ih
  | change prior doing lt ih =>
    have hreached := prior.reached
    obtain ⟨moved, -, -, hafter⟩ := doing.reprioritises ih hreached.tallied
      (fun h => ih.known _ (hreached.accepted h)) lt
    exact hafter
  | again prior ended worker script ih => exact ih

/-- A run that changes no priority for some steps. -/
theorem steps {n : Nat} (punctual : Punctual moment)
    (asks : ∀ k < n, (moment.after k).thread.control.asks = false)
    (made : ∀ k < n, ∀ task ∈ (moment.after k).thread.control.handsIn?,
      task < (moment.after k).engine.tasks.size)
    (steady : ∀ k < n, (moment.after k).thread.control.prioritises = false) :
    Punctual (moment.after n) := by
  induction n with
  | zero => exact punctual
  | succ n ih =>
    have hlt := Nat.lt_succ_self n
    have hearlier {k : Nat} (hk : k < n) := Nat.lt_succ_of_lt hk
    exact .step (ih (fun k hk => asks k (hearlier hk)) (fun k hk => made k (hearlier hk))
      (fun k hk => steady k (hearlier hk))) (.of_asks (asks n hlt)) (made n hlt) (steady n hlt)

end Punctual

/-- What holds between the steps: a queued task stands at its current priority, which is that of a level, and
nowhere else; and a change of its priority, of which word is given, takes it to the end of its new level. -/
structure Moment.Placed (moment : Moment σ) : Prop where
  queued : ∀ {task}, moment.engine.queue.contains task = true →
    moment.engine.priority task < moment.engine.queue.levels.size ∧
      task ∈ moment.engine.queue.elementsAt (moment.engine.priority task)
  stands : ∀ {task level}, task ∈ moment.engine.queue.elementsAt level →
    level = moment.engine.priority task
  changes : ∀ {handle task priority next frames},
    moment.Doing (.script handle (.setPriority task priority (.applyPriority task next))) frames →
    priority < moment.engine.queue.levels.size →
      ∃ moved, moment.next.next.Doing (.script handle (next (.ok moved))) frames ∧
        moment.engine.Reprioritises task priority moved moment.next.next.engine

/-- Between the steps of runs in which word of every change of a priority is given at once, every queued task
stands at its current priority. -/
theorem placed_of_punctual {moment : Moment σ} (punctual : Punctual moment) : moment.Placed := by
  have hreached := punctual.reached
  have hsound := hreached.tallied.sound
  have hupToDate := punctual.upToDate
  refine ⟨?_, ?_, ?_⟩
  · intro task hqueued
    obtain ⟨level, hget⟩ := PriorityQueue.contains_iff.mp hqueued
    have hmem : task ∈ moment.engine.queue.elementsAt level :=
      List.contains_iff_mem.mp ((hsound.levelOf level task).mp hget)
    rw [← hupToDate.entered task level hget]
    exact ⟨PriorityQueue.lt_of_elementsAt_ne_nil (List.ne_nil_of_mem hmem), hmem⟩
  · intro task level hmem
    exact hupToDate.entered task level (hsound.levelOf_of_mem hmem)
  · intro handle task priority next frames doing lt
    obtain ⟨moved, hdoing, hchange, -⟩ := doing.reprioritises hupToDate hreached.tallied
      (fun h => hupToDate.known _ (hreached.accepted h)) lt
    exact ⟨moved, hdoing, hchange⟩

/-! ### A run -/

def World.ranked : World Unit :=
  let task : Task := { kind := .repeatable, priority := 0, tokens := [.unique 0] }
  let code : Code Unit := { work := .repeatable (.stop .normal) }
  let queue : PriorityQueue TaskIndex := ⟨Array.replicate 2 .empty, .empty⟩
  let engine := (Engine.idle { levels := 2 } queue).record (.started 1 2)
  (((World.ofEngine engine ()).addTask task code).2.addTask task code).2

theorem World.fresh_ranked : World.ranked.Fresh :=
  .addTask (.addTask (@World.Fresh.start _ { levels := 2 } _ () rfl) _ _) _ _

/-- The second task is moved to the second level while it is queued; its priority is changed back while it
waits for the first, which releases then. -/
def Moment.ranked : Moment Unit :=
  ⟨.ranked, .ofScript none
    (.schedule 0 fun _ => .schedule 1 fun _ => .setPriority 1 1 (.applyPriority 1 fun _ =>
      .poll fun _ => .poll fun _ => .setPriority 1 0 (.applyPriority 1 fun _ =>
        .releaseFor 0 fun _ => .stop .normal)))⟩

theorem Punctual.ranked : Punctual (Moment.ranked.after 11) := by
  have hbegin : Punctual Moment.ranked := .begin World.fresh_ranked none _
  have hsecond : Punctual (Moment.ranked.after 2) :=
    hbegin.steps (by decide +kernel) (by decide +kernel) (by decide +kernel)
  have hmoved : Punctual (Moment.ranked.after 4) :=
    hsecond.change ⟨rfl, rfl⟩ (by decide +kernel)
  have hwaits : Punctual (Moment.ranked.after 6) := by
    rw [Moment.after_add _ 4 2]
    exact hmoved.steps (by decide +kernel) (by decide +kernel) (by decide +kernel)
  have hchanged : Punctual (Moment.ranked.after 8) :=
    hwaits.change ⟨rfl, rfl⟩ (by decide +kernel)
  rw [Moment.after_add _ 8 3]
  exact hchanged.steps (by decide +kernel) (by decide +kernel) (by decide +kernel)

theorem placed_of_punctual_ranked :
    (Moment.ranked.after 4).engine.queue.elementsAt 1 = [1] ∧
    (Moment.ranked.after 11).engine.queue.elementsAt 0 = [1] ∧
    (Moment.ranked.after 11).Placed :=
  ⟨by decide +kernel, by decide +kernel, placed_of_punctual .ranked⟩

end Dispatch
