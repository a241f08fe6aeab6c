import UnixSystems.RtQueue

/-! The laws of all real-time run queues together, kept by every operation: the lists, the counters,
the tasks that may be pushed and the mask of overloaded CPUs say the same about which tasks wait
where. The `BUG_ON`s of the class follow from them. -/

namespace UnixSystems.RtQueueSound
open GuardedRuns PriorityLists RtQueueModel RtQueue

variable {Cpu Task : Type}

structure MaskSound (s : State Cpu Task) : Prop where
  mem : ∀ c, c ∈ s.rtoMask ↔ (s.rq c).overloaded = true ∧ (s.rq c).online = true
  card : s.rtoCount = s.rtoMask.card

/-- The laws that hold between any two calls, for the tasks that are on the push lists just then. -/
structure Base (s : State Cpu Task) (waits : Cpu → Task → Prop) : Prop where
  queues : ∀ c, QueueSound s.task c (s.rq c)
  pushes : ∀ c, PushList s.task (waits c) (s.rq c).pushableTasks (s.rq c).highestNext
  marks : ∀ p, (s.task p).onList = (s.task p).onRq
  real : ∀ p, (s.task p).onRq = true → (s.task p).rt = true ∧ (s.task p).prio < maxRtPrio
  mask : MaskSound s
  sound : s.bug = false

variable [DecidableEq Cpu] [DecidableEq Task] {s : State Cpu Task} {waits other : Cpu → Task → Prop} {c d : Cpu} {p q : Task}

omit [DecidableEq Cpu] [DecidableEq Task] in
theorem Base.congr (base : Base s waits) (same : ∀ c q, other c q ↔ waits c q) : Base s other where
  queues := base.queues
  pushes c := (base.pushes c).congr (same c) fun _ _ => rfl
  marks := base.marks
  real := base.real
  mask := base.mask
  sound := base.sound

/-! ## The mask -/

section
omit [DecidableEq Task]

theorem maskSound_setRq (mask : MaskSound s) {rq : RtRq Task} (overloaded : rq.overloaded = (s.rq c).overloaded)
    (online : rq.online = (s.rq c).online) : MaskSound (s.setRq c rq) where
  mem d := by
    refine (mask.mem d).trans ?_
    by_cases here : d = c
    · subst here
      simp [State.setRq, overloaded, online]
    · simp [State.setRq, here]
  card := mask.card

theorem updateRtMigration_rq (s : State Cpu Task) (c : Cpu) :
    (s.updateRtMigration c).rq = Function.update s.rq c (settle (s.rq c)) := by
  have clear : ∀ b, (s.rq c).overloaded = b → { s.rq c with overloaded := b } = s.rq c := by
    rintro _ rfl
    rfl
  unfold State.updateRtMigration settle
  by_cases heavy : Heavy (s.rq c)
  · have test : (s.rq c).rtNrMigratory ≠ 0 ∧ (s.rq c).rtNrTotal > 1 := heavy
    rw [if_pos test, decide_eq_true heavy]
    split
    · next already => rw [clear true already, Function.update_eq_self]
    · simp only [State.setRq, State.rtSetOverload]
      split <;> rfl
  · have test : ¬ ((s.rq c).rtNrMigratory ≠ 0 ∧ (s.rq c).rtNrTotal > 1) := heavy
    rw [if_neg test, decide_eq_false heavy]
    split
    · simp only [State.setRq, State.rtClearOverload]
      split <;> rfl
    · next light => rw [clear false (by simpa using light), Function.update_eq_self]

@[simp] theorem updateRtMigration_task (s : State Cpu Task) (c : Cpu) : (s.updateRtMigration c).task = s.task := by
  unfold State.updateRtMigration State.rtSetOverload State.rtClearOverload
  split_ifs <;> rfl

@[simp] theorem updateRtMigration_bug (s : State Cpu Task) (c : Cpu) : (s.updateRtMigration c).bug = s.bug := by
  unfold State.updateRtMigration State.rtSetOverload State.rtClearOverload
  split_ifs <;> rfl

theorem maskSound_setOverload (mask : MaskSound s) (light : (s.rq c).overloaded = false) :
    MaskSound ((s.rtSetOverload c).setRq c { s.rq c with overloaded := true }) := by
  have absent : c ∉ s.rtoMask := fun member => by
    have set := ((mask.mem c).mp member).1
    rw [light] at set
    cases set
  unfold State.rtSetOverload
  split
  · next online =>
    refine ⟨fun d => ?_, ?_⟩
    · by_cases here : d = c
      · subst here
        simp [State.setRq, online]
      · simp [State.setRq, here, mask.mem d]
    · simp [State.setRq, Finset.card_insert_of_notMem absent, mask.card]
  · next offline =>
    refine ⟨fun d => ?_, mask.card⟩
    by_cases here : d = c
    · subst here
      simp [State.setRq, offline, absent]
    · simp [State.setRq, here, mask.mem d]

theorem maskSound_clearOverload (mask : MaskSound s) (heavy : (s.rq c).overloaded = true) :
    MaskSound ((s.rtClearOverload c).setRq c { s.rq c with overloaded := false }) := by
  unfold State.rtClearOverload
  split
  · next online =>
    have member : c ∈ s.rtoMask := (mask.mem c).mpr ⟨heavy, online⟩
    refine ⟨fun d => ?_, ?_⟩
    · by_cases here : d = c
      · subst here
        simp [State.setRq]
      · simp [State.setRq, here, mask.mem d]
    · simp [State.setRq, Finset.card_erase_of_mem member, mask.card]
  · next offline =>
    have absent : c ∉ s.rtoMask := fun member => offline ((mask.mem c).mp member).2
    refine ⟨fun d => ?_, mask.card⟩
    by_cases here : d = c
    · subst here
      simp [State.setRq, absent]
    · simp [State.setRq, here, mask.mem d]

theorem maskSound_updateRtMigration (mask : MaskSound s) : MaskSound (s.updateRtMigration c) := by
  unfold State.updateRtMigration
  split
  · split
    · exact mask
    · next light => exact maskSound_setOverload mask (by simpa using light)
  · split
    · next heavy => exact maskSound_clearOverload mask heavy
    · exact mask

end

/-! ## Entities -/

theorem enqueueEntity_task (s : State Cpu Task) (p : Task) (head move : Bool) :
    (s.enqueueEntity p head move).task =
      Function.update s.task p ((s.task p).mark true (move || (s.task p).onList)) := by
  unfold State.enqueueEntity
  rw [updateRtMigration_task]
  rfl

theorem dequeueEntity_task (s : State Cpu Task) (p : Task) (move : Bool) :
    (s.dequeueEntity p move).task =
      Function.update s.task p ((s.task p).mark false (!move && (s.task p).onList)) := by
  unfold State.dequeueEntity
  rw [updateRtMigration_task]
  rfl

theorem enqueueEntity_rq (s : State Cpu Task) (p : Task) (head move : Bool) :
    (s.enqueueEntity p head move).rq = Function.update s.rq (s.task p).cpu (settle
      ((if move then (s.rq (s.task p).cpu).enlist p (s.task p).prio head else s.rq (s.task p).cpu).incRtTasks
        (s.task p))) := by
  unfold State.enqueueEntity
  rw [updateRtMigration_rq]
  simp only [State.setRq, State.setTask, Function.update_self, Function.update_idem]

theorem dequeueEntity_rq (s : State Cpu Task) (p : Task) (move : Bool) :
    (s.dequeueEntity p move).rq = Function.update s.rq (s.task p).cpu (settle
      ((if move then (s.rq (s.task p).cpu).delist p (s.task p).prio else s.rq (s.task p).cpu).decRtTasks
        (s.task p))) := by
  unfold State.dequeueEntity
  rw [updateRtMigration_rq]
  simp only [State.setRq, State.setTask, Function.update_self, Function.update_idem]

omit [DecidableEq Cpu] in
theorem maskSound_setTask (mask : MaskSound s) {t : TaskStruct Cpu} : MaskSound (s.setTask p t) :=
  ⟨mask.mem, mask.card⟩

theorem maskSound_enqueueEntity (mask : MaskSound s) {head move : Bool} : MaskSound (s.enqueueEntity p head move) := by
  unfold State.enqueueEntity
  refine maskSound_updateRtMigration (maskSound_setRq (maskSound_setTask mask) ?_ ?_)
  · rw [incRtTasks_eq]
    cases move <;> rfl
  · rw [incRtTasks_eq]
    cases move <;> rfl

theorem maskSound_dequeueEntity (mask : MaskSound s) {move : Bool} : MaskSound (s.dequeueEntity p move) := by
  unfold State.dequeueEntity
  refine maskSound_updateRtMigration (maskSound_setRq (maskSound_setTask mask) ?_ ?_)
  · rw [decRtTasks_eq]
    cases move <;> rfl
  · rw [decRtTasks_eq]
    cases move <;> rfl

omit [DecidableEq Cpu] in
theorem queueSound_elsewhere {task : Task → TaskStruct Cpu} {rq : RtRq Task} {t : TaskStruct Cpu}
    (sound : QueueSound task d rq) (before : (task p).cpu ≠ d) (after : t.cpu ≠ d) :
    QueueSound (Function.update task p t) d rq := by
  refine sound.congr (fun q => ?_) fun q _ here => ?_
  · by_cases self : q = p
    · subst self
      rw [Function.update_self]
      simp [before, after]
    · rw [Function.update_of_ne self]
  · have differs : q ≠ p := fun same => before (same ▸ here)
    rw [Function.update_of_ne differs]
    exact ⟨rfl, rfl, rfl⟩

theorem Base.marked {after : State Cpu Task} {rq : RtRq Task} (on : Bool) (base : Base s waits)
    (task : after.task = Function.update s.task p ((s.task p).mark on on))
    (rqs : after.rq = Function.update s.rq (s.task p).cpu rq)
    (list : rq.pushableTasks = (s.rq (s.task p).cpu).pushableTasks)
    (next : rq.highestNext = (s.rq (s.task p).cpu).highestNext)
    (queue : QueueSound (Function.update s.task p ((s.task p).mark on on)) (s.task p).cpu rq)
    (real : on = true → (s.task p).rt = true ∧ (s.task p).prio < maxRtPrio)
    (mask : MaskSound after) (sound : after.bug = s.bug) : Base after waits where
  queues d := by
    rw [task, rqs]
    by_cases here : d = (s.task p).cpu
    · subst here
      rw [Function.update_self]
      exact queue
    · rw [Function.update_of_ne here]
      exact queueSound_elsewhere (base.queues d) (Ne.symm here) (Ne.symm here)
  pushes d := by
    have same : (after.rq d).pushableTasks = (s.rq d).pushableTasks ∧
        (after.rq d).highestNext = (s.rq d).highestNext := by
      rw [rqs]
      by_cases here : d = (s.task p).cpu
      · subst here
        rw [Function.update_self]
        exact ⟨list, next⟩
      · rw [Function.update_of_ne here]
        exact ⟨rfl, rfl⟩
    rw [same.1, same.2, task]
    refine (base.pushes d).congr (fun _ => Iff.rfl) fun q _ => ?_
    by_cases self : q = p
    · subst self
      rw [Function.update_self]
      rfl
    · rw [Function.update_of_ne self]
  marks q := by
    rw [task]
    by_cases self : q = p
    · subst self
      rw [Function.update_self]
      rfl
    · rw [Function.update_of_ne self]
      exact base.marks q
  real q := by
    rw [task]
    by_cases self : q = p
    · subst self
      rw [Function.update_self]
      exact real
    · rw [Function.update_of_ne self]
      exact base.real q
  mask := mask
  sound := sound.trans base.sound

theorem base_enqueueEntity (base : Base s waits) (off : (s.task p).onRq = false) (real : (s.task p).rt = true)
    (below : (s.task p).prio < maxRtPrio) {head : Bool} : Base (s.enqueueEntity p head true) waits := by
  refine base.marked true (enqueueEntity_task s p head true) (enqueueEntity_rq s p head true) ?_ ?_
    (queueSound_enqueue (base.queues _) rfl off below _) (fun _ => ⟨real, below⟩)
    (maskSound_enqueueEntity base.mask) ?_
  · rw [incRtTasks_eq]
    rfl
  · rw [incRtTasks_eq]
    rfl
  · unfold State.enqueueEntity
    exact updateRtMigration_bug _ _

theorem base_dequeueEntity (base : Base s waits) (on : (s.task p).onRq = true) :
    Base (s.dequeueEntity p true) waits := by
  refine base.marked false (dequeueEntity_task s p true) (dequeueEntity_rq s p true) ?_ ?_
    (queueSound_dequeue (base.queues _) rfl on (base.real p on).2 _) (fun on => by cases on)
    (maskSound_dequeueEntity base.mask) ?_
  · rw [decRtTasks_eq]
    rfl
  · rw [decRtTasks_eq]
    rfl
  · unfold State.dequeueEntity
    exact updateRtMigration_bug _ _

/-! ## Push lists -/

omit [DecidableEq Cpu] [DecidableEq Task] in
theorem queueSound_other {task : Task → TaskStruct Cpu} {rq : RtRq Task} (sound : QueueSound task c rq)
    (list : List (ℕ × Task)) (next : ℕ) (online : Bool) (curr : Task) :
    QueueSound task c { rq with pushableTasks := list, highestNext := next, online := online, curr := curr } where
  listed := ⟨sound.listed.distinct, sound.listed.bits, sound.listed.delimiter⟩
  members := sound.members
  counted := ⟨sound.counted.running, sound.counted.total, sound.counted.rr, sound.counted.migratory,
    sound.counted.highest, sound.counted.overloaded⟩

omit [DecidableEq Task] in
theorem Base.pushed (base : Base s waits) {list : List (ℕ × Task)} {next : ℕ} {curr : Task}
    (push : PushList s.task (other c) list next) (elsewhere : ∀ d ≠ c, ∀ q, other d q ↔ waits d q) :
    Base (s.setRq c { s.rq c with pushableTasks := list, highestNext := next, curr := curr }) other where
  queues d := by
    by_cases here : d = c
    · subst here
      simp only [State.setRq, Function.update_self]
      exact queueSound_other (base.queues d) list next _ curr
    · simp only [State.setRq, Function.update_of_ne here]
      exact base.queues d
  pushes d := by
    by_cases here : d = c
    · subst here
      simp only [State.setRq, Function.update_self]
      exact push
    · simp only [State.setRq, Function.update_of_ne here]
      exact (base.pushes d).congr (elsewhere d here) fun _ _ => rfl
  marks := base.marks
  real := base.real
  mask := maskSound_setRq base.mask rfl rfl
  sound := base.sound

theorem base_enqueuePushable (base : Base s waits) (absent : ¬ waits (s.task p).cpu p)
    (below : (s.task p).prio < maxRtPrio) :
    Base (s.enqueuePushable p) fun c q => (c = (s.task p).cpu ∧ q = p) ∨ waits c q := by
  refine base.pushed (((base.pushes _).enqueue absent below).congr (fun q => ?_) fun _ _ => rfl) fun d elsewhere q => ?_
  · simp
  · simp [elsewhere]

theorem base_dequeuePushable (base : Base s waits) :
    Base (s.dequeuePushable p) fun c q => waits c q ∧ ¬ (c = (s.task p).cpu ∧ q = p) := by
  refine base.pushed (((base.pushes _).dequeue p).congr (fun q => ?_) fun _ _ => rfl) fun d elsewhere q => ?_
  · simp
  · simp [elsewhere]

omit [DecidableEq Task] in
theorem base_setCurr (base : Base s waits) : Base (s.setCurr c p) waits :=
  base.pushed (base.pushes c) fun _ _ _ => Iff.rfl

omit [DecidableEq Cpu] in
theorem base_setTask (base : Base s waits) (off : (s.task p).onRq = false) (absent : ∀ c, ¬ waits c p)
    {t : TaskStruct Cpu} (stays : t.onRq = false) (list : t.onList = false) : Base (s.setTask p t) waits where
  queues d := by
    refine (base.queues d).congr (fun q => ?_) fun q on _ => ?_
    · by_cases self : q = p
      · subst self
        simp [State.setTask, off, stays]
      · simp [State.setTask, self]
    · have differs : q ≠ p := by
        rintro rfl
        rw [off] at on
        cases on
      simp [State.setTask, differs]
  pushes d := by
    refine (base.pushes d).congr (fun _ => Iff.rfl) fun q waiting => ?_
    have differs : q ≠ p := fun same => absent d (same ▸ waiting)
    simp [State.setTask, differs]
  marks q := by
    by_cases self : q = p
    · subst self
      simp [State.setTask, stays, list]
    · simpa [State.setTask, self] using base.marks q
  real q := by
    by_cases self : q = p
    · subst self
      simp [State.setTask, stays]
    · simpa [State.setTask, self] using base.real q
  mask := maskSound_setTask base.mask
  sound := base.sound

/-! ## Tasks -/

theorem enqueueEntity_curr {head move : Bool} : ((s.enqueueEntity p head move).rq d).curr = (s.rq d).curr := by
  rw [enqueueEntity_rq, incRtTasks_eq]
  by_cases here : d = (s.task p).cpu
  · subst here
    rw [Function.update_self]
    cases move <;> rfl
  · rw [Function.update_of_ne here]

theorem dequeueEntity_curr {move : Bool} : ((s.dequeueEntity p move).rq d).curr = (s.rq d).curr := by
  rw [dequeueEntity_rq, decRtTasks_eq]
  by_cases here : d = (s.task p).cpu
  · subst here
    rw [Function.update_self]
    cases move <;> rfl
  · rw [Function.update_of_ne here]

@[simp] theorem enqueuePushable_curr : ((s.enqueuePushable p).rq d).curr = (s.rq d).curr := by
  unfold State.enqueuePushable State.setRq
  by_cases here : d = (s.task p).cpu
  · subst here
    simp [RtRq.enqueuePushableTask]
  · simp [here]

theorem enqueuePushable_rtNrRunning : ((s.enqueuePushable p).rq d).rtNrRunning = (s.rq d).rtNrRunning := by
  unfold State.enqueuePushable State.setRq
  by_cases here : d = (s.task p).cpu
  · subst here
    simp [RtRq.enqueuePushableTask]
  · simp [here]

@[simp] theorem dequeuePushable_curr : ((s.dequeuePushable p).rq d).curr = (s.rq d).curr := by
  unfold State.dequeuePushable State.setRq
  by_cases here : d = (s.task p).cpu
  · subst here
    simp [RtRq.dequeuePushableTask]
  · simp [here]

@[simp] theorem enqueuePushable_task : (s.enqueuePushable p).task = s.task := rfl

@[simp] theorem dequeuePushable_task : (s.dequeuePushable p).task = s.task := rfl

omit [DecidableEq Cpu] in
@[simp] theorem setTask_rq {t : TaskStruct Cpu} : (s.setTask p t).rq = s.rq := rfl

omit [DecidableEq Cpu] in
@[simp] theorem setTask_task {t : TaskStruct Cpu} : (s.setTask p t).task = Function.update s.task p t := rfl

theorem dequeueStack_of_off (off : (s.task p).onRq = false) (move : Bool) : s.dequeueStack p move = s := by
  unfold State.dequeueStack
  rw [off]
  rfl

theorem dequeueStack_of_on (on : (s.task p).onRq = true) (move : Bool) :
    s.dequeueStack p move = s.dequeueEntity p move := by
  unfold State.dequeueStack
  rw [if_pos on]

theorem enqueueTaskRt_task_of (off : (s.task p).onRq = false) (head move : Bool) :
    (s.enqueueTaskRt p head move).task =
      Function.update s.task p ((s.task p).mark true (move || (s.task p).onList)) := by
  unfold State.enqueueTaskRt
  rw [dequeueStack_of_off off]
  dsimp only
  split
  · exact enqueueEntity_task s p head move
  · exact enqueueEntity_task s p head move

theorem enqueueTaskRt_task (off : (s.task p).onRq = false) {head : Bool} :
    (s.enqueueTaskRt p head true).task = Function.update s.task p ((s.task p).mark true true) :=
  enqueueTaskRt_task_of off head true

theorem enqueueTaskRt_curr_of (off : (s.task p).onRq = false) {head move : Bool} :
    ((s.enqueueTaskRt p head move).rq d).curr = (s.rq d).curr := by
  unfold State.enqueueTaskRt
  rw [dequeueStack_of_off off]
  dsimp only
  split
  · rw [enqueuePushable_curr, enqueueEntity_curr]
  · exact enqueueEntity_curr

theorem base_enqueueTaskRt_of (off : (s.task p).onRq = false) {head move : Bool}
    (queued : Base (s.enqueueEntity p head move) waits) (below : (s.task p).prio < maxRtPrio)
    (absent : ¬ waits (s.task p).cpu p) :
    Base (s.enqueueTaskRt p head move) fun c q =>
      (c = (s.task p).cpu ∧ q = p ∧ (s.rq c).curr ≠ p ∧ (s.task p).migratory = true) ∨ waits c q := by
  have task : (s.enqueueEntity p head move).task p = (s.task p).mark true (move || (s.task p).onList) := by
    rw [enqueueEntity_task, Function.update_self]
  have current : (s.enqueueEntity p head move).taskCurrent p = s.taskCurrent p := by
    unfold State.taskCurrent
    rw [enqueueEntity_curr, task]
    rfl
  unfold State.enqueueTaskRt
  rw [dequeueStack_of_off off]
  dsimp only
  rw [current, task]
  split
  · next pushed =>
    have differs : (s.rq (s.task p).cpu).curr ≠ p := by
      simpa [State.taskCurrent] using pushed.1
    have pushes := base_enqueuePushable queued (p := p) (by rw [task]; exact absent) (by rw [task]; exact below)
    refine pushes.congr fun c q => or_congr_left ?_
    rw [task]
    refine ⟨fun new => ⟨new.1, new.2.1⟩, fun new => ⟨new.1, new.2, ?_, pushed.2⟩⟩
    rw [new.1]
    exact differs
  · next stays =>
    refine queued.congr fun c q => or_iff_right ?_
    rintro ⟨rfl, -, differs, migratory⟩
    exact stays ⟨by simpa [State.taskCurrent] using differs, migratory⟩

theorem base_enqueueTaskRt (base : Base s waits) (off : (s.task p).onRq = false) (real : (s.task p).rt = true)
    (below : (s.task p).prio < maxRtPrio) (absent : ¬ waits (s.task p).cpu p) {head : Bool} :
    Base (s.enqueueTaskRt p head true) fun c q =>
      (c = (s.task p).cpu ∧ q = p ∧ (s.rq c).curr ≠ p ∧ (s.task p).migratory = true) ∨ waits c q :=
  base_enqueueTaskRt_of off (base_enqueueEntity base off real below) below absent

theorem dequeueTaskRt_task (on : (s.task p).onRq = true) :
    (s.dequeueTaskRt p true).task = Function.update s.task p ((s.task p).mark false false) := by
  unfold State.dequeueTaskRt
  rw [dequeueStack_of_on on, dequeuePushable_task, dequeueEntity_task]
  rfl

theorem dequeueTaskRt_curr (on : (s.task p).onRq = true) :
    ((s.dequeueTaskRt p true).rq d).curr = (s.rq d).curr := by
  unfold State.dequeueTaskRt
  rw [dequeueStack_of_on on, dequeuePushable_curr, dequeueEntity_curr]

theorem base_dequeueTaskRt (base : Base s waits) (on : (s.task p).onRq = true) :
    Base (s.dequeueTaskRt p true) fun c q => waits c q ∧ ¬ (c = (s.task p).cpu ∧ q = p) := by
  have taken := base_dequeuePushable (base_dequeueEntity base on) (p := p)
  have cpu : ((s.dequeueEntity p true).task p).cpu = (s.task p).cpu := by
    rw [dequeueEntity_task, Function.update_self]
    rfl
  rw [cpu] at taken
  unfold State.dequeueTaskRt
  rw [dequeueStack_of_on on]
  exact taken

/-! ## The laws between two steps -/

def Waits (s : State Cpu Task) (c : Cpu) (q : Task) : Prop :=
  (s.task q).onRq = true ∧ (s.task q).cpu = c ∧ (s.task q).migratory = true ∧ (s.rq c).curr ≠ q

structure Sound (s : State Cpu Task) : Prop where
  base : Base s (Waits s)
  currents : ∀ c, (s.task (s.rq c).curr).cpu = c
  runs : ∀ c, (s.task (s.rq c).curr).rt = true → (s.task (s.rq c).curr).onRq = true

/-- The laws while one task is off every queue. -/
structure Taken (s : State Cpu Task) (p : Task) : Prop where
  off : (s.task p).onRq = false
  base : Base s fun c q => q ≠ p ∧ Waits s c q
  currents : ∀ c, (s.rq c).curr ≠ p → (s.task (s.rq c).curr).cpu = c
  runs : ∀ c, (s.rq c).curr ≠ p → (s.task (s.rq c).curr).rt = true → (s.task (s.rq c).curr).onRq = true

omit [DecidableEq Cpu] in
theorem Sound.nowhere (sound : Sound s) (waiting : s.taskCurrent p = false) (c : Cpu) : (s.rq c).curr ≠ p := by
  rintro rfl
  have here := sound.currents c
  simp [State.taskCurrent, here] at waiting

omit [DecidableEq Cpu] [DecidableEq Task] in
theorem Sound.off_of_other (sound : Sound s) (other : (s.task p).rt = false) : (s.task p).onRq = false := by
  by_contra on
  have real := (sound.base.real p (by simpa using on)).1
  rw [other] at real
  cases real

omit [DecidableEq Cpu] [DecidableEq Task] in
theorem Sound.taken (sound : Sound s) (off : (s.task p).onRq = false) : Taken s p where
  off := off
  base := by
    refine sound.base.congr fun c q => and_iff_right_of_imp ?_
    rintro ⟨on, -⟩ rfl
    rw [off] at on
    cases on
  currents c _ := sound.currents c
  runs c _ := sound.runs c

theorem Sound.taken_dequeue (sound : Sound s) (on : (s.task p).onRq = true) : Taken (s.dequeueTaskRt p true) p where
  off := by
    rw [dequeueTaskRt_task on, Function.update_self]
    rfl
  base := by
    refine (base_dequeueTaskRt sound.base on).congr fun c q => ?_
    unfold Waits
    rw [dequeueTaskRt_task on, dequeueTaskRt_curr on]
    by_cases self : q = p
    · subst self
      have placed : (s.task q).cpu = c → c = (s.task q).cpu := Eq.symm
      simp only [ne_eq, not_true_eq_false, false_and, and_true, false_iff, not_and, not_not]
      exact fun waiting => placed waiting.2.1
    · rw [Function.update_of_ne self]
      simp [self]
  currents c differs := by
    rw [dequeueTaskRt_curr on] at differs ⊢
    rw [dequeueTaskRt_task on, Function.update_of_ne differs]
    exact sound.currents c
  runs c differs := by
    rw [dequeueTaskRt_curr on] at differs ⊢
    rw [dequeueTaskRt_task on, Function.update_of_ne differs]
    exact sound.runs c

omit [DecidableEq Cpu] in
theorem Taken.setTask (taken : Taken s p) {t : TaskStruct Cpu} (off : t.onRq = false) (list : t.onList = false) :
    Taken (s.setTask p t) p where
  off := by
    rw [setTask_task, Function.update_self]
    exact off
  base := by
    refine (base_setTask taken.base taken.off (fun c waits => waits.1 rfl) off list).congr fun c q => ?_
    refine and_congr_right fun differs => ?_
    unfold Waits
    rw [setTask_task, Function.update_of_ne differs, setTask_rq]
  currents c differs := by
    rw [setTask_rq] at differs ⊢
    rw [setTask_task, Function.update_of_ne differs]
    exact taken.currents c differs
  runs c differs := by
    rw [setTask_rq] at differs ⊢
    rw [setTask_task, Function.update_of_ne differs]
    exact taken.runs c differs

omit [DecidableEq Cpu] in
theorem Taken.sound (taken : Taken s p) (here : ∀ c, (s.rq c).curr = p → (s.task p).cpu = c ∧ (s.task p).rt = false) :
    Sound s where
  base := by
    refine taken.base.congr fun c q => (and_iff_right_of_imp ?_).symm
    rintro ⟨on, -⟩ rfl
    rw [taken.off] at on
    cases on
  currents c := by
    by_cases self : (s.rq c).curr = p
    · rw [self]
      exact (here c self).1
    · exact taken.currents c self
  runs c := by
    by_cases self : (s.rq c).curr = p
    · rw [self, (here c self).2]
      exact fun impossible => by cases impossible
    · exact taken.runs c self

theorem Taken.enqueue (taken : Taken s p) (real : (s.task p).rt = true) (below : (s.task p).prio < maxRtPrio)
    (here : ∀ c, (s.rq c).curr = p → (s.task p).cpu = c) {head : Bool} : Sound (s.enqueueTaskRt p head true) where
  base := by
    refine (base_enqueueTaskRt taken.base taken.off real below fun waits => waits.1 rfl).congr fun c q => ?_
    unfold Waits
    rw [enqueueTaskRt_task taken.off, enqueueTaskRt_curr_of taken.off]
    by_cases self : q = p
    · subst self
      rw [Function.update_self]
      simp only [TaskStruct.mark, TaskStruct.migratory, ne_eq, not_true_eq_false, false_and, or_false, true_and]
      exact ⟨fun waiting => ⟨waiting.1.symm, waiting.2.2, waiting.2.1⟩,
        fun waiting => ⟨waiting.1.symm, waiting.2.2, waiting.2.1⟩⟩
    · rw [Function.update_of_ne self]
      simp [self]
  currents c := by
    rw [enqueueTaskRt_task taken.off, enqueueTaskRt_curr_of taken.off]
    by_cases self : (s.rq c).curr = p
    · rw [self, Function.update_self]
      exact here c self
    · rw [Function.update_of_ne self]
      exact taken.currents c self
  runs c := by
    rw [enqueueTaskRt_task taken.off, enqueueTaskRt_curr_of taken.off]
    by_cases self : (s.rq c).curr = p
    · rw [self, Function.update_self]
      exact fun _ => rfl
    · rw [Function.update_of_ne self]
      exact taken.runs c self

theorem sound_moveTask (sound : Sound s) (on : (s.task p).onRq = true) (waiting : s.taskCurrent p = false) :
    Sound (s.moveTask p d) := by
  have real := sound.base.real p on
  have self : (s.dequeueTaskRt p true).task p = (s.task p).mark false false := by
    rw [dequeueTaskRt_task on, Function.update_self]
  have taken := (sound.taken_dequeue on).setTask (t := { (s.dequeueTaskRt p true).task p with cpu := d })
    (by rw [self]; rfl) (by rw [self]; rfl)
  refine taken.enqueue ?_ ?_ fun c current => ?_
  · rw [setTask_task, Function.update_self, self]
    exact real.1
  · rw [setTask_task, Function.update_self, self]
    exact real.2
  · rw [setTask_rq, dequeueTaskRt_curr on] at current
    exact absurd current (sound.nowhere waiting c)

end UnixSystems.RtQueueSound
