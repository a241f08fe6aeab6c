import UnixSystems.RtQueueSound

/-! Every operation of the real-time class keeps the laws of its run queues: the wake-up, the
scheduler, yields and ticks, pushes and pulls, changes of a task and hotplug, in any order. -/

namespace UnixSystems.RtQueueSound
open GuardedRuns PriorityLists RtQueueModel RtQueue

variable {Cpu Task : Type} [DecidableEq Cpu] [DecidableEq Task] {s : State Cpu Task}
  {waits other : Cpu → Task → Prop} {c d : Cpu} {p q : Task}

/-! ## Steps that move no task -/

omit [DecidableEq Cpu] in
theorem sound_place (sound : Sound s) (other : (s.task p).rt = false) (nowhere : ∀ c, (s.rq c).curr ≠ p) :
    Sound (s.setTask p { s.task p with cpu := d }) := by
  have off : (s.task p).onRq = false := sound.off_of_other other
  refine ((sound.taken off).setTask (t := { s.task p with cpu := d }) off ?_).sound fun c current => ?_
  · exact (sound.base.marks p).trans off
  · exact absurd current (nowhere c)

theorem sound_wake (sound : Sound s) (real : (s.task p).rt = true) (below : (s.task p).prio < maxRtPrio)
    (off : (s.task p).onRq = false) (nowhere : ∀ c, (s.rq c).curr ≠ p) :
    Sound ((s.setTask p { s.task p with cpu := d }).enqueueTaskRt p false true) := by
  refine ((sound.taken off).setTask (t := { s.task p with cpu := d }) off ?_).enqueue ?_ ?_ fun c current => ?_
  · exact (sound.base.marks p).trans off
  · rw [setTask_task, Function.update_self]
    exact real
  · rw [setTask_task, Function.update_self]
    exact below
  · exact absurd current (nowhere c)

@[simp] theorem requeueTaskRt_task {head : Bool} : (s.requeueTaskRt p head).task = s.task := by
  unfold State.requeueTaskRt
  dsimp only
  split <;> rfl

theorem requeueTaskRt_curr {head : Bool} : ((s.requeueTaskRt p head).rq d).curr = (s.rq d).curr := by
  unfold State.requeueTaskRt
  dsimp only
  split
  · by_cases here : d = (s.task p).cpu
    · subst here
      simp [State.setRq]
    · simp [State.setRq, here]
  · rfl

theorem base_requeueTaskRt (base : Base s waits) {head : Bool} : Base (s.requeueTaskRt p head) waits := by
  unfold State.requeueTaskRt
  dsimp only
  split
  · next on =>
    have member : p ∈ (s.rq (s.task p).cpu).queue (s.task p).prio :=
      ((base.queues _).members _ p).mpr ⟨on, rfl, rfl⟩
    have perm : (if head then p :: ((s.rq (s.task p).cpu).queue (s.task p).prio).erase p
        else ((s.rq (s.task p).cpu).queue (s.task p).prio).erase p ++ [p]).Perm
          ((s.rq (s.task p).cpu).queue (s.task p).prio) := by
      split
      · exact (List.perm_cons_erase member).symm
      · exact List.perm_append_singleton _ _ |>.trans (List.perm_cons_erase member).symm
    refine ⟨fun d => ?_, fun d => ?_, base.marks, base.real, maskSound_setRq base.mask rfl rfl, base.sound⟩
    · by_cases here : d = (s.task p).cpu
      · subst here
        simp only [State.setRq, Function.update_self]
        exact queueSound_requeue (base.queues _) rfl on (base.real p on).2 perm
      · simp only [State.setRq, Function.update_of_ne here]
        exact base.queues d
    · by_cases here : d = (s.task p).cpu
      · subst here
        simp only [State.setRq, Function.update_self]
        exact base.pushes _
      · simp only [State.setRq, Function.update_of_ne here]
        exact base.pushes d
  · exact base

theorem sound_requeueTaskRt (sound : Sound s) {head : Bool} : Sound (s.requeueTaskRt p head) where
  base := (base_requeueTaskRt sound.base).congr fun c q => by
    unfold Waits
    rw [requeueTaskRt_task, requeueTaskRt_curr]
  currents c := by
    rw [requeueTaskRt_task, requeueTaskRt_curr]
    exact sound.currents c
  runs c := by
    rw [requeueTaskRt_task, requeueTaskRt_curr]
    exact sound.runs c

omit [DecidableEq Cpu] in
theorem sound_timeSlice (sound : Sound s) (n : ℕ) : Sound (s.setTask p { s.task p with timeSlice := n }) := by
  have same : ∀ q, ∃ m, (s.setTask p { s.task p with timeSlice := n }).task q = { s.task q with timeSlice := m } := by
    intro q
    by_cases self : q = p
    · subst self
      exact ⟨n, by rw [setTask_task, Function.update_self]⟩
    · exact ⟨(s.task q).timeSlice, by rw [setTask_task, Function.update_of_ne self]⟩
  generalize after : s.setTask p { s.task p with timeSlice := n } = u at same
  have rqs : u.rq = s.rq := by rw [← after]; rfl
  have waits : ∀ c q, Waits u c q ↔ Waits s c q := by
    intro c q
    obtain ⟨m, task⟩ := same q
    unfold Waits
    rw [task, rqs]
    rfl
  refine ⟨⟨fun c => ?_, fun c => ?_, fun q => ?_, fun q => ?_, ?_, ?_⟩, fun c => ?_, fun c => ?_⟩
  · rw [rqs]
    refine (sound.base.queues c).congr (fun q => ?_) fun q _ _ => ?_
    · obtain ⟨m, task⟩ := same q
      rw [task]
    · obtain ⟨m, task⟩ := same q
      rw [task]
      exact ⟨rfl, rfl, rfl⟩
  · rw [rqs]
    refine (sound.base.pushes c).congr (waits c) fun q _ => ?_
    obtain ⟨m, task⟩ := same q
    rw [task]
  · obtain ⟨m, task⟩ := same q
    rw [task]
    exact sound.base.marks q
  · obtain ⟨m, task⟩ := same q
    rw [task]
    exact sound.base.real q
  · rw [← after]
    exact maskSound_setTask sound.base.mask
  · rw [← after]
    exact sound.base.sound
  · obtain ⟨m, task⟩ := same (u.rq c).curr
    rw [task, rqs]
    exact sound.currents c
  · obtain ⟨m, task⟩ := same (u.rq c).curr
    rw [task, rqs]
    exact sound.runs c

theorem sound_taskTickRt (sound : Sound s) (slice : ℕ) : Sound (s.taskTickRt c slice) := by
  unfold State.taskTickRt
  dsimp only
  split
  · exact sound
  · split
    · exact sound_timeSlice sound _
    · split
      · exact sound_requeueTaskRt (sound_timeSlice (sound_timeSlice sound _) _)
      · exact sound_timeSlice (sound_timeSlice sound _) _

/-! ## Moves -/

theorem sound_pushRtTask (sound : Sound s) (lowest : Option Cpu) : Sound (s.pushRtTask c lowest) := by
  unfold State.pushRtTask State.pickNextPushableTask
  split
  · exact sound
  · cases list : (s.rq c).pushableTasks with
    | nil => exact sound
    | cons e rest =>
      have waits : Waits s c e.2 :=
        ((sound.base.pushes c).members e |>.mp (by rw [list]; exact List.mem_cons_self)).1
      have test : (s.task e.2).cpu = c ∧ (s.rq c).curr ≠ e.2 ∧ 1 < (s.task e.2).nrCpusAllowed ∧
          (s.task e.2).onRq = true ∧ (s.task e.2).rt = true :=
        ⟨waits.2.1, waits.2.2.2, by simpa [TaskStruct.migratory] using waits.2.2.1, waits.1,
          (sound.base.real _ waits.1).1⟩
      have waiting : s.taskCurrent e.2 = false := by
        simpa [State.taskCurrent, waits.2.1] using waits.2.2.2
      dsimp only
      rw [if_pos test]
      dsimp only
      split
      · exact sound
      · cases lowest with
        | none => exact sound
        | some d => exact sound_moveTask sound waits.1 waiting

theorem sound_pullRtTask (sound : Sound s) (allowed : Task → Bool) : Sound (s.pullRtTask c d allowed) := by
  unfold State.pullRtTask
  split
  · exact sound
  · split
    · exact sound
    · next e p found =>
      have waits : Waits s d p := ((sound.base.pushes d).members _ |>.mp (List.mem_of_find?_eq_some found)).1
      have waiting : s.taskCurrent p = false := by
        simpa [State.taskCurrent, waits.2.1] using waits.2.2.2
      split
      · exact sound_moveTask sound waits.1 waiting
      · exact sound

/-! ## The scheduler -/

/-- The laws while the previous task of one CPU has been put and the next not been picked. -/
structure Put (s : State Cpu Task) (c : Cpu) : Prop where
  base : Base s fun d q =>
    (s.task q).onRq = true ∧ (s.task q).cpu = d ∧ (s.task q).migratory = true ∧ (d ≠ c → (s.rq d).curr ≠ q)
  currents : ∀ d ≠ c, (s.task (s.rq d).curr).cpu = d
  runs : ∀ d ≠ c, (s.task (s.rq d).curr).rt = true → (s.task (s.rq d).curr).onRq = true

theorem putPrevTaskRt_of_off (off : (s.task p).onRq = false) : s.putPrevTaskRt p = s := by
  unfold State.putPrevTaskRt
  rw [off]
  simp

theorem putPrevTask_of_off (off : (s.task p).onRq = false) : s.putPrevTask p = s := by
  rw [State.putPrevTask, putPrevTaskRt_of_off off, ite_self]

theorem putPrevTask_of_bound (bound : (s.task p).rt = true → (s.task p).migratory = false) : s.putPrevTask p = s := by
  unfold State.putPrevTask State.putPrevTaskRt
  split_ifs with real pushed
  · rw [bound real] at pushed
    exact absurd pushed.2 Bool.false_ne_true
  · rfl
  · rfl

theorem putPrevTaskRt_task : (s.putPrevTaskRt p).task = s.task := by
  unfold State.putPrevTaskRt
  split <;> rfl

theorem putPrevTask_task : (s.putPrevTask p).task = s.task := by
  unfold State.putPrevTask
  split
  · exact putPrevTaskRt_task
  · rfl

theorem putPrevTask_rtNrRunning : ((s.putPrevTask p).rq d).rtNrRunning = (s.rq d).rtNrRunning := by
  unfold State.putPrevTask State.putPrevTaskRt
  split_ifs
  · exact enqueuePushable_rtNrRunning
  · rfl
  · rfl

omit [DecidableEq Task] in
theorem Sound.put_same (sound : Sound s)
    (stays : ¬ ((s.task (s.rq c).curr).onRq = true ∧ (s.task (s.rq c).curr).migratory = true)) : Put s c := by
  refine ⟨sound.base.congr fun d q => ?_, fun d _ => sound.currents d, fun d _ => sound.runs d⟩
  unfold Waits
  by_cases same : d = c
  · subst same
    have differs : (s.task q).onRq = true → (s.task q).migratory = true → (s.rq d).curr ≠ q := by
      rintro queued migratory rfl
      exact stays ⟨queued, migratory⟩
    constructor
    · rintro ⟨queued, placed, migratory, -⟩
      exact ⟨queued, placed, migratory, differs queued migratory⟩
    · rintro ⟨queued, placed, migratory, -⟩
      exact ⟨queued, placed, migratory, fun impossible => absurd rfl impossible⟩
  · simp [same]

theorem Sound.put_enqueuePushable (sound : Sound s) (queued : (s.task (s.rq c).curr).onRq = true)
    (migratory : (s.task (s.rq c).curr).migratory = true) : Put (s.enqueuePushable (s.rq c).curr) c := by
  have here := sound.currents c
  have absent : ¬ Waits s (s.task (s.rq c).curr).cpu (s.rq c).curr := by
    rw [here]
    exact fun waits => waits.2.2.2 rfl
  refine ⟨(base_enqueuePushable sound.base absent (sound.base.real _ queued).2).congr fun d q => ?_,
    fun d _ => ?_, fun d _ => ?_⟩
  · rw [enqueuePushable_task, enqueuePushable_curr, here]
    unfold Waits
    by_cases same : d = c
    · subst same
      by_cases self : q = (s.rq d).curr
      · subst self
        simp [queued, migratory, here]
      · simp [self, Ne.symm self]
    · simp [same]
  · rw [enqueuePushable_task, enqueuePushable_curr]
    exact sound.currents d
  · rw [enqueuePushable_task, enqueuePushable_curr]
    exact sound.runs d

theorem Sound.put (sound : Sound s) : Put (s.putPrevTask (s.rq c).curr) c := by
  unfold State.putPrevTask State.putPrevTaskRt
  split_ifs with real pushed
  · exact sound.put_enqueuePushable pushed.1 pushed.2
  · exact sound.put_same pushed
  · refine sound.put_same fun queued => ?_
    have off := sound.off_of_other (p := (s.rq c).curr) (by simpa using real)
    exact absurd queued.1 (by simp [off])

theorem Taken.put (taken : Taken s (s.rq c).curr) (elsewhere : ∀ d ≠ c, (s.rq d).curr ≠ (s.rq c).curr) :
    Put (s.putPrevTask (s.rq c).curr) c := by
  rw [putPrevTask_of_off taken.off]
  refine ⟨taken.base.congr fun d q => ?_, fun d differs => taken.currents d (elsewhere d differs),
    fun d differs => taken.runs d (elsewhere d differs)⟩
  unfold Waits
  have absent : (s.task q).onRq = true → q ≠ (s.rq c).curr := by
    rintro queued rfl
    rw [taken.off] at queued
    cases queued
  constructor
  · rintro ⟨queued, placed, migratory, differs⟩
    refine ⟨absent queued, queued, placed, migratory, ?_⟩
    by_cases same : d = c
    · subst same
      exact Ne.symm (absent queued)
    · exact differs same
  · rintro ⟨-, queued, placed, migratory, differs⟩
    exact ⟨queued, placed, migratory, fun _ => differs⟩

omit [DecidableEq Task] in
theorem Put.setCurr {other : Task} (put : Put s c) (other_class : (s.task other).rt = false) (here : (s.task other).cpu = c) :
    Sound (s.setCurr c other) := by
  have off : ∀ q, (s.task q).onRq = true → other ≠ q := by
    rintro q queued rfl
    have real := (put.base.real _ queued).1
    rw [other_class] at real
    cases real
  refine ⟨(base_setCurr put.base).congr fun d q => ?_, fun d => ?_, fun d => ?_⟩
  · unfold Waits
    by_cases same : d = c
    · subst same
      simp only [State.setCurr, State.setRq, Function.update_self, ne_eq, not_true_eq_false, false_imp_iff, and_true]
      exact ⟨fun waits => ⟨waits.1, waits.2.1, waits.2.2.1⟩, fun waits => ⟨waits.1, waits.2.1, waits.2.2, off q waits.1⟩⟩
    · simp [State.setCurr, State.setRq, same]
  · by_cases same : d = c
    · subst same
      simpa [State.setCurr, State.setRq] using here
    · simpa [State.setCurr, State.setRq, same] using put.currents d same
  · by_cases same : d = c
    · subst same
      simp [State.setCurr, State.setRq, other_class]
    · simpa [State.setCurr, State.setRq, same] using put.runs d same

omit [DecidableEq Cpu] [DecidableEq Task] in
theorem Base.pickNextRtEntity (base : Base s waits) (busy : (s.rq c).rtNrRunning ≠ 0) :
    ∃ p, s.pickNextRtEntity c = some p ∧ (s.task p).onRq = true ∧ (s.task p).cpu = c := by
  have sound := base.queues c
  have nonempty : ready (s.rq c) ≠ [] := by
    intro empty
    rw [sound.counted.running, empty] at busy
    exact busy rfl
  obtain ⟨e, member⟩ := List.exists_mem_of_ne_nil _ nonempty
  have below : top maxRtPrio (ready (s.rq c)) < maxRtPrio :=
    (top_le ordered_order member).trans_lt (mem_order.mp (show (e.1, e.2) ∈ order maxRtPrio _ from member)).1
  have bit : (s.rq c).bitmap (top maxRtPrio (ready (s.rq c))) = true := by
    rw [← sound.listed.schedFindFirstBit]
    rw [← sound.listed.schedFindFirstBit] at below
    unfold RtQueueModel.schedFindFirstBit at below ⊢
    cases found : (List.range (maxRtPrio + 1)).find? (s.rq c).bitmap with
    | none =>
      rw [found] at below
      simp at below
    | some i => exact List.find?_some found
  have filled := (sound.listed.bits _ below).mp bit
  obtain ⟨p, rest, list⟩ := List.exists_cons_of_ne_nil filled
  have queued := (sound.members _ p).mp (by rw [list]; exact List.mem_cons_self)
  refine ⟨p, ?_, queued.1, queued.2.1⟩
  unfold State.pickNextRtEntity
  rw [sound.listed.schedFindFirstBit]
  dsimp only
  rw [if_neg (by omega), list]
  rfl

theorem Put.pick (put : Put s c) (on : (s.task p).onRq = true) (here : (s.task p).cpu = c) :
    Sound ((s.dequeuePushable p).setCurr c p) := by
  have base := base_setCurr (base_dequeuePushable put.base (p := p)) (c := c) (p := p)
  refine ⟨base.congr fun d q => ?_, fun d => ?_, fun d => ?_⟩
  · unfold Waits
    by_cases same : d = c
    · subst same
      simp only [State.setCurr, State.setRq, Function.update_self, here, dequeuePushable_task, ne_eq, not_true_eq_false,
        false_imp_iff, and_true, true_and]
      exact ⟨fun waits => ⟨⟨waits.1, waits.2.1, waits.2.2.1⟩, Ne.symm waits.2.2.2⟩,
        fun waits => ⟨waits.1.1, waits.1.2.1, waits.1.2.2, Ne.symm waits.2⟩⟩
    · simp [State.setCurr, State.setRq, same, here]
  · by_cases same : d = c
    · subst same
      simpa [State.setCurr, State.setRq] using here
    · simpa [State.setCurr, State.setRq, same] using put.currents d same
  · by_cases same : d = c
    · subst same
      simp [State.setCurr, State.setRq, on]
    · simpa [State.setCurr, State.setRq, same] using put.runs d same

theorem sound_schedule {passed wrr : Bool} {other : Task} (put : Put (s.putPrevTask (s.rq c).curr) c)
    (unchanged : passed = true ∨ (s.rq c).rtNrRunning = 0 → wrr = true → s.putPrevTask (s.rq c).curr = s)
    (other_class : (s.task other).rt = false) (here : (s.task other).cpu = c) :
    Sound (s.schedule c passed wrr other) := by
  unfold State.schedule
  dsimp only
  split
  · next skips =>
    have puts : (if wrr then s else s.putPrevTask (s.rq c).curr) = s.putPrevTask (s.rq c).curr := by
      split
      · next direct => exact (unchanged skips direct).symm
      · rfl
    rw [puts]
    refine put.setCurr ?_ ?_
    · rw [putPrevTask_task]
      exact other_class
    · rw [putPrevTask_task]
      exact here
  · next queued =>
    have busy : ((s.putPrevTask (s.rq c).curr).rq c).rtNrRunning ≠ 0 := by
      rw [putPrevTask_rtNrRunning]
      exact fun none => queued (Or.inr none)
    obtain ⟨p, picked, on, placed⟩ := put.base.pickNextRtEntity busy
    rw [picked]
    exact put.pick on placed

omit [DecidableEq Cpu] [DecidableEq Task] in
theorem Sound.busy (sound : Sound s) (real : (s.task (s.rq c).curr).rt = true) : (s.rq c).rtNrRunning ≠ 0 := by
  have on := sound.runs c real
  have queue := sound.base.queues c
  have listed := (queue.members _ (s.rq c).curr).mpr ⟨on, sound.currents c, rfl⟩
  have member : ((s.task (s.rq c).curr).prio, (s.rq c).curr) ∈ ready (s.rq c) :=
    mem_order.mpr ⟨(sound.base.real _ on).2, listed⟩
  rw [queue.counted.running]
  exact List.length_pos_of_mem member |>.ne'

/-- A WRR task replaces a real-time task that could be pushed: nobody puts that on the list. -/
theorem not_sound_replaced {other : Task} (sound : Sound s) (real : (s.task (s.rq c).curr).rt = true)
    (migratory : (s.task (s.rq c).curr).migratory = true) (other_class : (s.task other).rt = false) :
    ¬ Sound (s.schedule c true true other) := by
  intro after
  have on := sound.runs c real
  have differs : other ≠ (s.rq c).curr := by
    rintro rfl
    rw [other_class] at real
    cases real
  have replaced : s.schedule c true true other = s.setCurr c other := by
    unfold State.schedule
    simp
  rw [replaced] at after
  have waits : Waits (s.setCurr c other) c (s.rq c).curr :=
    ⟨on, sound.currents c, migratory, by simpa [State.setCurr, State.setRq] using differs⟩
  have listed := ((after.base.pushes c).members ((s.task (s.rq c).curr).prio, (s.rq c).curr)).mpr ⟨waits, rfl⟩
  have before : ((s.task (s.rq c).curr).prio, (s.rq c).curr) ∈ (s.rq c).pushableTasks := by
    simpa [State.setCurr, State.setRq] using listed
  exact (((sound.base.pushes c).members _).mp before).1.2.2.2 rfl

/-! ## Changes of a task -/

theorem sound_dequeuePushable (sound : Sound s) (current : (s.rq (s.task p).cpu).curr = p) :
    Sound (s.dequeuePushable p) := by
  refine ⟨base_dequeuePushable sound.base |>.congr fun c q => ?_, fun c => ?_, fun c => ?_⟩
  · unfold Waits
    rw [dequeuePushable_task, dequeuePushable_curr]
    refine (and_iff_left_of_imp ?_).symm
    rintro ⟨-, -, -, differs⟩ ⟨rfl, rfl⟩
    exact differs current
  · rw [dequeuePushable_task, dequeuePushable_curr]
    exact sound.currents c
  · rw [dequeuePushable_task, dequeuePushable_curr]
    exact sound.runs c

theorem dequeueTaskRt_off (on : (s.task p).onRq = true) (move : Bool) :
    ((s.dequeueTaskRt p move).task p).onRq = false := by
  unfold State.dequeueTaskRt
  rw [dequeueStack_of_on on, dequeuePushable_task, dequeueEntity_task, Function.update_self]
  rfl

/-- A task that is off the counters, with its new attributes, but has stayed on its list. -/
def stayed (s : State Cpu Task) (p : Task) (a : Attributes) : State Cpu Task :=
  (s.dequeueTaskRt p false).setTask p (((s.dequeueTaskRt p false).task p).withAttributes a)

theorem stayed_task (on : (s.task p).onRq = true) (a : Attributes) :
    (stayed s p a).task = Function.update s.task p (((s.task p).mark false (s.task p).onList).withAttributes a) := by
  unfold stayed State.dequeueTaskRt
  rw [dequeueStack_of_on on, setTask_task, dequeuePushable_task, dequeueEntity_task, Function.update_self,
    Function.update_idem]
  rfl

theorem stayed_rq (on : (s.task p).onRq = true) (a : Attributes) :
    (stayed s p a).rq = Function.update s.rq (s.task p).cpu
      { settle ((s.rq (s.task p).cpu).decRtTasks (s.task p)) with
        pushableTasks := plistDel p (s.rq (s.task p).cpu).pushableTasks
        highestNext := ((plistDel p (s.rq (s.task p).cpu).pushableTasks).head?.map fun e =>
          (s.task e.2).prio).getD maxRtPrio } := by
  have prios : ∀ q, ((s.dequeueEntity p false).task q).prio = (s.task q).prio := by
    intro q
    rw [dequeueEntity_task]
    by_cases self : q = p
    · subst self
      rw [Function.update_self]
      rfl
    · rw [Function.update_of_ne self]
  have cpu : ((s.dequeueEntity p false).task p).cpu = (s.task p).cpu := by
    rw [dequeueEntity_task, Function.update_self]
    rfl
  have list : (settle ((s.rq (s.task p).cpu).decRtTasks (s.task p))).pushableTasks =
      (s.rq (s.task p).cpu).pushableTasks := by
    rw [decRtTasks_eq]
    rfl
  unfold stayed State.dequeueTaskRt
  rw [dequeueStack_of_on on, setTask_rq]
  unfold State.dequeuePushable State.setRq RtRq.dequeuePushableTask
  dsimp only
  rw [cpu, dequeueEntity_rq, Function.update_self, Function.update_idem]
  simp only [Bool.false_eq_true, if_false, prios, list]

theorem stayed_curr (on : (s.task p).onRq = true) (a : Attributes) : ((stayed s p a).rq c).curr = (s.rq c).curr := by
  rw [stayed_rq on, decRtTasks_eq]
  by_cases here : c = (s.task p).cpu
  · subst here
    rw [Function.update_self]
    rfl
  · rw [Function.update_of_ne here]

theorem base_stay (base : Base s waits) (on : (s.task p).onRq = true) {a : Attributes}
    (same : a.prio = (s.task p).prio) {head : Bool} :
    Base ((stayed s p a).enqueueEntity p head false) fun c q => waits c q ∧ ¬ (c = (s.task p).cpu ∧ q = p) := by
  have real := base.real p on
  have self : (stayed s p a).task p = ((s.task p).mark false (s.task p).onList).withAttributes a := by
    rw [stayed_task on, Function.update_self]
  have task : ((stayed s p a).enqueueEntity p head false).task = Function.update s.task p
      ((((s.task p).mark false (s.task p).onList).withAttributes a).mark true (s.task p).onList) := by
    rw [enqueueEntity_task, self, stayed_task on, Function.update_idem]
    rfl
  have prios : ∀ q, (((stayed s p a).enqueueEntity p head false).task q).prio = (s.task q).prio := by
    intro q
    rw [task]
    by_cases here : q = p
    · subst here
      rw [Function.update_self]
      exact same
    · rw [Function.update_of_ne here]
  have rqs := enqueueEntity_rq (stayed s p a) p head false
  have cpu : (((s.task p).mark false (s.task p).onList).withAttributes a).cpu = (s.task p).cpu := rfl
  rw [self, stayed_rq on, cpu, Function.update_self, Function.update_idem] at rqs
  simp only [Bool.false_eq_true, if_false] at rqs
  refine ⟨fun d => ?_, fun d => ?_, fun q => ?_, fun q => ?_, ?_, ?_⟩
  · rw [task, rqs]
    by_cases here : d = (s.task p).cpu
    · subst here
      rw [Function.update_self]
      exact queueSound_stay (u := ((s.task p).mark false (s.task p).onList).withAttributes a) (base.queues _) rfl on
        real.2 same rfl _ _ _
    · rw [Function.update_of_ne here]
      exact queueSound_elsewhere (base.queues d) (Ne.symm here) (Ne.symm here)
  · by_cases here : d = (s.task p).cpu
    · subst here
      have list := (base.pushes (s.task p).cpu).dequeue p
      have fields : (((stayed s p a).enqueueEntity p head false).rq (s.task p).cpu).pushableTasks =
            plistDel p (s.rq (s.task p).cpu).pushableTasks ∧
          (((stayed s p a).enqueueEntity p head false).rq (s.task p).cpu).highestNext =
            ((plistDel p (s.rq (s.task p).cpu).pushableTasks).head?.map fun e => (s.task e.2).prio).getD maxRtPrio := by
        rw [rqs, Function.update_self, incRtTasks_eq]
        exact ⟨rfl, rfl⟩
      rw [fields.1, fields.2]
      exact list.congr (fun q => by simp) fun q _ => prios q
    · rw [rqs, Function.update_of_ne here]
      exact (base.pushes d).congr (fun q => by simp [here]) fun q _ => prios q
  · rw [task]
    by_cases here : q = p
    · subst here
      rw [Function.update_self]
      exact (base.marks q).trans on
    · rw [Function.update_of_ne here]
      exact base.marks q
  · rw [task]
    by_cases here : q = p
    · subst here
      rw [Function.update_self]
      exact fun _ => ⟨real.1, same.trans_lt real.2⟩
    · rw [Function.update_of_ne here]
      exact base.real q
  · refine maskSound_enqueueEntity (maskSound_setTask ?_)
    unfold State.dequeueTaskRt
    rw [dequeueStack_of_on on]
    exact maskSound_setRq (maskSound_dequeueEntity base.mask) rfl rfl
  · unfold State.enqueueEntity
    rw [updateRtMigration_bug]
    change (s.dequeueTaskRt p false).bug = false
    unfold State.dequeueTaskRt
    rw [dequeueStack_of_on on]
    change (s.dequeueEntity p false).bug = false
    unfold State.dequeueEntity
    rw [updateRtMigration_bug]
    exact base.sound

theorem sound_stay (sound : Sound s) (on : (s.task p).onRq = true) {a : Attributes}
    (same : a.prio = (s.task p).prio) {head : Bool} : Sound ((stayed s p a).enqueueTaskRt p head false) := by
  have real := sound.base.real p on
  have self : (stayed s p a).task p = ((s.task p).mark false (s.task p).onList).withAttributes a := by
    rw [stayed_task on, Function.update_self]
  have off : ((stayed s p a).task p).onRq = false := by
    rw [self]
    rfl
  have stay : Base ((stayed s p a).enqueueEntity p head false) _ := base_stay sound.base on same
  have base := base_enqueueTaskRt_of off stay (by rw [self]; exact same.trans_lt real.2)
    (by rw [self]; exact fun waits => waits.2 ⟨rfl, rfl⟩)
  have task := enqueueTaskRt_task_of off head false
  rw [self, stayed_task on, Function.update_idem] at task
  refine ⟨base.congr fun c q => ?_, fun c => ?_, fun c => ?_⟩
  · unfold Waits
    rw [task, enqueueTaskRt_curr_of off, stayed_curr on, self]
    by_cases here : q = p
    · subst here
      rw [Function.update_self]
      simp only [TaskStruct.mark, TaskStruct.migratory, TaskStruct.withAttributes, true_and, and_true]
      constructor
      · rintro ⟨placed, migratory, differs⟩
        exact Or.inl ⟨placed.symm, differs, migratory⟩
      · rintro (⟨placed, differs, migratory⟩ | ⟨⟨-, placed, -⟩, elsewhere⟩)
        · exact ⟨placed.symm, migratory, differs⟩
        · exact absurd placed.symm elsewhere
    · rw [Function.update_of_ne here]
      simp [here]
  · rw [task, enqueueTaskRt_curr_of off, stayed_curr on]
    by_cases here : (s.rq c).curr = p
    · rw [here, Function.update_self]
      have placed := sound.currents c
      rw [here] at placed
      exact placed
    · rw [Function.update_of_ne here]
      exact sound.currents c
  · rw [task, enqueueTaskRt_curr_of off, stayed_curr on]
    by_cases here : (s.rq c).curr = p
    · rw [here, Function.update_self]
      exact fun _ => rfl
    · rw [Function.update_of_ne here]
      exact sound.runs c

theorem sound_finish {u : State Cpu Task} (sound : Sound u) (cpu : (u.task p).cpu = (s.task p).cpu)
    (curr : ∀ c, (u.rq c).curr = (s.rq c).curr) : Sound (if s.taskCurrent p then u.dequeuePushable p else u) := by
  split
  · next current =>
    refine sound_dequeuePushable sound ?_
    rw [cpu, curr]
    simpa [State.taskCurrent] using current
  · exact sound

omit [DecidableEq Cpu] in
theorem Sound.not_current (sound : Sound s) (real : (s.task p).rt = true) (off : (s.task p).onRq = false) :
    s.taskCurrent p = false := by
  by_contra current
  have here : (s.rq (s.task p).cpu).curr = p := by simpa [State.taskCurrent] using current
  have on := sound.runs (s.task p).cpu
  rw [here, off] at on
  cases on real

theorem sound_change (sound : Sound s) {a : Attributes} (real : (s.task p).rt = true) (below : a.prio < maxRtPrio)
    {head move : Bool} (stays : move = false → a.prio = (s.task p).prio) : Sound (s.change p a head move) := by
  unfold State.change
  dsimp only
  cases on : (s.task p).onRq with
  | false =>
    have current := sound.not_current real on
    rw [current]
    simp only [Bool.false_eq_true, if_false]
    refine ((sound.taken on).setTask (t := (s.task p).withAttributes a) on ?_).sound fun c here => ?_
    · exact (sound.base.marks p).trans on
    · exact absurd here (sound.nowhere current c)
  | true =>
    simp only [if_true]
    rw [putPrevTaskRt_of_off (dequeueTaskRt_off on move), ite_self]
    cases move with
    | false =>
      have self : (stayed s p a).task p = ((s.task p).mark false (s.task p).onList).withAttributes a := by
        rw [stayed_task on, Function.update_self]
      have off : ((stayed s p a).task p).onRq = false := by
        rw [self]
        rfl
      change Sound (if s.taskCurrent p then ((stayed s p a).enqueueTaskRt p head false).dequeuePushable p
        else (stayed s p a).enqueueTaskRt p head false)
      refine sound_finish (sound_stay sound on (stays rfl)) ?_ fun c => ?_
      · rw [enqueueTaskRt_task_of off, Function.update_self, self]
        rfl
      · rw [enqueueTaskRt_curr_of off, stayed_curr on]
    | true =>
      have self : (s.dequeueTaskRt p true).task p = (s.task p).mark false false := by
        rw [dequeueTaskRt_task on, Function.update_self]
      have taken := (sound.taken_dequeue on).setTask (t := ((s.dequeueTaskRt p true).task p).withAttributes a)
        (by rw [self]; rfl) (by rw [self]; rfl)
      refine sound_finish (taken.enqueue ?_ ?_ fun c here => ?_) ?_ fun c => ?_
      · rw [setTask_task, Function.update_self, self]
        exact real
      · rw [setTask_task, Function.update_self]
        exact below
      · rw [setTask_rq, dequeueTaskRt_curr on] at here
        rw [setTask_task, Function.update_self, self]
        have placed := sound.currents c
        rw [here] at placed
        exact placed
      · rw [enqueueTaskRt_task taken.off, Function.update_self, setTask_task, Function.update_self, self]
        rfl
      · rw [enqueueTaskRt_curr_of taken.off, setTask_rq, dequeueTaskRt_curr on]

theorem sound_leave (sound : Sound s) : Sound (s.leave p) := by
  unfold State.leave
  dsimp only
  cases on : (s.task p).onRq with
  | false =>
    simp only [Bool.false_eq_true, if_false]
    rw [putPrevTaskRt_of_off on, ite_self]
    refine ((sound.taken on).setTask (t := { s.task p with rt := false }) on ?_).sound fun c here => ?_
    · exact (sound.base.marks p).trans on
    · have placed := sound.currents c
      rw [setTask_rq] at here
      rw [here] at placed
      rw [setTask_task, Function.update_self]
      exact ⟨placed, rfl⟩
  | true =>
    simp only [if_true]
    rw [putPrevTaskRt_of_off (dequeueTaskRt_off on true), ite_self]
    have self : (s.dequeueTaskRt p true).task p = (s.task p).mark false false := by
      rw [dequeueTaskRt_task on, Function.update_self]
    have taken := (sound.taken_dequeue on).setTask (t := { (s.dequeueTaskRt p true).task p with rt := false })
      (by rw [self]; rfl) (by rw [self]; rfl)
    refine taken.sound fun c here => ?_
    rw [setTask_rq, dequeueTaskRt_curr on] at here
    have placed := sound.currents c
    rw [here] at placed
    rw [setTask_task, Function.update_self, self]
    exact ⟨placed, rfl⟩

theorem sound_join (sound : Sound s) {a : Attributes} (other : (s.task p).rt = false) (below : a.prio < maxRtPrio)
    {queued head : Bool} (runs : s.taskCurrent p = true → queued = true) : Sound (s.join p a queued head) := by
  have off := sound.off_of_other other
  have taken := (sound.taken off).setTask (t := { (s.task p).withAttributes a with rt := true }) off
    ((sound.base.marks p).trans off)
  have placed : ∀ c, (s.rq c).curr = p → (s.task p).cpu = c := by
    intro c here
    have cpu := sound.currents c
    rw [here] at cpu
    exact cpu
  unfold State.join
  dsimp only
  cases queued with
  | true =>
    simp only [if_true]
    refine sound_finish (taken.enqueue ?_ ?_ fun c here => ?_) ?_ fun c => ?_
    · rw [setTask_task, Function.update_self]
    · rw [setTask_task, Function.update_self]
      exact below
    · rw [setTask_task, Function.update_self]
      exact placed c here
    · rw [enqueueTaskRt_task taken.off, Function.update_self, setTask_task, Function.update_self]
      rfl
    · rw [enqueueTaskRt_curr_of taken.off, setTask_rq]
  | false =>
    have current : s.taskCurrent p = false := by
      by_contra current
      cases runs (by simpa using current)
    rw [current]
    simp only [Bool.false_eq_true, if_false]
    exact taken.sound fun c here => absurd here (sound.nowhere current c)

/-! ## Hotplug -/

section
omit [DecidableEq Task]

theorem Sound.turned {u : State Cpu Task} {b : Bool} (sound : Sound s) (task : u.task = s.task)
    (rqs : u.rq = Function.update s.rq c { s.rq c with online := b }) (mask : MaskSound u) (bug : u.bug = s.bug) :
    Sound u := by
  have curr : ∀ d, (u.rq d).curr = (s.rq d).curr := by
    intro d
    rw [rqs]
    by_cases here : d = c
    · subst here
      rw [Function.update_self]
    · rw [Function.update_of_ne here]
  have waits : ∀ d q, Waits u d q ↔ Waits s d q := by
    intro d q
    unfold Waits
    rw [task, curr]
  refine ⟨⟨fun d => ?_, fun d => ?_, ?_, ?_, mask, bug.trans sound.base.sound⟩, fun d => ?_, fun d => ?_⟩
  · rw [task, rqs]
    by_cases here : d = c
    · subst here
      rw [Function.update_self]
      exact queueSound_other (sound.base.queues d) _ _ b _
    · rw [Function.update_of_ne here]
      exact sound.base.queues d
  · refine PushList.congr ?_ (waits d) fun q _ => by rw [task]
    rw [rqs]
    by_cases here : d = c
    · subst here
      rw [Function.update_self]
      exact sound.base.pushes d
    · rw [Function.update_of_ne here]
      exact sound.base.pushes d
  · rw [task]
    exact sound.base.marks
  · rw [task]
    exact sound.base.real
  · rw [task, curr]
    exact sound.currents d
  · rw [task, curr]
    exact sound.runs d

theorem sound_rqOnline (sound : Sound s) : Sound (s.rqOnline c) := by
  unfold State.rqOnline
  split
  · exact sound
  · next offline =>
    have absent : c ∉ s.rtoMask := fun member => offline ((sound.base.mask.mem c).mp member).2
    have online : ((s.setRq c { s.rq c with online := true }).rq c).online = true := by
      simp [State.setRq]
    dsimp only
    split
    · next heavy =>
      have overloaded : (s.rq c).overloaded = true := by simpa [State.setRq] using heavy
      unfold State.rtSetOverload
      rw [if_pos online]
      refine sound.turned rfl rfl ⟨fun d => ?_, ?_⟩ rfl
      · by_cases here : d = c
        · subst here
          simp [State.setRq, overloaded]
        · simp [State.setRq, here, sound.base.mask.mem d]
      · simp [State.setRq, Finset.card_insert_of_notMem absent, sound.base.mask.card]
    · next light =>
      have relaxed : (s.rq c).overloaded = false := by simpa [State.setRq] using light
      refine sound.turned rfl rfl ⟨fun d => ?_, sound.base.mask.card⟩ rfl
      by_cases here : d = c
      · subst here
        simp [State.setRq, relaxed, absent]
      · simp [State.setRq, here, sound.base.mask.mem d]

theorem sound_rqOffline (sound : Sound s) : Sound (s.rqOffline c) := by
  unfold State.rqOffline
  split
  · next online =>
    dsimp only
    split
    · next overloaded =>
      have member : c ∈ s.rtoMask := (sound.base.mask.mem c).mpr ⟨overloaded, online⟩
      unfold State.rtClearOverload
      rw [if_pos online]
      refine sound.turned rfl rfl ⟨fun d => ?_, ?_⟩ rfl
      · by_cases here : d = c
        · subst here
          simp [State.setRq]
        · simp [State.setRq, here, sound.base.mask.mem d]
      · simp [State.setRq, Finset.card_erase_of_mem member, sound.base.mask.card]
    · next light =>
      have absent : c ∉ s.rtoMask := fun member => light ((sound.base.mask.mem c).mp member).1
      refine sound.turned rfl rfl ⟨fun d => ?_, sound.base.mask.card⟩ rfl
      by_cases here : d = c
      · subst here
        simp [State.setRq, absent]
      · simp [State.setRq, here, sound.base.mask.mem d]
  · exact sound

end

/-! ## Runs -/

omit [DecidableEq Cpu] [DecidableEq Task] in
theorem sound_start (start : Start s) : Sound s := by
  have empty : ∀ c, ready (s.rq c) = [] := by
    intro c
    refine List.eq_nil_iff_forall_not_mem.mpr fun e member => ?_
    have listed := (mem_order.mp (show (e.1, e.2) ∈ order maxRtPrio _ from member)).2
    rw [start.queues c] at listed
    cases listed
  have off : ∀ p, (s.task p).onRq ≠ true := fun p on => by
    rw [(start.marks p).1] at on
    cases on
  have light : ∀ c, ¬ Heavy (s.rq c) := fun c heavy => heavy.1 (start.migration c).1
  refine ⟨⟨fun c => ⟨⟨fun i => ?_, fun i below => ?_, ?_⟩, fun i p => ?_, ⟨?_, ?_, ?_, ?_, ?_, ?_⟩⟩,
    fun c => ⟨?_, ?_, fun e => ?_, ?_⟩, fun p => ?_, fun p on => absurd on (off p), ⟨fun c => ?_, ?_⟩, start.sound⟩,
    fun c => (start.currents c).2, fun c real => ?_⟩
  · rw [start.queues c]
    exact List.nodup_nil
  · rw [start.bitmaps c, start.queues c]
    simp [below.ne]
  · rw [start.bitmaps c]
    simp
  · rw [start.queues c]
    simp [off p]
  · rw [empty c]
    exact (start.running c).1
  · rw [empty c]
    exact (start.migration c).2
  · rw [empty c]
    exact (start.running c).2
  · rw [empty c]
    exact (start.migration c).1
  · rw [empty c]
    exact (start.highest c).1
  · rw [start.overloaded c, decide_eq_false (light c)]
  · rw [start.pushable c]
    exact List.Pairwise.nil
  · rw [start.pushable c]
    exact List.nodup_nil
  · rw [start.pushable c]
    simp [Waits, off e.2]
  · rw [start.pushable c]
    exact (start.highest c).2
  · rw [(start.marks p).1, (start.marks p).2]
  · rw [start.mask.1, start.overloaded c]
    simp
  · rw [start.mask.1, start.mask.2]
    rfl
  · rw [(start.currents c).1] at real
    cases real

/-- A WRR task does not take the place of a real-time task that could be pushed. -/
def PutsPrev (s : State Cpu Task) : Action Cpu Task → Prop
  | .schedule c sleeps passed wrr _ => passed = true → wrr = true → sleeps = false →
    (s.task (s.rq c).curr).rt = true → (s.task (s.rq c).curr).migratory = false
  | _ => True

theorem Sound.sleeps (sound : Sound s) {passed wrr : Bool} {other : Task} (real : (s.task (s.rq c).curr).rt = true)
    (other_class : (s.task other).rt = false) (here : (s.task other).cpu = c) :
    Sound ((s.dequeueTaskRt (s.rq c).curr true).schedule c passed wrr other) := by
  have on := sound.runs c real
  have curr : ∀ d, ((s.dequeueTaskRt (s.rq c).curr true).rq d).curr = (s.rq d).curr := fun d =>
    dequeueTaskRt_curr on
  have taken := sound.taken_dequeue on
  have differs : other ≠ (s.rq c).curr := by
    rintro rfl
    rw [other_class] at real
    cases real
  have task : (s.dequeueTaskRt (s.rq c).curr true).task other = s.task other := by
    rw [dequeueTaskRt_task on, Function.update_of_ne differs]
  refine sound_schedule (Taken.put ?_ fun d elsewhere => ?_) (fun _ _ => ?_) ?_ ?_
  · rw [curr c]
    exact taken
  · rw [curr c, curr d]
    intro same
    have there := sound.currents d
    rw [same, sound.currents c] at there
    exact elsewhere there.symm
  · rw [curr c]
    exact putPrevTask_of_off taken.off
  · rw [task]
    exact other_class
  · rw [task]
    exact here

theorem sound_schedule_iff (sound : Sound s) {sleeps passed wrr : Bool} {other : Task}
    (legal : Legal s (.schedule c sleeps passed wrr other)) :
    Sound (step s (.schedule c sleeps passed wrr other)) ↔ PutsPrev s (.schedule c sleeps passed wrr other) := by
  cases sleeps with
  | true => exact iff_of_true (sound.sleeps (legal.1 rfl) legal.2.1 legal.2.2) fun _ _ runs => by cases runs
  | false =>
    constructor
    · rintro after rfl rfl - real
      by_contra migratory
      exact not_sound_replaced sound real (by simpa using migratory) legal.2.1 after
    · intro puts
      refine sound_schedule sound.put (fun skips direct => ?_) legal.2.1 legal.2.2
      refine putPrevTask_of_bound fun real => puts ?_ direct rfl real
      exact skips.resolve_right (sound.busy real)

theorem sound_step_iff (a : Action Cpu Task) (legal : Legal s a) (sound : Sound s) :
    Sound (step s a) ↔ PutsPrev s a := by
  cases a with
  | schedule c sleeps passed wrr other => exact sound_schedule_iff sound legal
  | wake p c => exact iff_of_true (sound_wake sound legal.1 legal.2.1 legal.2.2.1 legal.2.2.2) trivial
  | place p c => exact iff_of_true (sound_place sound legal.1 legal.2) trivial
  | yield c => exact iff_of_true (sound_requeueTaskRt sound) trivial
  | tick c slice => exact iff_of_true (sound_taskTickRt sound slice) trivial
  | preemptEqual p => exact iff_of_true (sound_requeueTaskRt sound) trivial
  | push c lowest => exact iff_of_true (sound_pushRtTask sound lowest) trivial
  | pull this src allowed => exact iff_of_true (sound_pullRtTask sound allowed) trivial
  | migrate p d => exact iff_of_true (sound_moveTask sound legal.1 legal.2) trivial
  | change p a head move => exact iff_of_true (sound_change sound legal.1 legal.2.1 legal.2.2) trivial
  | leave p => exact iff_of_true (sound_leave sound) trivial
  | join p a queued head => exact iff_of_true (sound_join sound legal.1 legal.2.1 legal.2.2) trivial
  | online c => exact iff_of_true (sound_rqOnline sound) trivial
  | offline c => exact iff_of_true (sound_rqOffline sound) trivial

/-- The lists, the bitmap, the counters, the push lists and the mask of overloaded CPUs agree with
where the tasks are, and no `BUG_ON` of the class fires, exactly if WRR never takes the CPU from a
task that only it should have put on the push list. -/
theorem agreement_iff_putsPrev {acts : List (Action Cpu Task)} (start : Start s) (legal : Along step Legal s acts) :
    Always step Sound s acts ↔ Along step PutsPrev s acts :=
  always_iff_along (fun _ => True) Sound (fun _ _ _ _ => trivial)
    (fun _ a legal _ sound => sound_step_iff a legal sound) trivial (sound_start start) legal

/-! Two CPUs, each with its idle task and a real-time task. -/

def idleRq (c : Bool) : RtRq (Bool × Bool) where
  queue _ := []
  bitmap i := decide (i = maxRtPrio)
  rtNrRunning := 0
  rrNrRunning := 0
  highestCurr := maxRtPrio
  highestNext := maxRtPrio
  rtNrMigratory := 0
  rtNrTotal := 0
  overloaded := false
  pushableTasks := []
  online := true
  curr := (c, false)

def twoCpus : State Bool (Bool × Bool) where
  task p :=
    { rt := p.2, prio := 50, rr := p.2, nrCpusAllowed := 2, cpu := p.1, onRq := false, onList := false, timeSlice := 100 }
  rq := idleRq
  rtoMask := ∅
  rtoCount := 0
  bug := false

theorem start_twoCpus : Start twoCpus where
  queues _ := rfl
  bitmaps _ _ := rfl
  running _ := ⟨rfl, rfl⟩
  highest _ := ⟨rfl, rfl⟩
  migration _ := ⟨rfl, rfl⟩
  overloaded _ := rfl
  pushable _ := rfl
  mask := ⟨rfl, rfl⟩
  marks _ := ⟨rfl, rfl⟩
  currents _ := ⟨rfl, rfl⟩
  sound := rfl

def wakesAndPushes : List (RtQueueModel.Action Bool (Bool × Bool)) :=
  [.wake (false, true) false, .wake (true, true) false, .schedule false false false false (false, false),
    .push false (some true), .schedule true false false false (true, false)]

theorem legal_wakesAndPushes : Along step Legal twoCpus wakesAndPushes :=
  ⟨⟨rfl, by decide, rfl, by decide⟩, ⟨rfl, by decide, rfl, by decide⟩, ⟨by simp, rfl, rfl⟩, trivial,
    ⟨by simp, rfl, rfl⟩, trivial⟩

theorem agreement_iff_putsPrev_pushes :
    Always step Sound twoCpus wakesAndPushes ∧ ((run step twoCpus wakesAndPushes).rq true).curr = (true, true) := by
  refine ⟨(agreement_iff_putsPrev start_twoCpus legal_wakesAndPushes).mpr ?_, by decide +kernel⟩
  exact ⟨trivial, trivial, nofun, trivial, nofun, trivial⟩

/-- The queue of the CPU has been throttled, and the other task of the CPU, taken for one of the WRR
class, becomes current; the real-time task waits and is not on the push list. -/
example :
    let s := run step twoCpus
      [.wake (false, true) false, .schedule false false false false (false, false),
        .schedule false false true true (false, false)]
    (s.task (false, true)).onRq = true ∧ (s.rq false).curr = (false, false) ∧ (s.rq false).pushableTasks = [] := by
  decide +kernel

end UnixSystems.RtQueueSound
