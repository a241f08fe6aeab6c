import UnixSystems.WakePromise
import UnixSystems.Tallies

/-! The two counters that the load average and `iowait` are computed from. A task that goes to
sleep is counted on the CPU it sleeps on and discounted where it is activated, so that
`nr_uninterruptible` of a single CPU means nothing; the sum over all CPUs counts the tasks that
sleep uninterruptibly, and those that a balancer has in transit. `nr_iowait` is exact per CPU. -/

namespace UnixSystems.WakeLoad
open GuardedRuns WakeModel WakePlaces WakeFrame WakeMoves WakeStates WakeExclusion Tallies

/-! ## What is counted -/

def load (contributes : Bool) : UInt64 := if contributes then 1 else 0

variable {Cpu Task : Type}

/-- What a task off the run queue contributes. While it is being woken, this is what was noted
before its state was overwritten. -/
def sleepLoad (t : TaskStruct Cpu) : UInt64 :=
  if t.onRq = .no then
    if t.state = taskWaking then load t.schedContributesToLoad else load (taskContributesToLoad t)
  else 0

/-- The tasks that a load balancer has taken from one queue and not yet put on another. -/
def carried : Activity Cpu Task → List Task
  | .balance tasks _ _ _ => tasks
  | _ => []

def carriedLoad (task : Task → TaskStruct Cpu) (tasks : List Task) : UInt64 :=
  (tasks.map fun p => load (taskContributesToLoad (task p))).sum

variable [DecidableEq Cpu] [DecidableEq Task]

def ioWait (c : Cpu) (t : TaskStruct Cpu) : UInt32 :=
  if t.onRq = .no ∧ t.state ≠ taskWaking ∧ t.inIowait ∧ t.cpu = c then 1 else 0

structure Exact [Fintype Cpu] [Fintype Task] (s : State Cpu Task) : Prop where
  load : ∑ c, (s.rq c).nrUninterruptible =
    ∑ p, sleepLoad (s.task p) + ∑ c, carriedLoad s.task (carried (s.act c))
  iowait : ∀ c, (s.rq c).nrIowait = ∑ p, ioWait c (s.task p)

variable {s s₁ : State Cpu Task} {w c : Cpu} {p : Task} {choice : Choice Cpu Task} {t : TaskStruct Cpu}

omit [DecidableEq Cpu] in
theorem sleepLoad_of_onRq (on : t.onRq ≠ .no) : sleepLoad t = 0 := if_neg on

theorem ioWait_of_onRq (on : t.onRq ≠ .no) (c : Cpu) : ioWait c t = 0 := if_neg fun h => on h.1

theorem ioWait_of_waking (waking : t.state = taskWaking) (c : Cpu) : ioWait c t = 0 :=
  if_neg fun h => h.2.1 waking

omit [DecidableEq Cpu] in
theorem carriedLoad_update {task : Task → TaskStruct Cpu} {tasks : List Task}
    (kept : p ∉ tasks ∨ taskContributesToLoad t = taskContributesToLoad (task p)) :
    carriedLoad (Function.update task p t) tasks = carriedLoad task tasks := by
  unfold carriedLoad
  refine congrArg List.sum (List.map_congr_left fun q member => ?_)
  by_cases self : q = p
  · subst self
    rw [Function.update_self, kept.resolve_left (not_not_intro member)]
  · rw [Function.update_of_ne self]

theorem migrating_of_carried {place : Place Cpu} (fit : Fit (view s p) place)
    (member : p ∈ carried (s.act w)) : ∃ d, place = .migrating w d := by
  have plays : Role.Allows w place (role w (s.act w) p) := fit.roles w
  cases here : s.act w with
  | balance tasks src dst pc =>
    rw [here] at member plays
    exact ⟨dst, by simpa [role, show p ∈ tasks from member, Role.Allows] using plays⟩
  | _ => simp [here, carried] at member

theorem not_carried {place : Place Cpu} (fit : Fit (view s p) place) (still : place.onRq ≠ .migrating)
    (w : Cpu) : p ∉ carried (s.act w) := by
  intro member
  obtain ⟨d, rfl⟩ := migrating_of_carried fit member
  exact still rfl

/-! ## Frames -/

variable [Fintype Cpu] [Fintype Task]

/-- The counters add up to the same, and no task counts for more or less than before. -/
structure Frame (s s₁ : State Cpu Task) : Prop where
  act : s₁.act = s.act
  nr : ∑ c, (s₁.rq c).nrUninterruptible = ∑ c, (s.rq c).nrUninterruptible
  iowait : ∀ c, (s₁.rq c).nrIowait = (s.rq c).nrIowait
  sleep : ∀ p, sleepLoad (s₁.task p) = sleepLoad (s.task p)
  io : ∀ c p, ioWait c (s₁.task p) = ioWait c (s.task p)
  carried : ∀ w, carriedLoad s₁.task (carried (s.act w)) = carriedLoad s.task (WakeLoad.carried (s.act w))

omit [DecidableEq Task] in
theorem exact_frame (counts : Exact s) (frame : Frame s s₁) : Exact s₁ := by
  constructor
  · simp only [frame.nr, frame.sleep, frame.act, frame.carried]
    exact counts.load
  · intro c
    simp only [frame.iowait, frame.io]
    exact counts.iowait c

omit [DecidableEq Task] in
theorem exact_goto (counts : Exact s) {a : Activity Cpu Task} (same : carried a = carried (s.act w)) :
    Exact (s.goto w a) := by
  refine ⟨?_, counts.iowait⟩
  have lists : ∑ c, carriedLoad s.task (carried ((s.goto w a).act c)) =
      ∑ c, carriedLoad s.task (carried (s.act c)) :=
    sum_comp_update_of_eq (fun _ a => carriedLoad s.task (carried a)) s.act w (by rw [same])
  exact counts.load.trans (congrArg (_ + ·) lists.symm)

omit [DecidableEq Task] [Fintype Task] in
theorem frame_refl : Frame s s :=
  ⟨rfl, rfl, fun _ => rfl, fun _ => rfl, fun _ _ => rfl, fun _ => rfl⟩

omit [DecidableEq Task] [Fintype Task] in
theorem frame_setRq (frame : Frame s s₁) {rq : Rq Cpu Task}
    (nr : rq.nrUninterruptible = (s₁.rq c).nrUninterruptible) (iowait : rq.nrIowait = (s₁.rq c).nrIowait) :
    Frame s (s₁.setRq c rq) := by
  have total := sum_comp_update_of_eq (fun _ (rq : Rq Cpu Task) => rq.nrUninterruptible) s₁.rq c nr
  refine ⟨frame.act, total.trans frame.nr, fun d => ?_, frame.sleep, frame.io, frame.carried⟩
  by_cases same : d = c
  · rw [same, State.setRq_rq, iowait, frame.iowait]
  · rw [State.setRq_rq_of_ne _ same, frame.iowait]

section
omit [Fintype Task]

theorem frame_setTask (frame : Frame s s₁) (sleep : sleepLoad t = sleepLoad (s₁.task p))
    (io : ∀ c, ioWait c t = ioWait c (s₁.task p))
    (kept : (∀ w, p ∉ carried (s.act w)) ∨ taskContributesToLoad t = taskContributesToLoad (s₁.task p)) :
    Frame s (s₁.setTask p t) := by
  refine ⟨frame.act, frame.nr, frame.iowait, fun q => ?_, fun c q => ?_, fun w => ?_⟩
  · by_cases self : q = p
    · rw [self, State.setTask_task, sleep, frame.sleep]
    · rw [State.setTask_task_of_ne _ self, frame.sleep]
  · by_cases self : q = p
    · rw [self, State.setTask_task, io, frame.io]
    · rw [State.setTask_task_of_ne _ self, frame.io]
  · exact (carriedLoad_update (kept.imp_left fun absent => absent w)).trans (frame.carried w)

theorem frame_setPi (p : Task) (holder : Option Cpu) : Frame s (s.setPi p holder) :=
  ⟨rfl, rfl, fun _ => rfl, fun _ => rfl, fun _ _ => rfl, fun _ => rfl⟩

theorem frame_setOnCpu (frame : Frame s s₁) (p : Option Task) (onCpu : Bool) :
    Frame s (setOnCpu s₁ p onCpu) := by
  cases p with
  | none => exact frame
  | some p => exact frame_setTask frame rfl (fun _ => rfl) (.inr rfl)

theorem frame_queued {place : Place Cpu} (fit : Fit (view s p) place) (before : place.onRq = .queued)
    (after : t.onRq = .queued) : Frame s (s.setTask p t) := by
  have on : (s.task p).onRq = .queued := fit.fits.onRq.trans before
  refine frame_setTask frame_refl ?_ (fun c => ?_) (.inl (not_carried fit (by rw [before]; decide)))
  · rw [sleepLoad_of_onRq (by rw [after]; decide), sleepLoad_of_onRq (by rw [on]; decide)]
  · rw [ioWait_of_onRq (by rw [after]; decide), ioWait_of_onRq (by rw [on]; decide)]

theorem frame_ttwuDoWakeup {place : Place Cpu} (fit : Fit (view s p) place) (queued : place.onRq = .queued) :
    Frame s (ttwuDoWakeup s p) :=
  frame_queued fit queued (fit.fits.onRq.trans queued)

end

theorem exact_change (counts : Exact s) {rq : Rq Cpu Task} {a : Activity Cpu Task}
    (nr : rq.nrUninterruptible + sleepLoad (s.task p) + carriedLoad s.task (carried (s.act w)) =
      (s.rq c).nrUninterruptible + sleepLoad t + carriedLoad s.task (carried a))
    (iowait : rq.nrIowait + ioWait c (s.task p) = (s.rq c).nrIowait + ioWait c t)
    (away : ∀ d, d ≠ c → ioWait d t = ioWait d (s.task p))
    (kept : ((∀ w, p ∉ carried (s.act w)) ∧ p ∉ carried a) ∨
      taskContributesToLoad t = taskContributesToLoad (s.task p)) :
    Exact (((s.setRq c rq).setTask p t).goto w a) := by
  constructor
  · have queues := sum_comp_update (fun _ (rq : Rq Cpu Task) => rq.nrUninterruptible) s.rq c rq
    have tasks := sum_comp_update (fun _ t => sleepLoad t) s.task p t
    have lists := sum_comp_update (fun _ a => carriedLoad s.task (carried a)) s.act w a
    have fields : ∀ d, carriedLoad (Function.update s.task p t) (carried (Function.update s.act w a d)) =
        carriedLoad s.task (carried (Function.update s.act w a d)) := fun d => by
      refine carriedLoad_update (kept.imp_left fun absent => ?_)
      by_cases same : d = w
      · rw [same, Function.update_self]
        exact absent.2
      · rw [Function.update_of_ne same]
        exact absent.1 d
    have changed := eq_sub_of_add_eq (eq_sub_of_add_eq nr)
    simp only [State.goto, State.setTask, State.setRq, fields]
    rw [eq_sub_of_add_eq queues, eq_sub_of_add_eq tasks, eq_sub_of_add_eq lists, changed, counts.load]
    abel
  · intro d
    have tasks : ∑ q, ioWait d ((((s.setRq c rq).setTask p t).goto w a).task q) = _ :=
      eq_sub_of_add_eq (sum_comp_update (fun _ t => ioWait d t) s.task p t)
    rw [tasks, ← counts.iowait d]
    simp only [State.goto, State.setTask]
    by_cases here : d = c
    · subst here
      rw [State.setRq_rq, ← iowait, add_sub_cancel_right]
    · rw [State.setRq_rq_of_ne _ here, away d here, add_sub_cancel_right]

/-! ## Waking up -/

omit [DecidableEq Task] in
theorem exact_goes (counts : Exact s) {tasks : List Task} (before : carried (s.act w) = tasks) (frame : Frame s s₁)
    {a : Activity Cpu Task} (after : carried a = tasks) : Exact (s₁.goto w a) := by
  refine exact_goto (exact_frame counts frame) ?_
  rw [after, frame.act, before]

theorem exact_markWaking {mask : UInt64} (counts : Exact s) (inv : Inv s)
    (here : s.act w = .ttwu p mask .markWaking) : Exact (ttwuStep s w p mask choice .markWaking) := by
  obtain ⟨place, fit⟩ := inv.placed p
  obtain rfl : place = .blocked := by
    simpa [view, here, role, ttwuRole, Role.Allows] using fit.roles w
  have off : (s.task p).onRq = .no := fit.fits.onRq
  have asleep : (s.task p).state ≠ taskWaking := fun waking => by
    simpa [Place.woken] using fit.fits.waking.mp waking
  have absent := not_carried fit (by simp [Place.onRq])
  refine exact_change counts ?_ ?_ (fun d other => ?_) (.inl ⟨absent, by simp [carried]⟩)
  · simp [sleepLoad, off, asleep, here, carried]
  · simp [ioWait, off, asleep]
  · simp [ioWait, off, Ne.symm other]

theorem exact_ttwuActivate (counts : Exact s) {a : Activity Cpu Task} {place : Place Cpu}
    (fit : Fit (view s p) place) (off : place.onRq = .no) (waking : place.woken)
    (same : carried a = carried (s.act w)) : Exact ((ttwuActivate s c p).goto w a) := by
  have off : (s.task p).onRq = .no := fit.fits.onRq.trans off
  have waking : (s.task p).state = taskWaking := fit.fits.waking.mpr waking
  have silent : taskContributesToLoad (s.task p) = false := by
    rw [taskContributesToLoad, waking]
    rfl
  refine exact_change counts ?_ ?_ (fun d other => ?_) (.inr rfl)
  · simp [activateTask, silent, sleepLoad, off, waking, same, load]
  · simp [activateTask, ioWait, waking]
  · simp [ioWait, waking]

theorem exact_ttwuStep {mask : UInt64} {pc : TtwuPc Cpu} (counts : Exact s) (inv : Inv s)
    (here : s.act w = .ttwu p mask pc) : Exact (ttwuStep s w p mask choice pc) := by
  have none : carried (s.act w) = [] := by rw [here]; rfl
  obtain ⟨place, fit⟩ := inv.placed p
  have plays : Role.Allows w place (role w (s.act w) p) := fit.roles w
  cases pc
  case markWaking => exact exact_markWaking counts inv here
  case remote rq =>
    simp only [ttwuStep]
    split_ifs with queued
    · exact exact_goes counts none (frame_ttwuDoWakeup fit (fit.fits.onRq.symm.trans queued)) (by rfl)
    · exact exact_goes counts none frame_refl (by rfl)
  case selectRq =>
    obtain rfl : place = .waking w := by simpa [here, role, ttwuRole, Role.Allows] using plays
    have waking : (s.task p).state = taskWaking := fit.fits.waking.mpr rfl
    have frame : Frame s (s.setTask p { s.task p with cpu := choice.cpu }) :=
      frame_setTask frame_refl rfl
        (fun c => (ioWait_of_waking (by exact waking) c).trans (ioWait_of_waking waking c).symm) (.inr rfl)
    exact exact_goes counts none frame (by rfl)
  case activate rq =>
    obtain rfl : place = .routed w rq := by simpa [here, role, ttwuRole, Role.Allows] using plays
    exact exact_ttwuActivate counts fit rfl rfl none.symm
  case setRunning rq =>
    obtain rfl : place = .activated rq w := by simpa [here, role, ttwuRole, Role.Allows] using plays
    exact exact_goes counts none (frame_ttwuDoWakeup fit rfl) (by rfl)
  case lockPi =>
    simp only [ttwuStep]
    split_ifs
    · exact exact_goes counts none (frame_setPi _ _) (by rfl)
    · exact counts
  case unlockPi => exact exact_goes counts none (frame_setPi _ _) (by rfl)
  case testState | testOnRq | checkRq | relax | waitOnCpu =>
    simp only [ttwuStep]
    split_ifs <;> first
      | exact counts
      | exact exact_goes counts none frame_refl (by rfl)
  case lockRq | lockDest =>
    simp only [ttwuStep]
    split_ifs
    · exact exact_goes counts none (frame_setRq frame_refl (by rfl) (by rfl)) (by rfl)
    · exact counts
  case dropRq | unlockRemote | unlockDest | kick | listAdd =>
    exact exact_goes counts none (frame_setRq frame_refl (by rfl) (by rfl)) (by rfl)
  all_goals exact exact_goes counts none frame_refl (by rfl)

theorem exact_pendingStep {tasks : List Task} {pc : PendingPc Task} (counts : Exact s) (inv : Inv s)
    (here : s.act w = .pending tasks pc) : Exact (pendingStep s w tasks pc) := by
  have none : carried (s.act w) = [] := by rw [here]; rfl
  cases pc
  case take =>
    refine exact_goes counts none (frame_setRq frame_refl (by rfl) (by rfl)) ?_
    split_ifs <;> rfl
  case lock =>
    simp only [pendingStep]
    split_ifs
    · exact exact_goes counts none (frame_setRq frame_refl (by rfl) (by rfl)) (by rfl)
    · exact counts
  case activate =>
    cases tasks with
    | nil => exact exact_goes counts none frame_refl (by rfl)
    | cons p rest =>
      obtain ⟨place, fit⟩ := inv.placed p
      obtain rfl : place = .taken w := by
        simpa [view, here, role, Role.Allows] using fit.roles w
      exact exact_ttwuActivate counts fit rfl rfl none.symm
  case setRunning p =>
    obtain ⟨place, fit⟩ := inv.placed p
    have single : p ∉ tasks := by simpa [here, Local] using inv.locks.own w
    obtain rfl : place = .activated w w := by
      simpa [view, here, role, single, Role.Allows] using fit.roles w
    exact exact_goes counts none (frame_ttwuDoWakeup fit rfl) (by rfl)
  case unlock => exact exact_goes counts none (frame_setRq frame_refl (by rfl) (by rfl)) (by rfl)

/-! ## Going to sleep, and moving -/

theorem exact_putToSleep (counts : Exact s) {a : Activity Cpu Task} (fit : Fit (view s p) (.running c))
    (same : carried a = carried (s.act w)) : Exact ((putToSleep s c p).goto w a) := by
  have on : (s.task p).onRq = .queued := fit.fits.onRq
  have home : (s.task p).cpu = c := fit.fits.home c rfl
  have asleep : (s.task p).state ≠ taskWaking := fun waking => by
    simpa [Place.woken] using fit.fits.waking.mp waking
  have contributes : ∀ onRq, taskContributesToLoad { s.task p with onRq } = taskContributesToLoad (s.task p) :=
    fun _ => rfl
  refine exact_change counts ?_ ?_ (fun d other => ?_) (.inr rfl)
  · simp [deactivateTask, sleepLoad, on, asleep, same, load, contributes]
  · simp [deactivateTask, ioWait, on, asleep, home]
  · simp [ioWait, on, home, Ne.symm other]

theorem exact_scheduleStep {preempt : Bool} {prev : Option Task} {pc : SchedulePc} (counts : Exact s)
    (inv : Inv s) (here : s.act w = .schedule preempt prev pc) :
    Exact (scheduleStep s w preempt prev choice pc) := by
  have none : carried (s.act w) = [] := by rw [here]; rfl
  cases pc
  case lock | dropped =>
    simp only [scheduleStep]
    split_ifs
    · exact exact_goes counts none (frame_setRq frame_refl (by rfl) (by rfl)) (by rfl)
    · exact counts
  case decide =>
    cases prev with
    | none => exact exact_goes counts none frame_refl (by rfl)
    | some p =>
      obtain ⟨place, fit⟩ := inv.placed p
      have curr : (s.rq w).curr = some p := by simpa [here, Local] using inv.locks.own w
      obtain rfl := eq_running fit curr (by rw [here]; simp [role, scheduleRole])
      simp only [scheduleStep]
      split_ifs
      · exact exact_goes counts none frame_refl (by rfl)
      · exact exact_goes counts none (frame_ttwuDoWakeup fit rfl) (by rfl)
      · exact exact_putToSleep counts fit none.symm
  case pick =>
    simp only [scheduleStep]
    split_ifs
    · exact exact_goes counts none (frame_setRq frame_refl (by rfl) (by rfl)) (by rfl)
    · exact exact_goes counts none frame_refl (by rfl)
    · exact exact_goes counts none (frame_setOnCpu (frame_setRq frame_refl (by rfl) (by rfl)) _ _) (by rfl)
  case finish => exact exact_goes counts none (frame_setOnCpu frame_refl _ _) (by rfl)
  case unlock => exact exact_goes counts none (frame_setRq frame_refl (by rfl) (by rfl)) (by rfl)

omit [Fintype Task] in
theorem frame_onRq {place : Place Cpu} (fit : Fit (view s p) place) (absent : ∀ d, p ∉ carried (s.act d))
    (before : place.onRq ≠ .no) (after : t.onRq ≠ .no) {rq : Rq Cpu Task}
    (nr : rq.nrUninterruptible = (s.rq c).nrUninterruptible) (iowait : rq.nrIowait = (s.rq c).nrIowait) :
    Frame s ((s.setRq c rq).setTask p t) := by
  have on : (s.task p).onRq ≠ .no := fit.fits.onRq.trans_ne before
  refine frame_setTask (frame_setRq frame_refl nr iowait) ?_ (fun d => ?_) (.inl absent)
  · exact (sleepLoad_of_onRq after).trans (sleepLoad_of_onRq on).symm
  · exact (ioWait_of_onRq after d).trans (ioWait_of_onRq on d).symm

theorem exact_moveStep {pc : MovePc Cpu} (counts : Exact s) (inv : Inv s) (here : s.act w = .move p pc) :
    Exact (moveStep s w p choice pc) := by
  have none : carried (s.act w) = [] := by rw [here]; rfl
  obtain ⟨place, fit⟩ := inv.placed p
  cases pc
  case moveQueued rq =>
    simp only [moveStep]
    split_ifs with moves
    · have queued : place.onRq = .queued := fit.fits.onRq.symm.trans moves.2.1
      refine exact_goes counts none (frame_onRq fit (not_carried fit ?_) ?_ ?_ (by rfl) (by rfl)) (by rfl)
      · rw [queued]
        decide
      · rw [queued]
        decide
      · exact OnRq.noConfusion
    · exact exact_goes counts none frame_refl (by rfl)
  case attach dest =>
    obtain rfl : place = .migrating w dest := by
      simpa [view, here, role, moveRole, Role.Allows] using fit.roles w
    have absent : ∀ d, p ∉ carried (s.act d) := fun d member => by
      obtain ⟨e, same⟩ := migrating_of_carried fit member
      cases same
      rw [none] at member
      cases member
    refine exact_goes counts none (frame_onRq fit absent ?_ ?_ (by rfl) (by rfl)) (by rfl) <;>
      exact OnRq.noConfusion
  case lockPi =>
    simp only [moveStep]
    split_ifs
    · exact exact_goes counts none (frame_setPi _ _) (by rfl)
    · exact counts
  case unlockPi | dropPi => exact exact_goes counts none (frame_setPi _ _) (by rfl)
  case lockRq | lockDest =>
    simp only [moveStep]
    split_ifs
    · exact exact_goes counts none (frame_setRq frame_refl (by rfl) (by rfl)) (by rfl)
    · exact counts
  case checkRq | relax =>
    simp only [moveStep]
    split_ifs <;> first
      | exact counts
      | exact exact_goes counts none frame_refl (by rfl)
  case unlockSrc | unlockRq | dropRq =>
    exact exact_goes counts none (frame_setRq frame_refl (by rfl) (by rfl)) (by rfl)
  case readRq => exact exact_goes counts none frame_refl (by rfl)

omit [Fintype Cpu] [Fintype Task] in
theorem onRq_of_queue (inv : Inv s) (queued : p ∈ (s.rq c).queue) : (s.task p).onRq = .queued := by
  obtain ⟨place, fit⟩ := inv.placed p
  have queue := queue_of_mem fit queued
  rw [show (s.task p).onRq = place.onRq from fit.fits.onRq]
  cases place <;> simp_all [Place.queue, Place.onRq]

/-- A balancer counts a task as asleep while it has it in its list. -/
theorem exact_detachTask {tasks : List Task} {src dst : Cpu} {pc : BalancePc} (counts : Exact s) (inv : Inv s)
    (here : s.act w = .balance tasks src dst .detach) (queued : p ∈ (s.rq src).queue) :
    Exact ((detachTask s p src dst).goto w (.balance (p :: tasks) src dst pc)) := by
  have on := onRq_of_queue inv queued
  refine exact_change counts ?_ ?_ (fun d other => ?_) (.inr rfl)
  · simp [deactivateTask, sleepLoad, on, here, carried, carriedLoad, load]
    abel
  · simp [deactivateTask, ioWait, on]
  · simp [ioWait, on]

theorem exact_attachTask {rest : List Task} {src dst : Cpu} (counts : Exact s) (inv : Inv s)
    (here : s.act w = .balance (p :: rest) src dst .attach) :
    Exact ((attachTask s p dst).goto w (.balance rest src dst .attach)) := by
  obtain ⟨place, fit⟩ := inv.placed p
  obtain rfl : place = .migrating w dst := by
    simpa [view, here, role, Role.Allows] using fit.roles w
  have on : (s.task p).onRq = .migrating := fit.fits.onRq
  refine exact_change counts ?_ ?_ (fun d other => ?_) (.inr rfl)
  · simp [activateTask, sleepLoad, on, here, carried, carriedLoad, load]
    abel
  · simp [activateTask, ioWait, on]
  · simp [ioWait, on]

theorem exact_balanceStep {tasks : List Task} {src dst : Cpu} {pc : BalancePc} (counts : Exact s) (inv : Inv s)
    (here : s.act w = .balance tasks src dst pc) : Exact (balanceStep s w tasks src dst choice pc) := by
  have list : carried (s.act w) = tasks := by rw [here]; rfl
  cases pc
  case lockSrc | lockDst =>
    simp only [balanceStep]
    split_ifs
    · exact exact_goes counts list (frame_setRq frame_refl (by rfl) (by rfl)) (by rfl)
    · exact counts
  case detach =>
    simp only [balanceStep]
    cases choice.task with
    | none =>
      refine exact_goes counts list (frame_setRq frame_refl (by rfl) (by rfl)) ?_
      split_ifs with empty
      · exact empty.symm
      · rfl
    | some p =>
      dsimp only
      split_ifs with moves
      · exact exact_detachTask counts inv here moves.1
      · exact counts
  case attach =>
    cases tasks with
    | nil => exact exact_goes counts list frame_refl (by rfl)
    | cons p rest => exact exact_attachTask counts inv here
  case unlockDst =>
    have empty : tasks = [] := by simpa [here, Local] using inv.locks.own w
    exact exact_goes counts list (frame_setRq frame_refl (by rfl) (by rfl)) (by rw [empty]; rfl)

theorem exact_specialStep {value : UInt64} {pc : SpecialPc} (counts : Exact s) (inv : Inv s)
    (here : s.act w = .special p value pc) : Exact (specialStep s w p value pc) := by
  have none : carried (s.act w) = [] := by rw [here]; rfl
  cases pc
  case lockPi =>
    simp only [specialStep]
    split_ifs
    · exact exact_goes counts none (frame_setPi _ _) (by rfl)
    · exact counts
  case set =>
    obtain ⟨place, fit⟩ := inv.placed p
    have own := inv.locks.own w
    rw [here] at own
    obtain rfl := eq_running fit own.1 (by rw [here]; rfl)
    have frame : Frame s (s.setTask p { s.task p with state := value }) := frame_queued fit rfl fit.fits.onRq
    exact exact_goes counts none frame (by rfl)
  case unlockPi => exact exact_goes counts none (frame_setPi _ _) (by rfl)

theorem exact_advance (counts : Exact s) (inv : Inv s) (w : Cpu) (choice : Choice Cpu Task) :
    Exact (advance s w choice) := by
  unfold advance
  split
  next => exact counts
  next here => exact exact_ttwuStep counts inv here
  next here => exact exact_scheduleStep counts inv here
  next here => exact exact_pendingStep counts inv here
  next here => exact exact_moveStep counts inv here
  next here => exact exact_balanceStep counts inv here
  next here => exact exact_specialStep counts inv here

omit [DecidableEq Task] in
theorem exact_enter (counts : Exact s) {a : Activity Cpu Task} (new : carried a = []) : Exact (enter s w a) := by
  unfold enter
  split_ifs with idle
  · exact exact_goto counts (by rw [new, act_eq_run idle]; rfl)
  · exact counts

theorem exact_modifyCurrent (counts : Exact s) (inv : Inv s) {f : TaskStruct Cpu → TaskStruct Cpu}
    (stays : ∀ t, (f t).onRq = t.onRq) : Exact (modifyCurrent s w f) := by
  unfold modifyCurrent
  split
  next => exact counts
  next p curr =>
    split_ifs with idle
    · obtain ⟨place, fit⟩ := inv.placed p
      obtain rfl := eq_running fit curr (by rw [act_eq_run idle]; rfl)
      exact exact_frame counts (frame_queued fit rfl ((stays _).trans fit.fits.onRq))
    · exact counts

omit [Fintype Task] in
theorem frame_moveBoth {src dst : Cpu} (apart : src ≠ dst) (on : (s.task p).onRq = .queued) :
    Frame s (moveBoth s p src dst) := by
  let first := s.setRq src (deactivateTask (s.rq src) p (s.task p))
  let second := first.setRq dst (activateTask (s.rq dst) p (s.task p))
  have away : first.rq dst = s.rq dst := State.setRq_rq_of_ne _ apart.symm _
  have added := sum_comp_update (fun _ (rq : Rq Cpu Task) => rq.nrUninterruptible) s.rq src
    (deactivateTask (s.rq src) p (s.task p))
  have taken := sum_comp_update (fun _ (rq : Rq Cpu Task) => rq.nrUninterruptible) first.rq dst
    (activateTask (s.rq dst) p (s.task p))
  have total : ∑ c, (second.rq c).nrUninterruptible = ∑ c, (s.rq c).nrUninterruptible := by
    rw [away] at taken
    rw [show ∑ c, (second.rq c).nrUninterruptible = _ from eq_sub_of_add_eq taken,
      show ∑ c, (first.rq c).nrUninterruptible = _ from eq_sub_of_add_eq added]
    simp only [deactivateTask, activateTask]
    abel
  have iowait : ∀ c, (second.rq c).nrIowait = (s.rq c).nrIowait := fun c => by
    simp only [second, first, State.setRq, Function.update_apply]
    split_ifs with atDst atSrc
    · exact atDst ▸ rfl
    · exact atSrc ▸ rfl
    · rfl
  have frame : Frame s second := ⟨rfl, total, iowait, fun _ => rfl, fun _ _ => rfl, fun _ => rfl⟩
  refine frame_setTask frame rfl (fun c => ?_) (.inr rfl)
  have on : (s.task p).onRq ≠ .no := on.trans_ne (by decide)
  exact (ioWait_of_onRq (by exact on) c).trans (ioWait_of_onRq (by exact on) c).symm

theorem exact_step (counts : Exact s) (inv : Inv s) (act : Action Cpu Task) (legal : Legal s act) :
    Exact (step s act) := by
  cases act with
  | tryToWakeUp | schedule | setCpusAllowed | loadBalance => exact exact_enter counts rfl
  | schedTtwuPending c ipi =>
    simp only [step]
    split_ifs with idle
    · have none : carried (s.act c) = [] := by rw [act_eq_run idle]; rfl
      exact exact_goes counts none (frame_setRq frame_refl (by rfl) (by rfl)) (by rfl)
    · exact counts
  | setCurrentState c value =>
    simp only [step]
    exact exact_modifyCurrent counts inv fun _ => rfl
  | setSpecialState c value =>
    simp only [step]
    split
    · exact counts
    · exact exact_enter counts rfl
  | setFlags c frozen inIowait =>
    simp only [step]
    exact exact_modifyCurrent counts inv fun _ => rfl
  | moveLocked p src dst =>
    simp only [step]
    split_ifs with moves
    · exact exact_frame counts (frame_moveBoth moves.1.1 (onRq_of_queue inv moves.2.1))
    · exact counts
  | advance w choice => exact exact_advance counts inv w choice

/-! ## Whole runs -/

theorem always_exact {acts : List (Action Cpu Task)} (start : Start s) (counts : Exact s)
    (legal : Along step Legal s acts) : Always step Exact s acts :=
  always_of_invariant (fun s => Inv s ∧ Exact s)
    (fun _ act legal inv => ⟨inv_step inv.1 act legal, exact_step inv.2 inv.1 act legal⟩)
    (fun _ inv => inv.2) ⟨inv_of_start start, counts⟩ legal

def sleepsUninterruptibly : List (WakeModel.Action (Fin 2) (Fin 1)) :=
  scheduleOn cpu0 ++ .setCurrentState cpu0 taskUninterruptible :: .schedule cpu0 false ::
    List.replicate 5 (.advance cpu0 ⟨cpu0, none, false⟩)

theorem always_exact_sleeps :
    ∑ c, ((run step oneReady sleepsUninterruptibly).rq c).nrUninterruptible = 1 ∧
      Always step Exact oneReady sleepsUninterruptibly := by
  refine ⟨by decide, always_exact start_oneReady ⟨by decide, by decide⟩ ?_⟩
  rw [sleepsUninterruptibly, along_append]
  refine ⟨by simp [scheduleOn, Along, Legal], ⟨by decide, by decide, fun p _ => ?_⟩, by simp [Along, Legal]⟩
  revert p
  decide

end UnixSystems.WakeLoad
