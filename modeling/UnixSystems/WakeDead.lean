import UnixSystems.WakeStates
import UnixSystems.WakeExclusion

/-! A task that has died never runs again. `do_task_dead` sets its state under the task's own
`pi_lock`, so that no wake-up that has already tested the old state is still under way, and then
calls `__schedule` for the last time; the `BUG()` behind that call is out of reach. -/

namespace UnixSystems.WakeDead
open GuardedRuns WakeModel WakePlaces WakeFrame WakeUps WakeMoves WakeStates WakeExclusion Holders

variable {Cpu Task : Type} [DecidableEq Cpu] [DecidableEq Task] {s : State Cpu Task} {w : Cpu}
  {p q : Task} {choice : Choice Cpu Task}

/-- The task whose state an activity has found within its mask and not yet overwritten. -/
def past : Activity Cpu Task → Option Task
  | .ttwu p _ pc =>
    match pc with
    | .testOnRq | .readRq | .lockRq _ | .checkRq _ | .remote _ | .dropRq _ | .relax => some p
    | .unlockRemote _ false | .waitOnCpu | .markWaking => some p
    | _ => none
  | _ => none

def PastTest (s : State Cpu Task) : Prop :=
  ∀ w p, past (s.act w) = some p → (s.task p).state ≠ taskDead

omit [DecidableEq Cpu] [DecidableEq Task] in
theorem piLock_of_past {a : Activity Cpu Task} (tested : past a = some p) : piLock a = some p := by
  cases a with
  | ttwu q mask pc =>
    cases pc
    case unlockRemote rq woken => cases woken <;> cases tested; rfl
    all_goals cases tested <;> rfl
  | _ => cases tested

theorem past_ttwuStep {mask : UInt64} {pc : TtwuPc Cpu} (here : s.act w = .ttwu p mask pc)
    (tested : past ((ttwuStep s w p mask choice pc).act w) = some q) :
    (ttwuStep s w p mask choice pc).task = s.task ∧
      (past (s.act w) = some q ∨ q = p ∧ (s.task p).state &&& mask ≠ 0) := by
  cases pc
  case testState =>
    simp only [ttwuStep] at tested ⊢
    split_ifs at tested ⊢ with misses
    · rw [goto_act_self] at tested
      cases tested
    · rw [goto_act_self] at tested
      cases tested
      exact ⟨rfl, .inr ⟨rfl, misses⟩⟩
  case lockPi | testOnRq | lockRq | checkRq | relax | waitOnCpu | lockDest =>
    simp only [ttwuStep] at tested ⊢
    split_ifs at tested ⊢ <;> first
      | exact ⟨rfl, .inl tested⟩
      | (rw [goto_act_self] at tested; cases tested <;> exact ⟨rfl, .inl (by rw [here]; rfl)⟩)
  case remote rq =>
    simp only [ttwuStep] at tested ⊢
    split_ifs at tested ⊢
    · rw [goto_act_self] at tested
      cases tested
    · rw [goto_act_self] at tested
      cases tested
      exact ⟨rfl, .inl (by rw [here]; rfl)⟩
  case unlockRemote rq woken =>
    simp only [ttwuStep, goto_act_self] at tested
    cases woken <;> cases tested
    exact ⟨rfl, .inl (by rw [here]; rfl)⟩
  case queue rq =>
    simp only [ttwuStep, goto_act_self] at tested
    split_ifs at tested <;> cases tested
  case listAdd rq =>
    simp only [ttwuStep, goto_act_self] at tested
    split_ifs at tested <;> cases tested
  case readRq | dropRq =>
    simp only [ttwuStep, goto_act_self] at tested
    cases tested
    exact ⟨rfl, .inl (by rw [here]; rfl)⟩
  all_goals
    simp only [ttwuStep, goto_act_self] at tested
    cases tested

theorem past_advance (tested : past ((advance s w choice).act w) = some q) :
    (advance s w choice).task = s.task ∧
      (past (s.act w) = some q ∨ ∃ mask pc, s.act w = .ttwu q mask pc ∧ (s.task q).state &&& mask ≠ 0) := by
  have goes := continues_advance s w choice
  cases here : s.act w with
  | ttwu p mask pc =>
    simp only [advance, here] at tested ⊢
    obtain ⟨same, old | ⟨rfl, new⟩⟩ := past_ttwuStep here tested
    · exact ⟨same, .inl (here ▸ old)⟩
    · exact ⟨same, .inr ⟨mask, pc, rfl, new⟩⟩
  | _ =>
    -- the other functions of the model test no state
    rw [here] at goes
    generalize (advance s w choice).act w = a at goes tested
    cases goes <;> cases tested

/-! ## Steps -/

omit [DecidableEq Cpu] [DecidableEq Task] in
theorem state_ne_dead {mask : UInt64} (legal : mask &&& (taskWaking ||| taskDead) = 0)
    (passes : (s.task p).state &&& mask ≠ 0) : (s.task p).state ≠ taskDead := by
  intro dead
  rw [dead] at passes
  exact passes (and_mask_eq_zero legal (by decide))

theorem pastTest_advance (inv : Inv s) (tested : PastTest s) (w : Cpu) (choice : Choice Cpu Task) :
    PastTest (advance s w choice) := by
  intro d p passed
  by_cases here : d = w
  · subst here
    obtain ⟨same, old | ⟨mask, pc, ttwu, passes⟩⟩ := past_advance passed
    · exact congrFun same p ▸ tested d p old
    · have legal : mask &&& (taskWaking ||| taskDead) = 0 := by
        simpa [ttwu, Local] using inv.locks.own d
      exact congrFun same p ▸ state_ne_dead legal passes
  · rw [elsewhere_advance s w choice d here] at passed
    rcases written_advance s w choice p with ⟨same, -⟩ | change
    · rw [same]
      exact tested d p passed
    · rcases change.state_or with same | running | waking | special
      · rw [same]
        exact tested d p passed
      · rw [running]
        decide
      · rw [waking]
        decide
      · -- the writer would hold the `pi_lock` that the wake-up holds
        exact absurd (inv.locks.pi.exclusive (piLock_of_past passed) (by rw [special]; rfl)) here

omit [DecidableEq Task] in
theorem pastTest_goto {s₁ : State Cpu Task} (tested : PastTest s) (task : s₁.task = s.task)
    (act : s₁.act = s.act) {a : Activity Cpu Task} (untested : past a = none) :
    PastTest (s₁.goto w a) := by
  intro d p passed
  by_cases here : d = w
  · subst here
    rw [goto_act_self, untested] at passed
    cases passed
  · rw [elsewhere_goto act a d here] at passed
    exact congrFun task p ▸ tested d p passed

omit [DecidableEq Task] in
theorem pastTest_enter (tested : PastTest s) {a : Activity Cpu Task} (untested : past a = none) :
    PastTest (enter s w a) := by
  unfold enter
  split_ifs
  · exact pastTest_goto tested rfl rfl untested
  · exact tested

omit [DecidableEq Cpu] in
theorem pastTest_setTask (tested : PastTest s) {t : TaskStruct Cpu}
    (alive : t.state = taskDead → (s.task p).state = taskDead) : PastTest (s.setTask p t) := by
  intro d q passed
  by_cases self : q = p
  · subst self
    rw [State.setTask_task]
    exact mt alive (tested d q passed)
  · rw [State.setTask_task_of_ne _ self]
    exact tested d q passed

omit [DecidableEq Cpu] in
theorem pastTest_modifyCurrent (tested : PastTest s) {f : TaskStruct Cpu → TaskStruct Cpu}
    (alive : ∀ t, (f t).state = taskDead → t.state = taskDead) : PastTest (modifyCurrent s w f) := by
  unfold modifyCurrent
  split
  next => exact tested
  next =>
    split_ifs
    · exact pastTest_setTask tested (alive _)
    · exact tested

theorem pastTest_step (inv : Inv s) (tested : PastTest s) (act : Action Cpu Task) (legal : Legal s act) :
    PastTest (step s act) := by
  cases act with
  | tryToWakeUp | schedule | setCpusAllowed | loadBalance => exact pastTest_enter tested rfl
  | schedTtwuPending c ipi =>
    simp only [step]
    split_ifs
    · exact pastTest_goto tested rfl rfl rfl
    · exact tested
  | setCurrentState c value => exact pastTest_modifyCurrent tested fun _ dead => absurd dead legal.2.1
  | setSpecialState c value =>
    simp only [step]
    split
    · exact tested
    · exact pastTest_enter tested rfl
  | setFlags c frozen inIowait => exact pastTest_modifyCurrent tested fun _ dead => dead
  | moveLocked p src dst =>
    simp only [step]
    split_ifs
    · exact pastTest_setTask (s := (s.setRq src _).setRq dst _) tested fun dead => dead
    · exact tested
  | advance c choice => exact pastTest_advance inv tested c choice

/-- A dead task's state stays, and once it has left the run queue it stays off; only its own
CPU could write another state. -/
theorem dead_change (inv : Inv s) (tested : PastTest s) (dead : (s.task q).state = taskDead)
    {state' : UInt64} {onRq' : OnRq} (change : Change s w q state' onRq') :
    state' = taskDead ∧ ((s.task q).onRq = .no → onRq' = .no) ∨
      ∃ value, s.act w = .special q value .set := by
  obtain ⟨place, fit⟩ := inv.placed q
  have plays : Role.Allows w place (role w (s.act w) q) := fit.roles w
  have asleep : place.woken ≠ true := fun woken =>
    absurd (dead.symm.trans (fit.fits.waking.mpr woken)) (by decide)
  have onRq : (s.task q).onRq = place.onRq := fit.fits.onRq
  cases change with
  | remote mask rq here => exact absurd dead (tested w q (by rw [here]; rfl))
  | mark mask here => exact absurd dead (tested w q (by rw [here]; rfl))
  | activate mask rq here =>
    obtain rfl : place = .routed w rq := by simpa [here, role, ttwuRole, Role.Allows] using plays
    exact absurd rfl asleep
  | wake mask rq here =>
    obtain rfl : place = .activated rq w := by simpa [here, role, ttwuRole, Role.Allows] using plays
    exact absurd rfl asleep
  | activateTaken rest here =>
    obtain rfl : place = .taken w := by simpa [here, role, Role.Allows] using plays
    exact absurd rfl asleep
  | wakeTaken tasks here =>
    have single : q ∉ tasks := by simpa [here, Local] using inv.locks.own w
    obtain rfl : place = .activated w w := by simpa [here, role, single, Role.Allows] using plays
    exact absurd rfl asleep
  | signal preempt here sleeps =>
    rw [signalState, dead] at sleeps
    exact absurd sleeps (by decide)
  | sleep preempt here => exact .inl ⟨dead, fun _ => rfl⟩
  | moveQueued rq here queued => exact .inl ⟨dead, fun off => by rw [queued] at off; cases off⟩
  | moveAttach dest here =>
    obtain rfl : place = .migrating w dest := by simpa [here, role, moveRole, Role.Allows] using plays
    exact .inl ⟨dead, fun off => by rw [onRq] at off; cases off⟩
  | detach tasks src dst here queued =>
    have queue := queue_of_mem fit queued
    refine .inl ⟨dead, fun off => ?_⟩
    rw [onRq] at off
    cases place <;> simp_all [Place.queue, Place.onRq]
  | attach rest src dst here =>
    obtain rfl : place = .migrating w dst := by simpa [here, role, Role.Allows] using plays
    exact .inl ⟨dead, fun off => by rw [onRq] at off; cases off⟩
  | special _ here => exact .inr ⟨_, here⟩

/-! ## The last call -/

/-- The task is dead and inside its last `__schedule`, or has left the run queue there. -/
def Leaving (p : Task) (s : State Cpu Task) : Prop :=
  (s.task p).state = taskDead ∧
    ((s.task p).onRq = .no ∨
      ∃ c, s.act c = .schedule false (some p) .lock ∨ s.act c = .schedule false (some p) .decide)

def NotExecuted (p : Task) (s : State Cpu Task) : Prop :=
  ∀ c, (s.act c).isRun → (s.rq c).curr ≠ some p

theorem not_leaving_of_curr (inv : Inv s) {c : Cpu} (curr : (s.rq c).curr = some p)
    (idle : role c (s.act c) p = none)
    (elsewhere : ∀ pc, s.act c ≠ .schedule false (some p) pc) : ¬ Leaving p s := by
  obtain ⟨place, fit⟩ := inv.placed p
  obtain rfl := eq_running fit curr idle
  have here : ∀ d, (s.rq d).curr = some p → d = c := fun d at_d => by
    simpa [view, at_d, Place.current, eq_comm] using congrFun fit.curr d
  rintro ⟨-, off | ⟨d, lock | decide⟩⟩
  · rw [show (s.task p).onRq = .queued from fit.fits.onRq] at off
    cases off
  · have local' : (s.rq d).curr = some p := by simpa [lock, Local] using inv.locks.own d
    exact elsewhere .lock (here d local' ▸ lock)
  · have local' : (s.rq d).curr = some p := by simpa [decide, Local] using inv.locks.own d
    exact elsewhere .decide (here d local' ▸ decide)

theorem notExecuted_of_leaving (inv : Inv s) (leaving : Leaving p s) : NotExecuted p s := by
  intro c idle curr
  have run := act_eq_run idle
  exact not_leaving_of_curr inv curr (by rw [run]; rfl) (fun pc at_c => by rw [run] at at_c; cases at_c) leaving

theorem leaving_own {c : Cpu} (dead : (s.task p).state = taskDead) (choice : Choice Cpu Task)
    (here : s.act c = .schedule false (some p) .lock ∨ s.act c = .schedule false (some p) .decide) :
    Leaving p (advance s c choice) := by
  rcases here with lock | decide
  · simp only [advance, lock, scheduleStep]
    split_ifs
    · exact ⟨dead, .inr ⟨c, .inr (goto_act_self _ _ _)⟩⟩
    · exact ⟨dead, .inr ⟨c, .inl lock⟩⟩
  · have awake : ¬ (False ∨ (s.task p).state = taskRunning) := by rw [dead]; decide
    have deaf : ¬ (choice.flag = true ∧ signalState (s.task p) = true) := by
      rw [signalState, dead]
      exact fun signal => absurd signal.2 (by decide)
    simp only [advance, decide, scheduleStep, Bool.false_eq_true, if_neg awake, if_neg deaf]
    refine ⟨?_, .inl ?_⟩ <;> simp [putToSleep, State.goto, State.setTask, dead]

theorem leaving_advance (inv : Inv s) (tested : PastTest s) (leaving : Leaving p s) (w : Cpu)
    (choice : Choice Cpu Task) : Leaving p (advance s w choice) := by
  obtain ⟨dead, stage⟩ := leaving
  by_cases own : s.act w = .schedule false (some p) .lock ∨ s.act w = .schedule false (some p) .decide
  · exact leaving_own dead choice own
  · have kept : ((advance s w choice).task p).state = taskDead ∧
        ((s.task p).onRq = .no → ((advance s w choice).task p).onRq = .no) := by
      rcases written_advance s w choice p with ⟨state, onRq⟩ | change
      · exact ⟨state.trans dead, fun off => onRq.trans off⟩
      · rcases dead_change inv tested dead change with kept | ⟨value, special⟩
        · exact kept
        · have curr : (s.rq w).curr = some p := by
            have := inv.locks.own w
            rw [special] at this
            exact this.1
          refine absurd ⟨dead, stage⟩ (not_leaving_of_curr inv curr (by rw [special]; rfl) fun pc at_w => ?_)
          rw [special] at at_w
          cases at_w
    refine ⟨kept.1, stage.imp kept.2 fun ⟨c, at_c⟩ => ⟨c, ?_⟩⟩
    have other : c ≠ w := fun same => own (same ▸ at_c)
    rw [elsewhere_advance s w choice c other]
    exact at_c

omit [DecidableEq Task] in
theorem leaving_goto {s₁ : State Cpu Task} (leaving : Leaving p s) (idle : (s.act w).isRun)
    (task : s₁.task = s.task) (act : s₁.act = s.act) (a : Activity Cpu Task) : Leaving p (s₁.goto w a) := by
  refine ⟨congrFun task p ▸ leaving.1, leaving.2.imp (congrFun task p ▸ id) fun ⟨c, at_c⟩ => ⟨c, ?_⟩⟩
  have other : c ≠ w := by
    rintro rfl
    rw [act_eq_run idle] at at_c
    rcases at_c with h | h <;> cases h
  rw [elsewhere_goto act a c other]
  exact at_c

omit [DecidableEq Task] in
theorem leaving_enter (leaving : Leaving p s) (a : Activity Cpu Task) : Leaving p (enter s w a) := by
  unfold enter
  split_ifs with idle
  · exact leaving_goto leaving idle rfl rfl a
  · exact leaving

theorem leaving_modifyCurrent (inv : Inv s) (leaving : Leaving p s) (f : TaskStruct Cpu → TaskStruct Cpu) :
    Leaving p (modifyCurrent s w f) := by
  unfold modifyCurrent
  split
  next => exact leaving
  next q curr =>
    split_ifs with idle
    · have other : p ≠ q := fun same => notExecuted_of_leaving inv leaving w idle (same ▸ curr)
      have same : (s.setTask q (f (s.task q))).task p = s.task p := s.setTask_task_of_ne other _
      rw [Leaving, same]
      exact leaving
    · exact leaving

theorem leaving_step (inv : Inv s) (tested : PastTest s) (leaving : Leaving p s) (act : Action Cpu Task)
    (legal : Legal s act) : Leaving p (step s act) := by
  cases act with
  | tryToWakeUp | schedule | setCpusAllowed | loadBalance => exact leaving_enter leaving _
  | schedTtwuPending c ipi =>
    simp only [step]
    split_ifs with idle
    · exact leaving_goto leaving idle rfl rfl _
    · exact leaving
  | setCurrentState | setFlags => exact leaving_modifyCurrent inv leaving _
  | setSpecialState c value =>
    simp only [step]
    split
    · exact leaving
    · exact leaving_enter leaving _
  | moveLocked q src dst =>
    simp only [step]
    split_ifs
    · by_cases self : p = q
      · subst self
        rw [Leaving, moveBoth, State.setTask_task]
        exact leaving
      · rw [Leaving, moveBoth, State.setTask_task_of_ne _ self]
        exact leaving
    · exact leaving
  | advance c choice => exact leaving_advance inv tested leaving c choice

/-! ## Whole runs -/

theorem dead_never_executed {acts later : List (Action Cpu Task)} {c : Cpu} (start : Start s)
    (legal : Along step Legal s (acts ++ later)) (dead : ((run step s acts).task p).state = taskDead)
    (enters : (run step s acts).act c = .schedule false (some p) .lock) :
    Always step (NotExecuted p) (run step s acts) later := by
  obtain ⟨before, after⟩ := along_append.mp legal
  have begun : Inv s ∧ PastTest s :=
    ⟨inv_of_start start, fun w q passed => by rw [start.act w] at passed; cases passed⟩
  obtain ⟨inv, tested⟩ := run_invariant (fun s => Inv s ∧ PastTest s)
    (fun s act legal inv => ⟨inv_step inv.1 act legal, pastTest_step inv.1 inv.2 act legal⟩) begun before
  refine always_of_invariant (fun s => Inv s ∧ PastTest s ∧ Leaving p s)
    (fun s act legal inv => ⟨inv_step inv.1 act legal, pastTest_step inv.1 inv.2.1 act legal,
      leaving_step inv.1 inv.2.1 inv.2.2 act legal⟩)
    (fun s inv => notExecuted_of_leaving inv.1 inv.2.2) ⟨inv, tested, dead, .inr ⟨c, .inl enters⟩⟩ after

/-- The task that the first CPU has picked goes through `do_task_dead`. -/
def dies : List (WakeModel.Action (Fin 2) (Fin 1)) :=
  scheduleOn cpu0 ++ .setSpecialState cpu0 taskDead :: List.replicate 3 (.advance cpu0 ⟨cpu0, none, false⟩) ++
    [.schedule cpu0 false]

def wakesDead : List (WakeModel.Action (Fin 2) (Fin 1)) :=
  .tryToWakeUp cpu1 init taskNormal ::
    (List.replicate 6 [.advance cpu1 ⟨cpu0, none, false⟩, .advance cpu0 ⟨cpu0, none, false⟩]).flatten

theorem dead_never_executed_dies : Always step (NotExecuted init) (run step oneReady dies) wakesDead := by
  refine dead_never_executed (c := cpu0) start_oneReady ?_ (by decide) rfl
  have alive : ((run step oneReady (scheduleOn cpu0)).task init).state ≠ taskDead := by decide
  simp only [dies, wakesDead, List.append_assoc, along_append]
  refine ⟨by simp [scheduleOn, Along, Legal], ?_, by simp [Along, Legal], ?_⟩
  · exact ⟨⟨by decide, fun p _ => by rwa [Subsingleton.elim p init]⟩, by simp [Along, Legal]⟩
  · exact ⟨(by decide : taskNormal &&& (taskWaking ||| taskDead) = 0), along_of_forall_mem _ (by simp [Legal])⟩

end UnixSystems.WakeDead
