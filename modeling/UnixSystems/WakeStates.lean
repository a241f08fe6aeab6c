import UnixSystems.WakeMoves

/-! Which steps write `state` and `on_rq` of a task, and what they leave there. -/

namespace UnixSystems.WakeStates
open GuardedRuns WakeModel WakePlaces WakeFrame WakeMoves Holders

variable {Cpu Task : Type} [DecidableEq Cpu] [DecidableEq Task] {s : State Cpu Task} {w : Cpu}
  {p q : Task} {choice : Choice Cpu Task}

/-- The steps of CPU `w` that write `state` or `on_rq` of the task, with what they leave there. -/
inductive Change (s : State Cpu Task) (w : Cpu) (q : Task) : UInt64 → OnRq → Prop
  | remote (mask : UInt64) (rq : Cpu) (here : s.act w = .ttwu q mask (.remote rq))
    (queued : (s.task q).onRq = .queued) : Change s w q taskRunning (s.task q).onRq
  | mark (mask : UInt64) (here : s.act w = .ttwu q mask .markWaking) :
    Change s w q taskWaking (s.task q).onRq
  | activate (mask : UInt64) (rq : Cpu) (here : s.act w = .ttwu q mask (.activate rq)) :
    Change s w q (s.task q).state .queued
  | wake (mask : UInt64) (rq : Cpu) (here : s.act w = .ttwu q mask (.setRunning rq)) :
    Change s w q taskRunning (s.task q).onRq
  | activateTaken (rest : List Task) (here : s.act w = .pending (q :: rest) .activate) :
    Change s w q (s.task q).state .queued
  | wakeTaken (tasks : List Task) (here : s.act w = .pending tasks (.setRunning q)) :
    Change s w q taskRunning (s.task q).onRq
  | signal (preempt : Bool) (here : s.act w = .schedule preempt (some q) .decide)
    (sleeps : signalState (s.task q)) : Change s w q taskRunning (s.task q).onRq
  | sleep (preempt : Bool) (here : s.act w = .schedule preempt (some q) .decide) :
    Change s w q (s.task q).state .no
  | moveQueued (rq : Cpu) (here : s.act w = .move q (.moveQueued rq))
    (queued : (s.task q).onRq = .queued) : Change s w q (s.task q).state .migrating
  | moveAttach (dest : Cpu) (here : s.act w = .move q (.attach dest)) :
    Change s w q (s.task q).state .queued
  | detach (tasks : List Task) (src dst : Cpu) (here : s.act w = .balance tasks src dst .detach)
    (queued : q ∈ (s.rq src).queue) : Change s w q (s.task q).state .migrating
  | attach (rest : List Task) (src dst : Cpu) (here : s.act w = .balance (q :: rest) src dst .attach) :
    Change s w q (s.task q).state .queued
  | special (value : UInt64) (here : s.act w = .special q value .set) :
    Change s w q value (s.task q).onRq

omit [DecidableEq Cpu] [DecidableEq Task] in
theorem Change.state_or {state' : UInt64} {onRq' : OnRq} (change : Change s w q state' onRq') :
    state' = (s.task q).state ∨ state' = taskRunning ∨ state' = taskWaking ∨
      s.act w = .special q state' .set := by
  cases change with
  | remote | wake | wakeTaken | signal => exact .inr (.inl rfl)
  | mark => exact .inr (.inr (.inl rfl))
  | special value here => exact .inr (.inr (.inr here))
  | _ => exact .inl rfl

def Written (s : State Cpu Task) (w : Cpu) (q : Task) (t : TaskStruct Cpu) : Prop :=
  t.state = (s.task q).state ∧ t.onRq = (s.task q).onRq ∨ Change s w q t.state t.onRq

omit [DecidableEq Cpu] [DecidableEq Task] in
theorem written_refl : Written s w q (s.task q) :=
  .inl ⟨rfl, rfl⟩

theorem written_setTask {s₁ : State Cpu Task} (same : s₁.task = s.task) {t : TaskStruct Cpu}
    (self : Written s w p t) (a : Activity Cpu Task) :
    Written s w q (((s₁.setTask p t).goto w a).task q) := by
  by_cases here : q = p
  · subst here
    have value : (((s₁.setTask q t).goto w a).task q) = t := s₁.setTask_task q t
    rw [value]
    exact self
  · have value : ((s₁.setTask p t).goto w a).task q = s₁.task q := s₁.setTask_task_of_ne here t
    rw [value, same]
    exact written_refl

theorem written_ttwuStep {mask : UInt64} {pc : TtwuPc Cpu} (here : s.act w = .ttwu p mask pc) :
    Written s w q ((ttwuStep s w p mask choice pc).task q) := by
  cases pc
  case remote rq =>
    simp only [ttwuStep]
    split_ifs with queued
    · exact written_setTask (by rfl) (.inr (.remote mask rq here queued)) _
    · exact written_refl
  case markWaking =>
    simp only [ttwuStep]
    exact written_setTask (by rfl) (.inr (.mark mask here)) _
  case selectRq => exact written_setTask (by rfl) (.inl ⟨by rfl, by rfl⟩) _
  case activate rq => exact written_setTask (by rfl) (.inr (.activate mask rq here)) _
  case setRunning rq => exact written_setTask (by rfl) (.inr (.wake mask rq here)) _
  case lockPi | testState | testOnRq | lockRq | checkRq | relax | waitOnCpu | lockDest =>
    simp only [ttwuStep]
    split_ifs <;> exact written_refl
  all_goals exact written_refl

theorem written_setOnCpu {s₁ : State Cpu Task} (same : s₁.task = s.task) (prev : Option Task)
    (onCpu : Bool) (a : Activity Cpu Task) : Written s w q (((setOnCpu s₁ prev onCpu).goto w a).task q) := by
  cases prev with
  | none => exact congrFun same q ▸ written_refl
  | some n => exact written_setTask same (.inl (by rw [same]; exact ⟨rfl, rfl⟩)) a

theorem written_scheduleStep {preempt : Bool} {prev : Option Task} {pc : SchedulePc}
    (here : s.act w = .schedule preempt prev pc) :
    Written s w q ((scheduleStep s w preempt prev choice pc).task q) := by
  cases pc
  case decide =>
    cases prev with
    | none => exact written_refl
    | some n =>
      simp only [scheduleStep]
      split_ifs with runs signal
      · exact written_refl
      · exact written_setTask (by rfl) (.inr (.signal preempt here signal.2)) _
      · exact written_setTask (by rfl) (.inr (.sleep preempt here)) _
  case pick =>
    simp only [scheduleStep]
    split_ifs
    · exact written_refl
    · exact written_refl
    · exact written_setOnCpu (by rfl) _ _ _
  case finish => exact written_setOnCpu (by rfl) _ _ _
  case lock | dropped =>
    simp only [scheduleStep]
    split_ifs <;> exact written_refl
  case unlock => exact written_refl

theorem written_pendingStep {tasks : List Task} {pc : PendingPc Task} (here : s.act w = .pending tasks pc) :
    Written s w q ((pendingStep s w tasks pc).task q) := by
  cases pc
  case activate =>
    cases tasks with
    | nil => exact written_refl
    | cons p rest => exact written_setTask (by rfl) (.inr (.activateTaken rest here)) _
  case setRunning p => exact written_setTask (by rfl) (.inr (.wakeTaken tasks here)) _
  case lock =>
    simp only [pendingStep]
    split_ifs <;> exact written_refl
  all_goals exact written_refl

theorem written_moveStep {pc : MovePc Cpu} (here : s.act w = .move p pc) :
    Written s w q ((moveStep s w p choice pc).task q) := by
  cases pc
  case moveQueued rq =>
    simp only [moveStep]
    split_ifs with moves
    · exact written_setTask (by rfl) (.inr (.moveQueued rq here moves.2.1)) _
    · exact written_refl
  case attach dest => exact written_setTask (by rfl) (.inr (.moveAttach dest here)) _
  case lockPi | lockRq | checkRq | lockDest | relax =>
    simp only [moveStep]
    split_ifs <;> exact written_refl
  all_goals exact written_refl

theorem written_balanceStep {tasks : List Task} {src dst : Cpu} {pc : BalancePc}
    (here : s.act w = .balance tasks src dst pc) :
    Written s w q ((balanceStep s w tasks src dst choice pc).task q) := by
  cases pc
  case detach =>
    simp only [balanceStep]
    cases choice.task with
    | none => exact written_refl
    | some p =>
      dsimp only
      split_ifs with moves
      · exact written_setTask (by rfl) (.inr (.detach tasks src dst here moves.1)) _
      · exact written_refl
  case attach =>
    cases tasks with
    | nil => exact written_refl
    | cons p rest => exact written_setTask (by rfl) (.inr (.attach rest src dst here)) _
  case lockSrc | lockDst =>
    simp only [balanceStep]
    split_ifs <;> exact written_refl
  case unlockDst => exact written_refl

theorem written_specialStep {value : UInt64} {pc : SpecialPc} (here : s.act w = .special p value pc) :
    Written s w q ((specialStep s w p value pc).task q) := by
  cases pc
  case set => exact written_setTask (by rfl) (.inr (.special value here)) _
  case lockPi =>
    simp only [specialStep]
    split_ifs <;> exact written_refl
  case unlockPi => exact written_refl

theorem written_advance (s : State Cpu Task) (w : Cpu) (choice : Choice Cpu Task) (q : Task) :
    Written s w q ((advance s w choice).task q) := by
  unfold advance
  split
  next => exact written_refl
  next here => exact written_ttwuStep here
  next here => exact written_scheduleStep here
  next here => exact written_pendingStep here
  next here => exact written_moveStep here
  next here => exact written_balanceStep here
  next here => exact written_specialStep here

/-! ## The other CPUs -/

def Elsewhere (s : State Cpu Task) (w : Cpu) (s' : State Cpu Task) : Prop :=
  ∀ d, d ≠ w → s'.act d = s.act d

omit [DecidableEq Cpu] [DecidableEq Task] in
theorem elsewhere_refl : Elsewhere s w s :=
  fun _ _ => rfl

omit [DecidableEq Task] in
theorem elsewhere_goto {s₁ : State Cpu Task} (same : s₁.act = s.act) (a : Activity Cpu Task) :
    Elsewhere s w (s₁.goto w a) := by
  intro d other
  rw [← same]
  exact Function.update_of_ne other a s₁.act

theorem elsewhere_setOnCpu {s₁ : State Cpu Task} (same : s₁.act = s.act) (p : Option Task) (onCpu : Bool)
    (a : Activity Cpu Task) : Elsewhere s w ((setOnCpu s₁ p onCpu).goto w a) := by
  cases p <;> exact elsewhere_goto same a

theorem elsewhere_ttwuStep {mask : UInt64} (pc : TtwuPc Cpu) :
    Elsewhere s w (ttwuStep s w p mask choice pc) := by
  cases pc
  case lockPi | testState | testOnRq | lockRq | checkRq | remote | relax | waitOnCpu | lockDest =>
    simp only [ttwuStep]
    split_ifs <;> first | exact elsewhere_refl | exact elsewhere_goto (by rfl) _
  all_goals exact elsewhere_goto (by rfl) _

theorem elsewhere_scheduleStep {preempt : Bool} {prev : Option Task} (pc : SchedulePc) :
    Elsewhere s w (scheduleStep s w preempt prev choice pc) := by
  cases pc
  case decide =>
    cases prev with
    | none => exact elsewhere_goto (by rfl) _
    | some n =>
      simp only [scheduleStep]
      split_ifs <;> exact elsewhere_goto (by rfl) _
  case pick =>
    simp only [scheduleStep]
    split_ifs
    · exact elsewhere_goto (by rfl) _
    · exact elsewhere_goto (by rfl) _
    · exact elsewhere_setOnCpu (by rfl) _ _ _
  case finish => exact elsewhere_setOnCpu (by rfl) _ _ _
  case lock | dropped =>
    simp only [scheduleStep]
    split_ifs <;> first | exact elsewhere_refl | exact elsewhere_goto (by rfl) _
  case unlock => exact elsewhere_goto (by rfl) _

theorem elsewhere_pendingStep {tasks : List Task} (pc : PendingPc Task) :
    Elsewhere s w (pendingStep s w tasks pc) := by
  cases pc
  case activate => cases tasks <;> exact elsewhere_goto (by rfl) _
  case lock =>
    simp only [pendingStep]
    split_ifs <;> first | exact elsewhere_refl | exact elsewhere_goto (by rfl) _
  all_goals exact elsewhere_goto (by rfl) _

theorem elsewhere_moveStep (pc : MovePc Cpu) : Elsewhere s w (moveStep s w p choice pc) := by
  cases pc
  case lockPi | lockRq | checkRq | moveQueued | lockDest | relax =>
    simp only [moveStep]
    split_ifs <;> first | exact elsewhere_refl | exact elsewhere_goto (by rfl) _
  all_goals exact elsewhere_goto (by rfl) _

theorem elsewhere_balanceStep {tasks : List Task} {src dst : Cpu} (pc : BalancePc) :
    Elsewhere s w (balanceStep s w tasks src dst choice pc) := by
  cases pc
  case detach =>
    simp only [balanceStep]
    cases choice.task with
    | none => exact elsewhere_goto (by rfl) _
    | some p =>
      dsimp only
      split_ifs <;> first | exact elsewhere_refl | exact elsewhere_goto (by rfl) _
  case attach => cases tasks <;> exact elsewhere_goto (by rfl) _
  case lockSrc | lockDst =>
    simp only [balanceStep]
    split_ifs <;> first | exact elsewhere_refl | exact elsewhere_goto (by rfl) _
  case unlockDst => exact elsewhere_goto (by rfl) _

theorem elsewhere_advance (s : State Cpu Task) (w : Cpu) (choice : Choice Cpu Task) :
    Elsewhere s w (advance s w choice) := by
  unfold advance
  split
  next => exact elsewhere_refl
  next => exact elsewhere_ttwuStep _
  next => exact elsewhere_scheduleStep _
  next => exact elsewhere_pendingStep _
  next => exact elsewhere_moveStep _
  next => exact elsewhere_balanceStep _
  next pc _ =>
    cases pc
    case lockPi =>
      simp only [specialStep]
      split_ifs <;> first | exact elsewhere_refl | exact elsewhere_goto (by rfl) _
    all_goals exact elsewhere_goto (by rfl) _

/-! ## The CPU itself -/

/-- An activity goes on with the call it is in, or ends it. -/
inductive Continues : Activity Cpu Task → Activity Cpu Task → Prop
  | refl (a : Activity Cpu Task) : Continues a a
  | ends (a : Activity Cpu Task) : Continues a .run
  | ttwu (p : Task) (mask : UInt64) (pc pc' : TtwuPc Cpu) : Continues (.ttwu p mask pc) (.ttwu p mask pc')
  | schedule (preempt : Bool) (prev prev' : Option Task) (pc pc' : SchedulePc) :
    Continues (.schedule preempt prev pc) (.schedule preempt prev' pc')
  | pending (tasks tasks' : List Task) (pc pc' : PendingPc Task) :
    Continues (.pending tasks pc) (.pending tasks' pc')
  | move (p : Task) (pc pc' : MovePc Cpu) : Continues (.move p pc) (.move p pc')
  | balance (tasks tasks' : List Task) (src dst : Cpu) (pc pc' : BalancePc) :
    Continues (.balance tasks src dst pc) (.balance tasks' src dst pc')
  | special (p : Task) (value : UInt64) (pc pc' : SpecialPc) :
    Continues (.special p value pc) (.special p value pc')

omit [DecidableEq Task] in
theorem goto_act_self (s₁ : State Cpu Task) (w : Cpu) (a : Activity Cpu Task) :
    (s₁.goto w a).act w = a := by
  simp [State.goto]

omit [DecidableEq Task] in
theorem continues_goto {s₁ : State Cpu Task} {a a' : Activity Cpu Task} (here : s.act w = a)
    (goes : Continues a a') : Continues (s.act w) ((s₁.goto w a').act w) := by
  rw [goto_act_self, here]
  exact goes

theorem continues_ttwuStep {mask : UInt64} {pc : TtwuPc Cpu} (here : s.act w = .ttwu p mask pc) :
    Continues (s.act w) ((ttwuStep s w p mask choice pc).act w) := by
  cases pc
  case lockPi | testState | testOnRq | lockRq | checkRq | remote | relax | waitOnCpu | lockDest =>
    simp only [ttwuStep]
    split_ifs <;> first | exact .refl _ | exact continues_goto here (.ttwu p mask _ _)
  case unlockPi => exact continues_goto here (.ends _)
  all_goals exact continues_goto here (.ttwu p mask _ _)

theorem continues_scheduleStep {preempt : Bool} {prev : Option Task} {pc : SchedulePc}
    (here : s.act w = .schedule preempt prev pc) :
    Continues (s.act w) ((scheduleStep s w preempt prev choice pc).act w) := by
  cases pc
  case decide =>
    cases prev with
    | none => exact continues_goto here (.schedule ..)
    | some n =>
      simp only [scheduleStep]
      split_ifs <;> exact continues_goto here (.schedule ..)
  case lock | dropped | pick =>
    simp only [scheduleStep]
    split_ifs <;> first | exact .refl _ | exact continues_goto here (.schedule ..)
  case finish => exact continues_goto here (.schedule ..)
  case unlock => exact continues_goto here (.ends _)

theorem continues_pendingStep {tasks : List Task} {pc : PendingPc Task} (here : s.act w = .pending tasks pc) :
    Continues (s.act w) ((pendingStep s w tasks pc).act w) := by
  cases pc
  case take =>
    refine continues_goto here ?_
    split_ifs
    · exact .ends _
    · exact .pending ..
  case lock =>
    simp only [pendingStep]
    split_ifs <;> first | exact .refl _ | exact continues_goto here (.pending ..)
  case activate => cases tasks <;> exact continues_goto here (.pending ..)
  case setRunning => exact continues_goto here (.pending ..)
  case unlock => exact continues_goto here (.ends _)

theorem continues_moveStep {pc : MovePc Cpu} (here : s.act w = .move p pc) :
    Continues (s.act w) ((moveStep s w p choice pc).act w) := by
  cases pc
  case lockPi | lockRq | checkRq | moveQueued | lockDest | relax =>
    simp only [moveStep]
    split_ifs <;> first | exact .refl _ | exact continues_goto here (.move p _ _)
  case unlockPi => exact continues_goto here (.ends _)
  all_goals exact continues_goto here (.move p _ _)

theorem continues_balanceStep {tasks : List Task} {src dst : Cpu} {pc : BalancePc}
    (here : s.act w = .balance tasks src dst pc) :
    Continues (s.act w) ((balanceStep s w tasks src dst choice pc).act w) := by
  cases pc
  case detach =>
    simp only [balanceStep]
    cases choice.task with
    | none =>
      refine continues_goto here ?_
      split_ifs
      · exact .ends _
      · exact .balance ..
    | some p =>
      dsimp only
      split_ifs <;> first | exact .refl _ | exact continues_goto here (.balance ..)
  case attach => cases tasks <;> exact continues_goto here (.balance ..)
  case lockSrc | lockDst =>
    simp only [balanceStep]
    split_ifs <;> first | exact .refl _ | exact continues_goto here (.balance ..)
  case unlockDst => exact continues_goto here (.ends _)

theorem continues_specialStep {value : UInt64} {pc : SpecialPc} (here : s.act w = .special p value pc) :
    Continues (s.act w) ((specialStep s w p value pc).act w) := by
  cases pc
  case lockPi =>
    simp only [specialStep]
    split_ifs <;> first | exact .refl _ | exact continues_goto here (.special p value _ _)
  case set => exact continues_goto here (.special p value _ _)
  case unlockPi => exact continues_goto here (.ends _)

theorem continues_advance (s : State Cpu Task) (w : Cpu) (choice : Choice Cpu Task) :
    Continues (s.act w) ((advance s w choice).act w) := by
  unfold advance
  split
  next => exact .refl _
  next here => exact continues_ttwuStep here
  next here => exact continues_scheduleStep here
  next here => exact continues_pendingStep here
  next here => exact continues_moveStep here
  next here => exact continues_balanceStep here
  next here => exact continues_specialStep here

end UnixSystems.WakeStates
