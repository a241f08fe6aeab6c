import UnixSystems.WakePromise

/-! The wait loop that `set_current_state` is made for, on top of the wake-up protocol. The
sleeper stores its state, looks at `need_sleep` and calls `schedule`; the waker clears
`need_sleep` and wakes the sleeper. Between any two of these accesses other CPUs go on, and the
tasks themselves are preempted, migrated, and woken for other reasons. -/

namespace UnixSystems.WaitLoop
open GuardedRuns WakePlaces WakeFrame WakeMoves WakeStates WakeExclusion WakeDead WakePromise
open WakeModel (taskRunning taskWaking taskDead taskNormal taskUninterruptible TtwuPc Activity Choice
  ttwuStep advance enter modifyCurrent moveBoth TaskStruct)

/-- The state in which a task sleeps and the mask it is woken with. -/
structure Pattern (Task : Type) where
  value : Task → UInt64
  mask : Task → UInt64
  covers : ∀ p, value p &&& mask p ≠ 0
  wakes : ∀ p, mask p &&& (taskWaking ||| taskDead) = 0
  plain : ∀ p, value p ≠ taskWaking ∧ value p ≠ taskDead

/-- Where a task stands in its loop. A task that has `checked` is about to call `schedule`, or
inside that call, or back from it. -/
inductive LoopPc where
  | outside | stateSet | checked | leaving
  deriving DecidableEq

/-- `owes` names the task that a waker has cleared `need_sleep` for and has yet to wake. -/
structure State (Cpu Task : Type) where
  kernel : WakeModel.State Cpu Task
  needSleep : Task → Bool
  loop : Task → LoopPc
  owes : Task → Option Task

inductive Action (Cpu Task : Type) where
  | kernel (act : WakeModel.Action Cpu Task)
  | wantSleep (p : Task)
  | setState (c : Cpu)
  | check (c : Cpu)
  | schedule (c : Cpu)
  | leave (c : Cpu)
  | clear (c : Cpu) (p : Task)
  | wakeUp (c : Cpu)

variable {Cpu Task : Type} [DecidableEq Cpu] [DecidableEq Task]

def executing (k : WakeModel.State Cpu Task) (c : Cpu) : Option Task :=
  if (k.act c).isRun then (k.rq c).curr else none

def perform (L : Pattern Task) (s : State Cpu Task) (c : Cpu) (p : Task) : Action Cpu Task → State Cpu Task
  | .setState _ =>
    { s with
      kernel := WakeModel.step s.kernel (.setCurrentState c (L.value p))
      loop := Function.update s.loop p .stateSet }
  | .check _ =>
    if s.loop p = .stateSet then
      { s with loop := Function.update s.loop p (if s.needSleep p then .checked else .leaving) }
    else s
  | .schedule _ =>
    if s.loop p = .checked then { s with kernel := WakeModel.step s.kernel (.schedule c false) } else s
  | .leave _ =>
    if s.loop p = .leaving then
      { s with
        kernel := WakeModel.step s.kernel (.setCurrentState c taskRunning)
        loop := Function.update s.loop p .outside }
    else s
  | .clear _ q =>
    if s.owes p = none then
      { s with needSleep := Function.update s.needSleep q false, owes := Function.update s.owes p (some q) }
    else s
  | .wakeUp _ =>
    match s.owes p with
    | none => s
    | some q =>
      { s with
        kernel := WakeModel.step s.kernel (.tryToWakeUp c q (L.mask q))
        owes := Function.update s.owes p none }
  | _ => s

def step (L : Pattern Task) (s : State Cpu Task) (act : Action Cpu Task) : State Cpu Task :=
  match act with
  | .kernel act => { s with kernel := WakeModel.step s.kernel act }
  | .wantSleep p => { s with needSleep := Function.update s.needSleep p true }
  | .setState c | .check c | .schedule c | .leave c | .clear c _ | .wakeUp c =>
    match executing s.kernel c with
    | none => s
    | some p => perform L s c p act

/-! ## The kernel underneath -/

section Kernel

variable {k : WakeModel.State Cpu Task} {w : Cpu} {p : Task} {L : Pattern Task}

def Spares (k : WakeModel.State Cpu Task) (p : Task) : WakeModel.Action Cpu Task → Prop
  | .setCurrentState c _ | .setSpecialState c _ => executing k c ≠ some p
  | _ => True

def Awake (k : WakeModel.State Cpu Task) (p : Task) : Prop :=
  (k.task p).state = taskRunning ∨ (k.task p).state = taskWaking

/-- A wake-up that is going to find the task, or has found it. -/
def Wakes (L : Pattern Task) (p : Task) : Activity Cpu Task → Prop
  | .ttwu q mask .lockPi | .ttwu q mask .testState => q = p ∧ mask = L.mask p
  | a => past a = some p

def NoSpecial (k : WakeModel.State Cpu Task) (p : Task) : Prop :=
  ∀ w value pc, k.act w ≠ .special p value pc

omit [DecidableEq Cpu] [DecidableEq Task] in
theorem executing_eq_some {c : Cpu} (h : executing k c = some p) :
    (k.act c).isRun ∧ (k.rq c).curr = some p := by
  unfold executing at h
  split_ifs at h with idle
  exact ⟨idle, h⟩

omit [DecidableEq Task] in
theorem enter_act_of_busy {c : Cpu} (busy : (k.act w).isRun = false) (a : Activity Cpu Task) :
    (enter k c a).act w = k.act w := by
  unfold enter
  split_ifs with idle
  · refine elsewhere_goto rfl a w ?_
    rintro rfl
    rw [idle] at busy
    cases busy
  · rfl

omit [DecidableEq Cpu] in
theorem modifyCurrent_act {c : Cpu} (f : TaskStruct Cpu → TaskStruct Cpu) :
    (modifyCurrent k c f).act = k.act := by
  unfold modifyCurrent
  split
  · rfl
  · split_ifs <;> rfl

theorem step_act_of_busy {act : WakeModel.Action Cpu Task} (busy : (k.act w).isRun = false)
    (other : ∀ choice, act ≠ .advance w choice) : (WakeModel.step k act).act w = k.act w := by
  cases act with
  | tryToWakeUp | schedule | setCpusAllowed | loadBalance => exact enter_act_of_busy busy _
  | schedTtwuPending c ipi =>
    simp only [WakeModel.step]
    split_ifs with idle
    · refine elsewhere_goto (s := k) rfl _ w ?_
      rintro rfl
      rw [idle] at busy
      cases busy
    · rfl
  | setCurrentState | setFlags => exact congrFun (modifyCurrent_act _) w
  | setSpecialState c value =>
    simp only [WakeModel.step]
    split
    · rfl
    · exact enter_act_of_busy busy _
  | moveLocked =>
    simp only [WakeModel.step]
    split_ifs <;> rfl
  | advance c choice =>
    refine elsewhere_advance k c choice w ?_
    rintro rfl
    exact other choice rfl

omit [DecidableEq Task] in
theorem enter_task (c : Cpu) (a : Activity Cpu Task) : (enter k c a).task = k.task := by
  unfold enter
  split_ifs <;> rfl

omit [DecidableEq Cpu] in
theorem modifyCurrent_state {c : Cpu} {f : TaskStruct Cpu → TaskStruct Cpu}
    (spares : executing k c = some p → (f (k.task p)).state = (k.task p).state) :
    ((modifyCurrent k c f).task p).state = (k.task p).state := by
  unfold modifyCurrent
  split
  · rfl
  next q curr =>
    split_ifs with idle
    · by_cases self : p = q
      · subst self
        rw [WakeModel.State.setTask_task]
        exact spares (by rw [executing, if_pos idle, curr])
      · rw [WakeModel.State.setTask_task_of_ne _ self]
    · rfl

theorem moveBoth_state (q : Task) (src dst : Cpu) : ((moveBoth k q src dst).task p).state = (k.task p).state := by
  by_cases self : p = q
  · subst self
    rw [moveBoth, WakeModel.State.setTask_task]
  · rw [moveBoth, WakeModel.State.setTask_task_of_ne _ self]
    rfl

theorem step_state_or {act : WakeModel.Action Cpu Task} (spares : Spares k p act) (calm : NoSpecial k p) :
    ((WakeModel.step k act).task p).state = (k.task p).state ∨ Awake (WakeModel.step k act) p := by
  cases act with
  | tryToWakeUp | schedule | setCpusAllowed | loadBalance =>
    exact .inl (congrArg TaskStruct.state (congrFun (enter_task _ _) p))
  | schedTtwuPending c ipi =>
    simp only [WakeModel.step]
    split_ifs <;> exact .inl rfl
  | setCurrentState c value => exact .inl (modifyCurrent_state fun own => absurd own spares)
  | setFlags c frozen inIowait => exact .inl (modifyCurrent_state fun _ => rfl)
  | setSpecialState c value =>
    simp only [WakeModel.step]
    split
    · exact .inl rfl
    · exact .inl (congrArg TaskStruct.state (congrFun (enter_task _ _) p))
  | moveLocked =>
    simp only [WakeModel.step]
    split_ifs
    · exact .inl (moveBoth_state _ _ _)
    · exact .inl rfl
  | advance c choice =>
    rcases written_advance k c choice p with ⟨same, -⟩ | change
    · exact .inl same
    · rcases change.state_or with same | running | waking | special
      · exact .inl same
      · exact .inr (.inl running)
      · exact .inr (.inr waking)
      · exact absurd special (calm c _ _)

theorem awake_step {act : WakeModel.Action Cpu Task} (spares : Spares k p act) (calm : NoSpecial k p)
    (awake : Awake k p) : Awake (WakeModel.step k act) p := by
  rcases step_state_or spares calm with same | awake'
  · rw [Awake, same]
    exact awake
  · exact awake'

omit [DecidableEq Task] in
theorem noSpecial_goto {k₁ : WakeModel.State Cpu Task} {c : Cpu} {a : Activity Cpu Task} (calm : NoSpecial k p)
    (act : k₁.act = k.act) (other : ∀ value pc, a ≠ .special p value pc) : NoSpecial (k₁.goto c a) p := by
  intro w value pc special
  by_cases here : w = c
  · subst here
    rw [goto_act_self] at special
    exact other value pc special
  · exact calm w value pc ((elsewhere_goto act a w here).symm.trans special)

omit [DecidableEq Task] in
theorem noSpecial_enter {c : Cpu} {a : Activity Cpu Task} (calm : NoSpecial k p)
    (other : (k.act c).isRun → ∀ value pc, a ≠ .special p value pc) : NoSpecial (enter k c a) p := by
  unfold enter
  split_ifs with idle
  · exact noSpecial_goto calm rfl (other idle)
  · exact calm

theorem noSpecial_step {act : WakeModel.Action Cpu Task} (spares : Spares k p act) (calm : NoSpecial k p) :
    NoSpecial (WakeModel.step k act) p := by
  cases act with
  | tryToWakeUp | schedule | setCpusAllowed | loadBalance =>
    exact noSpecial_enter calm (by simp)
  | schedTtwuPending c ipi =>
    simp only [WakeModel.step]
    split_ifs
    · exact noSpecial_goto calm rfl (by simp)
    · exact calm
  | setCurrentState | setFlags =>
    intro w value pc special
    exact calm w value pc ((congrFun (modifyCurrent_act _) w).symm.trans special)
  | setSpecialState c v =>
    simp only [WakeModel.step]
    split
    next => exact calm
    next q curr =>
      refine noSpecial_enter calm fun idle value pc same => spares ?_
      cases same
      rw [executing, if_pos idle, curr]
  | moveLocked =>
    simp only [WakeModel.step]
    split_ifs <;> exact calm
  | advance c choice =>
    intro w value pc special
    by_cases here : w = c
    · subst here
      have goes := continues_advance k w choice
      rw [show (advance k w choice).act w = .special p value pc from special] at goes
      generalize before : k.act w = a at goes
      cases goes <;> exact calm w value _ before
    · exact calm w value pc ((elsewhere_advance k c choice w here).symm.trans special)

theorem past_kept {choice : Choice Cpu Task} (tested : past (k.act w) = some p) :
    past ((advance k w choice).act w) = some p ∨ Awake (advance k w choice) p := by
  cases here : k.act w with
  | ttwu q mask pc =>
    rw [here] at tested
    simp only [advance, here]
    cases pc
    case remote rq =>
      cases tested
      simp only [ttwuStep]
      split_ifs
      · exact .inr (.inl (by rw [WakeModel.ttwuDoWakeup]; simp [WakeModel.State.goto]))
      · exact .inl (by rw [goto_act_self]; rfl)
    case markWaking =>
      cases tested
      exact .inr (.inr (by simp [ttwuStep, WakeModel.State.goto]))
    case unlockRemote rq woken =>
      cases woken <;> cases tested
      exact .inl (by rw [ttwuStep, goto_act_self]; rfl)
    case testOnRq | lockRq | checkRq | relax | waitOnCpu =>
      cases tested
      simp only [ttwuStep]
      split_ifs <;> first | exact .inl (by rw [here]; rfl) | exact .inl (by rw [goto_act_self]; rfl)
    case readRq | dropRq =>
      cases tested
      exact .inl (by rw [ttwuStep, goto_act_self]; rfl)
    all_goals cases tested
  | _ =>
    rw [here] at tested
    cases tested

omit [DecidableEq Cpu] [DecidableEq Task] in
theorem wakes_of_past {a : Activity Cpu Task} (tested : past a = some p) : Wakes L p a := by
  cases a with
  | ttwu q mask pc =>
    cases pc
    case lockPi | testState => cases tested
    all_goals exact tested
  | _ => exact tested

theorem wakes_advance {choice : Choice Cpu Task} (sleeps : (k.task p).state = L.value p)
    (wakes : Wakes L p (k.act w)) :
    Wakes L p ((advance k w choice).act w) ∨ Awake (advance k w choice) p := by
  by_cases tested : past (k.act w) = some p
  · exact (past_kept tested).imp_left wakes_of_past
  · cases here : k.act w with
    | ttwu q mask pc =>
      rw [here] at wakes tested
      simp only [advance, here]
      cases pc
      case lockPi =>
        obtain ⟨rfl, rfl⟩ := wakes
        simp only [ttwuStep]
        split_ifs
        · exact .inl (by rw [goto_act_self]; exact ⟨rfl, rfl⟩)
        · exact .inl (by rw [here]; exact ⟨rfl, rfl⟩)
      case testState =>
        obtain ⟨rfl, rfl⟩ := wakes
        have found : (k.task q).state &&& L.mask q ≠ 0 := by
          rw [sleeps]
          exact L.covers q
        simp only [ttwuStep, if_neg found]
        exact .inl (by rw [goto_act_self]; rfl)
      all_goals exact absurd wakes tested
    | _ =>
      rw [here] at wakes tested
      exact absurd wakes tested

omit [DecidableEq Cpu] [DecidableEq Task] in
theorem isRun_of_wakes {a : Activity Cpu Task} (wakes : Wakes L p a) : a.isRun = false := by
  cases a with
  | run => cases wakes
  | _ => rfl

theorem wakes_step {act : WakeModel.Action Cpu Task} (spares : Spares k p act) (calm : NoSpecial k p)
    (state : (k.task p).state = L.value p ∨ Awake k p) (wakes : Wakes L p (k.act w)) :
    Wakes L p ((WakeModel.step k act).act w) ∨ Awake (WakeModel.step k act) p := by
  rcases state with sleeps | awake
  · by_cases own : ∃ choice, act = .advance w choice
    · obtain ⟨choice, rfl⟩ := own
      exact wakes_advance sleeps wakes
    · refine .inl ?_
      rw [step_act_of_busy (isRun_of_wakes wakes) fun choice eq => own ⟨choice, eq⟩]
      exact wakes
  · exact .inr (awake_step spares calm awake)

end Kernel

/-! ## The loop -/

section Loops

variable {L : Pattern Task} {s : State Cpu Task} {p : Task}

def Owed (L : Pattern Task) (s : State Cpu Task) (p : Task) : Prop :=
  (∃ q, s.owes q = some p) ∨ ∃ w, Wakes L p (s.kernel.act w)

structure LoopInv (L : Pattern Task) (s : State Cpu Task) : Prop where
  kernel : Inv s.kernel
  promised : ∀ c, Promised s.kernel c
  calm : ∀ p, s.loop p ≠ .outside → NoSpecial s.kernel p
  state : ∀ p, s.loop p ≠ .outside → (s.kernel.task p).state = L.value p ∨ Awake s.kernel p
  served : ∀ p, s.loop p = .checked → s.needSleep p = false → Owed L s p ∨ Awake s.kernel p

/-- What the environment keeps to: inside its loop a task writes its state there only. -/
def Lawful (s : State Cpu Task) : Action Cpu Task → Prop
  | .kernel act => Legal s.kernel act ∧ ∀ p, s.loop p ≠ .outside → Spares s.kernel p act
  | .setState c => ∀ p, executing s.kernel c = some p → (s.kernel.task p).state ≠ taskDead
  | _ => True

theorem loopInv_kernel (inv : LoopInv L s) {act : WakeModel.Action Cpu Task} (legal : Legal s.kernel act)
    (spares : ∀ p, s.loop p ≠ .outside → Spares s.kernel p act) :
    LoopInv L { s with kernel := WakeModel.step s.kernel act } := by
  refine ⟨inv_step inv.kernel act legal, fun c => promised_step (inv.promised c) act,
    fun p inside => noSpecial_step (spares p inside) (inv.calm p inside), fun p inside => ?_,
    fun p checked cleared => ?_⟩
  · rcases step_state_or (spares p inside) (inv.calm p inside) with same | awake
    · rcases inv.state p inside with value | awake
      · exact .inl (same.trans value)
      · exact .inr (awake_step (spares p inside) (inv.calm p inside) awake)
    · exact .inr awake
  · have inside : s.loop p ≠ .outside := by rw [checked]; decide
    rcases inv.served p checked cleared with (owed | ⟨w, wakes⟩) | awake
    · exact .inl (.inl owed)
    · rcases wakes_step (spares p inside) (inv.calm p inside) (inv.state p inside) wakes with wakes | awake
      · exact .inl (.inr ⟨w, wakes⟩)
      · exact .inr awake
    · exact .inr (awake_step (spares p inside) (inv.calm p inside) awake)

theorem loopInv_loop (inv : LoopInv L s) {pc : LoopPc}
    (kept : pc ≠ .outside → NoSpecial s.kernel p ∧ ((s.kernel.task p).state = L.value p ∨ Awake s.kernel p))
    (checks : pc = .checked → s.needSleep p = true) :
    LoopInv L { s with loop := Function.update s.loop p pc } := by
  refine ⟨inv.kernel, inv.promised, fun q inside => ?_, fun q inside => ?_, fun q checked cleared => ?_⟩ <;>
    by_cases self : q = p
  · subst self
    exact (kept (by simpa using inside)).1
  · exact inv.calm q (by simpa [self] using inside)
  · subst self
    exact (kept (by simpa using inside)).2
  · exact inv.state q (by simpa [self] using inside)
  · subst self
    have checked : pc = .checked := by simpa using checked
    exact absurd (checks checked) (by simpa using cleared)
  · exact inv.served q (by simpa [self] using checked) cleared

theorem noSpecial_of_executing (inv : Inv s.kernel) {c : Cpu} {k' : WakeModel.State Cpu Task}
    (own : executing s.kernel c = some p) (act : k'.act = s.kernel.act) : NoSpecial k' p := by
  obtain ⟨idle, curr⟩ := executing_eq_some own
  obtain ⟨place, fit⟩ := inv.placed p
  intro w value pc special
  rw [act] at special
  have there : (s.kernel.rq w).curr = some p := by
    have kept := inv.locks.own w
    rw [special] at kept
    exact kept.1
  have first := current_eq fit curr
  rw [current_eq fit there] at first
  cases first
  rw [special] at idle
  cases idle

omit [DecidableEq Cpu] [DecidableEq Task] in
theorem spares_of_executing {c : Cpu} {value : UInt64} (own : executing s.kernel c = some p) {q : Task}
    (other : q ≠ p) : Spares s.kernel q (.setCurrentState c value) := by
  intro same
  rw [own] at same
  exact other (Option.some.inj same).symm

theorem loopInv_write (inv : LoopInv L s) {c : Cpu} {value : UInt64} {pc : LoopPc}
    (own : executing s.kernel c = some p) (alive : (s.kernel.task p).state ≠ taskDead)
    (plain : value ≠ taskWaking ∧ value ≠ taskDead) (writes : pc ≠ .outside → value = L.value p)
    (checks : pc ≠ .checked) :
    LoopInv L { s with
      kernel := WakeModel.step s.kernel (.setCurrentState c value)
      loop := Function.update s.loop p pc } := by
  obtain ⟨idle, curr⟩ := executing_eq_some own
  have left : LoopInv L { s with loop := Function.update s.loop p .outside } :=
    loopInv_loop inv (fun inside => absurd rfl inside) (by simp)
  have legal : Legal s.kernel (.setCurrentState c value) := by
    refine ⟨plain.1, plain.2, fun q at_c => ?_⟩
    rw [curr] at at_c
    exact Option.some.inj at_c ▸ alive
  have stored := loopInv_kernel left legal fun q inside => by
    refine spares_of_executing own ?_
    rintro rfl
    exact inside (by simp)
  have written : ((WakeModel.step s.kernel (.setCurrentState c value)).task p).state = value := by
    simp [WakeModel.step, modifyCurrent, curr, idle]
  have kept : pc ≠ .outside → NoSpecial (WakeModel.step s.kernel (.setCurrentState c value)) p ∧
      (((WakeModel.step s.kernel (.setCurrentState c value)).task p).state = L.value p ∨
        Awake (WakeModel.step s.kernel (.setCurrentState c value)) p) := fun inside =>
    ⟨noSpecial_of_executing inv.kernel own (modifyCurrent_act _), .inl (written.trans (writes inside))⟩
  have after := loopInv_loop stored kept fun checked => absurd checked checks
  simpa only [Function.update_idem] using after

theorem loopInv_clear (inv : LoopInv L s) (free : s.owes p = none) (q : Task) :
    LoopInv L { s with
      needSleep := Function.update s.needSleep q false
      owes := Function.update s.owes p (some q) } := by
  refine ⟨inv.kernel, inv.promised, inv.calm, inv.state, fun r checked cleared => ?_⟩
  by_cases self : r = q
  · subst self
    exact .inl (.inl ⟨p, by simp⟩)
  · rcases inv.served r checked (by simpa [self] using cleared) with (⟨o, owes⟩ | wakes) | awake
    · have other : o ≠ p := by
        rintro rfl
        rw [free] at owes
        cases owes
      exact .inl (.inl ⟨o, by simpa [other] using owes⟩)
    · exact .inl (.inr wakes)
    · exact .inr awake

theorem loopInv_wakeUp (inv : LoopInv L s) {c : Cpu} {q : Task} (own : executing s.kernel c = some p)
    (owes : s.owes p = some q) :
    LoopInv L { s with
      kernel := WakeModel.step s.kernel (.tryToWakeUp c q (L.mask q))
      owes := Function.update s.owes p none } := by
  obtain ⟨idle, -⟩ := executing_eq_some own
  have entered : LoopInv L { s with kernel := WakeModel.step s.kernel (.tryToWakeUp c q (L.mask q)) } :=
    loopInv_kernel inv (L.wakes q) fun _ _ => trivial
  refine ⟨entered.kernel, entered.promised, entered.calm, entered.state, fun r checked cleared => ?_⟩
  rcases entered.served r checked cleared with (⟨o, debt⟩ | wakes) | awake
  · by_cases self : o = p
    · subst self
      obtain rfl : q = r := Option.some.inj (owes.symm.trans debt)
      refine .inl (.inr ⟨c, ?_⟩)
      simp only [WakeModel.step, enter, if_pos idle, goto_act_self]
      exact ⟨rfl, rfl⟩
    · exact .inl (.inl ⟨o, by simpa [self] using debt⟩)
  · exact .inl (.inr wakes)
  · exact .inr awake

theorem loopInv_step (inv : LoopInv L s) (act : Action Cpu Task) (lawful : Lawful s act) :
    LoopInv L (step L s act) := by
  cases act with
  | kernel act => exact loopInv_kernel inv lawful.1 lawful.2
  | wantSleep q =>
    refine ⟨inv.kernel, inv.promised, inv.calm, inv.state, fun r checked cleared => ?_⟩
    by_cases self : r = q
    · subst self
      simp [step] at cleared
    · exact inv.served r checked (by simpa [step, self] using cleared)
  | setState c =>
    cases own : executing s.kernel c with
    | none => simpa only [step, own] using inv
    | some p =>
      simp only [step, own, perform]
      exact loopInv_write inv own (lawful p own) (L.plain p) (fun _ => rfl) (by decide)
  | check c =>
    cases own : executing s.kernel c with
    | none => simpa only [step, own] using inv
    | some p =>
      simp only [step, own, perform]
      split_ifs with stored wants
      · refine loopInv_loop inv (fun _ => ?_) fun _ => wants
        have inside : s.loop p ≠ .outside := by rw [stored]; decide
        exact ⟨inv.calm p inside, inv.state p inside⟩
      · refine loopInv_loop inv (fun _ => ?_) (by simp)
        have inside : s.loop p ≠ .outside := by rw [stored]; decide
        exact ⟨inv.calm p inside, inv.state p inside⟩
      · exact inv
  | schedule c =>
    cases own : executing s.kernel c with
    | none => simpa only [step, own] using inv
    | some p =>
      simp only [step, own, perform]
      split_ifs
      · exact loopInv_kernel inv trivial fun _ _ => trivial
      · exact inv
  | leave c =>
    cases own : executing s.kernel c with
    | none => simpa only [step, own] using inv
    | some p =>
      simp only [step, own, perform]
      split_ifs with leaving
      · have alive : (s.kernel.task p).state ≠ taskDead := by
          rcases inv.state p (by rw [leaving]; decide) with value | running | waking
          · rw [value]
            exact (L.plain p).2
          · rw [running]
            decide
          · rw [waking]
            decide
        exact loopInv_write inv own alive (by decide) (fun inside => absurd rfl inside) (by decide)
      · exact inv
  | clear c q =>
    cases own : executing s.kernel c with
    | none => simpa only [step, own] using inv
    | some p =>
      simp only [step, own, perform]
      split_ifs with free
      · exact loopInv_clear inv free q
      · exact inv
  | wakeUp c =>
    cases own : executing s.kernel c with
    | none => simpa only [step, own] using inv
    | some p =>
      simp only [step, own, perform]
      split
      · exact inv
      next q owes => exact loopInv_wakeUp inv own owes

/-! ## Whole runs -/

/-- Every CPU is back in its task, and no interrupt and no wake-up is outstanding. -/
def Quiet (s : State Cpu Task) : Prop :=
  (∀ c, (s.kernel.act c).isRun ∧ (s.kernel.rq c).ipi = false) ∧ ∀ q, s.owes q = none

/-- A task that has decided to sleep before `need_sleep` was cleared is awake or will be woken;
when nothing is left to do, it is on a run queue. -/
structure Served (L : Pattern Task) (s : State Cpu Task) : Prop where
  owed : ∀ p, s.loop p = .checked → s.needSleep p = false → Owed L s p ∨ Awake s.kernel p
  quiet : Quiet s → ∀ p, s.loop p = .checked → s.needSleep p = false → (s.kernel.task p).onRq = .queued

theorem onRq_of_quiet (inv : LoopInv L s) (quiet : Quiet s) (awake : Awake s.kernel p) :
    (s.kernel.task p).onRq = .queued := by
  obtain ⟨place, fit⟩ := inv.kernel.placed p
  have idle : ∀ w, s.kernel.act w = .run := fun w => act_eq_run (quiet.1 w).1
  have free : ∀ w, place.owner ≠ some w := fun w => by
    simpa [view, idle w, role, Role.Allows] using fit.roles w
  have unlisted : ∀ c, place ≠ .listed c := by
    rintro c rfl
    have count : (s.kernel.rq c).wakeList.count p = 1 := by
      simpa [view, once, Place.wakeList] using congrFun fit.wakeList c
    rcases inv.promised c with empty | told | ⟨w, attends⟩
    · simp [empty] at count
    · simp [(quiet.1 c).2] at told
    · rw [idle w] at attends
      exact attends
  have onRq : (s.kernel.task p).onRq = place.onRq := fit.fits.onRq
  have asleep : place.off → ¬ Awake s.kernel p := by
    rintro off (running | waking)
    · exact fit.fits.asleep off running
    · have woken := fit.fits.waking.mp waking
      cases place <;> simp_all [Place.off, Place.woken]
  rw [onRq]
  cases place with
  | ready | running => rfl
  | blocked => exact absurd awake (asleep rfl)
  | listed c => exact absurd rfl (unlisted c)
  | _ => exact absurd rfl (free _)

theorem served_of_loopInv (inv : LoopInv L s) : Served L s := by
  refine ⟨inv.served, fun quiet p checked cleared => ?_⟩
  rcases inv.served p checked cleared with (⟨q, owes⟩ | ⟨w, wakes⟩) | awake
  · rw [quiet.2 q] at owes
    cases owes
  · have busy := isRun_of_wakes wakes
    rw [(quiet.1 w).1] at busy
    cases busy
  · exact onRq_of_quiet inv quiet awake

theorem always_served {acts : List (Action Cpu Task)} (start : Start s.kernel)
    (outside : ∀ p, s.loop p = .outside) (lawful : Along (step L) Lawful s acts) :
    Always (step L) (Served L) s acts := by
  have begun : LoopInv L s := by
    refine ⟨inv_of_start start, fun c => .inl (start.rq c).2.2, fun p inside => ?_, fun p inside => ?_,
      fun p checked => ?_⟩
    · exact absurd (outside p) inside
    · exact absurd (outside p) inside
    · rw [outside p] at checked
      cases checked
  exact always_of_invariant (LoopInv L) (fun _ act lawful inv => loopInv_step inv act lawful)
    (fun _ inv => served_of_loopInv inv) begun lawful

end Loops

def twoReady : WakeModel.State (Fin 2) (Fin 2) where
  task p := ⟨taskRunning, .queued, false, p, false, false, false⟩
  rq c := ⟨none, [c], [], none, 0, 0, false⟩
  piLock _ := none
  act _ := .run

theorem start_twoReady : Start twoReady := by
  refine ⟨fun _ => rfl, fun _ => rfl, fun _ => ⟨rfl, rfl, rfl⟩, fun c p => ?_, fun _ => ?_, fun _ off => ?_⟩
  · fin_cases c <;> fin_cases p <;> rfl
  · exact ⟨rfl, WakeModel.OnRq.noConfusion, (by decide : taskRunning ≠ taskWaking)⟩
  · cases off

def uninterruptible : Pattern (Fin 2) where
  value _ := taskUninterruptible
  mask _ := taskUninterruptible
  covers _ := by decide
  wakes _ := by decide
  plain _ := by decide

def goesOn (c : Fin 2) (n : ℕ) : List (WakeModel.Action (Fin 2) (Fin 2)) :=
  List.replicate n (.advance c ⟨c, some c, false⟩)

def bothRun : List (WakeModel.Action (Fin 2) (Fin 2)) :=
  .schedule cpu0 false :: goesOn cpu0 5 ++ .schedule cpu1 false :: goesOn cpu1 5

def sleepsAndWakes : List (Action (Fin 2) (Fin 2)) :=
  bothRun.map .kernel ++ [.wantSleep cpu0, .setState cpu0, .check cpu0, .clear cpu1 cpu0,
    .schedule cpu0, .wakeUp cpu1]

theorem always_served_twoReady :
    let s : State (Fin 2) (Fin 2) := ⟨twoReady, fun _ => false, fun _ => .outside, fun _ => none⟩
    let t := run (step uninterruptible) s sleepsAndWakes
    t.loop cpu0 = .checked ∧ t.needSleep cpu0 = false ∧
      Always (step uninterruptible) (Served uninterruptible) s sleepsAndWakes := by
  refine ⟨by decide, by decide, always_served start_twoReady (fun _ => rfl) ?_⟩
  rw [sleepsAndWakes, along_append]
  refine ⟨along_of_forall_mem _ ?_, trivial, ?_, trivial, trivial, trivial, trivial, trivial⟩
  · simp [bothRun, goesOn, Lawful, Legal, Spares]
  · intro p _
    revert p
    decide

/-- With the check made before the state is stored, the wake-up finds a running task and the
sleeper goes to sleep for good. -/
example :
    let wakes := .tryToWakeUp cpu1 cpu0 taskUninterruptible :: goesOn cpu1 3
    let sleeps := .setCurrentState cpu0 taskUninterruptible :: .schedule cpu0 false :: goesOn cpu0 5
    let k := run WakeModel.step twoReady (bothRun ++ wakes ++ sleeps)
    (k.task cpu0).onRq = .no ∧ (k.rq cpu0).curr = none ∧ (k.act cpu0).isRun ∧ (k.act cpu1).isRun := by
  decide

end UnixSystems.WaitLoop
