import UnixSystems.WakeDead

/-! The remote wake list. `ttwu_queue_remote` adds a task to the list of another CPU and tells
that CPU only when the list was empty before; `sched_ttwu_pending` takes the whole list at once.
A task on a list is therefore never forgotten: the interrupt is under way, or the list is being
taken, or the CPU that found it empty has yet to send the interrupt. -/

namespace UnixSystems.WakePromise
open GuardedRuns WakeModel WakePlaces WakeMoves WakeStates WakeExclusion WakeDead

variable {Cpu Task : Type} [DecidableEq Cpu] [DecidableEq Task] {s s₁ : State Cpu Task} {w : Cpu}
  {c : Cpu} {p : Task} {choice : Choice Cpu Task}

/-- The activity will see to the wake list of the CPU: it is about to take the list, being on
that CPU, or to send the interrupt. -/
def Attends (c w : Cpu) : Activity Cpu Task → Prop
  | .pending _ .take => w = c
  | .ttwu _ _ (.kick rq) => rq = c
  | _ => False

def Promised (s : State Cpu Task) (c : Cpu) : Prop :=
  (s.rq c).wakeList = [] ∨ (s.rq c).ipi ∨ ∃ w, Attends c w (s.act w)

structure Frame (c : Cpu) (s s₁ : State Cpu Task) : Prop where
  act : s₁.act = s.act
  wakeList : (s.rq c).wakeList = [] → (s₁.rq c).wakeList = []
  ipi : (s.rq c).ipi → (s₁.rq c).ipi

omit [DecidableEq Cpu] [DecidableEq Task] in
theorem frame_refl : Frame c s s :=
  ⟨rfl, id, id⟩

omit [DecidableEq Task] in
theorem frame_setRq {d : Cpu} {rq : Rq Cpu Task}
    (wakeList : d = c → (s.rq c).wakeList = [] → rq.wakeList = [])
    (ipi : d = c → (s.rq c).ipi → rq.ipi) : Frame c s (s.setRq d rq) := by
  by_cases same : c = d
  · refine ⟨rfl, ?_, ?_⟩ <;> rw [same, State.setRq_rq]
    · exact same ▸ wakeList same.symm
    · exact same ▸ ipi same.symm
  · refine ⟨rfl, ?_, ?_⟩ <;> rw [State.setRq_rq_of_ne _ same] <;> exact id

omit [DecidableEq Task] in
theorem frame_of_same {d : Cpu} {rq : Rq Cpu Task} (wakeList : rq.wakeList = (s.rq d).wakeList)
    (ipi : rq.ipi = (s.rq d).ipi) : Frame c s (s.setRq d rq) :=
  frame_setRq (fun same empty => by rw [wakeList, same, empty]) fun same told => by rw [ipi, same, told]

omit [DecidableEq Cpu] in
theorem frame_setTask (frame : Frame c s s₁) (p : Task) (t : TaskStruct Cpu) : Frame c s (s₁.setTask p t) :=
  ⟨frame.act, frame.wakeList, frame.ipi⟩

omit [DecidableEq Cpu] in
theorem frame_setOnCpu (frame : Frame c s s₁) (p : Option Task) (onCpu : Bool) :
    Frame c s (setOnCpu s₁ p onCpu) := by
  cases p with
  | none => exact frame
  | some p => exact frame_setTask frame p _

omit [DecidableEq Task] in
theorem promised_goto (promised : Promised s c) (busy : ¬ Attends c w (s.act w)) (frame : Frame c s s₁)
    (a : Activity Cpu Task) : Promised (s₁.goto w a) c := by
  rcases promised with empty | told | ⟨d, attends⟩
  · exact .inl (frame.wakeList empty)
  · exact .inr (.inl (frame.ipi told))
  · have other : d ≠ w := fun same => busy (same ▸ attends)
    refine .inr (.inr ⟨d, ?_⟩)
    rw [elsewhere_goto frame.act a d other]
    exact attends

theorem promised_listAdd {mask : UInt64} {rq : Cpu} (promised : Promised s c)
    (here : s.act w = .ttwu p mask (.listAdd rq)) : Promised (ttwuStep s w p mask choice (.listAdd rq)) c := by
  by_cases first : rq = c ∧ (s.rq c).wakeList = []
  · -- the CPU that finds the list empty goes on to send the interrupt
    obtain ⟨rfl, empty⟩ := first
    refine .inr (.inr ⟨w, ?_⟩)
    rw [ttwuStep, goto_act_self, if_pos empty]
    rfl
  · refine promised_goto promised (by rw [here]; exact id) (frame_setRq (fun same empty => ?_) fun same told => ?_) _
    · exact absurd ⟨same, empty⟩ first
    · rw [same]
      exact told

theorem promised_ttwuStep {mask : UInt64} {pc : TtwuPc Cpu} (promised : Promised s c)
    (here : s.act w = .ttwu p mask pc) : Promised (ttwuStep s w p mask choice pc) c := by
  cases pc
  case listAdd rq => exact promised_listAdd promised here
  case kick rq =>
    by_cases same : rq = c
    · refine .inr (.inl ?_)
      simp [ttwuStep, State.goto, same]
    · refine promised_goto promised (by rw [here]; exact same) (frame_setRq ?_ ?_) _ <;>
        exact fun eq => absurd eq same
  all_goals
    have busy : ¬ Attends c w (s.act w) := by rw [here]; exact id
  case lockPi | testState | testOnRq | checkRq | relax | waitOnCpu =>
    simp only [ttwuStep]
    split_ifs <;> first | exact promised | exact promised_goto promised busy ⟨rfl, id, id⟩ _
  case lockRq | lockDest =>
    simp only [ttwuStep]
    split_ifs
    · exact promised_goto promised busy (frame_of_same (by rfl) (by rfl)) _
    · exact promised
  case remote rq =>
    simp only [ttwuStep]
    split_ifs <;> exact promised_goto promised busy ⟨rfl, id, id⟩ _
  case dropRq | unlockRemote | unlockDest => exact promised_goto promised busy (frame_of_same (by rfl) (by rfl)) _
  case markWaking | activate =>
    exact promised_goto promised busy (frame_setTask (frame_of_same (by rfl) (by rfl)) _ _) _
  all_goals exact promised_goto promised busy ⟨rfl, id, id⟩ _

theorem promised_scheduleStep {preempt : Bool} {prev : Option Task} {pc : SchedulePc} (promised : Promised s c)
    (here : s.act w = .schedule preempt prev pc) : Promised (scheduleStep s w preempt prev choice pc) c := by
  have busy : ¬ Attends c w (s.act w) := by rw [here]; exact id
  cases pc
  case lock | dropped =>
    simp only [scheduleStep]
    split_ifs
    · exact promised_goto promised busy (frame_of_same (by rfl) (by rfl)) _
    · exact promised
  case decide =>
    cases prev with
    | none => exact promised_goto promised busy frame_refl _
    | some p =>
      simp only [scheduleStep]
      split_ifs
      · exact promised_goto promised busy frame_refl _
      · exact promised_goto promised busy ⟨rfl, id, id⟩ _
      · exact promised_goto promised busy (frame_setTask (frame_of_same (by rfl) (by rfl)) _ _) _
  case pick =>
    simp only [scheduleStep]
    split_ifs
    · exact promised_goto promised busy (frame_of_same (by rfl) (by rfl)) _
    · exact promised_goto promised busy frame_refl _
    · exact promised_goto promised busy (frame_setOnCpu (frame_of_same (by rfl) (by rfl)) _ _) _
  case finish => exact promised_goto promised busy (frame_setOnCpu frame_refl _ _) _
  case unlock => exact promised_goto promised busy (frame_of_same (by rfl) (by rfl)) _

theorem promised_pendingStep {tasks : List Task} {pc : PendingPc Task} (promised : Promised s c)
    (here : s.act w = .pending tasks pc) : Promised (pendingStep s w tasks pc) c := by
  cases pc
  case take =>
    by_cases same : w = c
    · subst same
      refine .inl ?_
      simp [pendingStep, State.goto]
    · refine promised_goto promised (by rw [here]; exact same) (frame_setRq ?_ ?_) _ <;>
        exact fun eq => absurd eq same
  all_goals
    have busy : ¬ Attends c w (s.act w) := by rw [here]; exact id
  case lock =>
    simp only [pendingStep]
    split_ifs
    · exact promised_goto promised busy (frame_of_same (by rfl) (by rfl)) _
    · exact promised
  case activate =>
    cases tasks with
    | nil => exact promised_goto promised busy frame_refl _
    | cons p rest =>
      exact promised_goto promised busy (frame_setTask (frame_of_same (by rfl) (by rfl)) _ _) _
  case setRunning p => exact promised_goto promised busy ⟨rfl, id, id⟩ _
  case unlock => exact promised_goto promised busy (frame_of_same (by rfl) (by rfl)) _

theorem promised_moveStep {pc : MovePc Cpu} (promised : Promised s c) (here : s.act w = .move p pc) :
    Promised (moveStep s w p choice pc) c := by
  have busy : ¬ Attends c w (s.act w) := by rw [here]; exact id
  cases pc
  case lockPi | checkRq | relax =>
    simp only [moveStep]
    split_ifs <;> first | exact promised | exact promised_goto promised busy ⟨rfl, id, id⟩ _
  case lockRq | lockDest =>
    simp only [moveStep]
    split_ifs
    · exact promised_goto promised busy (frame_of_same (by rfl) (by rfl)) _
    · exact promised
  case moveQueued rq =>
    simp only [moveStep]
    split_ifs
    · exact promised_goto promised busy (frame_setTask (frame_of_same (by rfl) (by rfl)) _ _) _
    · exact promised_goto promised busy frame_refl _
  case attach => exact promised_goto promised busy (frame_setTask (frame_of_same (by rfl) (by rfl)) _ _) _
  case unlockSrc | unlockRq | dropRq => exact promised_goto promised busy (frame_of_same (by rfl) (by rfl)) _
  all_goals exact promised_goto promised busy ⟨rfl, id, id⟩ _

theorem promised_balanceStep {tasks : List Task} {src dst : Cpu} {pc : BalancePc} (promised : Promised s c)
    (here : s.act w = .balance tasks src dst pc) : Promised (balanceStep s w tasks src dst choice pc) c := by
  have busy : ¬ Attends c w (s.act w) := by rw [here]; exact id
  cases pc
  case lockSrc | lockDst =>
    simp only [balanceStep]
    split_ifs
    · exact promised_goto promised busy (frame_of_same (by rfl) (by rfl)) _
    · exact promised
  case detach =>
    simp only [balanceStep]
    cases choice.task with
    | none => exact promised_goto promised busy (frame_of_same (by rfl) (by rfl)) _
    | some p =>
      dsimp only
      split_ifs
      · exact promised_goto promised busy (frame_setTask (frame_of_same (by rfl) (by rfl)) _ _) _
      · exact promised
  case attach =>
    cases tasks with
    | nil => exact promised_goto promised busy frame_refl _
    | cons p rest =>
      exact promised_goto promised busy (frame_setTask (frame_of_same (by rfl) (by rfl)) _ _) _
  case unlockDst => exact promised_goto promised busy (frame_of_same (by rfl) (by rfl)) _

theorem promised_specialStep {value : UInt64} {pc : SpecialPc} (promised : Promised s c)
    (here : s.act w = .special p value pc) : Promised (specialStep s w p value pc) c := by
  have busy : ¬ Attends c w (s.act w) := by rw [here]; exact id
  cases pc
  case lockPi =>
    simp only [specialStep]
    split_ifs
    · exact promised_goto promised busy ⟨rfl, id, id⟩ _
    · exact promised
  all_goals exact promised_goto promised busy ⟨rfl, id, id⟩ _

theorem promised_advance (promised : Promised s c) (w : Cpu) (choice : Choice Cpu Task) :
    Promised (advance s w choice) c := by
  unfold advance
  split
  next => exact promised
  next here => exact promised_ttwuStep promised here
  next here => exact promised_scheduleStep promised here
  next here => exact promised_pendingStep promised here
  next here => exact promised_moveStep promised here
  next here => exact promised_balanceStep promised here
  next here => exact promised_specialStep promised here

omit [DecidableEq Task] in
theorem promised_enter (promised : Promised s c) (w : Cpu) (a : Activity Cpu Task) :
    Promised (enter s w a) c := by
  unfold enter
  split_ifs with idle
  · exact promised_goto promised (by rw [act_eq_run idle]; exact id) frame_refl a
  · exact promised

omit [DecidableEq Cpu] in
theorem promised_modifyCurrent (promised : Promised s c) (w : Cpu) (f : TaskStruct Cpu → TaskStruct Cpu) :
    Promised (modifyCurrent s w f) c := by
  unfold modifyCurrent
  split
  · exact promised
  · split_ifs <;> exact promised

theorem promised_moveBoth {src dst : Cpu} (promised : Promised s c) : Promised (moveBoth s p src dst) c := by
  have rq : ((moveBoth s p src dst).rq c).wakeList = (s.rq c).wakeList ∧
      ((moveBoth s p src dst).rq c).ipi = (s.rq c).ipi := by
    simp only [moveBoth, State.setTask, State.setRq, Function.update_apply]
    split_ifs with atDst atSrc
    · exact atDst ▸ ⟨rfl, rfl⟩
    · exact atSrc ▸ ⟨rfl, rfl⟩
    · exact ⟨rfl, rfl⟩
  rw [Promised, rq.1, rq.2]
  exact promised

theorem promised_step (promised : Promised s c) (act : Action Cpu Task) : Promised (step s act) c := by
  cases act with
  | tryToWakeUp | schedule | setCpusAllowed | loadBalance => exact promised_enter promised _ _
  | schedTtwuPending d ipi =>
    simp only [step]
    split_ifs with idle
    · by_cases same : d = c
      · -- the interrupt is gone, and the CPU is about to take its list
        subst same
        refine .inr (.inr ⟨d, ?_⟩)
        rw [goto_act_self]
        rfl
      · refine promised_goto promised (by rw [act_eq_run idle]; exact id) (frame_setRq ?_ ?_) _ <;>
          exact fun eq => absurd eq same
    · exact promised
  | setCurrentState | setFlags => exact promised_modifyCurrent promised _ _
  | setSpecialState d value =>
    simp only [step]
    split
    · exact promised
    · exact promised_enter promised _ _
  | moveLocked p src dst =>
    simp only [step]
    split_ifs
    · exact promised_moveBoth promised
    · exact promised
  | advance w choice => exact promised_advance promised w choice

/-! ## Whole runs -/

/-- Every task on a wake list is being woken towards that CPU, and the CPU will look. -/
def Kept (s : State Cpu Task) : Prop :=
  ∀ c p, p ∈ (s.rq c).wakeList → (s.task p).state = taskWaking ∧ (s.task p).cpu = c ∧
    ((s.rq c).ipi ∨ ∃ w, Attends c w (s.act w))

theorem kept_of_promised (inv : Inv s) (promised : ∀ c, Promised s c) : Kept s := by
  intro c p member
  obtain ⟨place, fit⟩ := inv.placed p
  have listed : place = .listed c := by
    have count : (s.rq c).wakeList.count p = once place.wakeList c := congrFun fit.wakeList c
    have pos := List.count_pos_iff.mpr member
    have there : place.wakeList = some c := by
      by_contra off
      rw [once, if_neg off] at count
      omega
    cases place <;> simp_all [Place.wakeList]
  subst listed
  refine ⟨fit.fits.waking.mpr rfl, fit.fits.home c rfl, (promised c).resolve_left ?_⟩
  exact List.ne_nil_of_mem member

theorem always_kept {acts : List (Action Cpu Task)} (start : Start s) (legal : Along step Legal s acts) :
    Always step Kept s acts :=
  always_of_invariant (fun s => Inv s ∧ ∀ c, Promised s c)
    (fun _ act legal inv => ⟨inv_step inv.1 act legal, fun c => promised_step (inv.2 c) act⟩)
    (fun _ inv => kept_of_promised inv.1 inv.2) ⟨inv_of_start start, fun c => .inl (start.rq c).2.2⟩ legal

def oneAsleep : State (Fin 2) (Fin 1) where
  task _ := ⟨taskInterruptible, .no, false, cpu0, false, false, false⟩
  rq _ := ⟨none, [], [], none, 0, 0, false⟩
  piLock _ := none
  act _ := .run

/-- The second CPU wakes it through the wake list of the first. -/
def wakesRemotely : List (WakeModel.Action (Fin 2) (Fin 1)) :=
  .tryToWakeUp cpu1 init taskNormal :: List.replicate 8 (.advance cpu1 ⟨cpu0, none, true⟩)

theorem start_oneAsleep : Start oneAsleep := by
  refine ⟨fun _ => rfl, fun _ => rfl, fun _ => ⟨rfl, rfl, rfl⟩, fun _ _ => rfl, fun _ => ?_, fun _ _ => ?_⟩
  · exact ⟨rfl, OnRq.noConfusion, (by decide : taskInterruptible ≠ taskWaking)⟩
  · exact (by decide : taskInterruptible ≠ taskRunning)

theorem legal_wakesRemotely : Along step Legal oneAsleep wakesRemotely :=
  ⟨(by decide : taskNormal &&& (taskWaking ||| taskDead) = 0), along_of_forall_mem _ (by simp [Legal])⟩

theorem always_kept_remote : ((run step oneAsleep wakesRemotely).rq cpu0).wakeList = [init] ∧
    Always step Kept oneAsleep wakesRemotely :=
  ⟨by decide, always_kept start_oneAsleep legal_wakesRemotely⟩

end UnixSystems.WakePromise
