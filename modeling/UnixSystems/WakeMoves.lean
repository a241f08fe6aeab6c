import UnixSystems.WakeUps
import UnixSystems.WakeSwitch

/-! Migration and load balancing keep every task in one place, and so does every step. -/

namespace UnixSystems.WakeMoves
open WakeModel WakePlaces WakeFrame WakeUps WakeSwitch Holders

variable {Cpu Task : Type} [DecidableEq Cpu] [DecidableEq Task] {s s₁ : State Cpu Task}
  {a : Activity Cpu Task} {c w : Cpu} {p : Task}

/-! ## `__set_cpus_allowed_ptr` -/

section Move

variable {pc pc' : MovePc Cpu}

theorem placed_move (inv : Inv s) (here : s.act w = .move p pc) (same : ∀ q, view s₁ q = view s q)
    (allows : ∀ place, Fit (view s p) place → Role.Allows w place (moveRole pc) →
      Role.Allows w place (moveRole pc')) :
    ∀ q, ∃ place, Fit (view (s₁.goto w (.move p pc')) q) place := by
  refine placed_goto inv.placed same (fun q => by simp [batch]) fun q place fit => ?_
  have before := fit.roles w
  by_cases self : q = p
  · subst self
    simp only [view, here, role, if_pos] at before
    simpa [role] using allows place fit before
  · simpa [view, here, role, self] using before

theorem placed_moveQueued {rq : Cpu} (inv : Inv s) (here : s.act w = .move p (.moveQueued rq))
    (queued : (s.task p).onRq = .queued) (idle : (s.task p).onCpu = false) (dest : Cpu) :
    ∀ q, ∃ place, Fit (view (((s.setRq rq { s.rq rq with queue := (s.rq rq).queue.erase p }).setTask p
      { s.task p with onRq := .migrating, cpu := dest }).goto w (.move p (.unlockSrc rq dest))) q) place := by
  obtain ⟨place, fit⟩ := inv.placed p
  have plays : Role.Allows w place (some (.seen rq)) := by
    simpa [view, here, role, moveRole] using fit.roles w
  have lock : rqLock w (s.act w) = some rq := by rw [here]; rfl
  have enqueued : place.queue = some rq := by
    have onRq := fit.fits.onRq.symm.trans queued
    have home := plays.2.2
    cases place <;> simp_all [Place.onRq, Place.queue, Place.home]
  have idle : place.onCpu = false := fit.fits.onCpu.symm.trans idle
  obtain rfl : place = .ready rq := eq_ready inv fit
    (List.count_pos_iff.mp (by rw [count_eq_one fit enqueued]; omega))
    ⟨by rintro rfl; simp [Place.onCpu] at idle, by rintro rfl; simp [Place.onCpu] at idle⟩ lock plays.1
  have after : view ((s.setRq rq { s.rq rq with queue := (s.rq rq).queue.erase p }).setTask p
      { s.task p with onRq := .migrating, cpu := dest }) p =
      { view s p with queue := once none, task := { s.task p with onRq := .migrating, cpu := dest } } := by
    rw [view_setTask_self, queue_dequeue fit rfl] <;> rfl
  refine placed_hop inv rfl (fun q other => ?_) (fun q other => by simp [here, batch, role, other]) fit
    (.detach rq dest) (by simp [Place.home]) (by simpa using lock) ?_ ?_ ?_ ?_ (by simp [batch])
    (by simp [role, moveRole, Role.Allows])
  · rw [view_setTask_of_ne _ other, view_dequeue_of_ne other] <;> rfl
  · rw [after]
    rfl
  · rw [after]
    exact fit.wakeList
  · rw [after]
    exact fit.curr
  · rw [State.setTask_task]
    exact ⟨rfl, fit.fits.onCpu, by simp [Place.home], fit.fits.waking, fit.fits.asleep⟩

theorem placed_attach {dest : Cpu} (inv : Inv s) {place : Place Cpu} (fit : Fit (view s p) place)
    (carried : place = .migrating w dest) (rq : Rq Cpu Task) (queue : rq.queue = p :: (s.rq dest).queue)
    (wakeList : rq.wakeList = (s.rq dest).wakeList) (curr : rq.curr = (s.rq dest).curr)
    (quiet : ∀ q, q ≠ p → (batch a).count q = (batch (s.act w)).count q ∧ role w a q = role w (s.act w) q)
    (batch : (batch a).count p ≤ 1) (done : role w a p = none) :
    ∀ q, ∃ place, Fit (view (((s.setRq dest rq).setTask p { s.task p with onRq := .queued }).goto w a) q)
      place := by
  subst carried
  have after : view ((s.setRq dest rq).setTask p { s.task p with onRq := .queued }) p =
      { view s p with queue := once (some dest), task := { s.task p with onRq := .queued } } := by
    rw [view_setTask_self, queue_enqueue fit rfl queue wakeList curr]
  refine placed_hop inv rfl (fun q other => ?_) quiet fit (.attach dest) (by simp [Place.home]) (by simp)
    ?_ ?_ ?_ ?_ batch (by simp [done, Role.Allows, Place.owner])
  · rw [view_setTask_of_ne _ other, view_enqueue_of_ne other queue wakeList curr]
  · rw [after]
    rfl
  · rw [after]
    exact fit.wakeList
  · rw [after]
    exact fit.curr
  · rw [State.setTask_task]
    exact ⟨rfl, fit.fits.onCpu, fit.fits.home, fit.fits.waking, by simp [Place.off]⟩

theorem inv_moveStep (inv : Inv s) (here : s.act w = .move p pc) (choice : Choice Cpu Task) :
    Inv (moveStep s w p choice pc) := by
  have rqs := congrArg (rqLock w) here
  have pis := congrArg piLock here
  have seen : ∀ q, view s q = view s q := fun _ => rfl
  cases pc with
  | lockPi =>
    simp only [moveStep]
    split_ifs with free
    · exact ⟨locks_lockPi inv.locks free pis rfl rqs.symm trivial,
        placed_move inv here (fun q => view_setPi s p q _) fun _ _ plays => plays⟩
    · exact inv
  | readRq =>
    exact ⟨locks_goto inv.locks rqs.symm pis.symm trivial, placed_move inv here seen fun _ _ plays => plays⟩
  | lockRq rq =>
    simp only [moveStep]
    split_ifs with free
    · exact ⟨locks_lockRq inv.locks free rqs rfl pis.symm trivial,
        placed_move inv here (fun q => view_lockRq s q rq w) fun _ _ plays => plays⟩
    · exact inv
  | checkRq rq =>
    simp only [moveStep]
    split_ifs with found
    · refine ⟨locks_goto inv.locks rqs.symm pis.symm trivial, placed_move inv here seen ?_⟩
      intro place fit plays
      refine ⟨plays, fun away => found.2 (fit.fits.onRq.trans away), fun c home => ?_⟩
      rw [← fit.fits.home c home]
      exact found.1
    · exact ⟨locks_goto inv.locks rqs.symm pis.symm trivial,
        placed_move inv here seen fun _ _ plays => plays⟩
  | moveQueued rq =>
    simp only [moveStep]
    split_ifs with moves
    · exact ⟨locks_goto (locks_setTask (locks_setRq inv.locks (by rfl) (by rfl)) p _) rqs.symm pis.symm trivial,
        placed_moveQueued inv here moves.2.1 moves.2.2 choice.cpu⟩
    · exact ⟨locks_goto inv.locks rqs.symm pis.symm trivial,
        placed_move inv here seen fun _ _ plays => plays.1⟩
  | unlockSrc rq dest =>
    exact ⟨locks_unlockRq inv.locks rqs rfl pis.symm trivial,
      placed_move inv here (fun q => view_unlockRq s q rq) fun _ _ plays => plays⟩
  | lockDest dest =>
    simp only [moveStep]
    split_ifs with free
    · exact ⟨locks_lockRq inv.locks free rqs rfl pis.symm trivial,
        placed_move inv here (fun q => view_lockRq s q dest w) fun _ _ plays => plays⟩
    · exact inv
  | attach dest =>
    obtain ⟨place, fit⟩ := inv.placed p
    have carried : place = .migrating w dest := by
      simpa [view, here, role, moveRole, Role.Allows] using fit.roles w
    exact ⟨locks_goto (locks_setTask (locks_setRq inv.locks (by rfl) (by rfl)) p _) rqs.symm pis.symm trivial,
      placed_attach inv fit carried _ rfl rfl rfl (fun q other => by simp [here, batch, role, other])
        (by simp [batch]) (by simp [role, moveRole])⟩
  | unlockRq rq =>
    exact ⟨locks_unlockRq inv.locks rqs rfl pis.symm trivial,
      placed_move inv here (fun q => view_unlockRq s q rq) fun _ _ plays => plays⟩
  | unlockPi =>
    exact ⟨locks_unlockPi inv.locks pis rfl rqs.symm trivial,
      placed_same inv (fun q => view_setPi s p q _) (fun q => by simp [here, batch])
        fun q => by simp [here, role, moveRole]⟩
  | dropRq rq =>
    exact ⟨locks_unlockRq inv.locks rqs rfl pis.symm trivial,
      placed_move inv here (fun q => view_unlockRq s q rq) fun _ _ plays => plays⟩
  | dropPi =>
    exact ⟨locks_unlockPi inv.locks pis rfl rqs.symm trivial,
      placed_move inv here (fun q => view_setPi s p q _) fun _ _ plays => plays⟩
  | relax =>
    simp only [moveStep]
    split_ifs
    · exact inv
    · exact ⟨locks_goto inv.locks rqs.symm pis.symm trivial,
        placed_move inv here seen fun _ _ plays => plays⟩

end Move

/-! ## `load_balance` -/

section Balance

variable {tasks : List Task} {src dst : Cpu} {pc : BalancePc}

theorem placed_detach (inv : Inv s) (here : s.act w = .balance tasks src dst .detach)
    (queued : p ∈ (s.rq src).queue) (idle : (s.task p).onCpu = false) :
    ∀ q, ∃ place, Fit (view ((detachTask s p src dst).goto w (.balance (p :: tasks) src dst .detach)) q)
      place := by
  obtain ⟨place, fit⟩ := inv.placed p
  have lock : rqLock w (s.act w) = some src := by rw [here]; rfl
  have onRq := queue_of_mem fit queued
  have fresh : p ∉ tasks := by
    intro member
    have carried : place = .migrating w dst := by
      simpa [view, here, role, member, Role.Allows] using fit.roles w
    simp [carried, Place.queue] at onRq
  have free : place.owner ≠ some w := by
    simpa [view, here, role, fresh, Role.Allows] using fit.roles w
  have idle : place.onCpu = false := fit.fits.onCpu.symm.trans idle
  obtain rfl : place = .ready src := eq_ready inv fit queued
    ⟨by rintro rfl; simp [Place.onCpu] at idle, by rintro rfl; simp [Place.onCpu] at idle⟩ lock free
  have after : view (detachTask s p src dst) p =
      { view s p with queue := once none, task := { s.task p with onRq := .migrating, cpu := dst } } := by
    rw [detachTask, view_setTask_self, queue_dequeue fit rfl] <;> rfl
  refine placed_hop inv rfl (fun q other => ?_) (fun q other => ?_) fit (.detach src dst)
    (by simp [Place.home]) (by simpa using lock) ?_ ?_ ?_ ?_ ?_ (by simp [role, Role.Allows])
  · rw [detachTask, view_setTask_of_ne _ other, view_dequeue_of_ne other] <;> rfl
  · simp [here, batch, role, other, List.count_cons_of_ne other.symm]
  · rw [after]
    rfl
  · rw [after]
    exact fit.wakeList
  · rw [after]
    exact fit.curr
  · rw [detachTask, State.setTask_task]
    exact ⟨rfl, fit.fits.onCpu, by simp [Place.home], fit.fits.waking, fit.fits.asleep⟩
  · simp [batch, List.count_eq_zero.mpr fresh]

theorem inv_balanceStep (inv : Inv s) (here : s.act w = .balance tasks src dst pc)
    (choice : Choice Cpu Task) : Inv (balanceStep s w tasks src dst choice pc) := by
  have rqs := congrArg (rqLock w) here
  have pis := congrArg piLock here
  have own := inv.locks.own w
  rw [here] at own
  cases pc with
  | lockSrc =>
    simp only [balanceStep]
    split_ifs with free
    · exact ⟨locks_lockRq inv.locks free rqs rfl pis.symm trivial,
        placed_same inv (fun q => view_lockRq s q src w) (fun q => by rw [here]; rfl)
          fun q => by rw [here]; rfl⟩
    · exact inv
  | detach =>
    simp only [balanceStep]
    cases choice.task with
    | some p =>
      dsimp only
      split_ifs with moves
      · refine ⟨locks_goto ?_ rqs.symm pis.symm trivial, placed_detach inv here moves.1 moves.2⟩
        rw [detachTask]
        exact locks_setTask (locks_setRq inv.locks (by rfl) (by rfl)) p _
      · exact inv
    | none =>
      dsimp only
      split_ifs with empty
      · exact ⟨locks_unlockRq inv.locks rqs rfl pis.symm trivial,
          placed_same inv (fun q => view_unlockRq s q src) (fun q => by rw [here, empty]; rfl)
            fun q => by simp [here, empty, role]⟩
      · exact ⟨locks_unlockRq inv.locks rqs rfl pis.symm trivial,
          placed_same inv (fun q => view_unlockRq s q src) (fun q => by rw [here]; rfl)
            fun q => by rw [here]; rfl⟩
  | lockDst =>
    simp only [balanceStep]
    split_ifs with free
    · exact ⟨locks_lockRq inv.locks free rqs rfl pis.symm trivial,
        placed_same inv (fun q => view_lockRq s q dst w) (fun q => by rw [here]; rfl)
          fun q => by rw [here]; rfl⟩
    · exact inv
  | attach =>
    cases tasks with
    | nil =>
      exact ⟨locks_goto inv.locks rqs.symm pis.symm rfl,
        placed_same inv (fun _ => rfl) (fun q => by rw [here]; rfl) fun q => by rw [here]; rfl⟩
    | cons p rest =>
      obtain ⟨place, fit⟩ := inv.placed p
      have fresh : p ∉ rest := by
        have single : (p :: rest).count p ≤ 1 := by simpa [view, here, batch] using fit.batch w
        rw [List.count_cons_self] at single
        exact List.count_eq_zero.mp (by omega)
      have carried : place = .migrating w dst := by
        simpa [view, here, role, Role.Allows] using fit.roles w
      refine ⟨locks_goto ?_ rqs.symm pis.symm trivial, placed_attach inv fit carried _ rfl rfl rfl
        (fun q other => ?_) ?_ ?_⟩
      · rw [attachTask]
        exact locks_setTask (locks_setRq inv.locks (by rfl) (by rfl)) p _
      · simp [here, batch, role, other, List.count_cons_of_ne other.symm]
      · simp [batch, List.count_eq_zero.mpr fresh]
      · simp [role, fresh]
  | unlockDst =>
    obtain rfl : tasks = [] := own
    exact ⟨locks_unlockRq inv.locks rqs rfl pis.symm trivial,
      placed_same inv (fun q => view_unlockRq s q dst) (fun q => by rw [here]; rfl)
        fun q => by simp [here, role]⟩

end Balance

/-! ## The current task and whole steps -/

section Steps

theorem inv_specialStep {value : UInt64} {pc : SpecialPc} (inv : Inv s)
    (here : s.act w = .special p value pc) : Inv (specialStep s w p value pc) := by
  have rqs := congrArg (rqLock w) here
  have pis := congrArg piLock here
  have own := inv.locks.own w
  rw [here] at own
  cases pc with
  | lockPi =>
    simp only [specialStep]
    split_ifs with free
    · exact ⟨locks_lockPi inv.locks free pis rfl rqs.symm own,
        placed_same inv (fun q => view_setPi s p q _) (fun q => by rw [here]; rfl) fun q => by rw [here]; rfl⟩
    · exact inv
  | set =>
    have inv' : Inv (s.setTask p { s.task p with state := value }) := inv_setTask inv fun place fit => by
      obtain rfl := eq_running fit own.1 (by rw [here]; rfl)
      exact ⟨fit.fits.onRq, fit.fits.onCpu, fit.fits.home, by simpa [Place.woken] using own.2,
        by simp [Place.off]⟩
    exact ⟨locks_goto inv'.locks rqs.symm pis.symm own,
      placed_same inv' (fun _ => rfl) (fun q => by rw [State.setTask, here]; rfl)
        fun q => by rw [State.setTask, here]; rfl⟩
  | unlockPi =>
    exact ⟨locks_unlockPi inv.locks pis rfl rqs.symm trivial,
      placed_same inv (fun q => view_setPi s p q _) (fun q => by rw [here]; rfl) fun q => by rw [here]; rfl⟩

theorem inv_advance (inv : Inv s) (c : Cpu) (choice : Choice Cpu Task) : Inv (advance s c choice) := by
  unfold advance
  split
  next => exact inv
  next here => exact inv_ttwuStep inv here choice
  next here => exact inv_scheduleStep inv here choice
  next here => exact inv_pendingStep inv here
  next here => exact inv_moveStep inv here choice
  next here => exact inv_balanceStep inv here choice
  next here => exact inv_specialStep inv here

omit [DecidableEq Cpu] [DecidableEq Task] in
theorem act_eq_run (idle : (s.act c).isRun = true) : s.act c = .run := by
  cases e : s.act c <;> simp_all [Activity.isRun]

theorem inv_enter (inv : Inv s) (idle : (s.act c).isRun = true) (rq : rqLock c a = none)
    (pi : piLock a = none) (empty : batch a = []) (roles : ∀ q, role c a q = none)
    (own : Local (s.rq c).curr a) : Inv (s.goto c a) := by
  have here := act_eq_run idle
  refine ⟨locks_goto inv.locks ?_ ?_ own, placed_same inv (fun _ => rfl) (fun q => ?_) fun q => ?_⟩
  · rw [rq, here]
    rfl
  · rw [pi, here]
    rfl
  · rw [empty, here]
    rfl
  · rw [roles, here]
    rfl

theorem inv_modifyCurrent (inv : Inv s) (c : Cpu) {f : TaskStruct Cpu → TaskStruct Cpu}
    (fits : ∀ t, (Place.running c).Fits t → (Place.running c).Fits (f t)) :
    Inv (modifyCurrent s c f) := by
  unfold modifyCurrent
  split
  next => exact inv
  next p curr =>
    split_ifs with idle
    · refine inv_setTask inv fun place fit => ?_
      obtain rfl := eq_running fit curr (by rw [act_eq_run idle]; rfl)
      exact fits _ fit.fits
    · exact inv

omit [DecidableEq Cpu] in
theorem allows_moved {r : Option (Role Cpu)} {src : Cpu} (dst : Cpu)
    (allows : Role.Allows w (.ready src) r) (lock : ∀ r', r = some r' → r'.needsRq ≠ some src) :
    Role.Allows w (.ready dst) r := by
  cases r with
  | none => simp [Role.Allows, Place.owner]
  | some r =>
    cases r with
    | seen rq => exact absurd (congrArg some (allows.2.2 src rfl).symm) (lock _ rfl)
    | checked rq => exact absurd (congrArg some (allows.2.2.1 src rfl).symm) (lock _ rfl)
    | _ => simp_all [Role.Allows, Place.owner, Place.woken, Place.off]

theorem inv_moveBoth {src dst : Cpu} (inv : Inv s) (free : bothFree s src dst)
    (queued : p ∈ (s.rq src).queue) (idle : (s.task p).onCpu = false) : Inv (moveBoth s p src dst) := by
  have unlocked : ∀ d, ∀ r, (view s p).role d = some r → r.needsRq ≠ some src := fun d r plays needs =>
    inv.locks.rq.not_free (rqLock_of_role plays needs) free.2.1
  obtain ⟨place, fit⟩ := inv.placed p
  obtain rfl : place = .ready src := by
    have onRq := queue_of_mem fit queued
    have idle : place.onCpu = false := fit.fits.onCpu.symm.trans idle
    cases place with
    | activated d v =>
      obtain rfl : d = src := Option.some.inj onRq
      exact absurd rfl (unlocked v _ (role_of_activated fit))
    | _ => simp_all [Place.queue, Place.onCpu]
  have absent : (s.rq dst).queue.count p = 0 := by
    simpa [view, once, Place.queue, free.1] using congrFun fit.queue dst
  refine ⟨?_, fun q => ?_⟩
  · refine locks_setTask (locks_setRq (locks_setRq inv.locks (by rfl) (by rfl)) ?_ ?_) p _ <;>
      rw [State.setRq_rq_of_ne _ free.1.symm] <;> rfl
  · by_cases self : q = p
    · subst self
      refine ⟨.ready dst, ?_⟩
      have off : view (s.setRq src (deactivateTask (s.rq src) q (s.task q))) q =
          { view s q with queue := once none } := queue_dequeue fit rfl (by rfl) (by rfl) (by rfl)
      have after : view (moveBoth s q src dst) q =
          { view s q with queue := once (some dst), task := { s.task q with cpu := dst } } := by
        rw [moveBoth, view_setTask_self, view_setRq_queue, off]
        · simp only [activateTask, List.count_cons_self, absent, Nat.zero_add, update_once_none_one]
        · rw [State.setRq_rq_of_ne _ free.1.symm]
          rfl
        · rw [State.setRq_rq_of_ne _ free.1.symm]
          rfl
      rw [after]
      refine ⟨rfl, fit.wakeList, fit.batch, fit.curr, ?_, fun d => allows_moved dst (fit.roles d) (unlocked d)⟩
      exact ⟨fit.fits.onRq, fit.fits.onCpu, by simp [Place.home], fit.fits.waking, fit.fits.asleep⟩
    · obtain ⟨place, fit⟩ := inv.placed q
      refine ⟨place, ?_⟩
      have first : view (s.setRq src (deactivateTask (s.rq src) p (s.task p))) q = view s q :=
        view_dequeue_of_ne self (by rfl) (by rfl) (by rfl)
      have second : view (moveBoth s p src dst) q = view s q := by
        rw [moveBoth, view_setTask_of_ne _ self, view_enqueue_of_ne self, first] <;>
          rw [State.setRq_rq_of_ne _ free.1.symm] <;> rfl
      rw [second]
      exact fit

/-- What the environment keeps to. A dead task executes nothing but its last `__schedule`; the
states of a wake-up mask are those a task may sleep in. -/
def Legal (s : State Cpu Task) : Action Cpu Task → Prop
  | .tryToWakeUp _ _ mask => mask &&& (taskWaking ||| taskDead) = 0
  | .setCurrentState c value => value ≠ taskWaking ∧ value ≠ taskDead ∧
      ∀ p, (s.rq c).curr = some p → (s.task p).state ≠ taskDead
  | .setSpecialState c value => value ≠ taskWaking ∧
      ∀ p, (s.rq c).curr = some p → (s.task p).state ≠ taskDead
  | _ => True

theorem inv_step (inv : Inv s) (act : Action Cpu Task) (legal : Legal s act) : Inv (step s act) := by
  cases act with
  | tryToWakeUp c p mask =>
    simp only [step, enter]
    split_ifs with idle
    · exact inv_enter inv idle rfl rfl rfl (fun q => by simp [role, ttwuRole]) legal
    · exact inv
  | schedule c preempt =>
    simp only [step, enter]
    split_ifs with idle
    · exact inv_enter inv idle rfl rfl rfl (fun q => by simp [role, scheduleRole]) rfl
    · exact inv
  | schedTtwuPending c ipi =>
    simp only [step]
    split_ifs with idle
    · have inv' : Inv (s.setRq c { s.rq c with ipi := (s.rq c).ipi && !ipi }) :=
        inv_setRq inv (by rfl) (by rfl) (by rfl) (by rfl)
      exact inv_enter inv' idle rfl rfl rfl (fun q => by simp [role]) rfl
    · exact inv
  | setCpusAllowed c p =>
    simp only [step, enter]
    split_ifs with idle
    · exact inv_enter inv idle rfl rfl rfl (fun q => by simp [role, moveRole]) trivial
    · exact inv
  | loadBalance c src =>
    simp only [step, enter]
    split_ifs with idle
    · exact inv_enter inv idle rfl rfl rfl (fun q => by simp [role]) trivial
    · exact inv
  | setCurrentState c value =>
    simp only [step]
    refine inv_modifyCurrent inv c fun t fits => ?_
    exact ⟨fits.onRq, fits.onCpu, fits.home, by simpa [Place.woken] using legal.1, by simp [Place.off]⟩
  | setSpecialState c value =>
    simp only [step]
    cases curr : (s.rq c).curr with
    | none => exact inv
    | some p =>
      dsimp only [enter]
      split_ifs with idle
      · exact inv_enter inv idle rfl rfl rfl (fun q => rfl) ⟨curr, legal.1⟩
      · exact inv
  | setFlags c frozen inIowait =>
    simp only [step]
    refine inv_modifyCurrent inv c fun t fits => ?_
    exact ⟨fits.onRq, fits.onCpu, fits.home, fits.waking, fits.asleep⟩
  | moveLocked p src dst =>
    simp only [step]
    split_ifs with moves
    · exact inv_moveBoth inv moves.1 moves.2.1 moves.2.2
    · exact inv
  | advance c choice => exact inv_advance inv c choice

end Steps

end UnixSystems.WakeMoves
