import UnixSystems.WakeFrame

/-! `try_to_wake_up` and `sched_ttwu_pending` keep every task in one place. -/

namespace UnixSystems.WakeUps
open WakeModel WakePlaces WakeFrame Holders

variable {Cpu Task : Type} [DecidableEq Cpu] [DecidableEq Task] {s s₁ : State Cpu Task}
  {a : Activity Cpu Task} {c w : Cpu} {p : Task}

/-! ## `try_to_wake_up` -/

section Ttwu

variable {mask : UInt64} {pc pc' : TtwuPc Cpu}

theorem placed_ttwu (inv : Inv s) (here : s.act w = .ttwu p mask pc) (same : ∀ q, view s₁ q = view s q)
    (allows : ∀ place, Fit (view s p) place → Role.Allows w place (ttwuRole pc) →
      Role.Allows w place (ttwuRole pc')) :
    ∀ q, ∃ place, Fit (view (s₁.goto w (.ttwu p mask pc')) q) place := by
  refine placed_goto inv.placed same (fun q => by simp [batch]) fun q place fit => ?_
  have before := fit.roles w
  by_cases self : q = p
  · subst self
    simp only [view, here, role, if_pos] at before
    simpa [role] using allows place fit before
  · simpa [view, here, role, self] using before

theorem placed_ttwu_run (inv : Inv s) (here : s.act w = .ttwu p mask pc) (last : ttwuRole pc = none)
    (same : ∀ q, view s₁ q = view s q) : ∀ q, ∃ place, Fit (view (s₁.goto w .run) q) place := by
  refine placed_goto inv.placed same (fun q => by simp [batch]) fun q place fit => ?_
  have before := fit.roles w
  by_cases self : q = p <;> simpa [view, here, role, self, last] using before

theorem placed_ttwu_hop (inv : Inv s) (here : s.act w = .ttwu p mask pc) (act : s₁.act = s.act)
    (others : ∀ q, q ≠ p → view s₁ q = view s q) {place place' : Place Cpu}
    (fit : Fit (view s p) place) (hop : Hop w place place') (pi : pc ≠ .lockPi)
    (unready : ∀ c, place ≠ .ready c) (queue : (view s₁ p).queue = once place'.queue)
    (wakeList : (view s₁ p).wakeList = once place'.wakeList)
    (curr : (view s₁ p).curr = fun c => place'.current = some c) (fits : place'.Fits (s₁.task p))
    (own : Role.Allows w place' (ttwuRole pc')) :
    ∀ q, ∃ place, Fit (view (s₁.goto w (.ttwu p mask pc')) q) place := by
  refine placed_hop inv act others (fun q other => by simp [here, batch, role, other]) fit hop
    (fun _ => ?_) (fun c ready => absurd ready (unready c)) queue wakeList curr fits
    (by simp [batch]) (by simpa [role] using own)
  rw [here]
  cases pc <;> first | rfl | exact absurd rfl pi

theorem and_mask_eq_zero {state mask : UInt64} (legal : mask &&& (taskWaking ||| taskDead) = 0)
    (within : state &&& (taskWaking ||| taskDead) = state) : state &&& mask = 0 := by
  have masked : state &&& (mask &&& (taskWaking ||| taskDead)) = 0 := by
    rw [legal]
    exact UInt64.and_zero
  rw [UInt64.and_comm mask, ← UInt64.and_assoc, within] at masked
  exact masked

/-- A wake-up that passes the test of `state` finds a task that nobody else is waking. -/
theorem woken_eq_false {place : Place Cpu} (fit : Fit (view s p) place)
    (legal : mask &&& (taskWaking ||| taskDead) = 0) (passes : (s.task p).state &&& mask ≠ 0) :
    place.woken = false := by
  by_contra woken
  have waking : (s.task p).state = taskWaking := fit.fits.waking.mpr (by simpa using woken)
  rw [waking] at passes
  exact passes (and_mask_eq_zero legal (by decide))

theorem inv_markWaking (inv : Inv s) (here : s.act w = .ttwu p mask .markWaking)
    (choice : Choice Cpu Task) : Inv (ttwuStep s w p mask choice .markWaking) := by
  have legal : mask &&& (taskWaking ||| taskDead) = 0 := by
    simpa [here, Local] using inv.locks.own w
  have rqs := congrArg (rqLock w) here
  have pis := congrArg piLock here
  have inv' : Inv (s.setRq (s.task p).cpu { s.rq (s.task p).cpu with nrIowait :=
      (s.rq (s.task p).cpu).nrIowait - if (s.task p).inIowait then 1 else 0 }) :=
    inv_setRq inv (by rfl) (by rfl) (by rfl) (by rfl)
  obtain ⟨place, fit⟩ := inv'.placed p
  obtain rfl : place = .blocked := by
    simpa [view, State.setRq, here, role, ttwuRole, Role.Allows] using fit.roles w
  refine ⟨locks_goto (locks_setTask inv'.locks _ _) rqs.symm pis.symm legal, ?_⟩
  refine placed_ttwu_hop inv' here rfl (fun q other => view_setTask_of_ne _ other _) fit .mark (by simp)
    (by simp) fit.queue fit.wakeList fit.curr ?_ rfl
  rw [State.setTask_task]
  exact ⟨fit.fits.onRq, fit.fits.onCpu, by simp [Place.home], by simp [Place.woken], by simp [Place.off]⟩

theorem placed_selectRq (inv : Inv s) (here : s.act w = .ttwu p mask .selectRq) (rq : Cpu) :
    ∀ q, ∃ place, Fit (view ((s.setTask p { s.task p with cpu := rq }).goto w (.ttwu p mask (.queue rq))) q)
      place := by
  obtain ⟨place, fit⟩ := inv.placed p
  obtain rfl : place = .waking w := by
    simpa [view, here, role, ttwuRole, Role.Allows] using fit.roles w
  refine placed_ttwu_hop inv here rfl (fun q other => view_setTask_of_ne _ other _) fit (.route rq) (by simp)
    (by simp) fit.queue fit.wakeList fit.curr ?_ rfl
  rw [State.setTask_task]
  exact ⟨fit.fits.onRq, fit.fits.onCpu, by simp [Place.home], fit.fits.waking, fit.fits.asleep⟩

theorem placed_listAdd {rq : Cpu} (inv : Inv s) (here : s.act w = .ttwu p mask (.listAdd rq))
    (done : ttwuRole pc' = none) :
    ∀ q, ∃ place, Fit (view ((s.setRq rq { s.rq rq with wakeList := p :: (s.rq rq).wakeList }).goto w
      (.ttwu p mask pc')) q) place := by
  obtain ⟨place, fit⟩ := inv.placed p
  obtain rfl : place = .routed w rq := by
    simpa [view, here, role, ttwuRole, Role.Allows] using fit.roles w
  have unlisted : (view s p).wakeList = once none := fit.wakeList
  have absent : (s.rq rq).wakeList.count p = 0 := congrFun unlisted rq
  have after : view (s.setRq rq { s.rq rq with wakeList := p :: (s.rq rq).wakeList }) p =
      { view s p with wakeList := once (some rq) } := by
    rw [view_setRq_wakeList, List.count_cons_self, absent, unlisted, update_once_none_one] <;> rfl
  refine placed_ttwu_hop inv here rfl (fun q other => ?_) fit (.list rq) (by simp) (by simp) ?_ ?_ ?_ ?_
    (by simp [done, Role.Allows, Place.owner])
  · rw [view_setRq_wakeList, List.count_cons_of_ne other.symm] <;> try rfl
    exact congrArg (fun l => { view s q with wakeList := l }) (Function.update_eq_self rq _)
  · rw [after]
    exact fit.queue
  · rw [after]
    rfl
  · rw [after]
    exact fit.curr
  · exact ⟨fit.fits.onRq, fit.fits.onCpu, fit.fits.home, fit.fits.waking, fit.fits.asleep⟩

theorem placed_ttwuActivate {rq : Cpu} (inv : Inv s) (here : s.act w = .ttwu p mask (.activate rq)) :
    ∀ q, ∃ place, Fit (view ((ttwuActivate s rq p).goto w (.ttwu p mask (.setRunning rq))) q) place := by
  obtain ⟨place, fit⟩ := inv.placed p
  obtain rfl : place = .routed w rq := by
    simpa [view, here, role, ttwuRole, Role.Allows] using fit.roles w
  have after := view_ttwuActivate (c := rq) fit rfl
  refine placed_ttwu_hop inv here rfl (fun q other => view_ttwuActivate_of_ne other) fit (.activate rq)
    (by simp) (by simp) ?_ ?_ ?_ ?_ rfl
  · rw [after]
    rfl
  · rw [after]
    exact fit.wakeList
  · rw [after]
    exact fit.curr
  · rw [ttwuActivate, State.setTask_task]
    exact ⟨rfl, fit.fits.onCpu, fit.fits.home, fit.fits.waking, fit.fits.asleep⟩

theorem placed_ttwuDoWakeup {rq : Cpu} (inv : Inv s) (here : s.act w = .ttwu p mask (.setRunning rq)) :
    ∀ q, ∃ place, Fit (view ((ttwuDoWakeup s p).goto w (.ttwu p mask (.unlockDest rq))) q) place := by
  obtain ⟨place, fit⟩ := inv.placed p
  obtain rfl : place = .activated rq w := by
    simpa [view, here, role, ttwuRole, Role.Allows] using fit.roles w
  refine placed_ttwu_hop inv here rfl (fun q other => view_setTask_of_ne _ other _) fit (.wake rq) (by simp)
    (by simp) fit.queue fit.wakeList fit.curr ?_ (by simp [ttwuRole, Role.Allows, Place.owner])
  rw [ttwuDoWakeup, State.setTask_task]
  exact ⟨fit.fits.onRq, fit.fits.onCpu, fit.fits.home, by simp [Place.woken, taskRunning, taskWaking],
    by simp [Place.off]⟩

theorem inv_ttwuStep (inv : Inv s) (here : s.act w = .ttwu p mask pc) (choice : Choice Cpu Task) :
    Inv (ttwuStep s w p mask choice pc) := by
  have legal : mask &&& (taskWaking ||| taskDead) = 0 := by
    simpa [here, Local] using inv.locks.own w
  have rqs := congrArg (rqLock w) here
  have pis := congrArg piLock here
  have seen : ∀ q, view s q = view s q := fun _ => rfl
  have plays : ∀ place, Fit (view s p) place → Role.Allows w place (ttwuRole pc) := fun place fit => by
    simpa [view, here, role] using fit.roles w
  cases pc with
  | lockPi =>
    simp only [ttwuStep]
    split_ifs with free
    · exact ⟨locks_lockPi inv.locks free pis rfl rqs.symm legal,
        placed_ttwu inv here (fun q => view_setPi s p q _) fun _ _ plays => plays⟩
    · exact inv
  | testState =>
    simp only [ttwuStep]
    split_ifs with sleeps
    · exact ⟨locks_goto inv.locks rqs.symm pis.symm legal,
        placed_ttwu inv here seen fun _ _ plays => plays⟩
    · exact ⟨locks_goto inv.locks rqs.symm pis.symm legal,
        placed_ttwu inv here seen fun _ fit plays => ⟨plays, woken_eq_false fit legal sleeps⟩⟩
  | testOnRq =>
    simp only [ttwuStep]
    split_ifs with off
    · refine ⟨locks_goto inv.locks rqs.symm pis.symm legal, placed_ttwu inv here seen ?_⟩
      exact fun _ fit plays => ⟨plays.1, off_of_onRq (fit.fits.onRq.symm.trans off) plays.2⟩
    · exact ⟨locks_goto inv.locks rqs.symm pis.symm legal,
        placed_ttwu inv here seen fun _ _ plays => plays⟩
  | readRq =>
    exact ⟨locks_goto inv.locks rqs.symm pis.symm legal,
      placed_ttwu inv here seen fun _ _ plays => plays⟩
  | lockRq rq =>
    simp only [ttwuStep]
    split_ifs with free
    · exact ⟨locks_lockRq inv.locks free rqs rfl pis.symm legal,
        placed_ttwu inv here (fun q => view_lockRq s q rq w) fun _ _ plays => plays⟩
    · exact inv
  | checkRq rq =>
    simp only [ttwuStep]
    split_ifs with found
    · refine ⟨locks_goto inv.locks rqs.symm pis.symm legal, placed_ttwu inv here seen ?_⟩
      intro place fit plays
      refine ⟨plays.1, fun away => found.2 (fit.fits.onRq.trans away), fun c home => ?_, plays.2⟩
      rw [← fit.fits.home c home]
      exact found.1
    · exact ⟨locks_goto inv.locks rqs.symm pis.symm legal,
        placed_ttwu inv here seen fun _ _ plays => plays⟩
  | remote rq =>
    simp only [ttwuStep]
    split_ifs with queued
    · have inv' : Inv (ttwuDoWakeup s p) := inv_setTask inv fun place fit =>
        fits_running fit.fits (fit.fits.onRq.symm.trans queued) (plays place fit).2.2.2
      exact ⟨locks_goto inv'.locks rqs.symm pis.symm legal,
        placed_ttwu inv' here (fun _ => rfl) fun _ _ plays => plays.1⟩
    · refine ⟨locks_goto inv.locks rqs.symm pis.symm legal, placed_ttwu inv here seen ?_⟩
      intro place fit plays
      refine ⟨plays.1, off_of_onRq ?_ plays.2.2.2⟩
      have fields := fit.fits.onRq
      cases e : place.onRq with
      | no => rfl
      | queued => exact absurd (fields.trans e) queued
      | migrating => exact absurd e plays.2.1
  | dropRq rq =>
    exact ⟨locks_unlockRq inv.locks rqs rfl pis.symm legal,
      placed_ttwu inv here (fun q => view_unlockRq s q rq) fun _ _ plays => plays⟩
  | relax =>
    simp only [ttwuStep]
    split_ifs
    · exact inv
    · exact ⟨locks_goto inv.locks rqs.symm pis.symm legal,
        placed_ttwu inv here seen fun _ _ plays => plays⟩
  | unlockRemote rq woken =>
    cases woken <;>
      exact ⟨locks_unlockRq inv.locks rqs rfl pis.symm legal,
        placed_ttwu inv here (fun q => view_unlockRq s q rq) fun _ _ plays => plays⟩
  | waitOnCpu =>
    simp only [ttwuStep]
    split_ifs with busy
    · exact inv
    · refine ⟨locks_goto inv.locks rqs.symm pis.symm legal, placed_ttwu inv here seen ?_⟩
      intro place fit plays
      exact eq_blocked plays.2 (fit.fits.onCpu.symm.trans (Bool.eq_false_of_not_eq_true busy))
  | markWaking => exact inv_markWaking inv here choice
  | selectRq =>
    exact ⟨locks_goto (locks_setTask inv.locks _ _) rqs.symm pis.symm legal, placed_selectRq inv here _⟩
  | queue rq =>
    simp only [ttwuStep]
    split_ifs <;>
      exact ⟨locks_goto inv.locks rqs.symm pis.symm legal,
        placed_ttwu inv here seen fun _ _ plays => plays⟩
  | listAdd rq =>
    have locks : Locks (s.setRq rq { s.rq rq with wakeList := p :: (s.rq rq).wakeList }) :=
      locks_setRq inv.locks (by rfl) (by rfl)
    simp only [ttwuStep]
    split_ifs
    · exact ⟨locks_goto locks rqs.symm pis.symm legal, placed_listAdd inv here rfl⟩
    · exact ⟨locks_goto locks rqs.symm pis.symm legal, placed_listAdd inv here rfl⟩
  | kick rq =>
    have inv' : Inv (s.setRq rq { s.rq rq with ipi := true }) :=
      inv_setRq inv (by rfl) (by rfl) (by rfl) (by rfl)
    exact ⟨locks_goto inv'.locks rqs.symm pis.symm legal,
      placed_ttwu inv' here (fun _ => rfl) fun _ _ plays => plays⟩
  | lockDest rq =>
    simp only [ttwuStep]
    split_ifs with free
    · exact ⟨locks_lockRq inv.locks free rqs rfl pis.symm legal,
        placed_ttwu inv here (fun q => view_lockRq s q rq w) fun _ _ plays => plays⟩
    · exact inv
  | activate rq =>
    exact ⟨locks_goto (locks_ttwuActivate inv.locks rq p) rqs.symm pis.symm legal,
      placed_ttwuActivate inv here⟩
  | setRunning rq =>
    exact ⟨locks_goto (locks_setTask inv.locks _ _) rqs.symm pis.symm legal, placed_ttwuDoWakeup inv here⟩
  | unlockDest rq =>
    exact ⟨locks_unlockRq inv.locks rqs rfl pis.symm legal,
      placed_ttwu inv here (fun q => view_unlockRq s q rq) fun _ _ plays => plays⟩
  | unlockPi =>
    exact ⟨locks_unlockPi inv.locks pis rfl rqs.symm trivial,
      placed_ttwu_run inv here rfl fun q => view_setPi s p q _⟩

end Ttwu

/-! ## `sched_ttwu_pending` -/

section Pending

variable {tasks : List Task} {pc : PendingPc Task}

theorem placed_take (inv : Inv s) (here : s.act w = .pending [] .take)
    (a : Activity Cpu Task) (list : batch a = (s.rq w).wakeList)
    (roles : ∀ q, role w a q = if q ∈ (s.rq w).wakeList then some .takes else none) :
    ∀ q, ∃ place, Fit (view ((s.setRq w { s.rq w with wakeList := [] }).goto w a) q) place := by
  intro q
  obtain ⟨place, fit⟩ := inv.placed q
  have count : (s.rq w).wakeList.count q = once place.wakeList w := congrFun fit.wakeList w
  have plays : place.owner ≠ some w := by
    simpa [view, here, role, Role.Allows] using fit.roles w
  have after : view ((s.setRq w { s.rq w with wakeList := [] }).goto w a) q = { view s q with
      wakeList := Function.update (view s q).wakeList w 0
      batch := Function.update (view s q).batch w (once place.wakeList w)
      role := Function.update (view s q).role w
        (if q ∈ (s.rq w).wakeList then some .takes else none) } := by
    rw [view_goto, view_setRq_wakeList, list, count, roles] <;> rfl
  rw [after]
  have batch : ∀ d, Function.update (view s q).batch w (once place.wakeList w) d ≤ 1 := fun d => by
    by_cases same : d = w
    · simp only [same, Function.update_self, once]
      split_ifs <;> omega
    · simpa [same] using fit.batch d
  by_cases listed : q ∈ (s.rq w).wakeList
  · rw [if_pos listed]
    obtain rfl : place = .listed w := by
      have pos := List.count_pos_iff.mpr listed
      have there : place.wakeList = some w := by
        by_contra off
        simp only [once, if_neg off] at count
        omega
      cases place <;> simp_all [Place.wakeList]
    refine ⟨.taken w, fit_hop inv.locks fit .take (by simp [Place.home]) (by simp) fit.queue ?_ batch fit.curr
      ⟨fit.fits.onRq, fit.fits.onCpu, fit.fits.home, fit.fits.waking, fit.fits.asleep⟩
      (by simp [Role.Allows]) fun d away => by simp [away]⟩
    rw [fit.wakeList]
    exact update_once_some_zero w
  · rw [if_neg listed]
    refine ⟨place, fit.queue, ?_, batch, fit.curr, fit.fits, fun d => ?_⟩
    · rw [fit.wakeList]
      refine Function.update_eq_iff.mpr ⟨?_, fun _ _ => rfl⟩
      rw [← count, List.count_eq_zero.mpr listed]
    · by_cases same : d = w
      · subst same
        simpa [Role.Allows] using plays
      · simpa [same] using fit.roles d

theorem placed_activate {rest : List Task} (inv : Inv s)
    (here : s.act w = .pending (p :: rest) .activate) (fresh : p ∉ rest) :
    ∀ q, ∃ place, Fit (view ((ttwuActivate s w p).goto w (.pending rest (.setRunning p))) q) place := by
  obtain ⟨place, fit⟩ := inv.placed p
  obtain rfl : place = .taken w := by
    simpa [view, here, role, Role.Allows] using fit.roles w
  have after := view_ttwuActivate (c := w) fit rfl
  refine placed_hop inv rfl (fun q other => view_ttwuActivate_of_ne other) (fun q other => ?_) fit
    .activateTaken (by simp [Place.home]) (by simp) ?_ ?_ ?_ ?_ ?_ ?_
  · constructor
    · simp [here, batch, List.count_cons_of_ne other.symm]
    · by_cases member : q ∈ rest <;> simp [here, role, member, other]
  · rw [after]
    rfl
  · rw [after]
    exact fit.wakeList
  · rw [after]
    exact fit.curr
  · rw [ttwuActivate, State.setTask_task]
    exact ⟨rfl, fit.fits.onCpu, fit.fits.home, fit.fits.waking, fit.fits.asleep⟩
  · simp [batch, List.count_eq_zero.mpr fresh]
  · simp [role, fresh, Role.Allows]

theorem placed_setRunning (inv : Inv s) (here : s.act w = .pending tasks (.setRunning p))
    (fresh : p ∉ tasks) :
    ∀ q, ∃ place, Fit (view ((ttwuDoWakeup s p).goto w (.pending tasks .activate)) q) place := by
  obtain ⟨place, fit⟩ := inv.placed p
  obtain rfl : place = .activated w w := by
    simpa [view, here, role, fresh, Role.Allows] using fit.roles w
  refine placed_hop inv rfl (fun q other => view_setTask_of_ne s other _) (fun q other => ?_) fit (.wake w)
    (by simp [Place.home]) (by simp) fit.queue fit.wakeList fit.curr ?_ ?_ ?_
  · simp [here, batch, role, other]
  · rw [ttwuDoWakeup, State.setTask_task]
    exact ⟨fit.fits.onRq, fit.fits.onCpu, fit.fits.home, by simp [Place.woken, taskRunning, taskWaking],
      by simp [Place.off]⟩
  · simp [batch, List.count_eq_zero.mpr fresh]
  · simp [role, fresh, Role.Allows, Place.owner]

theorem inv_pendingStep (inv : Inv s) (here : s.act w = .pending tasks pc) :
    Inv (pendingStep s w tasks pc) := by
  have rqs := congrArg (rqLock w) here
  have pis := congrArg piLock here
  have own := inv.locks.own w
  rw [here] at own
  have once_each : ∀ q, tasks.count q ≤ 1 := fun q => by
    obtain ⟨place, fit⟩ := inv.placed q
    simpa [view, here, batch] using fit.batch w
  cases pc with
  | take =>
    obtain rfl : tasks = [] := own
    have locks : Locks (s.setRq w { s.rq w with wakeList := [] }) :=
      locks_setRq inv.locks (by rfl) (by rfl)
    simp only [pendingStep]
    split_ifs with empty
    · exact ⟨locks_goto locks rqs.symm pis.symm trivial,
        placed_take inv here .run (by rw [empty]; rfl) fun q => by simp [empty, role]⟩
    · exact ⟨locks_goto locks rqs.symm pis.symm trivial,
        placed_take inv here _ rfl fun q => by simp [role]⟩
  | lock =>
    simp only [pendingStep]
    split_ifs with free
    · exact ⟨locks_lockRq inv.locks free rqs rfl pis.symm trivial,
        placed_same inv (fun q => view_lockRq s q w w) (fun q => by rw [here]; rfl)
          fun q => by rw [here]; rfl⟩
    · exact inv
  | activate =>
    cases tasks with
    | nil =>
      exact ⟨locks_goto inv.locks rqs.symm pis.symm rfl,
        placed_same inv (fun _ => rfl) (fun q => by rw [here]; rfl) fun q => by simp [here, role]⟩
    | cons p rest =>
      have fresh : p ∉ rest := by
        have := once_each p
        rw [List.count_cons_self] at this
        exact List.count_eq_zero.mp (by omega)
      exact ⟨locks_goto (locks_ttwuActivate inv.locks w p) rqs.symm pis.symm fresh,
        placed_activate inv here fresh⟩
  | setRunning p =>
    exact ⟨locks_goto (locks_setTask inv.locks _ _) rqs.symm pis.symm trivial, placed_setRunning inv here own⟩
  | unlock =>
    obtain rfl : tasks = [] := own
    exact ⟨locks_unlockRq inv.locks rqs rfl pis.symm trivial,
      placed_same inv (fun q => view_unlockRq s q w) (fun q => by rw [here]; rfl)
        fun q => by simp [here, role]⟩

end Pending

end UnixSystems.WakeUps
