import UnixSystems.WakeFrame

/-! `__schedule` keeps every task in one place, also while it looks for work without its lock. -/

namespace UnixSystems.WakeSwitch
open WakeModel WakePlaces WakeFrame Holders

variable {Cpu Task : Type} [DecidableEq Cpu] [DecidableEq Task] {s s₁ : State Cpu Task} {w : Cpu}
  {p : Task} {preempt : Bool} {prev : Option Task} {pc pc' : SchedulePc}

theorem placed_schedule (inv : Inv s) (here : s.act w = .schedule preempt (some p) pc)
    (same : ∀ q, view s₁ q = view s q)
    (allows : ∀ place, Fit (view s p) place → Role.Allows w place (scheduleRole pc) →
      Role.Allows w place (scheduleRole pc')) :
    ∀ q, ∃ place, Fit (view (s₁.goto w (.schedule preempt (some p) pc')) q) place := by
  refine placed_goto inv.placed same (fun q => by simp [batch]) fun q place fit => ?_
  have before := fit.roles w
  by_cases self : q = p
  · subst self
    simp only [view, here, role, if_pos] at before
    simpa [role] using allows place fit before
  · simpa [view, here, role, Ne.symm self] using before

theorem placed_sleep (inv : Inv s) (here : s.act w = .schedule preempt (some p) .decide)
    (asleep : (s.task p).state ≠ taskRunning) :
    ∀ q, ∃ place, Fit (view ((putToSleep s w p).goto w (.schedule preempt (some p) .pick)) q) place := by
  obtain ⟨place, fit⟩ := inv.placed p
  have curr : (s.rq w).curr = some p := by simpa [here, Local] using inv.locks.own w
  obtain rfl := eq_running fit curr (by simp [here, role, scheduleRole])
  have after : view (putToSleep s w p) p =
      { view s p with queue := once none, task := { s.task p with onRq := .no } } := by
    rw [putToSleep, view_setTask_self, queue_dequeue fit rfl] <;> rfl
  refine placed_hop inv rfl (fun q other => ?_)
    (fun q other => by simp [here, batch, role, Ne.symm other]) fit .sleep (by simp [Place.home])
    (by simp) ?_ ?_ ?_ ?_ (by simp [batch]) (by simp [role, scheduleRole, Role.Allows])
  · rw [putToSleep, view_setTask_of_ne _ other, view_dequeue_of_ne other] <;> rfl
  · rw [after]
    rfl
  · rw [after]
    exact fit.wakeList
  · rw [after]
    exact fit.curr
  · rw [putToSleep, State.setTask_task]
    exact ⟨rfl, fit.fits.onCpu, fit.fits.home, fit.fits.waking, fun _ => asleep⟩

theorem view_switch (next : Option Task) (q : Task) :
    view ((setOnCpu (s.setRq w { s.rq w with curr := next }) next true).goto w
      (.schedule preempt prev .finish)) q =
      { view s q with
        batch := Function.update (view s q).batch w 0
        curr := Function.update (view s q).curr w (next = some q)
        task := if next = some q then { s.task q with onCpu := true } else s.task q
        role := Function.update (view s q).role w (if prev = some q then some .finishes else none) } := by
  have base : view (s.setRq w { s.rq w with curr := next }) q =
      { view s q with curr := Function.update (view s q).curr w (next = some q) } := by
    rw [view_setRq]
    apply View.ext <;> first | rfl | exact Function.update_eq_self w _
  rw [view_goto]
  cases next with
  | none =>
    rw [setOnCpu, base]
    rfl
  | some n =>
    rw [setOnCpu]
    by_cases same : q = n
    · subst same
      rw [view_setTask_self, base, if_pos rfl]
      rfl
    · rw [view_setTask_of_ne _ same, base, if_neg (by simpa using Ne.symm same)]
      rfl

theorem placed_switch (inv : Inv s) (here : s.act w = .schedule preempt prev .pick) {next : Option Task}
    (queued : ∀ n, next = some n → n ∈ (s.rq w).queue) (other : next ≠ prev) :
    ∀ q, ∃ place, Fit (view ((setOnCpu (s.setRq w { s.rq w with curr := next }) next true).goto w
      (.schedule preempt prev .finish)) q) place := by
  have curr : (s.rq w).curr = prev := by simpa [here, Local] using inv.locks.own w
  have lock : rqLock w (s.act w) = some w := by rw [here]; rfl
  intro q
  obtain ⟨place, fit⟩ := inv.placed q
  have plays : Role.Allows w place (if prev = some q then some .chooses else none) := by
    simpa [view, here, role, scheduleRole] using fit.roles w
  have batch : ∀ c, Function.update (view s q).batch w 0 c ≤ 1 := fun c => by
    by_cases same : c = w
    · simp [same]
    · simpa [same] using fit.batch c
  rw [view_switch]
  by_cases last : prev = some q
  · have leaving : next ≠ some q := last ▸ other
    rw [if_neg leaving, if_pos last]
    rw [if_pos last] at plays
    have gone : Function.update (view s q).curr w (next = some q) = fun _ => False := by
      funext c
      by_cases same : c = w
      · simp [same, leaving]
      · rcases plays with rfl | rfl <;> simp [same, fit.curr, Place.current, Ne.symm same]
    rcases plays with rfl | rfl
    · refine ⟨.switchedOut w, fit_hop inv.locks fit .preempt (by simp [Place.home]) (by simp)
        fit.queue fit.wakeList batch ?_ ⟨fit.fits.onRq, fit.fits.onCpu, fit.fits.home, fit.fits.waking,
          fit.fits.asleep⟩ (by simp [Role.Allows]) fun d away => by simp [away]⟩
      simpa [Place.current] using gone
    · refine ⟨.switchedOff w, fit_hop inv.locks fit .leave (by simp [Place.home]) (by simp)
        fit.queue fit.wakeList batch ?_ ⟨fit.fits.onRq, fit.fits.onCpu, fit.fits.home, fit.fits.waking,
          fit.fits.asleep⟩ (by simp [Role.Allows]) fun d away => by simp [away]⟩
      simpa [Place.current] using gone
  · have elsewhere : place.current ≠ some w := by
      have at_w := congrFun fit.curr w
      simpa [view, curr, last] using at_w.symm
    rw [if_neg last] at plays ⊢
    by_cases picked : next = some q
    · rw [if_pos picked]
      obtain rfl : place = .ready w := eq_ready inv fit (queued q picked)
        ⟨by rintro rfl; simp [Place.current] at elsewhere, by rintro rfl; exact plays rfl⟩ lock plays
      refine ⟨.running w, fit_hop inv.locks fit .pick (by simp [Place.home]) (by simpa using lock)
        fit.queue fit.wakeList batch ?_ ⟨fit.fits.onRq, rfl, fit.fits.home, fit.fits.waking,
          fit.fits.asleep⟩ (by simp [Role.Allows, Place.owner]) fun d away => by simp [away]⟩
      funext c
      by_cases same : c = w
      · simp [same, picked, Place.current]
      · simp [same, fit.curr, Place.current, Ne.symm same]
    · rw [if_neg picked]
      refine ⟨place, fit.queue, fit.wakeList, batch, ?_, fit.fits, fun d => ?_⟩
      · rw [fit.curr]
        funext c
        by_cases same : c = w
        · simp [same, picked, elsewhere]
        · simp [same]
      · by_cases same : d = w
        · subst same
          simpa using plays
        · simpa [same] using fit.roles d

theorem locks_switch (locks : Locks s) (here : s.act w = .schedule preempt prev .pick)
    (next : Option Task) :
    Locks ((setOnCpu (s.setRq w { s.rq w with curr := next }) next true).goto w
      (.schedule preempt prev .finish)) := by
  have base : Locks ((s.setRq w { s.rq w with curr := next }).goto w (.schedule preempt prev .finish)) := by
    have rqs : (fun c => ((s.setRq w { s.rq w with curr := next }).rq c).lock) = fun c => (s.rq c).lock := by
      funext c
      by_cases same : c = w <;> simp [State.setRq, same]
    refine locks_of_update _ ?_ ?_ (fun d away => ?_) trivial
    · show Agree _ (Function.update (fun d => rqLock d (s.act d)) w (some w))
      rw [rqs, ← show rqLock w (s.act w) = some w from by rw [here]; rfl,
        Function.update_eq_self w fun d => rqLock d (s.act d)]
      exact locks.rq
    · show Agree s.piLock (Function.update (fun d => piLock (s.act d)) w none)
      rw [← show piLock (s.act w) = none from by rw [here]; rfl,
        Function.update_eq_self w fun d => piLock (s.act d)]
      exact locks.pi
    · rw [State.setRq_rq_of_ne _ away]
      exact locks.own d
  cases next with
  | none => exact base
  | some n => exact ⟨base.rq, base.pi, base.own⟩

theorem placed_finish (inv : Inv s) (here : s.act w = .schedule preempt (some p) .finish) :
    ∀ q, ∃ place, Fit (view ((setOnCpu s (some p) false).goto w (.schedule preempt none .unlock)) q) place := by
  obtain ⟨place, fit⟩ := inv.placed p
  have quiet : ∀ q, q ≠ p → (batch (.schedule preempt none .unlock : Activity Cpu Task)).count q =
      (batch (s.act w)).count q ∧
      role w (.schedule preempt none .unlock) q = role w (s.act w) q := fun q other => by
    simp [here, batch, role, Ne.symm other]
  rcases (by simpa [view, here, role, scheduleRole, Role.Allows] using fit.roles w :
    place = .switchedOut w ∨ place = .switchedOff w) with rfl | rfl
  · refine placed_hop inv rfl (fun q other => view_setTask_of_ne s other _) quiet fit .finishOut
      (by simp [Place.home]) (by simp) fit.queue fit.wakeList fit.curr ?_ (by simp [batch])
      (by simp [role, Role.Allows, Place.owner])
    rw [setOnCpu, State.setTask_task]
    exact ⟨fit.fits.onRq, rfl, fit.fits.home, fit.fits.waking, fit.fits.asleep⟩
  · refine placed_hop inv rfl (fun q other => view_setTask_of_ne s other _) quiet fit .finishOff
      (by simp [Place.home]) (by simp) fit.queue fit.wakeList fit.curr ?_ (by simp [batch])
      (by simp [role, Role.Allows, Place.owner])
    rw [setOnCpu, State.setTask_task]
    exact ⟨fit.fits.onRq, rfl, by simp [Place.home], fit.fits.waking, fit.fits.asleep⟩

theorem inv_scheduleStep (inv : Inv s) (here : s.act w = .schedule preempt prev pc)
    (choice : Choice Cpu Task) : Inv (scheduleStep s w preempt prev choice pc) := by
  have rqs := congrArg (rqLock w) here
  have pis := congrArg piLock here
  have own := inv.locks.own w
  rw [here] at own
  have nothing : ∀ q, (batch (s.act w)).count q = 0 := fun q => by rw [here]; rfl
  cases pc with
  | lock =>
    simp only [scheduleStep]
    split_ifs with free
    · exact ⟨locks_lockRq inv.locks free rqs rfl pis.symm own, placed_same inv (fun q => view_lockRq s q w w)
        (fun q => (nothing q).symm) fun q => by rw [here]; rfl⟩
    · exact inv
  | decide =>
    cases prev with
    | none =>
      exact ⟨locks_goto inv.locks rqs.symm pis.symm own, placed_same inv (fun _ => rfl)
        (fun q => (nothing q).symm) fun q => by simp [here, role]⟩
    | some p =>
      have curr : (s.rq w).curr = some p := own
      have running : ∀ place, Fit (view s p) place → place = .running w := fun place fit =>
        eq_running fit curr (by simp [here, role, scheduleRole])
      simp only [scheduleStep]
      split_ifs with runs signal
      · exact ⟨locks_goto inv.locks rqs.symm pis.symm own,
          placed_schedule inv here (fun _ => rfl) fun place fit _ => .inl (running place fit)⟩
      · have inv' : Inv (ttwuDoWakeup s p) := inv_setTask inv fun place fit => by
          obtain rfl := running place fit
          exact fits_running fit.fits rfl rfl
        refine ⟨locks_goto inv'.locks rqs.symm pis.symm own, placed_schedule inv' here (fun _ => rfl) ?_⟩
        exact fun place fit _ => .inl (eq_running fit curr
          (by simp [ttwuDoWakeup, State.setTask, here, role, scheduleRole]))
      · refine ⟨locks_goto ?_ rqs.symm pis.symm ?_, placed_sleep inv here (not_or.mp runs).2⟩
        · rw [putToSleep]
          refine locks_setTask (locks_setRq inv.locks ?_ ?_) p _ <;> rfl
        · simpa [putToSleep, State.setTask, deactivateTask, Local] using own
  | pick =>
    simp only [scheduleStep]
    split_ifs with drop same
    · exact ⟨locks_unlockRq inv.locks rqs rfl pis.symm own, placed_same inv (fun q => view_unlockRq s q w)
        (fun q => (nothing q).symm) fun q => by rw [here]; rfl⟩
    · refine ⟨locks_goto inv.locks rqs.symm pis.symm trivial, ?_⟩
      cases prev with
      | none =>
        exact placed_same inv (fun _ => rfl) (fun q => (nothing q).symm) fun q => by simp [here, role]
      | some p =>
        have queued : p ∈ (s.rq w).queue := by
          simp only [pickNextTask, Option.filter_eq_some_iff] at same
          simpa using same.2
        refine placed_schedule inv here (fun _ => rfl) fun place fit plays => ?_
        rcases plays with rfl | rfl
        · simp [scheduleRole, Role.Allows, Place.owner]
        · have absent := count_eq_zero (c := w) fit rfl
          rw [List.count_eq_zero] at absent
          exact absurd queued absent
    · refine ⟨locks_switch inv.locks here _, placed_switch inv here (fun n picked => ?_) same⟩
      simp only [pickNextTask, Option.filter_eq_some_iff] at picked
      simpa using picked.2
  | dropped =>
    simp only [scheduleStep]
    split_ifs with free
    · exact ⟨locks_lockRq inv.locks free rqs rfl pis.symm own, placed_same inv (fun q => view_lockRq s q w w)
        (fun q => (nothing q).symm) fun q => by rw [here]; rfl⟩
    · exact inv
  | finish =>
    cases prev with
    | none =>
      exact ⟨locks_goto inv.locks rqs.symm pis.symm trivial, placed_same inv (fun _ => rfl)
        (fun q => (nothing q).symm) fun q => by simp [here, role]⟩
    | some p =>
      exact ⟨locks_goto (locks_setTask inv.locks _ _) rqs.symm pis.symm trivial, placed_finish inv here⟩
  | unlock =>
    refine ⟨locks_unlockRq inv.locks rqs rfl pis.symm trivial, placed_same inv (fun q => view_unlockRq s q w)
      (fun q => (nothing q).symm) fun q => ?_⟩
    simp [here, role, scheduleRole]

end UnixSystems.WakeSwitch
