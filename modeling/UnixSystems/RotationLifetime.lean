import UnixSystems.RotationSimulation

/-! Lifetime of event objects. Both places that free an event decide by a proxy:
`rotevt_destroy` by the wait queue, `rotevt_wait` by the counter. Neither counts a
process that has been woken and has not run yet. The proxies are sound as long as
they are only consulted when no such process exists. -/
namespace UnixSystems.RotationLifetime
open GuardedRuns RotationModel EventMachine RotationRuns RotationSimulation

/-! ## One event -/

/-- Nobody is inside and nobody will sleep again, or the counter bounds those inside. -/
def Covered (v : View) : Prop :=
  v.holders = [] ∧ (v.slot = none ∨ v.event.condition ≠ .initial) ∨
    v.slot ≠ none ∧ (v.holders.length : Int) ≤ v.event.ctr.toInt

def CoverGuard (v : View) : Label → Prop
  | .destroy => v.event.queue = [] → v.holders = []
  | .wait _ _ signalPending =>
    (Sleeps v.event signalPending → v.event.ctr.toInt < 2 ^ 31 - 1) ∧
      (¬ Sleeps v.event signalPending → v.holders = [])
  | .resume _ _ signalPending => Sleeps v.event signalPending → v.event.ctr.toInt < 2 ^ 31 - 1
  | .robbed => v.holders = []
  | _ => True

variable {evt : Addr} {v : View}

theorem Covered.wakeAll (h : Covered v) (c : Condition) (later : c ≠ .initial) :
    Covered (v.setCondition c).wakeAll := by
  rcases h with ⟨empty, _⟩ | ⟨listed, bound⟩
  · exact Or.inl ⟨by simp [View.wakeAll, View.setCondition, empty], Or.inr later⟩
  · exact Or.inr ⟨listed, by simpa [View.wakeAll, View.setCondition] using bound⟩

theorem Covered.destroy (h : Covered v) (guard : CoverGuard v .destroy) :
    Covered (v.destroy evt) := by
  unfold View.destroy
  dsimp only
  split_ifs with waiting
  · exact h.wakeAll .destroyed (by decide)
  · have none : v.event.queue = [] := not_not.mp waiting
    exact Or.inl ⟨guard none, Or.inl rfl⟩

theorem Covered.bound (h : Covered v) (inside : v.holders ≠ []) :
    v.slot ≠ none ∧ (v.holders.length : Int) ≤ v.event.ctr.toInt := by
  rcases h with ⟨empty, _⟩ | bounded
  · exact absurd empty inside
  · exact bounded

theorem Covered.leave_alone (evt : Addr) (pid : Pid) (id : Int) (alone : v.holders = []) :
    Covered (v.interrupt.leave evt pid id) := by
  obtain ⟨holders, -, -⟩ := v.interrupt_rest
  have empty : v.interrupt.holders = [] := holders.trans alone
  have past := v.interrupt_condition
  unfold View.leave
  split_ifs
  · exact Or.inl ⟨by simp [View.drop, View.exit, View.note, View.countOut, empty], Or.inl rfl⟩
  · exact Or.inl ⟨by simp [View.exit, View.note, View.countOut, empty], Or.inr past⟩

theorem Covered.leave (well : Well evt v) (h : Covered v) {pid : Pid} (id : Int)
    (inside : pid ∈ v.holders.map (·.pid)) : Covered (v.interrupt.leave evt pid id) := by
  have occupied : v.holders ≠ [] := by
    rintro empty
    simp [empty] at inside
  obtain ⟨listed, bound⟩ := h.bound occupied
  obtain ⟨holders, slot, ctr⟩ := v.interrupt_rest
  have fewer := well.length_others inside
  have left : ((v.holders.filter (·.pid ≠ pid)).length : Int) ≤ (v.event.ctr - 1).toInt := by
    rw [Int32.toInt_sub_one (by omega)]
    omega
  unfold View.leave
  split_ifs with last
  · have zero : (v.event.ctr - 1).toInt = 0 := by rw [← ctr, last.1.1]; rfl
    have nobody : v.holders.filter (·.pid ≠ pid) = [] :=
      List.eq_nil_of_length_eq_zero (by omega)
    exact Or.inl ⟨by rw [← holders] at nobody; exact nobody, Or.inl rfl⟩
  · refine Or.inr ⟨by rw [← slot] at listed; exact listed, ?_⟩
    rw [← holders, ← ctr] at left
    exact left

theorem Covered.sleep (h : Covered v) (evt : Addr) (pid : Pid) (id : Int)
    (room : v.event.ctr.toInt < 2 ^ 31 - 1) (begun : v.event.condition = .initial) (listed : v.slot ≠ none)
    (grow : (v.holders.filter (·.pid ≠ pid)).length ≤ v.holders.length) :
    Covered (v.sleep evt pid id) := by
  have bound : (v.holders.length : Int) ≤ v.event.ctr.toInt := by
    rcases h with ⟨_, unlisted | past⟩ | ⟨_, bound⟩
    · exact absurd unlisted listed
    · exact absurd begun past
    · exact bound
  refine Or.inr ⟨listed, ?_⟩
  simp only [View.sleep, View.countIn, View.prepare, List.length_cons]
  rw [Int32.toInt_add_one room]
  push_cast
  omega

theorem Covered.step (l : Label) (well : Well evt v) (admits : Admits v l) (guard : CoverGuard v l)
    (h : Covered v) : Covered (v.step evt l) := by
  cases l with
  | idle => exact h
  | born motion id =>
    cases admits
    exact Or.inr ⟨by simp [View.step], by simp [View.step, unborn]⟩
  | stillborn event =>
    obtain ⟨rfl, _⟩ := admits
    exact Or.inl ⟨rfl, Or.inl rfl⟩
  | trigger => exact h.wakeAll .evtTriggered (by decide)
  | destroy => exact h.destroy guard
  | wait pid id signalPending =>
    by_cases sleeps : Sleeps v.event signalPending
    · rw [View.step_wait_of_sleeps evt pid id sleeps]
      exact Covered.sleep (v := v.note _) h evt pid id (guard.1 sleeps) sleeps.1
        (by simp [admits.1]) (List.length_filter_le _ _)
    · rw [View.step_wait_of_leaves evt pid id sleeps]
      exact Covered.leave_alone (v := v.note _) evt pid id (guard.2 sleeps)
  | resume pid id signalPending =>
    obtain ⟨w, member, rfl, rfl, _⟩ := admits
    by_cases sleeps : Sleeps v.event signalPending
    · have listed := (h.bound (List.ne_nil_of_mem member)).1
      rw [View.step_resume_of_sleeps evt w.pid w.eventId sleeps]
      exact h.sleep evt _ _ (guard sleeps) sleeps.1 listed (List.length_filter_le _ _)
    · rw [View.step_resume_of_leaves evt w.pid w.eventId sleeps]
      exact h.leave well _ (List.mem_map.mpr ⟨w, member, rfl⟩)
  | wakeUp pid =>
    rcases h with ⟨empty, rest⟩ | ⟨listed, bound⟩
    · exact Or.inl ⟨by simp [View.step, empty], rest⟩
    · exact Or.inr ⟨listed, by simpa [View.step] using bound⟩
  | robbed => exact Or.inl ⟨guard, Or.inl rfl⟩

/-! ## All events -/

/-- A free decided by the queue, or by a wait that did not sleep, comes when nobody is
inside a wait on the event; and the counter does not overflow. -/
def LifetimeGuard (s : State) : Action → Prop
  | .rotevtDestroy eventId => ∀ targetEvt ∈ s.eventIdr.find eventId,
    (s.mem targetEvt).queue = [] → ∀ w ∈ s.waiters, w.targetEvt ≠ targetEvt
  | .rotevtWait _ eventId signalPending => ∀ targetEvt ∈ s.eventIdr.find eventId,
    (Sleeps (s.mem targetEvt) signalPending → (s.mem targetEvt).ctr.toInt < 2 ^ 31 - 1) ∧
      (¬ Sleeps (s.mem targetEvt) signalPending → ∀ w ∈ s.waiters, w.targetEvt ≠ targetEvt)
  | .resume pid signalPending => ∀ w ∈ s.waiters, w.pid = pid →
    Sleeps (s.mem w.targetEvt) signalPending → (s.mem w.targetEvt).ctr.toInt < 2 ^ 31 - 1
  | _ => True

instance (s : State) (a : Action) : Decidable (LifetimeGuard s a) := by
  refine a.casesOn ?_ ?_ ?_ ?_ ?_ ?_ ?_ ?_ <;> intros <;> dsimp only [LifetimeGuard] <;> infer_instance

/-- No freed event is held inside `rotevt_wait`, nor can `idr_find` return one. -/
structure LifetimeSafe (s : State) : Prop where
  held : ∀ w ∈ s.waiters, s.freed w.targetEvt = false
  listed : ∀ i evt, s.eventIdr.find i = some evt → s.freed evt = false

structure LifetimeInv (s : State) : Prop where
  sound : Sound s
  covered : ∀ evt, Covered (view s evt)

theorem coverGuard_labelOf (s : State) (a : Action) (inv : LifetimeInv s)
    (guard : LifetimeGuard s a) (evt : Addr) : CoverGuard (view s evt) (labelOf s a evt) := by
  have routine : Routine fun _ => CoverGuard :=
    ⟨fun _ _ => trivial, fun _ _ _ _ => trivial, fun _ _ _ => trivial, fun _ _ _ => trivial⟩
  refine (forall_label_iff routine s inv.sound a).mpr ?_ evt
  cases a with
  | setRotation uid rotation => exact fun _ _ => trivial
  | rotevtDestroy id => exact fun c found empty => holders_nil (guard c found empty)
  | rotevtWait pid id signalPending =>
    intro c found
    obtain ⟨room, alone⟩ := guard c found
    exact ⟨room, fun leaves => holders_nil (alone leaves)⟩
  | resume pid signalPending =>
    refine fun w waits same => ⟨guard w waits same, fun c named other _ => ?_⟩
    have listed := ((inv.covered w.targetEvt).bound (holders_ne_nil waits)).1
    rw [Option.mem_def, find_eventId inv.sound waits listed, Option.some.injEq] at named
    exact absurd named.symm other
  | rotevtCreate _ _ _ | wakeUp _ | setRotationSampling _ _ _ | getRotationSampling _ _ => trivial

theorem lifetimeInv_step (s : State) (a : Action) (guard : Enabled s a ∧ LifetimeGuard s a)
    (inv : LifetimeInv s) : LifetimeInv (step s a) where
  sound := sound_step s a guard.1 inv.sound
  covered := fun evt => view_keep (fun _ l => Covered.step l) s a guard.1 inv.sound
    (coverGuard_labelOf s a inv guard.2 evt) (inv.covered evt)

theorem lifetimeSafe_of_inv (s : State) (inv : LifetimeInv s) : LifetimeSafe s where
  held := by
    intro w waits
    have listed := ((inv.covered w.targetEvt).bound (holders_ne_nil waits)).1
    exact (inv.sound.views w.targetEvt).alive listed
  listed := by
    intro i evt found
    exact (inv.sound.views evt).alive (slot_ne_none_of_find inv.sound found)

theorem always_lifetimeSafe (acts : List Action)
    (h : Along step (fun s a => Enabled s a ∧ LifetimeGuard s a) boot acts) :
    Always step LifetimeSafe boot acts := by
  have start : LifetimeInv boot := ⟨sound_boot, fun _ => Or.inl ⟨rfl, Or.inl rfl⟩⟩
  exact always_of_invariant LifetimeInv lifetimeInv_step lifetimeSafe_of_inv start h

theorem always_lifetimeSafe_handover :
    Along step (fun s a => Enabled s a ∧ LifetimeGuard s a) boot
        [.rotevtCreate (some ⟨1, 1, 1, true⟩) true true, .rotevtWait (.nth 0) 0 false,
          .rotevtDestroy 0, .resume (.nth 0) false] ∧
      Always step LifetimeSafe boot
        [.rotevtCreate (some ⟨1, 1, 1, true⟩) true true, .rotevtWait (.nth 0) 0 false,
          .rotevtDestroy 0, .resume (.nth 0) false] :=
  ⟨by decide, always_lifetimeSafe _ (by decide)⟩

/-- A trigger wakes the only waiter and empties the queue; the destroy that follows
finds no sleeper and frees the event before the waiter has run. -/
def triggeredThenDestroyed : List Action :=
  [.rotevtCreate (some ⟨0, 0, 0, false⟩) true true, .rotevtWait (.nth 0) 0 false] ++
    List.replicate 6 (.setRotation 0 (some ⟨0, 0, 0⟩)) ++ [.rotevtDestroy 0]

theorem triggeredThenDestroyed_unsafe :
    Along step Enabled boot triggeredThenDestroyed ∧
      ¬ LifetimeSafe (run step boot triggeredThenDestroyed) :=
  ⟨by decide, fun safe => absurd safe.held (by decide)⟩

end UnixSystems.RotationLifetime
