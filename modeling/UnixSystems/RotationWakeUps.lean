import UnixSystems.RotationSimulation

/-! Sleeping and waking. The condition test, the queueing and the release of the lock
are one step, so a sleeper is never passed over by a writer of the condition of its own
event. What can pass it over is a process that frees an event it does not hold: one that
was left with a freed event of the same id. -/
namespace UnixSystems.RotationWakeUps
open GuardedRuns RotationModel EventMachine RotationRuns RotationSimulation

/-! ## One event -/

structure Notified (v : View) : Prop where
  unqueued : v.event.condition = .evtTriggered ∨ v.event.condition = .destroyed →
    v.event.queue = []
  gone : v.freed = true → v.event.condition = .destroyed ∨ v.holders = []
  unlisted : v.slot = none → v.freed = true ∨ v.holders = []

variable {evt : Addr} {v : View}

theorem Notified.note (h : Notified v) (o : Occurrence) : Notified (v.note o) :=
  ⟨h.unqueued, h.gone, h.unlisted⟩

theorem Notified.drop (h : Notified v) (destroyed : v.event.condition = .destroyed) :
    Notified v.drop :=
  ⟨h.unqueued, fun _ => Or.inl destroyed, fun _ => Or.inl rfl⟩

theorem Notified.wakeAll (well : Well evt v) (c : Condition) (listed : v.slot ≠ none) :
    Notified (v.setCondition c).wakeAll where
  unqueued := fun _ => rfl
  gone := fun freed => absurd ((well.alive listed).symm.trans freed) Bool.false_ne_true
  unlisted := fun none => absurd none listed

theorem Notified.destroy (well : Well evt v) (h : Notified v) (listed : v.slot ≠ none) :
    Notified (v.destroy evt) := by
  unfold View.destroy
  dsimp only
  split_ifs with waiting
  · exact (Notified.wakeAll well .destroyed listed).note (.destroyed evt)
  · have marked : Notified ((v.setCondition .destroyed).note (.destroyed evt)) :=
      ⟨fun _ => not_not.mp waiting, fun _ => Or.inl rfl, h.unlisted⟩
    exact marked.drop rfl

theorem Notified.interrupt (h : Notified v) : Notified v.interrupt := by
  unfold View.interrupt
  split_ifs with initial
  · refine ⟨?_, fun freed => ?_, h.unlisted⟩
    · rintro (triggered | destroyed)
      · cases triggered
      · cases destroyed
    · rcases h.gone freed with destroyed | empty
      · rw [initial] at destroyed
        cases destroyed
      · exact Or.inr empty
  · exact h

theorem Notified.leave (h : Notified v) (pid : Pid) (id : Int) : Notified (v.leave evt pid id) := by
  have left : Notified (v.exit evt pid) := by
    refine ⟨fun ended => ?_, fun freed => ?_, fun none => ?_⟩
    · simp [View.exit, View.countOut, h.unqueued ended]
    · rcases h.gone freed with destroyed | empty
      · exact Or.inl destroyed
      · exact Or.inr (by simp [View.exit, View.countOut, empty])
    · rcases h.unlisted none with freed | empty
      · exact Or.inl freed
      · exact Or.inr (by simp [View.exit, View.countOut, empty])
  unfold View.leave
  split_ifs with last
  · exact left.drop last.1.2
  · exact left

theorem Notified.sleep (well : Well evt v) (begun : v.event.condition = .initial)
    (listed : v.slot ≠ none) (pid : Pid) (id : Int) : Notified (v.sleep evt pid id) where
  unqueued := by
    have same : (v.sleep evt pid id).event.condition = .initial := begun
    simp [same]
  gone := fun freed => absurd ((well.alive listed).symm.trans freed) Bool.false_ne_true
  unlisted := fun none => absurd none listed

theorem Notified.listed (h : Notified v) {w : Waiter} (member : w ∈ v.holders)
    (begun : v.event.condition = .initial) : v.slot ≠ none := by
  intro none
  have occupied := List.ne_nil_of_mem member
  rcases h.unlisted none with freed | empty
  · rcases h.gone freed with destroyed | empty
    · rw [begun] at destroyed
      cases destroyed
    · exact occupied empty
  · exact occupied empty

theorem Notified.step (l : Label) (well : Well evt v) (admits : Admits v l) (kept : l ≠ .robbed)
    (h : Notified v) : Notified (v.step evt l) := by
  cases l with
  | idle => exact h
  | born motion id =>
    cases admits
    constructor <;> simp [View.step, unborn]
  | stillborn event =>
    obtain ⟨rfl, empty, _⟩ := admits
    exact ⟨fun _ => empty, fun _ => Or.inr rfl, fun _ => Or.inr rfl⟩
  | trigger => exact (Notified.wakeAll well .evtTriggered admits).note (.triggered evt)
  | destroy => exact h.destroy well admits
  | wait pid id signalPending =>
    have entered := h.note (.entered pid evt)
    have listed : v.slot ≠ none := by simp [admits.1]
    by_cases sleeps : Sleeps v.event signalPending
    · rw [View.step_wait_of_sleeps evt pid id sleeps]
      exact Notified.sleep (well.note _) sleeps.1 listed pid id
    · rw [View.step_wait_of_leaves evt pid id sleeps]
      exact entered.interrupt.leave pid id
  | resume pid id signalPending =>
    obtain ⟨w, member, -, -, -⟩ := admits
    by_cases sleeps : Sleeps v.event signalPending
    · rw [View.step_resume_of_sleeps evt pid id sleeps]
      exact Notified.sleep well sleeps.1 (h.listed member sleeps.1) pid id
    · rw [View.step_resume_of_leaves evt pid id sleeps]
      exact h.interrupt.leave pid id
  | wakeUp pid =>
    refine ⟨h.unqueued, fun freed => ?_, fun none => ?_⟩
    · exact (h.gone freed).imp_right fun empty => by simp [View.step, empty]
    · exact (h.unlisted none).imp_right fun empty => by simp [View.step, empty]
  | robbed => exact absurd rfl kept

/-! ## All events -/

def WakeGuard (s : State) : Action → Prop
  | .resume pid _ => ∀ w ∈ s.waiters, w.pid = pid → s.freed w.targetEvt = false
  | _ => True

instance (s : State) (a : Action) : Decidable (WakeGuard s a) := by
  refine a.casesOn ?_ ?_ ?_ ?_ ?_ ?_ ?_ ?_ <;> intros <;> dsimp only [WakeGuard] <;> infer_instance

def NoLostWakeUp (s : State) : Prop :=
  ∀ evt, ∀ w ∈ s.waiters, w.pid ∈ (s.mem evt).queue → w.woken = false →
    (s.mem evt).condition ≠ .evtTriggered ∧ (s.mem evt).condition ≠ .destroyed ∧
      s.freed evt = false

structure WakeInv (s : State) : Prop where
  sound : Sound s
  notified : ∀ evt, Notified (view s evt)

theorem not_robbed (s : State) (a : Action) (inv : WakeInv s) (guard : WakeGuard s a)
    (evt : Addr) : labelOf s a evt ≠ .robbed := by
  have routine : Routine fun _ _ l => l ≠ .robbed := by constructor <;> simp
  refine (forall_label_iff routine s inv.sound a).mpr ?_ evt
  cases a with
  | resume pid signalPending =>
    refine fun w waits same => ⟨by simp, fun c named other _ => ?_⟩
    have listed : (view s w.targetEvt).slot ≠ none := by
      intro none
      rcases (inv.notified w.targetEvt).unlisted none with freed | empty
      · exact absurd ((guard w waits same).symm.trans freed) Bool.false_ne_true
      · exact holders_ne_nil waits empty
    rw [Option.mem_def, find_eventId inv.sound waits listed, Option.some.injEq] at named
    exact absurd named.symm other
  | setRotation _ _ | rotevtDestroy _ | rotevtWait _ _ _ => simp [CallCond]
  | rotevtCreate _ _ _ | wakeUp _ | setRotationSampling _ _ _ | getRotationSampling _ _ => trivial

theorem wakeInv_step (s : State) (a : Action) (guard : Enabled s a ∧ WakeGuard s a)
    (inv : WakeInv s) : WakeInv (step s a) where
  sound := sound_step s a guard.1 inv.sound
  notified := fun evt => view_keep (G := fun _ l => l ≠ .robbed) (fun _ l => Notified.step l)
    s a guard.1 inv.sound (not_robbed s a inv guard.2 evt) (inv.notified evt)

theorem noLostWakeUp_of_inv (s : State) (inv : WakeInv s) : NoLostWakeUp s := by
  intro evt w waits queued asleep
  have target := inv.sound.queue_target waits queued
  have held : w ∈ (view s evt).holders := mem_holders.mpr ⟨waits, target⟩
  have h := inv.notified evt
  have live : ¬ ((s.mem evt).condition = .evtTriggered ∨ (s.mem evt).condition = .destroyed) :=
    fun ended => List.ne_nil_of_mem queued (h.unqueued ended)
  obtain ⟨untriggered, undestroyed⟩ := not_or.mp live
  refine ⟨untriggered, undestroyed, ?_⟩
  by_contra freed
  rcases h.gone (by simpa [view] using freed) with destroyed | empty
  · exact undestroyed destroyed
  · exact List.ne_nil_of_mem held empty

theorem always_noLostWakeUp (acts : List Action)
    (h : Along step (fun s a => Enabled s a ∧ WakeGuard s a) boot acts) :
    Always step NoLostWakeUp boot acts := by
  have unborn_notified : Notified unborn := by constructor <;> simp [unborn, blankEvent]
  have start : WakeInv boot := ⟨sound_boot, fun _ => unborn_notified⟩
  exact always_of_invariant WakeInv wakeInv_step noLostWakeUp_of_inv start h

theorem always_noLostWakeUp_spurious :
    Along step (fun s a => Enabled s a ∧ WakeGuard s a) boot
        [.rotevtCreate (some ⟨1, 1, 1, true⟩) true true, .rotevtWait (.nth 0) 0 false,
          .wakeUp (.nth 0), .resume (.nth 0) false] ∧
      Always step NoLostWakeUp boot
        [.rotevtCreate (some ⟨1, 1, 1, true⟩) true true, .rotevtWait (.nth 0) 0 false,
          .wakeUp (.nth 0), .resume (.nth 0) false] :=
  ⟨by decide, always_noLostWakeUp _ (by decide)⟩

/-- Two waiters are left with an event that a second destroy frees. A new event gets the
same id, and a third process sleeps on it; the two then count the old event down to 0
and remove the id, which frees the new event under its sleeper. -/
def robbedSleeper : List Action :=
  [.rotevtCreate (some ⟨0, 0, 0, false⟩) true true,
    .rotevtWait (.nth 0) 0 false, .rotevtWait (.nth 1) 0 false,
    .rotevtDestroy 0, .rotevtDestroy 0,
    .rotevtCreate (some ⟨0, 0, 0, false⟩) true true, .rotevtWait (.nth 2) 0 false,
    .resume (.nth 0) false, .resume (.nth 1) false]

theorem robbedSleeper_lost :
    Along step Enabled boot robbedSleeper ∧ ¬ NoLostWakeUp (run step boot robbedSleeper) := by
  refine ⟨by decide, fun none => ?_⟩
  have sleeper := none 1 ⟨.nth 2, 1, 0, false⟩ (by decide) (by decide) rfl
  exact absurd sleeper.2.2 (by decide)

end UnixSystems.RotationWakeUps
