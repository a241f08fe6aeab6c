import UnixSystems.RotationWakeUps

/-! The waiter counter. It is incremented once per sleep and decremented once per call,
so it is exact just as long as each call sleeps exactly once. A process that comes back to an
event that has been freed would write to whatever the block holds by then; the result is for runs
in which none does. -/
namespace UnixSystems.RotationCounter
open GuardedRuns RotationModel EventMachine RotationRuns RotationSimulation RotationWakeUps

/-! ## One event -/

def Exact (v : View) : Prop := v.slot ≠ none → v.event.ctr.toInt = v.holders.length

def ExactCond (v : View) : Label → Prop
  | .wait _ _ signalPending =>
    Sleeps v.event signalPending ∨ v.event.condition = .destroyed ∧ v.event.ctr = 1
  | .resume _ _ signalPending => v.slot ≠ none → ¬ Sleeps v.event signalPending
  | _ => True

variable {evt : Addr} {v : View}

theorem exact_wakeAll (h : Exact v) (c : Condition) : Exact (v.setCondition c).wakeAll := by
  intro listed
  simpa [View.wakeAll, View.setCondition] using h listed

theorem exact_drop (v : View) : Exact v.drop := fun listed => absurd rfl listed

theorem exact_destroy (h : Exact v) : Exact (v.destroy evt) := by
  unfold View.destroy
  dsimp only
  split_ifs
  · exact exact_wakeAll h .destroyed
  · exact exact_drop _

theorem lastOut_interrupt (v : View) :
    v.interrupt.LastOut ↔ v.event.condition = .destroyed ∧ v.event.ctr = 1 := by
  have one : v.event.ctr - 1 = 0 ↔ v.event.ctr = 1 := by
    rw [Int32.sub_eq_iff_eq_add, Int32.zero_add]
  unfold View.interrupt
  split_ifs with initial
  · simp [View.LastOut, View.setCondition, initial]
  · rw [View.LastOut, one, and_comm]

theorem exact_room (well : Well evt v) {pid : Pid} (outside : ∀ w ∈ v.holders, w.pid ≠ pid)
    (exact_ : v.event.ctr.toInt = v.holders.length) : v.event.ctr.toInt < 2 ^ 31 - 1 := by
  have new : pid ∉ v.holders.map (·.pid) := by
    intro member
    obtain ⟨w, held, same⟩ := List.mem_map.mp member
    exact outside w held same
  have few := Pid.length_lt_of_nodup _ (List.nodup_cons.mpr ⟨new, well.distinct⟩)
  simp only [List.length_cons, List.length_map] at few
  omega

theorem exact_sleep_new (well : Well evt v) (h : Exact v) {pid : Pid} (id : Int)
    (outside : ∀ w ∈ v.holders, w.pid ≠ pid) : Exact (v.sleep evt pid id) := by
  intro listed
  have count := h listed
  have room := exact_room well outside count
  simp only [View.sleep, View.countIn, View.prepare, Well.others_eq outside, List.length_cons]
  rw [Int32.toInt_add_one room, count]
  push_cast
  rfl

theorem not_exact_sleep_again (well : Well evt v) (h : Exact v) {pid : Pid} (id : Int)
    (inside : pid ∈ v.holders.map (·.pid)) (listed : v.slot ≠ none) :
    ¬ Exact (v.sleep evt pid id) := by
  intro again
  have count := h listed
  have twice := again listed
  have same := well.length_others inside
  simp only [View.sleep, View.countIn, View.prepare, List.length_cons, same, ← count] at twice
  have stuck : v.event.ctr + 1 = v.event.ctr := Int32.toInt_inj.mp twice
  grind

theorem exact_leave_new_iff (h : Exact v) {pid : Pid} {id : Int} (slot : v.slot = some id)
    (outside : ∀ w ∈ v.holders, w.pid ≠ pid) :
    Exact (v.interrupt.leave evt pid id) ↔
      v.event.condition = .destroyed ∧ v.event.ctr = 1 := by
  obtain ⟨holders, sameSlot, ctr⟩ := v.interrupt_rest
  have listed : v.slot ≠ none := by simp [slot]
  have count := h listed
  unfold View.leave
  split_ifs with last
  · exact iff_of_true (exact_drop _) ((lastOut_interrupt v).mp last.1)
  · refine iff_of_false (fun left => ?_) (fun ends => ?_)
    · have less := left (by simpa [View.exit, View.countOut, sameSlot] using listed)
      simp only [View.exit, View.note, View.countOut, holders, ctr, Well.others_eq outside,
        ← count] at less
      have stuck : v.event.ctr - 1 = v.event.ctr := Int32.toInt_inj.mp less
      grind
    · exact last ⟨(lastOut_interrupt v).mpr ends, sameSlot.trans slot⟩

theorem exact_leave (well : Well evt v) (h : Exact v) {pid : Pid} (id : Int)
    (inside : pid ∈ v.holders.map (·.pid)) : Exact (v.interrupt.leave evt pid id) := by
  obtain ⟨holders, slot, ctr⟩ := v.interrupt_rest
  unfold View.leave
  split_ifs
  · exact exact_drop _
  · intro listed
    have count := h (by simpa [View.exit, View.countOut, slot] using listed)
    have fewer := well.length_others inside
    simp only [View.exit, View.note, View.countOut, holders, ctr]
    rw [Int32.toInt_sub_one (by omega)]
    omega

theorem exact_step_iff (l : Label) (well : Well evt v) (admits : Admits v l) (h : Exact v) :
    Exact (v.step evt l) ↔ ExactCond v l := by
  cases l with
  | idle => exact iff_of_true h trivial
  | born motion id =>
    cases admits
    exact iff_of_true (fun _ => by simp [View.step, unborn]) trivial
  | stillborn event =>
    obtain ⟨rfl, _⟩ := admits
    exact iff_of_true (fun listed => absurd rfl listed) trivial
  | trigger => exact iff_of_true (exact_wakeAll h .evtTriggered) trivial
  | destroy => exact iff_of_true (exact_destroy h) trivial
  | wait pid id signalPending =>
    obtain ⟨slot, outside⟩ := admits
    by_cases sleeps : Sleeps v.event signalPending
    · rw [View.step_wait_of_sleeps evt pid id sleeps]
      exact iff_of_true (exact_sleep_new (v := v.note _) (well.note _) h id outside) (Or.inl sleeps)
    · rw [View.step_wait_of_leaves evt pid id sleeps,
        exact_leave_new_iff (v := v.note _) h slot outside]
      simp [ExactCond, sleeps]
  | resume pid id signalPending =>
    obtain ⟨w, member, rfl, rfl, _⟩ := admits
    have inside : w.pid ∈ v.holders.map (·.pid) := List.mem_map.mpr ⟨w, member, rfl⟩
    by_cases sleeps : Sleeps v.event signalPending
    · rw [View.step_resume_of_sleeps evt w.pid w.eventId sleeps]
      by_cases listed : v.slot = none
      · exact iff_of_true (fun still => absurd listed still) (fun still => absurd listed still)
      · refine iff_of_false (not_exact_sleep_again well h _ inside listed) ?_
        exact fun cond => cond listed sleeps
    · rw [View.step_resume_of_leaves evt w.pid w.eventId sleeps]
      exact iff_of_true (exact_leave well h _ inside) (fun _ => sleeps)
  | wakeUp pid =>
    exact iff_of_true (fun listed => by simpa [View.step] using h listed) trivial
  | robbed => exact iff_of_true (exact_drop v) trivial

/-! ## All events -/

def CounterExact (s : State) : Prop :=
  ∀ i evt, s.eventIdr.find i = some evt →
    (s.mem evt).ctr.toInt = (s.waiters.filter (·.targetEvt = evt)).length

/-- A wait sleeps, unless it finds a destroyed event with one process left inside; and a
process whose event is still in the table does not sleep a second time. -/
def CounterCond (s : State) : Action → Prop
  | .rotevtWait _ eventId signalPending => ∀ evt ∈ s.eventIdr.find eventId,
    Sleeps (s.mem evt) signalPending ∨ (s.mem evt).condition = .destroyed ∧ (s.mem evt).ctr = 1
  | .resume pid signalPending => ∀ w ∈ s.waiters, w.pid = pid →
    s.eventIdr.find w.eventId = some w.targetEvt → ¬ Sleeps (s.mem w.targetEvt) signalPending
  | _ => True

instance (s : State) (a : Action) : Decidable (CounterCond s a) := by
  refine a.casesOn ?_ ?_ ?_ ?_ ?_ ?_ ?_ ?_ <;> intros <;> dsimp only [CounterCond] <;> infer_instance

theorem counterExact_iff {s : State} (h : Sound s) :
    CounterExact s ↔ ∀ evt, Exact (view s evt) := by
  constructor
  · intro each evt listed
    obtain ⟨i, slot⟩ := Option.ne_none_iff_exists'.mp listed
    exact each i evt ((slotOf_eq_some s h.oneSlot evt i).mp slot)
  · intro each i evt found
    exact each evt (slot_ne_none_of_find h found)

theorem callCond_exactCond_iff {s : State} (h : Sound s) (a : Action) :
    CallCond (fun _ => ExactCond) s a ↔ CounterCond s a := by
  cases a with
  | resume pid signalPending =>
    simp only [CallCond, ExactCond, CounterCond, implies_true, and_true]
    refine forall₃_congr fun w waits _ => ?_
    rw [slot_ne_none_iff h waits]
    rfl
  | rotevtWait pid id signalPending => exact Iff.rfl
  | setRotation _ _ | rotevtDestroy _ => simp [CallCond, ExactCond, CounterCond]
  | rotevtCreate _ _ _ | wakeUp _ | setRotationSampling _ _ _ | getRotationSampling _ _ =>
    exact Iff.rfl

theorem counterExact_step_iff (s : State) (a : Action) (enabled : Enabled s a) (h : Sound s)
    (now : CounterExact s) : CounterExact (step s a) ↔ CounterCond s a := by
  have routine : Routine fun _ => ExactCond :=
    ⟨fun _ _ => trivial, fun _ _ _ _ => trivial, fun _ _ _ => trivial, fun _ _ _ => trivial⟩
  rw [counterExact_iff (sound_step s a enabled h), ← callCond_exactCond_iff h,
    ← forall_label_iff routine s h]
  exact views_step_iff (P := fun _ => Exact) (Q := fun _ _ => True) (C := fun _ => ExactCond)
    (fun _ _ l well admits _ => exact_step_iff l well admits) s a enabled h (fun _ => trivial)
    ((counterExact_iff h).mp now)

theorem always_counterExact_iff (acts : List Action)
    (h : Along step (fun s a => Enabled s a ∧ WakeGuard s a) boot acts) :
    Always step CounterExact boot acts ↔ Along step CounterCond boot acts := by
  have start : CounterExact boot := fun i evt found => by simp [boot] at found
  refine always_iff_along Sound CounterExact ?_ ?_ sound_boot start h
  · exact fun s a enabled => sound_step s a enabled.1
  · exact fun s a enabled => counterExact_step_iff s a enabled.1

theorem always_counterExact_iff_two :
    Along step (fun s a => Enabled s a ∧ WakeGuard s a) boot
        [.rotevtCreate (some ⟨1, 1, 1, true⟩) true true, .rotevtWait (.nth 0) 0 false,
          .rotevtWait (.nth 1) 0 false, .rotevtDestroy 0,
          .resume (.nth 1) false, .resume (.nth 0) false] ∧
      Always step CounterExact boot
        [.rotevtCreate (some ⟨1, 1, 1, true⟩) true true, .rotevtWait (.nth 0) 0 false,
          .rotevtWait (.nth 1) 0 false, .rotevtDestroy 0,
          .resume (.nth 1) false, .resume (.nth 0) false] :=
  ⟨by decide, (always_counterExact_iff _ (by decide)).mpr (by decide)⟩

/-- A wait on an event that has triggered before drives the counter to -1. -/
def waitAfterTrigger : List Action :=
  .rotevtCreate (some ⟨0, 0, 0, false⟩) true true ::
    List.replicate 6 (.setRotation 0 (some ⟨0, 0, 0⟩)) ++
    [.rotevtWait (.nth 0) 0 false]

theorem waitAfterTrigger_negative :
    Along step Enabled boot waitAfterTrigger ∧
      ((run step boot waitAfterTrigger).mem 0).ctr.toInt = -1 ∧
      ¬ CounterExact (run step boot waitAfterTrigger) := by
  refine ⟨by decide, by decide, fun each => ?_⟩
  exact absurd (each 0 0 (by decide)) (by decide)

end UnixSystems.RotationCounter
