import UnixSystems.RotationSimulation

/-! What a return from `rotevt_wait` tells its caller. The condition of an event leaves
`INITIAL` once and nothing sets it back, so a wait may return on a trigger that was over
before it was entered, and a signal taken by one waiter releases all of them. -/
namespace UnixSystems.RotationReports
open GuardedRuns RotationModel EventMachine RotationRuns RotationSimulation

def sinceEntry (pid : Pid) (evt : Addr) (history : List Occurrence) : List Occurrence :=
  history.takeWhile (· ≠ .entered pid evt)

def Justified (pid : Pid) (evt : Addr) (earlier : List Occurrence) : Prop :=
  .destroyed evt ∈ earlier ∨ .triggered evt ∈ sinceEntry pid evt earlier

def Reported (evt : Addr) (history : List Occurrence) : Prop :=
  ∀ pid earlier, (.returned pid evt 0 :: earlier) <:+ history → Justified pid evt earlier

theorem sinceEntry_cons {pid : Pid} {evt : Addr} {o : Occurrence} (other : o ≠ .entered pid evt)
    (history : List Occurrence) :
    sinceEntry pid evt (o :: history) = o :: sinceEntry pid evt history := by
  simp [sinceEntry, other]

theorem sinceEntry_entered (pid : Pid) (evt : Addr) (history : List Occurrence) :
    sinceEntry pid evt (.entered pid evt :: history) = [] := by
  simp [sinceEntry]

theorem mem_of_mem_sinceEntry {pid : Pid} {evt : Addr} {o : Occurrence}
    {history : List Occurrence} (recent : o ∈ sinceEntry pid evt history) : o ∈ history :=
  (List.takeWhile_sublist _).subset recent

theorem reported_cons {evt : Addr} {o : Occurrence} {history : List Occurrence} :
    Reported evt (o :: history) ↔
      Reported evt history ∧ ∀ pid, o = .returned pid evt 0 → Justified pid evt history := by
  constructor
  · intro h
    refine ⟨fun pid earlier tail => h pid earlier (List.suffix_cons_iff.mpr (Or.inr tail)), ?_⟩
    rintro pid rfl
    exact h pid history List.suffix_rfl
  · rintro ⟨old, new⟩ pid earlier tail
    rcases List.suffix_cons_iff.mp tail with same | tail
    · obtain ⟨rfl, rfl⟩ := List.cons.inj same
      exact new pid rfl
    · exact old pid earlier tail

theorem reported_note {evt : Addr} {o : Occurrence} {history : List Occurrence}
    (silent : ∀ pid, o ≠ .returned pid evt 0) :
    Reported evt (o :: history) ↔ Reported evt history := by
  rw [reported_cons]
  exact and_iff_left fun pid same => absurd same (silent pid)

theorem reported_return {evt : Addr} {pid : Pid} {history : List Occurrence}
    (now : Reported evt history) :
    Reported evt (.returned pid evt 0 :: history) ↔ Justified pid evt history := by
  rw [reported_cons]
  constructor
  · exact fun both => both.2 pid rfl
  · intro just
    refine ⟨now, fun q same => ?_⟩
    obtain ⟨rfl, _⟩ := Occurrence.returned.inj same
    exact just

/-! ## One event -/

structure Traced (evt : Addr) (v : View) : Prop where
  triggered : v.event.condition = .evtTriggered →
    ∀ w ∈ v.holders, .triggered evt ∈ sinceEntry w.pid evt v.history
  destroyed : v.event.condition = .destroyed → .destroyed evt ∈ v.history
  sticky : .triggered evt ∈ v.history →
    v.event.condition = .evtTriggered ∨ v.event.condition = .destroyed

def ReportCond (evt : Addr) (v : View) : Label → Prop
  | .wait _ _ signalPending => .destroyed evt ∈ v.history ∨ Sleeps v.event signalPending
  | .resume _ _ signalPending => .destroyed evt ∈ v.history ∨ Sleeps v.event signalPending ∨
    v.event.condition = .evtTriggered
  | _ => True

variable {evt : Addr} {v : View}

theorem leave_history (v : View) (evt : Addr) (pid : Pid) (id : Int) :
    (v.leave evt pid id).history = .returned pid evt 0 :: v.history := by
  unfold View.leave
  split_ifs <;> rfl

theorem interrupt_history (v : View) : v.interrupt.history = v.history := by
  unfold View.interrupt
  split_ifs <;> rfl

theorem destroy_history (v : View) (evt : Addr) :
    (v.destroy evt).history = .destroyed evt :: v.history := by
  unfold View.destroy
  dsimp only
  split_ifs <;> rfl

theorem Traced.enter (h : Traced evt v) {pid : Pid} (outside : ∀ w ∈ v.holders, w.pid ≠ pid) :
    Traced evt (v.note (.entered pid evt)) where
  triggered := by
    intro now w held
    have other : Occurrence.entered pid evt ≠ .entered w.pid evt := by
      simpa using (outside w held).symm
    rw [View.note, sinceEntry_cons other]
    exact List.mem_cons_of_mem _ (h.triggered now w held)
  destroyed := fun now => List.mem_cons_of_mem _ (h.destroyed now)
  sticky := fun past => h.sticky (by simpa [View.note] using past)

theorem Traced.trigger (evt : Addr) (v : View) : Traced evt (v.trigger evt) where
  triggered := by
    intro _ w _
    have recent : Occurrence.triggered evt ≠ .entered w.pid evt := by simp
    simp [View.trigger, View.note, sinceEntry_cons recent]
  destroyed := nofun
  sticky := fun _ => Or.inl rfl

theorem Traced.destroy (evt : Addr) (v : View) : Traced evt (v.destroy evt) := by
  have condition : (v.destroy evt).event.condition = .destroyed := by
    unfold View.destroy
    dsimp only
    split_ifs <;> rfl
  refine ⟨fun now => ?_, fun _ => ?_, fun _ => Or.inr condition⟩
  · rw [condition] at now
    cases now
  · rw [destroy_history]
    exact List.mem_cons_self

theorem Traced.interrupt (h : Traced evt v) : Traced evt v.interrupt := by
  unfold View.interrupt
  split_ifs with initial
  · refine ⟨nofun, nofun, fun past => ?_⟩
    rcases h.sticky past with now | now
    · rw [initial] at now
      cases now
    · rw [initial] at now
      cases now
  · exact h

theorem Traced.leave (h : Traced evt v) (pid : Pid) (id : Int) : Traced evt (v.leave evt pid id) := by
  have left : Traced evt (v.exit evt pid) := by
    refine ⟨fun now w member => ?_, fun now => ?_, fun past => ?_⟩
    · have recent : Occurrence.returned pid evt 0 ≠ .entered w.pid evt := by simp
      rw [View.exit, View.note, sinceEntry_cons recent]
      exact List.mem_cons_of_mem _ (h.triggered now w (List.mem_of_mem_filter member))
    · exact List.mem_cons_of_mem _ (h.destroyed now)
    · exact h.sticky (by simpa [View.exit, View.note, View.countOut] using past)
  unfold View.leave
  split_ifs
  · exact ⟨left.triggered, left.destroyed, left.sticky⟩
  · exact left

theorem Traced.sleep (h : Traced evt v) (begun : v.event.condition = .initial) (pid : Pid)
    (id : Int) : Traced evt (v.sleep evt pid id) := by
  have condition : (v.sleep evt pid id).event.condition = .initial := begun
  refine ⟨fun now => ?_, fun now => ?_, h.sticky⟩
  · rw [condition] at now
    cases now
  · rw [condition] at now
    cases now

theorem Traced.step (l : Label) (admits : Admits v l) (h : Traced evt v) :
    Traced evt (v.step evt l) := by
  cases l with
  | idle => exact h
  | born motion id =>
    cases admits
    exact ⟨nofun, nofun, nofun⟩
  | stillborn event =>
    obtain ⟨rfl, _, begun⟩ := admits
    refine ⟨nofun, fun now => ?_, nofun⟩
    cases begun.symm.trans now
  | trigger => exact Traced.trigger evt v
  | destroy => exact Traced.destroy evt v
  | wait pid id signalPending =>
    have entered := h.enter admits.2
    by_cases sleeps : Sleeps v.event signalPending
    · rw [View.step_wait_of_sleeps evt pid id sleeps]
      exact entered.sleep sleeps.1 pid id
    · rw [View.step_wait_of_leaves evt pid id sleeps]
      exact entered.interrupt.leave pid id
  | resume pid id signalPending =>
    by_cases sleeps : Sleeps v.event signalPending
    · rw [View.step_resume_of_sleeps evt pid id sleeps]
      exact h.sleep sleeps.1 pid id
    · rw [View.step_resume_of_leaves evt pid id sleeps]
      exact h.interrupt.leave pid id
  | wakeUp pid =>
    refine ⟨fun now w member => ?_, h.destroyed, h.sticky⟩
    obtain ⟨u, held, rfl⟩ := List.mem_map.mp member
    exact h.triggered now u held
  | robbed => exact ⟨h.triggered, h.destroyed, h.sticky⟩

theorem justified_iff (h : Traced evt v) {w : Waiter} (member : w ∈ v.holders) :
    Justified w.pid evt v.history ↔
      .destroyed evt ∈ v.history ∨ v.event.condition = .evtTriggered := by
  constructor
  · rintro (destroyed | recent)
    · exact Or.inl destroyed
    · rcases h.sticky (mem_of_mem_sinceEntry recent) with triggered | destroyed
      · exact Or.inr triggered
      · exact Or.inl (h.destroyed destroyed)
  · exact Or.imp id fun triggered => h.triggered triggered w member

theorem reported_step_iff (l : Label) (admits : Admits v l) (h : Traced evt v)
    (now : Reported evt v.history) : Reported evt (v.step evt l).history ↔ ReportCond evt v l := by
  cases l with
  | idle => exact iff_of_true now trivial
  | born motion id => exact iff_of_true now trivial
  | stillborn event => exact iff_of_true now trivial
  | trigger => exact iff_of_true ((reported_note (by simp)).mpr now) trivial
  | destroy =>
    rw [View.step, destroy_history]
    exact iff_of_true ((reported_note (by simp)).mpr now) trivial
  | wait pid id signalPending =>
    have entered : Reported evt (.entered pid evt :: v.history) := (reported_note (by simp)).mpr now
    by_cases sleeps : Sleeps v.event signalPending
    · rw [View.step_wait_of_sleeps evt pid id sleeps]
      exact iff_of_true entered (Or.inr sleeps)
    · rw [View.step_wait_of_leaves evt pid id sleeps, leave_history, interrupt_history, View.note,
        reported_return entered, Justified, sinceEntry_entered]
      simp [ReportCond, sleeps]
  | resume pid id signalPending =>
    obtain ⟨w, member, rfl, rfl, _⟩ := admits
    by_cases sleeps : Sleeps v.event signalPending
    · rw [View.step_resume_of_sleeps evt w.pid w.eventId sleeps]
      exact iff_of_true now (Or.inr (Or.inl sleeps))
    · rw [View.step_resume_of_leaves evt w.pid w.eventId sleeps, leave_history, interrupt_history,
        reported_return now, justified_iff h member]
      simp [ReportCond, sleeps]
  | wakeUp pid => exact iff_of_true now trivial
  | robbed => exact iff_of_true now trivial

/-! ## All events -/

/-- Every return from a wait on an event not yet destroyed came after a trigger of that
event since the entry of the call. -/
def ReportsWhileWaiting (s : State) : Prop := ∀ evt, Reported evt (eventHistory s evt)

/-- Until the event is destroyed, a wait sleeps, and a process that has slept finds the
event triggered or goes back to sleep. -/
def WaitCond (s : State) : Action → Prop
  | .rotevtWait _ eventId signalPending => ∀ evt ∈ s.eventIdr.find eventId,
    .destroyed evt ∈ s.history ∨ Sleeps (s.mem evt) signalPending
  | .resume pid signalPending => ∀ w ∈ s.waiters, w.pid = pid →
    .destroyed w.targetEvt ∈ s.history ∨ Sleeps (s.mem w.targetEvt) signalPending ∨
      (s.mem w.targetEvt).condition = .evtTriggered
  | _ => True

instance (s : State) (a : Action) : Decidable (WaitCond s a) := by
  refine a.casesOn ?_ ?_ ?_ ?_ ?_ ?_ ?_ ?_ <;> intros <;> dsimp only [WaitCond] <;> infer_instance

theorem destroyed_mem_eventHistory (s : State) (evt : Addr) :
    .destroyed evt ∈ eventHistory s evt ↔ .destroyed evt ∈ s.history := by
  simp [eventHistory, evtOf]

theorem callCond_reportCond_iff (s : State) (a : Action) :
    CallCond ReportCond s a ↔ WaitCond s a := by
  cases a with
  | rotevtWait pid id signalPending =>
    refine forall₂_congr fun evt _ => ?_
    exact or_congr_left (destroyed_mem_eventHistory s evt)
  | resume pid signalPending =>
    simp only [CallCond, ReportCond, WaitCond, implies_true, and_true]
    refine forall₃_congr fun w _ _ => ?_
    exact or_congr_left (destroyed_mem_eventHistory s w.targetEvt)
  | setRotation _ _ | rotevtDestroy _ => simp [CallCond, ReportCond, WaitCond]
  | rotevtCreate _ _ _ | wakeUp _ | setRotationSampling _ _ _ | getRotationSampling _ _ =>
    exact Iff.rfl

structure ReportInv (s : State) : Prop where
  sound : Sound s
  traced : ∀ evt, Traced evt (view s evt)

theorem reportInv_step (s : State) (a : Action) (enabled : Enabled s a) (inv : ReportInv s) :
    ReportInv (step s a) where
  sound := sound_step s a enabled inv.sound
  traced := fun evt => view_keep (G := fun _ _ => True) (fun _ l _ admits _ => Traced.step l admits)
    s a enabled inv.sound trivial (inv.traced evt)

theorem reports_step_iff (s : State) (a : Action) (enabled : Enabled s a) (inv : ReportInv s)
    (now : ReportsWhileWaiting s) : ReportsWhileWaiting (step s a) ↔ WaitCond s a := by
  have routine : Routine ReportCond :=
    ⟨fun _ _ => trivial, fun _ _ _ _ => trivial, fun _ _ _ => trivial, fun _ _ _ => trivial⟩
  rw [← callCond_reportCond_iff, ← forall_label_iff routine s inv.sound]
  exact views_step_iff (P := fun evt v => Reported evt v.history)
    (fun _ _ l _ admits => reported_step_iff l admits) s a enabled inv.sound inv.traced now

/-- The event triggers, and only then does a process enter a wait on it: the wait returns
at once although no later sample arrives. -/
def staleTrigger : List Action :=
  .rotevtCreate (some ⟨0, 0, 0, false⟩) true true ::
    List.replicate 6 (.setRotation 0 (some ⟨0, 0, 0⟩)) ++
    [.rotevtWait (.nth 0) 0 false]

end UnixSystems.RotationReports
