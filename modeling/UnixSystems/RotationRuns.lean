import UnixSystems.EventMachine
import UnixSystems.GuardedRuns

/-! Interleavings of the rotation system calls at lock granularity, and their
projection to one event. A run is any list of enabled steps by any processes.

Every call acts on one event at a time, except that `set_rotation` visits all of
them and that a wait which frees by id may free another event than its own. The
projection `view` collects what belongs to one event; the lemmas here say what each
operation of the code does to the projection of every event. -/
namespace UnixSystems.RotationRuns
open GuardedRuns RotationModel EventMachine

inductive Action where
  | setRotation (uid : ℕ) (rotation : Option DevRotation)
  | rotevtCreate (motion : Option RotationMotion) (memory idrMemory : Bool)
  | rotevtDestroy (eventId : Int)
  | rotevtWait (pid : Pid) (eventId : Int) (signalPending : Bool)
  | resume (pid : Pid) (signalPending : Bool)
  | wakeUp (pid : Pid)
  | setRotationSampling (uid : ℕ) (nrSamples window : Int32)
  | getRotationSampling (storeSamples storeWindow : Bool)
deriving DecidableEq

def step (s : State) : Action → State
  | .setRotation uid rotation => (setRotation s uid rotation).1
  | .rotevtCreate motion memory idrMemory => (rotevtCreate s motion memory idrMemory).1
  | .rotevtDestroy eventId => (rotevtDestroy s eventId).1
  | .rotevtWait pid eventId signalPending => (rotevtWait s pid eventId signalPending).1
  | .resume pid signalPending => (rotevtWaitResumed s pid signalPending).1
  | .wakeUp pid => wakeUpProcess s pid
  | .setRotationSampling uid nrSamples window => (setRotationSampling s uid nrSamples window).1
  | .getRotationSampling _ _ => s

/-- A process makes one call at a time, and continues after `schedule()` only once
it has been woken. -/
def Enabled (s : State) : Action → Prop
  | .rotevtWait pid _ _ => ∀ w ∈ s.waiters, w.pid ≠ pid
  | .resume pid _ => ∃ w ∈ s.waiters, w.pid = pid ∧ w.woken = true
  | _ => True

instance (s : State) (a : Action) : Decidable (Enabled s a) := by
  refine a.casesOn ?_ ?_ ?_ ?_ ?_ ?_ ?_ ?_ <;> intros <;> dsimp only [Enabled] <;> infer_instance

/-! ## The projection to one event -/

def evtOf : Occurrence → Addr
  | .triggered evt | .destroyed evt | .entered _ evt | .returned _ evt _ => evt

def slotOf (s : State) (evt : Addr) : Option Int :=
  (s.eventIdr.entries.find? (·.2 = evt)).map (·.1)

def eventHistory (s : State) (evt : Addr) : List Occurrence :=
  s.history.filter (evtOf · = evt)

def view (s : State) (evt : Addr) : View where
  event := s.mem evt
  holders := s.waiters.filter (·.targetEvt = evt)
  slot := slotOf s evt
  freed := s.freed evt
  history := eventHistory s evt

def OneSlot (t : IdTable Addr) : Prop :=
  ∀ i j evt, t.find i = some evt → t.find j = some evt → i = j

structure Sound (s : State) : Prop where
  pids : (s.waiters.map (·.pid)).Nodup
  oneSlot : OneSlot s.eventIdr
  fresh : ∀ evt, s.brk ≤ evt → view s evt = unborn
  views : ∀ evt, Well evt (view s evt)

theorem slotOf_eq_some (s : State) (one : OneSlot s.eventIdr) (evt : Addr) (i : Int) :
    slotOf s evt = some i ↔ s.eventIdr.find i = some evt := by
  unfold slotOf
  constructor
  · intro found
    obtain ⟨⟨j, a⟩, first, rfl⟩ := Option.map_eq_some_iff.mp found
    have here : a = evt := by simpa using List.find?_some first
    subst here
    exact (s.eventIdr.mem_entries_iff j a).mp (List.mem_of_find?_eq_some first)
  · intro found
    have member := (s.eventIdr.mem_entries_iff i evt).mpr found
    cases first : s.eventIdr.entries.find? (·.2 = evt) with
    | none => simpa using List.find?_eq_none.mp first (i, evt) member
    | some e =>
      obtain ⟨j, a⟩ := e
      have here : a = evt := by simpa using List.find?_some first
      subst here
      have other := (s.eventIdr.mem_entries_iff j a).mp (List.mem_of_find?_eq_some first)
      simpa using one j i a other found

theorem slotOf_eq_none (s : State) (one : OneSlot s.eventIdr) (evt : Addr) :
    slotOf s evt = none ↔ ∀ i, s.eventIdr.find i ≠ some evt := by
  constructor
  · intro absent i found
    rw [(slotOf_eq_some s one evt i).mpr found] at absent
    cases absent
  · intro absent
    by_contra present
    obtain ⟨i, found⟩ := Option.ne_none_iff_exists'.mp present
    exact absent i ((slotOf_eq_some s one evt i).mp found)

theorem Sound.holder {s : State} (h : Sound s) {w u : Waiter} (hw : w ∈ s.waiters)
    (hu : u ∈ s.waiters) (same : w.pid = u.pid) : w = u :=
  List.inj_on_of_nodup_map h.pids hw hu same

theorem mem_holders {s : State} {evt : Addr} {w : Waiter} :
    w ∈ (view s evt).holders ↔ w ∈ s.waiters ∧ w.targetEvt = evt := by
  simp [view]

theorem Sound.queue_target {s : State} (h : Sound s) {evt : Addr} {w : Waiter}
    (hw : w ∈ s.waiters) (queued : w.pid ∈ (s.mem evt).queue) : w.targetEvt = evt := by
  obtain ⟨u, held, same⟩ := List.mem_map.mp ((h.views evt).queued w.pid queued)
  obtain ⟨hu, target⟩ := mem_holders.mp held
  rw [← h.holder hu hw same, target]

/-! ## What each operation does to each event -/

theorem view_setEvent (s : State) (c evt : Addr) (v : RotationEvent) :
    view (s.setEvent c v) evt =
      if evt = c then { view s evt with event := v } else view s evt := by
  by_cases here : evt = c <;>
    simp [view, State.setEvent, slotOf, eventHistory, here]

theorem view_modify (s : State) (c evt : Addr) (f : RotationEvent → RotationEvent) :
    view (s.setEvent c (f (s.mem c))) evt =
      if evt = c then { view s evt with event := f (view s evt).event } else view s evt := by
  rw [view_setEvent]
  split_ifs with here
  · rw [here]
    rfl
  · rfl

theorem view_note (s : State) (o : Occurrence) (evt : Addr) :
    view (s.note o) evt = if evt = evtOf o then (view s evt).note o else view s evt := by
  by_cases here : evt = evtOf o
  · simp [view, State.note, View.note, slotOf, eventHistory, here]
  · have other : evtOf o ≠ evt := fun same => here same.symm
    simp [view, State.note, slotOf, eventHistory, here, other]

theorem filter_map_wakeIf (f : Waiter → Bool) (l : List Waiter) (evt : Addr) :
    (l.map fun w => w.wakeIf (f w)).filter (·.targetEvt = evt) =
      (l.filter (·.targetEvt = evt)).map fun w => w.wakeIf (f w) := by
  rw [List.filter_map]
  rfl

theorem view_wakeUpAll (s : State) (c evt : Addr)
    (own : ∀ w ∈ s.waiters, w.pid ∈ (s.mem c).queue → w.targetEvt = c) :
    view (wakeUpAll s c) evt = if evt = c then (view s evt).wakeAll else view s evt := by
  by_cases here : evt = c
  · subst here
    rw [if_pos rfl]
    refine View.ext ?_ (filter_map_wakeIf _ _ _) rfl rfl rfl
    simp [view, wakeUpAll, State.setEvent, View.wakeAll]
  · have same : (s.waiters.filter (·.targetEvt = evt)).map
        (fun w => w.wakeIf (w.pid ∈ (s.mem c).queue)) = s.waiters.filter (·.targetEvt = evt) := by
      refine (List.map_congr_left fun w member => ?_).trans (List.map_id _)
      obtain ⟨waits, target⟩ := List.mem_filter.mp member
      have off : w.pid ∉ (s.mem c).queue := fun on =>
        here ((of_decide_eq_true target).symm.trans (own w waits on))
      simp [Waiter.wakeIf, off]
    simp [view, wakeUpAll, State.setEvent, slotOf, eventHistory, here, filter_map_wakeIf, same]

theorem find_removeAndFree (s : State) (id i : Int) :
    (removeAndFree s id).eventIdr.find i = if i = id then none else s.eventIdr.find i := by
  unfold removeAndFree
  cases found : s.eventIdr.find id with
  | none =>
    split_ifs with same
    · rw [same, found]
    · rfl
  | some c => simp [kfree]

theorem oneSlot_removeAndFree (s : State) (one : OneSlot s.eventIdr) (id : Int) :
    OneSlot (removeAndFree s id).eventIdr := by
  intro i j evt first second
  rw [find_removeAndFree] at first second
  split_ifs at first second with hi hj
  exact one i j evt first second

theorem view_removeAndFree (s : State) (one : OneSlot s.eventIdr) (id : Int) (evt : Addr) :
    view (removeAndFree s id) evt =
      if s.eventIdr.find id = some evt then (view s evt).drop else view s evt := by
  have keep : ∀ i, s.eventIdr.find id ≠ some evt →
      (slotOf (removeAndFree s id) evt = some i ↔ slotOf s evt = some i) := by
    intro i other
    rw [slotOf_eq_some _ (oneSlot_removeAndFree s one id), slotOf_eq_some _ one, find_removeAndFree]
    by_cases same : i = id
    · simp [same, other]
    · simp [same]
  by_cases here : s.eventIdr.find id = some evt
  · rw [if_pos here]
    have gone : slotOf (removeAndFree s id) evt = none := by
      rw [slotOf_eq_none _ (oneSlot_removeAndFree s one id)]
      intro i found
      rw [find_removeAndFree] at found
      split_ifs at found with same
      exact same (one i id evt found here)
    refine View.ext ?_ ?_ gone ?_ ?_ <;>
      simp [view, removeAndFree, here, kfree, View.drop, eventHistory]
  · rw [if_neg here]
    refine View.ext ?_ ?_ (Option.ext fun i => keep i here) ?_ ?_ <;>
      cases found : s.eventIdr.find id with
      | none => simp [view, removeAndFree, found, eventHistory]
      | some c =>
        have other : evt ≠ c := fun same => here (same ▸ found)
        simp [view, removeAndFree, found, kfree, eventHistory, other]

theorem filter_other (s : State) (pid : Pid) (c evt : Addr) (other : evt ≠ c)
    (alone : ∀ w ∈ s.waiters, w.pid = pid → w.targetEvt = c) :
    (s.waiters.filter (·.pid ≠ pid)).filter (·.targetEvt = evt) =
      s.waiters.filter (·.targetEvt = evt) := by
  rw [List.filter_filter]
  refine List.filter_congr fun w waits => ?_
  by_cases target : w.targetEvt = evt
  · have differs : w.pid ≠ pid := fun same => other (target.symm.trans (alone w waits same))
    simp [target, differs]
  · simp [target]

theorem filter_here (s : State) (pid : Pid) (evt : Addr) :
    (s.waiters.filter (·.pid ≠ pid)).filter (·.targetEvt = evt) =
      (s.waiters.filter (·.targetEvt = evt)).filter (·.pid ≠ pid) := by
  rw [List.filter_filter, List.filter_filter]
  exact List.filter_congr fun w _ => Bool.and_comm _ _

theorem view_countOut (s : State) (pid : Pid) (c evt : Addr)
    (alone : ∀ w ∈ s.waiters, w.pid = pid → w.targetEvt = c) :
    view (countOut s pid c) evt = if evt = c then (view s evt).countOut pid else view s evt := by
  by_cases here : evt = c
  · subst here
    rw [if_pos rfl]
    refine View.ext ?_ (filter_here s pid evt) rfl rfl rfl
    simp [view, countOut, finishWait, State.setEvent, View.countOut]
  · rw [if_neg here]
    refine View.ext ?_ (filter_other s pid c evt here alone) rfl rfl rfl
    simp [view, countOut, finishWait, State.setEvent, here]

theorem view_leaveWait (s : State) (one : OneSlot s.eventIdr) (pid : Pid) (c evt : Addr) (id : Int)
    (alone : ∀ w ∈ s.waiters, w.pid = pid → w.targetEvt = c) :
    view (leaveWait s pid c id).1 evt =
      if evt = c then (view s evt).leave c pid id
      else if (view s c).LastOut ∧ s.eventIdr.find id = some evt then (view s evt).drop
      else view s evt := by
  have counted := view_countOut s pid c evt alone
  have last : ((countOut s pid c).mem c).ctr = 0 ∧ ((countOut s pid c).mem c).condition = .destroyed ↔
      (view s c).LastOut := by
    simp [countOut, finishWait, State.setEvent, View.LastOut, view]
  have table : (countOut s pid c).eventIdr = s.eventIdr := rfl
  have removed := view_removeAndFree (countOut s pid c) one id evt
  simp only [leaveWait, last, view_note, evtOf]
  by_cases here : evt = c
  · subst here
    simp only [if_true] at counted ⊢
    rw [View.leave]
    have slot : (view s evt).slot = some id ↔ s.eventIdr.find id = some evt :=
      slotOf_eq_some s one evt id
    by_cases out : (view s evt).LastOut
    · rw [if_pos out, removed, table]
      by_cases found : s.eventIdr.find id = some evt
      · rw [if_pos found, if_pos ⟨out, slot.mpr found⟩, counted]
        rfl
      · rw [if_neg found, if_neg (fun both => found (slot.mp both.2)), counted]
        rfl
    · rw [if_neg out, if_neg (fun both => out both.1), counted]
      rfl
  · rw [if_neg here] at counted
    simp only [here, if_false]
    by_cases out : (view s c).LastOut
    · rw [if_pos out, removed, table, counted]
      simp [out]
    · rw [if_neg out, counted, if_neg (fun both => out both.1)]

theorem view_prepareToWait (s : State) (pid : Pid) (c evt : Addr) :
    view (prepareToWait s c pid) evt =
      if evt = c then (view s evt).prepare pid else view s evt := by
  unfold prepareToWait
  by_cases queued : pid ∈ (s.mem c).queue
  · rw [if_pos queued]
    split_ifs with here
    · subst here
      simp [view, View.prepare, queued]
    · rfl
  · rw [if_neg queued, view_setEvent]
    split_ifs with here
    · subst here
      simp [view, View.prepare, queued]
    · rfl

theorem view_countIn (s : State) (pid : Pid) (c evt : Addr) (id : Int)
    (alone : ∀ w ∈ s.waiters, w.pid = pid → w.targetEvt = c) :
    view (countIn s pid c id) evt =
      if evt = c then (view s evt).countIn c pid id else view s evt := by
  by_cases here : evt = c
  · subst here
    rw [if_pos rfl]
    refine View.ext ?_ ?_ rfl rfl rfl
    · simp [view, countIn, State.setEvent, View.countIn]
    · have kept := filter_here s pid evt
      simp only [view, countIn, State.setEvent, View.countIn] at kept ⊢
      rw [List.filter_cons_of_pos (by simp), kept]
  · rw [if_neg here]
    have other : c ≠ evt := fun same => here same.symm
    refine View.ext ?_ ?_ rfl rfl rfl
    · simp [view, countIn, State.setEvent, here]
    · have kept := filter_other s pid c evt here alone
      simp only [view, countIn, State.setEvent] at kept ⊢
      rw [List.filter_cons_of_neg (by simpa using other), kept]

/-- The loop acts on the event waited for. Another event changes only when the caller,
the last waiter by the counter, removes its id and the id names that other event. -/
theorem view_waitLoop (s : State) (one : OneSlot s.eventIdr) (pid : Pid) (c evt : Addr) (id : Int)
    (signalPending : Bool) (alone : ∀ w ∈ s.waiters, w.pid = pid → w.targetEvt = c) :
    view (waitLoop s pid c id signalPending).1 evt =
      if evt = c then (view s evt).loop c pid id signalPending
      else if (view s c).LastOut ∧ s.eventIdr.find id = some evt then (view s evt).drop
      else view s evt := by
  have frame : (prepareToWait s c pid).waiters = s.waiters ∧
      (prepareToWait s c pid).eventIdr = s.eventIdr := by
    unfold prepareToWait
    split_ifs <;> exact ⟨rfl, rfl⟩
  obtain ⟨waiters, table⟩ := frame
  have prepared := view_prepareToWait s pid c
  unfold waitLoop View.loop View.interrupt Sleeps
  by_cases initial : (s.mem c).condition = .initial
  · have begun : (view s c).event.condition = .initial := initial
    have notLast : ¬ (view s c).LastOut := by simp [View.LastOut, begun]
    rw [if_pos initial]
    cases signalPending with
    | true =>
      have marked := view_modify (prepareToWait s c pid) c
      have stop := marked c (fun e => { e with condition := .sigPending })
      simp only [if_true] at stop ⊢
      rw [view_leaveWait _ (by rw [State.setEvent, table]; exact one) _ _ _ _
        (by rw [State.setEvent, waiters]; exact alone), stop,
        marked evt (fun e => { e with condition := .sigPending }), prepared]
      by_cases here : evt = c
      · subst here
        simp only [if_true, begun, Bool.true_eq_false, and_false, if_false]
        exact View.leave_prepare ((view s evt).setCondition .sigPending) evt pid id
      · simp [here, View.LastOut, begun]
    | false =>
      simp only [Bool.false_eq_true, if_false]
      rw [view_countIn _ _ _ _ _ (by rw [waiters]; exact alone), prepared]
      by_cases here : evt = c
      · subst here
        simp [begun, View.sleep]
      · simp [here, notLast]
  · have begun : (view s c).event.condition ≠ .initial := initial
    rw [if_neg initial, view_leaveWait s one pid c evt id alone]
    by_cases here : evt = c
    · subst here
      simp [begun]
    · simp [here]

theorem view_checkEvent (s : State) (c evt : Addr)
    (own : ∀ w ∈ s.waiters, w.pid ∈ (s.mem c).queue → w.targetEvt = c) :
    view (checkEvent s c) evt =
      if evt = c ∧ (threshCheck s (s.mem c).motion).1 = true then (view s evt).trigger c
      else view s evt := by
  rw [checkEvent_eq]
  by_cases hit : (threshCheck s (s.mem c).motion).1 = true
  · have quiet : ∀ w ∈ (s.setEvent c { s.mem c with condition := .evtTriggered }).waiters,
        w.pid ∈ ((s.setEvent c { s.mem c with condition := .evtTriggered }).mem c).queue →
        w.targetEvt = c := by
      simpa [State.setEvent] using own
    rw [if_pos hit, view_note, view_wakeUpAll _ _ _ quiet, view_modify s c evt
      (fun e => { e with condition := .evtTriggered })]
    by_cases here : evt = c
    · simp only [here, evtOf, if_true, hit, and_self]
      rfl
    · simp [here, evtOf]
  · simp [hit]

end UnixSystems.RotationRuns
