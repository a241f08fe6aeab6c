import UnixSystems.RotationCounter

/-! What a destroy leaves behind. `rotevt_destroy` leaves removal to the last waiter,
which recognises itself by the counter and the destroy by the condition. Both fields
have other writers. -/
namespace UnixSystems.RotationDestroy
open GuardedRuns RotationModel EventMachine RotationRuns RotationSimulation RotationCounter

/-! ## One event -/

/-- While the event is in the table: nobody is inside and nobody will be, or the counter
is exact and a destroy still waits for somebody inside. -/
def Settled (v : View) : Prop :=
  v.slot ≠ none →
    v.holders = [] ∧ v.event.condition ≠ .initial ∧ v.event.condition ≠ .destroyed ∨
      v.event.ctr.toInt = v.holders.length ∧
        (v.event.condition = .destroyed → v.holders ≠ [])

def SettleGuard (v : View) : Label → Prop
  | .trigger => v.event.condition ≠ .destroyed
  | .wait _ _ signalPending => ¬ Sleeps v.event signalPending → v.holders = []
  | .resume _ _ signalPending => v.slot ≠ none → ¬ Sleeps v.event signalPending
  | _ => True

variable {evt : Addr} {v : View}

theorem Settled.drop (v : View) : Settled v.drop := fun listed => absurd rfl listed

theorem Settled.trigger (h : Settled v) : Settled (v.trigger evt) := by
  have condition : (v.trigger evt).event.condition = .evtTriggered := rfl
  intro listed
  rcases h listed with ⟨empty, _⟩ | ⟨count, _⟩
  · refine Or.inl ⟨?_, by simp [condition], by simp [condition]⟩
    simp [View.trigger, View.wakeAll, View.setCondition, empty]
  · refine Or.inr ⟨?_, by simp [condition]⟩
    simpa [View.trigger, View.wakeAll, View.setCondition] using count

theorem Settled.destroy (well : Well evt v) (h : Settled v) : Settled (v.destroy evt) := by
  unfold View.destroy
  dsimp only
  split_ifs with waiting
  · intro listed
    have occupied : v.holders ≠ [] := by
      obtain ⟨p, queued⟩ := List.exists_mem_of_ne_nil _ waiting
      obtain ⟨w, held, _⟩ := List.mem_map.mp (well.queued p queued)
      exact List.ne_nil_of_mem held
    rcases h listed with ⟨empty, _⟩ | ⟨count, _⟩
    · exact absurd empty occupied
    · refine Or.inr ⟨?_, fun _ => ?_⟩
      · simpa [View.wakeAll, View.setCondition] using count
      · simpa [View.wakeAll, View.setCondition] using occupied
  · exact Settled.drop _

theorem Settled.sleep (well : Well evt v) (h : Settled v) {pid : Pid} (id : Int)
    (begun : v.event.condition = .initial) (outside : ∀ w ∈ v.holders, w.pid ≠ pid) :
    Settled (v.sleep evt pid id) := by
  intro listed
  have count : Exact v := by
    intro listed
    rcases h listed with ⟨_, past, _⟩ | ⟨count, _⟩
    · exact absurd begun past
    · exact count
  exact Or.inr ⟨exact_sleep_new well count id outside listed, fun _ => by
    simp [View.sleep, View.countIn]⟩

theorem Settled.leave_alone (h : Settled v) (pid : Pid) (id : Int) (alone : v.holders = []) :
    Settled (v.interrupt.leave evt pid id) := by
  obtain ⟨holders, slot, -⟩ := v.interrupt_rest
  unfold View.leave
  split_ifs
  · exact Settled.drop _
  · intro listed
    have kept : v.event.condition ≠ .destroyed := by
      rcases h (slot ▸ listed) with ⟨_, _, kept⟩ | ⟨_, waited⟩
      · exact kept
      · exact fun destroyed => waited destroyed alone
    refine Or.inl ⟨?_, v.interrupt_condition, ?_⟩
    · simp [View.exit, View.countOut, holders, alone]
    · change v.interrupt.event.condition ≠ .destroyed
      unfold View.interrupt
      split_ifs
      · simp [View.setCondition]
      · exact kept

theorem Settled.leave (well : Well evt v) (h : Settled v) {w : Waiter} (member : w ∈ v.holders) :
    Settled (v.interrupt.leave evt w.pid w.eventId) := by
  have inside : w.pid ∈ v.holders.map (·.pid) := List.mem_map.mpr ⟨w, member, rfl⟩
  have count : Exact v := by
    intro listed
    rcases h listed with ⟨empty, _⟩ | ⟨count, _⟩
    · exact absurd empty (List.ne_nil_of_mem member)
    · exact count
  obtain ⟨holders, slot, ctr⟩ := v.interrupt_rest
  intro listed
  refine Or.inr ⟨exact_leave well count _ inside listed, fun destroyed empty => ?_⟩
  revert listed destroyed empty
  unfold View.leave
  split_ifs with last
  · exact fun listed => absurd rfl listed
  · intro listed destroyed empty
    have listed : v.slot ≠ none := slot ▸ listed
    obtain ⟨i, there⟩ := Option.ne_none_iff_exists'.mp listed
    have id := well.ids i there w member
    have only : v.holders.length = 1 := by
      have nobody : v.holders.filter (·.pid ≠ w.pid) = [] := holders ▸ empty
      rw [← well.length_others inside, nobody]
      rfl
    have one : v.event.ctr = 1 := by
      apply Int32.toInt_inj.mp
      rw [count listed, only]
      rfl
    refine last ⟨⟨?_, destroyed⟩, slot.trans (there.trans (by rw [id]))⟩
    rw [ctr, one]
    rfl

theorem Settled.step (l : Label) (well : Well evt v) (admits : Admits v l) (guard : SettleGuard v l)
    (h : Settled v) : Settled (v.step evt l) := by
  cases l with
  | idle => exact h
  | born motion id =>
    cases admits
    exact fun _ => Or.inr ⟨rfl, nofun⟩
  | stillborn event =>
    obtain ⟨rfl, _⟩ := admits
    exact fun listed => absurd rfl listed
  | trigger => exact h.trigger
  | destroy => exact h.destroy well
  | wait pid id signalPending =>
    obtain ⟨_, outside⟩ := admits
    by_cases sleeps : Sleeps v.event signalPending
    · rw [View.step_wait_of_sleeps evt pid id sleeps]
      exact Settled.sleep (v := v.note _) (well.note _) h id sleeps.1 outside
    · rw [View.step_wait_of_leaves evt pid id sleeps]
      exact Settled.leave_alone (v := v.note _) h pid id (guard sleeps)
  | resume pid id signalPending =>
    obtain ⟨w, member, rfl, rfl, _⟩ := admits
    by_cases sleeps : Sleeps v.event signalPending
    · rw [View.step_resume_of_sleeps evt w.pid w.eventId sleeps]
      exact fun listed => absurd sleeps (guard listed)
    · rw [View.step_resume_of_leaves evt w.pid w.eventId sleeps]
      exact h.leave well member
  | wakeUp pid =>
    intro listed
    rcases h listed with ⟨empty, rest⟩ | ⟨count, waited⟩
    · exact Or.inl ⟨by simp [View.step, empty], rest⟩
    · exact Or.inr ⟨by simpa [View.step] using count, by simpa [View.step] using waited⟩
  | robbed => exact Settled.drop v

/-- After a destroy: the event stays destroyed while it is in the table, and only the
given processes are inside. -/
structure Doomed (evt : Addr) (pids : List Pid) (v : View) : Prop where
  once : .destroyed evt ∈ v.history
  stays : v.slot ≠ none → v.event.condition = .destroyed
  inside : v.slot ≠ none → ∀ w ∈ v.holders, w.pid ∈ pids

variable {pids : List Pid}

theorem Doomed.note (h : Doomed evt pids v) (o : Occurrence) : Doomed evt pids (v.note o) :=
  ⟨List.mem_cons_of_mem o h.once, h.stays, h.inside⟩

theorem Doomed.drop (h : Doomed evt pids v) : Doomed evt pids v.drop :=
  ⟨h.once, fun listed => absurd rfl listed, fun listed => absurd rfl listed⟩

theorem Doomed.wake (h : Doomed evt pids v) (f : Waiter → Bool) (event : RotationEvent)
    (same : event.condition = v.event.condition) :
    Doomed evt pids { v with event := event, holders := v.holders.map fun w => w.wakeIf (f w) } where
  once := h.once
  stays := fun listed => same.trans (h.stays listed)
  inside := by
    intro listed w member
    obtain ⟨u, held, rfl⟩ := List.mem_map.mp member
    exact h.inside listed u held

theorem Doomed.destroy (inside : v.slot ≠ none → ∀ w ∈ v.holders, w.pid ∈ pids) :
    Doomed evt pids (v.destroy evt) := by
  have marked : Doomed evt pids ((v.setCondition .destroyed).note (.destroyed evt)) :=
    ⟨List.mem_cons_self, fun _ => rfl, inside⟩
  unfold View.destroy
  dsimp only
  split_ifs
  · exact marked.wake _ _ rfl
  · exact marked.drop

theorem Doomed.interrupt (h : Doomed evt pids v) : Doomed evt pids v.interrupt := by
  unfold View.interrupt
  split_ifs with initial
  · refine ⟨h.once, fun listed => ?_, h.inside⟩
    have destroyed := h.stays listed
    rw [initial] at destroyed
    cases destroyed
  · exact h

theorem Doomed.leave (h : Doomed evt pids v) (pid : Pid) (id : Int) :
    Doomed evt pids (v.leave evt pid id) := by
  have left : Doomed evt pids (v.exit evt pid) :=
    ⟨List.mem_cons_of_mem _ h.once, h.stays,
      fun listed w member => h.inside listed w (List.mem_of_mem_filter member)⟩
  unfold View.leave
  split_ifs
  · exact left.drop
  · exact left

theorem Doomed.not_sleeps (h : Doomed evt pids v) (listed : v.slot ≠ none) (signalPending : Bool) :
    ¬ Sleeps v.event signalPending := by
  intro sleeps
  have destroyed := h.stays listed
  rw [sleeps.1] at destroyed
  cases destroyed

theorem Doomed.step (l : Label) (admits : Admits v l) (guard : SettleGuard v l)
    (h : Doomed evt pids v) : Doomed evt pids (v.step evt l) := by
  cases l with
  | idle => exact h
  | born motion id =>
    cases admits
    cases h.once
  | stillborn event =>
    obtain ⟨rfl, _⟩ := admits
    cases h.once
  | trigger => exact absurd (h.stays admits) guard
  | destroy => exact Doomed.destroy h.inside
  | wait pid id signalPending =>
    have listed : v.slot ≠ none := by simp [admits.1]
    rw [View.step_wait_of_leaves evt pid id (h.not_sleeps listed signalPending)]
    exact (h.note _).interrupt.leave pid id
  | resume pid id signalPending =>
    by_cases sleeps : Sleeps v.event signalPending
    · have unlisted : ¬ v.slot ≠ none := fun listed => h.not_sleeps listed signalPending sleeps
      rw [View.step_resume_of_sleeps evt pid id sleeps]
      exact ⟨h.once, fun listed => absurd listed unlisted, fun listed => absurd listed unlisted⟩
    · rw [View.step_resume_of_leaves evt pid id sleeps]
      exact h.interrupt.leave pid id
  | wakeUp pid => exact h.wake _ v.event rfl
  | robbed => exact h.drop

/-! ## All events -/

/-- No sample triggers a destroyed event; a wait that leaves at once finds nobody inside;
and a process comes back to an event that has not been freed, and does not sleep a second
time while that event is in the table. -/
def DestroyGuard (s : State) : Action → Prop
  | .setRotation uid rotation => ∀ e ∈ s.eventIdr.entries,
    hits s uid rotation e.2 = true → (s.mem e.2).condition ≠ .destroyed
  | .rotevtWait _ eventId signalPending => ∀ evt ∈ s.eventIdr.find eventId,
    ¬ Sleeps (s.mem evt) signalPending → ∀ w ∈ s.waiters, w.targetEvt ≠ evt
  | .resume pid signalPending => ∀ w ∈ s.waiters, w.pid = pid → s.freed w.targetEvt = false ∧
    (s.eventIdr.find w.eventId = some w.targetEvt → ¬ Sleeps (s.mem w.targetEvt) signalPending)
  | _ => True

instance (s : State) (a : Action) : Decidable (DestroyGuard s a) := by
  refine a.casesOn ?_ ?_ ?_ ?_ ?_ ?_ ?_ ?_ <;> intros <;> dsimp only [DestroyGuard] <;> infer_instance

def Listed (s : State) (evt : Addr) : Prop := ∃ i, s.eventIdr.find i = some evt

def AllReturned (s : State) (acts : List Action) (evt : Addr) : Prop :=
  ∀ w ∈ s.waiters, w.targetEvt = evt →
    ∃ mid, mid <+: acts ∧ ∀ u ∈ (run step s mid).waiters, u.pid = w.pid → u.targetEvt ≠ evt

def DestroyKept (s : State) (eventId : Int) (later : List Action) : Prop :=
  ∀ evt ∈ s.eventIdr.find eventId,
    (Listed (run step s (.rotevtDestroy eventId :: later)) evt →
      ((run step s (.rotevtDestroy eventId :: later)).mem evt).condition = .destroyed) ∧
    (AllReturned s (.rotevtDestroy eventId :: later) evt →
      ¬ Listed (run step s (.rotevtDestroy eventId :: later)) evt)

structure DestroyInv (s : State) : Prop where
  sound : Sound s
  settled : ∀ evt, Settled (view s evt)

theorem settleGuard_labelOf (s : State) (h : Sound s) (a : Action) (guard : DestroyGuard s a)
    (evt : Addr) : SettleGuard (view s evt) (labelOf s a evt) := by
  have routine : Routine fun _ => SettleGuard :=
    ⟨fun _ _ => trivial, fun _ _ _ _ => trivial, fun _ _ _ => trivial, fun _ _ _ => trivial⟩
  refine (forall_label_iff routine s h a).mpr ?_ evt
  cases a with
  | setRotation uid rotation =>
    intro c hit
    have listed : (slotOf s c).isSome = true := by
      cases rotation with
      | none => simp [hits] at hit
      | some kRot =>
        simp only [hits, Bool.and_eq_true] at hit
        exact hit.1.2
    obtain ⟨e, entry, rfl⟩ := List.mem_map.mp ((mem_addresses s c).mpr listed)
    exact guard e entry hit
  | rotevtWait pid id signalPending =>
    exact fun c found leaves => holders_nil (guard c found leaves)
  | resume pid signalPending =>
    refine fun w waits same => ⟨fun listed => ?_, fun _ _ _ _ => trivial⟩
    exact (guard w waits same).2 (find_eventId h waits listed)
  | rotevtDestroy _ => exact fun _ _ => trivial
  | rotevtCreate _ _ _ | wakeUp _ | setRotationSampling _ _ _ | getRotationSampling _ _ => trivial

theorem destroyInv_step (s : State) (a : Action) (guard : Enabled s a ∧ DestroyGuard s a)
    (inv : DestroyInv s) : DestroyInv (step s a) where
  sound := sound_step s a guard.1 inv.sound
  settled := fun evt => view_keep (fun _ l => Settled.step l) s a guard.1 inv.sound
    (settleGuard_labelOf s inv.sound a guard.2 evt) (inv.settled evt)

theorem doomed_run {s : State} (h : Sound s) {acts : List Action} {evt : Addr} {pids : List Pid}
    (guards : Along step (fun s a => Enabled s a ∧ DestroyGuard s a) s acts)
    (doomed : Doomed evt pids (view s evt)) : Doomed evt pids (view (run step s acts) evt) := by
  refine (run_invariant (fun s => Sound s ∧ Doomed evt pids (view s evt)) ?_ ⟨h, doomed⟩ guards).2
  intro s a guard inv
  refine ⟨sound_step s a guard.1 inv.1, ?_⟩
  exact view_keep (fun _ l _ => Doomed.step l) s a guard.1 inv.1
    (settleGuard_labelOf s inv.1 a guard.2 evt) inv.2

theorem doomed_destroy {s : State} (h : Sound s) {id : Int} {evt : Addr}
    (found : s.eventIdr.find id = some evt) :
    Doomed evt ((view s evt).holders.map (·.pid)) (view (step s (.rotevtDestroy id)) evt) := by
  rw [step, view_rotevtDestroy s h, if_pos found]
  exact Doomed.destroy fun _ w member => List.mem_map.mpr ⟨w, member, rfl⟩

theorem listed_iff {s : State} (h : Sound s) (evt : Addr) :
    Listed s evt ↔ (view s evt).slot ≠ none := by
  rw [Option.ne_none_iff_exists']
  exact exists_congr fun i => (slotOf_eq_some s h.oneSlot evt i).symm

theorem not_allReturned {s : State} (inv : DestroyInv s) {id : Int} {later : List Action}
    {evt : Addr} (found : s.eventIdr.find id = some evt)
    (guards : Along step (fun s a => Enabled s a ∧ DestroyGuard s a) s (.rotevtDestroy id :: later))
    (listed : (view (run step s (.rotevtDestroy id :: later)) evt).slot ≠ none) :
    ¬ AllReturned s (.rotevtDestroy id :: later) evt := by
  have after := sound_step s (.rotevtDestroy id) trivial inv.sound
  have start := doomed_destroy inv.sound found
  have final := doomed_run after guards.2 start
  have settled := (run_invariant DestroyInv destroyInv_step inv guards).settled evt listed
  obtain ⟨u, held⟩ : ∃ u, u ∈ (view (run step s (.rotevtDestroy id :: later)) evt).holders := by
    rcases settled with ⟨_, _, kept⟩ | ⟨_, waited⟩
    · exact absurd (final.stays listed) kept
    · exact List.exists_mem_of_ne_nil _ (waited (final.stays listed))
  obtain ⟨w, there, same⟩ := List.mem_map.mp (final.inside listed u held)
  obtain ⟨waits, target⟩ := mem_holders.mp there
  intro returned
  obtain ⟨mid, front, outside⟩ := returned w waits target
  cases mid with
  | nil => exact outside w waits rfl target
  | cons a mid =>
    obtain ⟨rfl, rest, rfl⟩ := List.cons_prefix_cons.mp front
    obtain ⟨first, second⟩ := along_append.mp guards.2
    have middle := doomed_run after first start
    have sound : Sound (run step (step s (.rotevtDestroy id)) mid) :=
      run_invariant Sound (fun s a guard => sound_step s a guard.1) after first
    have rebased : Doomed evt _ (view (run step (step s (.rotevtDestroy id)) mid) evt) :=
      ⟨middle.once, middle.stays, fun _ x member => List.mem_map.mpr ⟨x, member, rfl⟩⟩
    have still := (doomed_run sound second rebased).inside (by simpa using listed) u
      (by simpa using held)
    obtain ⟨x, inside, samePid⟩ := List.mem_map.mp still
    obtain ⟨waiting, here⟩ := mem_holders.mp inside
    exact outside x waiting (samePid.trans same.symm) here

theorem destroy_is_kept (front later : List Action) (eventId : Int)
    (h : Along step (fun s a => Enabled s a ∧ DestroyGuard s a) boot
      (front ++ .rotevtDestroy eventId :: later)) :
    DestroyKept (run step boot front) eventId later := by
  obtain ⟨before, guards⟩ := along_append.mp h
  have start : DestroyInv boot := ⟨sound_boot, fun _ listed => absurd rfl listed⟩
  have inv := run_invariant DestroyInv destroyInv_step start before
  have sound := (run_invariant DestroyInv destroyInv_step inv guards).sound
  intro evt found
  have final := doomed_run (sound_step _ (.rotevtDestroy eventId) trivial inv.sound) guards.2
    (doomed_destroy inv.sound found)
  refine ⟨fun listed => final.stays ((listed_iff sound evt).mp listed), fun returned listed => ?_⟩
  exact not_allReturned inv found guards ((listed_iff sound evt).mp listed) returned

theorem destroy_is_kept_two :
    DestroyKept (run step boot
      [.rotevtCreate (some ⟨1, 1, 1, true⟩) true true, .rotevtWait (.nth 0) 0 false,
        .rotevtWait (.nth 1) 0 false]) 0
      [.resume (.nth 1) false, .resume (.nth 0) false] :=
  destroy_is_kept _ _ 0 (by decide)

def oneSampleShort : List Action :=
  [.rotevtCreate (some ⟨0, 0, 0, false⟩) true true, .rotevtWait (.nth 0) 0 false] ++
    List.replicate 5 (.setRotation 0 (some ⟨0, 0, 0⟩))

/-- The sixth sample arrives between the destroy and the return of the waiter. -/
def triggerThenReturn : List Action :=
  [.setRotation 0 (some ⟨0, 0, 0⟩), .resume (.nth 0) false]

theorem destroy_undone :
    Along step Enabled boot (oneSampleShort ++ .rotevtDestroy 0 :: triggerThenReturn) ∧
      (run step boot (oneSampleShort ++ .rotevtDestroy 0 :: triggerThenReturn)).waiters = [] ∧
      ¬ DestroyKept (run step boot oneSampleShort) 0 triggerThenReturn := by
  refine ⟨by decide, by decide, fun kept => ?_⟩
  exact absurd ((kept 0 (by decide)).1 ⟨0, by decide⟩) (by decide)

end UnixSystems.RotationDestroy
