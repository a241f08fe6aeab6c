import UnixSystems.RotationRuns

/-! The system as a product of events: in a sound state every enabled step takes each
event through exactly one label of its own machine (`view_step`), and soundness is
kept (`sound_step`). Invariants are then proved about a single event and lifted. -/
namespace UnixSystems.RotationSimulation
open GuardedRuns RotationModel EventMachine RotationRuns

def passes (s : State) (evt : Addr) : Bool :=
  s.sampleSize.toUInt32.toNat ≤ s.sampleQueue.len && (threshCheck s (s.mem evt).motion).1

/-- Whether this `set_rotation` finds the threshold of the event satisfied. -/
def hits (s : State) (uid : ℕ) (rotation : Option DevRotation) (evt : Addr) : Bool :=
  match rotation with
  | none => false
  | some kRot => uid == 0 && (slotOf s evt).isSome && passes (insertSample s kRot) evt

def createLabel (s : State) (motion : Option RotationMotion) (memory idrMemory : Bool) : Label :=
  if memory then
    match motion with
    | none => .stillborn (s.mem s.brk)
    | some motion =>
      let res := (idrAlloc s s.brk idrMemory).2
      if res = -Errno.enomem ∨ res = -Errno.enospc then .stillborn ⟨motion, [], .initial, 0, res⟩
      else .born motion res
  else .idle

def labelOf (s : State) (a : Action) (evt : Addr) : Label :=
  match a with
  | .setRotation uid rotation => if hits s uid rotation evt then .trigger else .idle
  | .rotevtCreate motion memory idrMemory =>
    if evt = s.brk then createLabel s motion memory idrMemory else .idle
  | .rotevtDestroy eventId => if s.eventIdr.find eventId = some evt then .destroy else .idle
  | .rotevtWait pid eventId signalPending =>
    if s.eventIdr.find eventId = some evt then .wait pid eventId signalPending else .idle
  | .resume pid signalPending =>
    match s.waiters.find? (·.pid = pid) with
    | none => .idle
    | some w =>
      if evt = w.targetEvt then .resume pid w.eventId signalPending
      else if (view s w.targetEvt).LastOut ∧ s.eventIdr.find w.eventId = some evt then .robbed
      else .idle
  | .wakeUp pid => .wakeUp pid
  | .setRotationSampling _ _ _ | .getRotationSampling _ _ => .idle

theorem admits_createLabel {s : State} (h : Sound s) (motion : Option RotationMotion)
    (memory idrMemory : Bool) : Admits (view s s.brk) (createLabel s motion memory idrMemory) := by
  have new : view s s.brk = unborn := h.fresh s.brk le_rfl
  have blank : s.mem s.brk = blankEvent := congrArg View.event new
  unfold createLabel
  cases memory with
  | false => trivial
  | true =>
    cases motion with
    | none => exact ⟨new, by rw [blank]; rfl, by rw [blank]; rfl⟩
    | some motion =>
      simp only [if_true]
      split_ifs
      · exact ⟨new, rfl, rfl⟩
      · exact new

theorem slot_of_find {s : State} (h : Sound s) {evt : Addr} {i : Int}
    (found : s.eventIdr.find i = some evt) : (view s evt).slot = some i :=
  (slotOf_eq_some s h.oneSlot evt i).mpr found

theorem slot_ne_none_of_find {s : State} (h : Sound s) {evt : Addr} {i : Int}
    (found : s.eventIdr.find i = some evt) : (view s evt).slot ≠ none := by
  rw [slot_of_find h found]
  exact Option.some_ne_none i

theorem admits_resume {s : State} (h : Sound s) {pid : Pid} {signalPending : Bool}
    (enabled : Enabled s (.resume pid signalPending)) (evt : Addr) :
    Admits (view s evt) (labelOf s (.resume pid signalPending) evt) := by
  obtain ⟨u, waits, same, woken⟩ := enabled
  simp only [labelOf]
  cases found : s.waiters.find? (·.pid = pid) with
  | none => trivial
  | some w =>
    have member := List.mem_of_find?_eq_some found
    have caller : w.pid = pid := by simpa using List.find?_some found
    have unique : w = u := h.holder member waits (caller.trans same.symm)
    simp only
    split_ifs with here other
    · exact ⟨w, mem_holders.mpr ⟨member, here.symm⟩, caller, rfl, unique ▸ woken⟩
    · exact slot_ne_none_of_find h other.2
    · trivial

theorem admits_labelOf (s : State) (h : Sound s) (a : Action) (enabled : Enabled s a) (evt : Addr) :
    Admits (view s evt) (labelOf s a evt) := by
  cases a with
  | setRotation uid rotation =>
    simp only [labelOf]
    split_ifs with hit
    · cases rotation with
      | none => simp [hits] at hit
      | some kRot =>
        simp only [hits, Bool.and_eq_true] at hit
        exact Option.isSome_iff_ne_none.mp hit.1.2
    · trivial
  | rotevtCreate motion memory idrMemory =>
    simp only [labelOf]
    split_ifs with here
    · subst here
      exact admits_createLabel h motion memory idrMemory
    · trivial
  | rotevtDestroy eventId =>
    simp only [labelOf]
    split_ifs with found
    · exact slot_ne_none_of_find h found
    · trivial
  | rotevtWait pid eventId signalPending =>
    simp only [labelOf]
    split_ifs with found
    · exact ⟨slot_of_find h found, fun w held => enabled w (mem_holders.mp held).1⟩
    · trivial
  | resume pid signalPending => exact admits_resume h enabled evt
  | wakeUp pid => trivial
  | setRotationSampling uid nrSamples window => trivial
  | getRotationSampling storeSamples storeWindow => trivial

def Owned (s : State) : Prop :=
  ∀ c, ∀ w ∈ s.waiters, w.pid ∈ (s.mem c).queue → w.targetEvt = c

theorem owned_checkEvent (s : State) (own : Owned s) (c : Addr) : Owned (checkEvent s c) := by
  rw [checkEvent_eq]
  split_ifs with hit
  · intro d w member queued
    obtain ⟨u, waits, rfl⟩ := List.mem_map.mp member
    by_cases here : d = c
    · subst here
      simp [State.note, wakeUpAll, State.setEvent] at queued
    · refine own d u waits ?_
      simpa [State.note, wakeUpAll, State.setEvent, here] using queued
  · exact own

theorem threshCheck_checkEvent (s : State) (c evt : Addr) :
    (threshCheck (checkEvent s c) ((checkEvent s c).mem evt).motion).1 =
      (threshCheck s (s.mem evt).motion).1 := by
  rw [checkEvent_eq]
  split_ifs with hit
  · by_cases here : evt = c
    · subst here
      simp [threshCheck_fst, State.note, wakeUpAll, State.setEvent]
    · simp [threshCheck_fst, State.note, wakeUpAll, State.setEvent, here]
  · rfl

theorem view_checkEvents (es : List (Int × Addr)) (distinct : (es.map Prod.snd).Nodup)
    (s : State) (own : Owned s) (evt : Addr) :
    view (es.foldl (fun s e => checkEvent s e.2) s) evt =
      if evt ∈ es.map Prod.snd ∧ (threshCheck s (s.mem evt).motion).1 = true then
        (view s evt).trigger evt
      else view s evt := by
  induction es generalizing s with
  | nil => simp
  | cons e es ih =>
    obtain ⟨unlisted, distinct⟩ := List.nodup_cons.mp distinct
    rw [List.foldl_cons, ih distinct _ (owned_checkEvent s own e.2), threshCheck_checkEvent,
      view_checkEvent s e.2 evt (own e.2)]
    by_cases here : evt = e.2
    · subst here
      simp [unlisted]
    · simp only [List.map_cons, List.mem_cons, here, false_or, false_and, if_false]

theorem addresses_nodup (t : IdTable Addr) (one : OneSlot t) : (t.entries.map Prod.snd).Nodup := by
  rw [List.Nodup, List.pairwise_map]
  refine List.Pairwise.imp_of_mem ?_ t.sorted
  rintro ⟨i, a⟩ ⟨j, b⟩ first second below (same : a = b)
  subst same
  have := one i j a ((t.mem_entries_iff i a).mp first) ((t.mem_entries_iff j a).mp second)
  exact below.ne this

theorem mem_addresses (s : State) (evt : Addr) :
    evt ∈ s.eventIdr.entries.map Prod.snd ↔ (slotOf s evt).isSome = true := by
  simp only [slotOf, Option.isSome_map, List.find?_isSome, List.mem_map, decide_eq_true_eq]

theorem owned_of_sound {s : State} (h : Sound s) : Owned s := fun _ _ => h.queue_target

theorem view_setRotation (s : State) (h : Sound s) (uid : ℕ) (rotation : Option DevRotation)
    (evt : Addr) :
    view (setRotation s uid rotation).1 evt =
      if hits s uid rotation evt then (view s evt).trigger evt else view s evt := by
  unfold setRotation hits
  by_cases root : uid = 0
  · cases rotation with
    | none => simp [root]
    | some kRot =>
      have own : Owned (insertSample s kRot) := fun c => owned_of_sound h c
      have checked := view_checkEvents s.eventIdr.entries (addresses_nodup _ h.oneSlot)
        (insertSample s kRot) own evt
      have same : view (insertSample s kRot) evt = view s evt := rfl
      simp only [mem_addresses, same] at checked
      have table : (insertSample s kRot).eventIdr = s.eventIdr := rfl
      by_cases enough : (insertSample s kRot).sampleSize.toUInt32.toNat ≤
          (insertSample s kRot).sampleQueue.len
      · simp [root, enough, table, checked, passes]
      · simp [root, enough, same, passes]
  · cases rotation <;> simp [root]

theorem view_rotevtDestroy (s : State) (h : Sound s) (id : Int) (evt : Addr) :
    view (rotevtDestroy s id).1 evt =
      if s.eventIdr.find id = some evt then (view s evt).destroy evt else view s evt := by
  unfold rotevtDestroy
  cases found : s.eventIdr.find id with
  | none => simp
  | some c =>
    simp only [Option.some.injEq]
    set marked := (s.setEvent c { s.mem c with condition := .destroyed }).note (.destroyed c)
      with hmarked
    have seen : ∀ evt, view marked evt =
        if evt = c then ((view s evt).setCondition .destroyed).note (.destroyed c)
        else view s evt := by
      intro evt
      rw [hmarked, view_note, view_modify s c evt (fun e => { e with condition := .destroyed })]
      by_cases here : evt = c <;> simp [here, evtOf, View.setCondition]
    have own : ∀ w ∈ marked.waiters, w.pid ∈ (marked.mem c).queue → w.targetEvt = c := by
      simpa [hmarked, State.note, State.setEvent] using owned_of_sound h c
    have table : marked.eventIdr = s.eventIdr := rfl
    have queue : wqHasSleeper marked c = true ↔ (view s c).event.queue ≠ [] := by
      simp [wqHasSleeper, hmarked, State.note, State.setEvent, view]
    by_cases here : evt = c
    · subst here
      rw [if_pos rfl, View.destroy]
      by_cases sleeper : wqHasSleeper marked evt = true
      · have waiting := queue.mp sleeper
        rw [if_pos sleeper, view_wakeUpAll _ _ _ own, if_pos rfl, seen, if_pos rfl]
        simp [View.note, View.setCondition, waiting]
      · have none := mt queue.mpr sleeper
        rw [if_neg sleeper, view_removeAndFree marked h.oneSlot, table, if_pos found, seen, if_pos rfl]
        simp only [ne_eq, not_not] at none
        simp [View.note, View.setCondition, none]
    · have other : c ≠ evt := fun same => here same.symm
      rw [if_neg other]
      split_ifs with sleeper
      · rw [view_wakeUpAll _ _ _ own, if_neg here, seen, if_neg here]
      · rw [view_removeAndFree marked h.oneSlot, table, found, if_neg (by simpa using other), seen,
          if_neg here]

theorem view_rotevtWait (s : State) (h : Sound s) (pid : Pid) (id : Int) (signalPending : Bool)
    (outside : ∀ w ∈ s.waiters, w.pid ≠ pid) (evt : Addr) :
    view (rotevtWait s pid id signalPending).1 evt =
      if s.eventIdr.find id = some evt then
        ((view s evt).note (.entered pid evt)).loop evt pid id signalPending
      else view s evt := by
  unfold rotevtWait
  cases found : s.eventIdr.find id with
  | none => simp
  | some c =>
    simp only [Option.some.injEq]
    set noted := s.note (.entered pid c) with hnoted
    have alone : ∀ w ∈ noted.waiters, w.pid = pid → w.targetEvt = c :=
      fun w waits same => absurd same (outside w waits)
    rw [view_waitLoop noted h.oneSlot _ _ _ _ _ alone, hnoted, view_note]
    by_cases here : evt = c
    · subst here
      simp [evtOf]
    · have other : c ≠ evt := fun same => here same.symm
      have elsewhere : (s.note (.entered pid c)).eventIdr.find id ≠ some evt := by
        simpa [State.note, found] using other
      simp [here, other, evtOf, elsewhere]

theorem view_resumed (s : State) (h : Sound s) (pid : Pid) (signalPending : Bool) (evt : Addr) :
    view (rotevtWaitResumed s pid signalPending).1 evt =
      (view s evt).step evt (labelOf s (.resume pid signalPending) evt) := by
  simp only [rotevtWaitResumed, labelOf]
  cases found : s.waiters.find? (·.pid = pid) with
  | none => rfl
  | some w =>
    have member := List.mem_of_find?_eq_some found
    have caller : w.pid = pid := by simpa using List.find?_some found
    have alone : ∀ u ∈ s.waiters, u.pid = w.pid → u.targetEvt = w.targetEvt := fun u waits same =>
      congrArg Waiter.targetEvt (h.holder waits member same)
    simp only
    rw [view_waitLoop s h.oneSlot _ _ _ _ _ alone]
    split_ifs with here robbed
    · rw [here, caller]
      rfl
    · rfl
    · rfl

theorem view_wakeUpProcess (s : State) (pid : Pid) (evt : Addr) :
    view (wakeUpProcess s pid) evt = (view s evt).step evt (.wakeUp pid) :=
  View.ext rfl (filter_map_wakeIf _ _ _) rfl rfl rfl

theorem brk_unused {s : State} (h : Sound s) (i : Int) : s.eventIdr.find i ≠ some s.brk := by
  have none : slotOf s s.brk = none := congrArg View.slot (h.fresh s.brk le_rfl)
  exact (slotOf_eq_none s h.oneSlot s.brk).mp none i

theorem oneSlot_alloc {t : IdTable Addr} (one : OneSlot t) (c : Addr)
    (unused : ∀ i, t.find i ≠ some c) : OneSlot (t.alloc 0 c).2 := by
  intro i j evt first second
  rw [IdTable.find_alloc] at first second
  split_ifs at first second with hi hj hj
  · rw [hi, hj]
  · cases first
    exact absurd second (unused j)
  · cases second
    exact absurd first (unused i)
  · exact one i j evt first second

theorem view_alloc (s : State) (one : OneSlot s.eventIdr) (c : Addr)
    (unused : ∀ i, s.eventIdr.find i ≠ some c) (evt : Addr) :
    view { s with eventIdr := (s.eventIdr.alloc 0 c).2 } evt =
      if evt = c then { view s evt with slot := some (s.eventIdr.alloc 0 c).1 }
      else view s evt := by
  set t := { s with eventIdr := (s.eventIdr.alloc 0 c).2 } with ht
  have slot : ∀ i, slotOf t evt = some i ↔
      (if i = (s.eventIdr.alloc 0 c).1 then some c else s.eventIdr.find i) = some evt := by
    intro i
    rw [slotOf_eq_some t (oneSlot_alloc one c unused), ht, IdTable.find_alloc]
  split_ifs with here
  · refine View.ext rfl rfl ((slot _).mpr ?_) rfl rfl
    rw [if_pos rfl, here]
  · refine View.ext rfl rfl (Option.ext fun i => ?_) rfl rfl
    change slotOf t evt = some i ↔ slotOf s evt = some i
    rw [slot, slotOf_eq_some s one]
    split_ifs with same
    · rw [same, s.eventIdr.find_alloc_fresh 0 c]
      simp [Ne.symm here]
    · rfl

theorem view_kfree (s : State) (c evt : Addr) :
    view (kfree s c) evt = if evt = c then { view s evt with freed := true } else view s evt := by
  by_cases here : evt = c <;> simp [view, kfree, slotOf, eventHistory, here]

theorem idrAlloc_cases (s : State) (evt : Addr) (memory : Bool) :
    (idrAlloc s evt memory).1 = s ∧
        ((idrAlloc s evt memory).2 = -Errno.enomem ∨ (idrAlloc s evt memory).2 = -Errno.enospc) ∨
      idrAlloc s evt memory =
          ({ s with eventIdr := (s.eventIdr.alloc 0 evt).2 }, (s.eventIdr.alloc 0 evt).1) ∧
        0 ≤ (s.eventIdr.alloc 0 evt).1 := by
  unfold idrAlloc
  cases memory with
  | false => simp
  | true =>
    by_cases fits : (s.eventIdr.alloc 0 evt).1 < 2 ^ 31
    · refine Or.inr ⟨by simp only [if_true, fits], IdTable.le_lowestFree 0 _⟩
    · exact Or.inl (by simp only [if_true, fits, if_false, or_true, and_self])

theorem view_registerEvent (s : State) (one : OneSlot s.eventIdr) (c : Addr)
    (unused : ∀ i, s.eventIdr.find i ≠ some c) (idrMemory : Bool) (evt : Addr) :
    view (registerEvent s c idrMemory).1 evt =
      if evt = c then
        if (idrAlloc s c idrMemory).2 = -Errno.enomem ∨ (idrAlloc s c idrMemory).2 = -Errno.enospc
        then { view s evt with
          event := { s.mem c with id := (idrAlloc s c idrMemory).2 }
          freed := true }
        else { view s evt with
          event := { s.mem c with id := (idrAlloc s c idrMemory).2 }
          slot := some (idrAlloc s c idrMemory).2 }
      else view s evt := by
  simp only [registerEvent]
  rcases idrAlloc_cases s c idrMemory with ⟨same, failed⟩ | ⟨allocated, nonneg⟩
  · rw [if_pos failed, if_pos failed, view_kfree, view_setEvent, same]
    split_ifs <;> rfl
  · have known : ¬ ((s.eventIdr.alloc 0 c).1 = -Errno.enomem ∨
        (s.eventIdr.alloc 0 c).1 = -Errno.enospc) := by
      simp only [Errno.enomem, Errno.enospc]
      omega
    simp only [allocated]
    rw [if_neg known, if_neg known, view_setEvent, view_alloc s one c unused]
    split_ifs <;> rfl

theorem view_rotevtCreate (s : State) (h : Sound s) (motion : Option RotationMotion)
    (memory idrMemory : Bool) (evt : Addr) :
    view (rotevtCreate s motion memory idrMemory).1 evt =
      if evt = s.brk then (view s evt).step evt (createLabel s motion memory idrMemory)
      else view s evt := by
  have bumped : ∀ evt, view { s with brk := s.brk + 1 } evt = view s evt := fun _ => rfl
  unfold rotevtCreate createLabel
  cases memory with
  | false => simp [View.step]
  | true =>
    cases motion with
    | none =>
      simp only [if_true, view_kfree, bumped]
      split_ifs with here
      · subst here
        rfl
      · rfl
    | some motion =>
      simp only [if_true]
      set t := ({ s with brk := s.brk + 1 } : State).setEvent s.brk ⟨motion, [], .initial, 0, 0⟩
        with ht
      have same : (idrAlloc t s.brk idrMemory).2 = (idrAlloc s s.brk idrMemory).2 := by
        simp only [idrAlloc, ht, State.setEvent]
        split_ifs <;> rfl
      have event : t.mem s.brk = ⟨motion, [], .initial, 0, 0⟩ := by simp [ht, State.setEvent]
      rw [view_registerEvent t h.oneSlot s.brk (brk_unused h), same, event, ht, view_setEvent, bumped]
      split_ifs <;> rfl

/-- Every step takes every event through the label it has for that event. -/
theorem view_step (s : State) (h : Sound s) (a : Action) (enabled : Enabled s a) (evt : Addr) :
    view (step s a) evt = (view s evt).step evt (labelOf s a evt) := by
  cases a with
  | setRotation uid rotation =>
    simp only [step, labelOf, view_setRotation s h]
    split_ifs <;> rfl
  | rotevtCreate motion memory idrMemory =>
    simp only [step, labelOf, view_rotevtCreate s h]
    split_ifs <;> rfl
  | rotevtDestroy id =>
    simp only [step, labelOf, view_rotevtDestroy s h]
    split_ifs <;> rfl
  | rotevtWait pid id signalPending =>
    simp only [step, labelOf, view_rotevtWait s h pid id signalPending enabled]
    split_ifs <;> rfl
  | resume pid signalPending => exact view_resumed s h pid signalPending evt
  | wakeUp pid => exact view_wakeUpProcess s pid evt
  | setRotationSampling uid nrSamples window =>
    simp only [step, labelOf, setRotationSampling]
    split_ifs <;> rfl
  | getRotationSampling storeSamples storeWindow => rfl

/-! ## Soundness of every state -/

structure SameFrame (s t : State) : Prop where
  pids : t.waiters.map (·.pid) = s.waiters.map (·.pid)
  table : t.eventIdr = s.eventIdr
  brk : t.brk = s.brk

theorem SameFrame.trans {s t u : State} (first : SameFrame s t) (second : SameFrame t u) :
    SameFrame s u :=
  ⟨second.pids.trans first.pids, second.table.trans first.table, second.brk.trans first.brk⟩

theorem sameFrame_wakeUpAll (s : State) (evt : Addr) : SameFrame s (wakeUpAll s evt) :=
  ⟨Well.map_wakeIf _ _, rfl, rfl⟩

theorem sameFrame_checkEvents (es : List (Int × Addr)) (s : State) :
    SameFrame s (es.foldl (fun s e => checkEvent s e.2) s) := by
  induction es generalizing s with
  | nil => exact ⟨rfl, rfl, rfl⟩
  | cons e es ih =>
    have first : SameFrame s (checkEvent s e.2) := by
      rw [checkEvent_eq]
      split_ifs
      · have woken := sameFrame_wakeUpAll
          (s.setEvent e.2 { s.mem e.2 with condition := .evtTriggered }) e.2
        exact ⟨woken.pids, woken.table, woken.brk⟩
      · exact ⟨rfl, rfl, rfl⟩
    exact first.trans (ih _)

theorem sameFrame_setRotation (s : State) (uid : ℕ) (rotation : Option DevRotation) :
    SameFrame s (setRotation s uid rotation).1 := by
  unfold setRotation
  split_ifs
  · exact ⟨rfl, rfl, rfl⟩
  · cases rotation with
    | none => exact ⟨rfl, rfl, rfl⟩
    | some kRot =>
      have inserted : SameFrame s (insertSample s kRot) := ⟨rfl, rfl, rfl⟩
      dsimp only
      split_ifs
      · exact inserted.trans (sameFrame_checkEvents _ _)
      · exact inserted

structure Frame (s : State) : Prop where
  pids : (s.waiters.map (·.pid)).Nodup
  oneSlot : OneSlot s.eventIdr

theorem Frame.same {s t : State} (h : Frame s) (same : SameFrame s t) : Frame t :=
  ⟨same.pids ▸ h.pids, same.table ▸ h.oneSlot⟩

theorem Frame.removeAndFree {s : State} (h : Frame s) (id : Int) :
    Frame (removeAndFree s id) ∧ (removeAndFree s id).brk = s.brk := by
  have one := oneSlot_removeAndFree s h.oneSlot id
  revert one
  unfold RotationModel.removeAndFree
  cases s.eventIdr.find id with
  | none => exact fun one => ⟨⟨h.pids, one⟩, rfl⟩
  | some c => exact fun one => ⟨⟨h.pids, one⟩, rfl⟩

theorem Frame.leaveWait {s : State} (h : Frame s) (pid : Pid) (c : Addr) (id : Int) :
    Frame (leaveWait s pid c id).1 ∧ (leaveWait s pid c id).1.brk = s.brk := by
  have counted : Frame (countOut s pid c) :=
    ⟨h.pids.sublist ((List.filter_sublist).map _), h.oneSlot⟩
  unfold RotationModel.leaveWait
  dsimp only
  split_ifs
  · obtain ⟨removed, brk⟩ := counted.removeAndFree id
    exact ⟨⟨removed.pids, removed.oneSlot⟩, brk⟩
  · exact ⟨⟨counted.pids, counted.oneSlot⟩, rfl⟩

theorem Frame.countIn {s : State} (h : Frame s) (pid : Pid) (c : Addr) (id : Int) :
    Frame (countIn s pid c id) := by
  refine ⟨List.nodup_cons.mpr ⟨?_, h.pids.sublist ((List.filter_sublist).map _)⟩, h.oneSlot⟩
  simp

theorem Frame.waitLoop {s : State} (h : Frame s) (pid : Pid) (c : Addr) (id : Int)
    (signalPending : Bool) :
    Frame (waitLoop s pid c id signalPending).1 ∧
      (waitLoop s pid c id signalPending).1.brk = s.brk := by
  have prepared : SameFrame s (prepareToWait s c pid) := by
    unfold prepareToWait
    split_ifs <;> exact ⟨rfl, rfl, rfl⟩
  unfold RotationModel.waitLoop
  dsimp only
  split_ifs
  · have marked : SameFrame (prepareToWait s c pid) ((prepareToWait s c pid).setEvent c
        { (prepareToWait s c pid).mem c with condition := .sigPending }) := ⟨rfl, rfl, rfl⟩
    obtain ⟨left, brk⟩ := ((h.same prepared).same marked).leaveWait pid c id
    exact ⟨left, brk.trans prepared.brk⟩
  · exact ⟨(h.same prepared).countIn pid c id, prepared.brk⟩
  · exact h.leaveWait pid c id

theorem registerEvent_table (s : State) (c : Addr) (idrMemory : Bool) :
    (registerEvent s c idrMemory).1.waiters = s.waiters ∧
      (registerEvent s c idrMemory).1.brk = s.brk ∧
      ((registerEvent s c idrMemory).1.eventIdr = s.eventIdr ∨
        (registerEvent s c idrMemory).1.eventIdr = (s.eventIdr.alloc 0 c).2) := by
  unfold registerEvent idrAlloc
  dsimp only
  split_ifs <;> first
    | exact ⟨rfl, rfl, Or.inl rfl⟩
    | exact ⟨rfl, rfl, Or.inr rfl⟩

theorem frame_rotevtCreate (s : State) (h : Sound s) (motion : Option RotationMotion)
    (memory idrMemory : Bool) :
    Frame (rotevtCreate s motion memory idrMemory).1 ∧
      (rotevtCreate s motion memory idrMemory).1.brk = if memory then s.brk + 1 else s.brk := by
  unfold rotevtCreate
  cases memory with
  | false => exact ⟨⟨h.pids, h.oneSlot⟩, rfl⟩
  | true =>
    cases motion with
    | none => exact ⟨⟨h.pids, h.oneSlot⟩, rfl⟩
    | some motion =>
      simp only [if_true]
      set t := ({ s with brk := s.brk + 1 } : State).setEvent s.brk ⟨motion, [], .initial, 0, 0⟩
      obtain ⟨waiters, brk, table⟩ := registerEvent_table t s.brk idrMemory
      refine ⟨⟨by rw [waiters]; exact h.pids, ?_⟩, brk⟩
      rcases table with same | allocated
      · rw [same]
        exact h.oneSlot
      · rw [allocated]
        exact oneSlot_alloc h.oneSlot s.brk (brk_unused h)

theorem frame_rotevtDestroy (s : State) (h : Frame s) (id : Int) :
    Frame (rotevtDestroy s id).1 ∧ (rotevtDestroy s id).1.brk = s.brk := by
  unfold rotevtDestroy
  cases found : s.eventIdr.find id with
  | none => exact ⟨h, rfl⟩
  | some c =>
    set marked := (s.setEvent c { s.mem c with condition := .destroyed }).note (.destroyed c)
    have kept : Frame marked := ⟨h.pids, h.oneSlot⟩
    dsimp only
    split_ifs
    · have woken := sameFrame_wakeUpAll marked c
      exact ⟨kept.same woken, woken.brk⟩
    · exact kept.removeAndFree id

theorem frame_step (s : State) (h : Sound s) (a : Action) :
    Frame (step s a) ∧ s.brk ≤ (step s a).brk := by
  have frame : Frame s := ⟨h.pids, h.oneSlot⟩
  have steady : ∀ t, SameFrame s t → Frame t ∧ s.brk ≤ t.brk :=
    fun t same => ⟨frame.same same, same.brk.ge⟩
  cases a with
  | setRotation uid rotation => exact steady _ (sameFrame_setRotation s uid rotation)
  | rotevtCreate motion memory idrMemory =>
    obtain ⟨created, brk⟩ := frame_rotevtCreate s h motion memory idrMemory
    refine ⟨created, ?_⟩
    rw [step, brk]
    cases memory with
    | true => exact Nat.le_succ _
    | false => exact le_rfl
  | rotevtDestroy id =>
    obtain ⟨destroyed, brk⟩ := frame_rotevtDestroy s frame id
    exact ⟨destroyed, brk.ge⟩
  | rotevtWait pid id signalPending =>
    simp only [step, rotevtWait]
    cases s.eventIdr.find id with
    | none => exact ⟨frame, le_rfl⟩
    | some c =>
      have noted : Frame (s.note (.entered pid c)) := ⟨h.pids, h.oneSlot⟩
      obtain ⟨looped, brk⟩ := noted.waitLoop pid c id signalPending
      exact ⟨looped, brk.ge⟩
  | resume pid signalPending =>
    simp only [step, rotevtWaitResumed]
    cases s.waiters.find? (·.pid = pid) with
    | none => exact ⟨frame, le_rfl⟩
    | some w =>
      obtain ⟨looped, brk⟩ := frame.waitLoop w.pid w.targetEvt w.eventId signalPending
      exact ⟨looped, brk.ge⟩
  | wakeUp pid => exact steady _ ⟨Well.map_wakeIf _ _, rfl, rfl⟩
  | setRotationSampling uid nrSamples window =>
    simp only [step, setRotationSampling]
    split_ifs <;> exact ⟨⟨h.pids, h.oneSlot⟩, le_rfl⟩
  | getRotationSampling storeSamples storeWindow => exact ⟨frame, le_rfl⟩

theorem unborn_step (s : State) (h : Sound s) (a : Action) (enabled : Enabled s a) (evt : Addr)
    (above : (step s a).brk ≤ evt) : view (step s a) evt = unborn := by
  have new : view s evt = unborn := h.fresh evt ((frame_step s h a).2.trans above)
  have admitted := admits_labelOf s h a enabled evt
  rw [view_step s h a enabled evt, new]
  rw [new] at admitted
  cases label : labelOf s a evt with
  | idle => rfl
  | wakeUp pid => rfl
  | born motion id | stillborn event =>
    exfalso
    cases a with
    | rotevtCreate motion memory idrMemory =>
      have brk := (frame_rotevtCreate s h motion memory idrMemory).2
      simp only [step, brk] at above
      cases memory with
      | true => simp [labelOf, Nat.ne_of_gt above] at label
      | false => simp [labelOf, createLabel] at label
    | setRotation _ _ | rotevtDestroy _ | rotevtWait _ _ _ =>
      simp only [labelOf] at label
      split_ifs at label
    | resume pid signalPending =>
      simp only [labelOf] at label
      cases found : s.waiters.find? (·.pid = pid) <;> simp only [found] at label
      · cases label
      · split_ifs at label
    | wakeUp _ | setRotationSampling _ _ _ | getRotationSampling _ _ => cases label
  | trigger | destroy | robbed => simp [label, Admits, unborn] at admitted
  | wait pid id signalPending | resume pid id signalPending =>
    simp [label, Admits, unborn] at admitted

theorem sound_boot : Sound boot where
  pids := List.nodup_nil
  oneSlot := by
    intro i j evt found
    simp [boot] at found
  fresh := fun _ _ => rfl
  views := unborn_well

theorem sound_step (s : State) (a : Action) (enabled : Enabled s a) (h : Sound s) :
    Sound (step s a) where
  pids := (frame_step s h a).1.pids
  oneSlot := (frame_step s h a).1.oneSlot
  fresh := unborn_step s h a enabled
  views := by
    intro evt
    rw [view_step s h a enabled evt]
    exact (h.views evt).step _ (admits_labelOf s h a enabled evt)

/-! ## Lifting from one event to all -/

theorem view_keep {P : View → Prop} {G : View → Label → Prop} {evt : Addr}
    (keep : ∀ v l, Well evt v → Admits v l → G v l → P v → P (v.step evt l))
    (s : State) (a : Action) (enabled : Enabled s a) (h : Sound s)
    (guard : G (view s evt) (labelOf s a evt)) (inv : P (view s evt)) :
    P (view (step s a) evt) := by
  rw [view_step s h a enabled evt]
  exact keep _ _ (h.views evt) (admits_labelOf s h a enabled evt) guard inv

theorem views_step_iff {P Q : Addr → View → Prop} {C : Addr → View → Label → Prop}
    (exact_label : ∀ evt v l, Well evt v → Admits v l → Q evt v → P evt v →
      (P evt (v.step evt l) ↔ C evt v l))
    (s : State) (a : Action) (enabled : Enabled s a) (h : Sound s)
    (inv : ∀ evt, Q evt (view s evt)) (now : ∀ evt, P evt (view s evt)) :
    (∀ evt, P evt (view (step s a) evt)) ↔ ∀ evt, C evt (view s evt) (labelOf s a evt) := by
  refine forall_congr' fun evt => ?_
  rw [view_step s h a enabled evt]
  exact exact_label evt _ _ (h.views evt) (admits_labelOf s h a enabled evt) (inv evt) (now evt)

theorem find_eventId {s : State} (h : Sound s) {w : Waiter} (waits : w ∈ s.waiters)
    (listed : (view s w.targetEvt).slot ≠ none) :
    s.eventIdr.find w.eventId = some w.targetEvt := by
  obtain ⟨i, slot⟩ := Option.ne_none_iff_exists'.mp listed
  have same := (h.views w.targetEvt).ids i slot w (mem_holders.mpr ⟨waits, rfl⟩)
  rw [same]
  exact (slotOf_eq_some s h.oneSlot w.targetEvt i).mp slot

theorem slot_ne_none_iff {s : State} (h : Sound s) {w : Waiter} (waits : w ∈ s.waiters) :
    (view s w.targetEvt).slot ≠ none ↔ s.eventIdr.find w.eventId = some w.targetEvt :=
  ⟨find_eventId h waits, slot_ne_none_of_find h⟩

theorem holders_nil {s : State} {evt : Addr} (none : ∀ w ∈ s.waiters, w.targetEvt ≠ evt) :
    (view s evt).holders = [] := by
  simpa [view, List.filter_eq_nil_iff] using none

theorem holders_ne_nil {s : State} {w : Waiter} (waits : w ∈ s.waiters) :
    (view s w.targetEvt).holders ≠ [] :=
  List.ne_nil_of_mem (mem_holders.mpr ⟨waits, rfl⟩)

structure Routine (C : Addr → View → Label → Prop) : Prop where
  idle : ∀ evt v, C evt v .idle
  born : ∀ evt v motion id, C evt v (.born motion id)
  stillborn : ∀ evt v event, C evt v (.stillborn event)
  wakeUp : ∀ evt v pid, C evt v (.wakeUp pid)

/-- A condition on labels, read as a condition on calls. -/
def CallCond (C : Addr → View → Label → Prop) (s : State) : Action → Prop
  | .setRotation uid rotation => ∀ evt, hits s uid rotation evt = true → C evt (view s evt) .trigger
  | .rotevtDestroy id => ∀ c ∈ s.eventIdr.find id, C c (view s c) .destroy
  | .rotevtWait pid id signalPending =>
    ∀ c ∈ s.eventIdr.find id, C c (view s c) (.wait pid id signalPending)
  | .resume pid signalPending => ∀ w ∈ s.waiters, w.pid = pid →
    C w.targetEvt (view s w.targetEvt) (.resume pid w.eventId signalPending) ∧
      ∀ c ∈ s.eventIdr.find w.eventId, c ≠ w.targetEvt → (view s w.targetEvt).LastOut →
        C c (view s c) .robbed
  | _ => True

theorem forall_label_create {C : Addr → View → Label → Prop} (routine : Routine C) (s : State)
    (motion : Option RotationMotion) (memory idrMemory : Bool) (evt : Addr) :
    C evt (view s evt) (labelOf s (.rotevtCreate motion memory idrMemory) evt) := by
  simp only [labelOf, createLabel]
  cases motion with
  | none =>
    dsimp only
    split_ifs
    · exact routine.stillborn _ _ _
    · exact routine.idle _ _
    · exact routine.idle _ _
  | some motion =>
    dsimp only
    split_ifs
    · exact routine.stillborn _ _ _
    · exact routine.born _ _ _ _
    · exact routine.idle _ _
    · exact routine.idle _ _

/-- A resumed process acts on the event it waits for, and on another one only when
that event has lost its own id to it. -/
theorem forall_label_resume {C : Addr → View → Label → Prop} (routine : Routine C) (s : State)
    (h : Sound s) (pid : Pid) (signalPending : Bool) :
    (∀ evt, C evt (view s evt) (labelOf s (.resume pid signalPending) evt)) ↔
      CallCond C s (.resume pid signalPending) := by
  simp only [labelOf, CallCond]
  cases found : s.waiters.find? (·.pid = pid) with
  | none =>
    have absent : ∀ w ∈ s.waiters, w.pid ≠ pid := by simpa using found
    simp only [routine.idle, implies_true, true_iff]
    exact fun w waits same => absurd same (absent w waits)
  | some w =>
    have waits := List.mem_of_find?_eq_some found
    have caller : w.pid = pid := by simpa using List.find?_some found
    constructor
    · intro all u member same
      have unique : u = w := h.holder member waits (same.trans caller.symm)
      subst unique
      refine ⟨by simpa using all u.targetEvt, fun c named other last => ?_⟩
      have named : s.eventIdr.find u.eventId = some c := named
      have robbed := all c
      dsimp only at robbed
      rwa [if_neg other, if_pos ⟨last, named⟩] at robbed
    · intro each evt
      obtain ⟨own, others⟩ := each w waits caller
      dsimp only
      split_ifs with here robbed
      · rw [here]
        exact own
      · exact others evt robbed.2 here robbed.1
      · exact routine.idle _ _

theorem forall_label_iff {C : Addr → View → Label → Prop} (routine : Routine C) (s : State) (h : Sound s)
    (a : Action) : (∀ evt, C evt (view s evt) (labelOf s a evt)) ↔ CallCond C s a := by
  have idle := routine.idle
  cases a with
  | setRotation uid rotation =>
    refine forall_congr' fun evt => ?_
    simp only [labelOf]
    split_ifs with hit <;> simp [hit, idle]
  | rotevtCreate motion memory idrMemory =>
    exact iff_of_true (forall_label_create routine s motion memory idrMemory) trivial
  | rotevtDestroy id =>
    refine forall_congr' fun evt => ?_
    simp only [labelOf, Option.mem_def]
    split_ifs with found <;> simp [found, idle]
  | rotevtWait pid id signalPending =>
    refine forall_congr' fun evt => ?_
    simp only [labelOf, Option.mem_def]
    split_ifs with found <;> simp [found, idle]
  | resume pid signalPending => exact forall_label_resume routine s h pid signalPending
  | wakeUp pid => exact iff_of_true (fun evt => routine.wakeUp _ _ pid) trivial
  | setRotationSampling uid nrSamples window => exact iff_of_true (fun _ => idle _ _) trivial
  | getRotationSampling storeSamples storeWindow => exact iff_of_true (fun _ => idle _ _) trivial

end UnixSystems.RotationSimulation
