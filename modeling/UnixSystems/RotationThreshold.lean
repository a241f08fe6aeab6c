import UnixSystems.RotationModel

/-! Which events one `set_rotation` triggers, and what the threshold check measures. All
events are judged against the same window: a check rotates the sample queue once around. -/
namespace UnixSystems.RotationThreshold
open RotationModel

/-! ## The events of one call -/

def Enough (s : State) (evt : Addr) : Prop :=
  s.sampleSize.toInt ≤ s.sampleQueue.items.countP (exceeds (s.mem evt).motion)

instance (s : State) (evt : Addr) : Decidable (Enough s evt) :=
  inferInstanceAs (Decidable (_ ≤ _))

def checkEvents (s : State) (evts : List Addr) : State := evts.foldl checkEvent s

def triggered (v : RotationEvent) : RotationEvent := { v with condition := .evtTriggered, queue := [] }

/-- The process sleeps on one of these events, and enough samples pass for that one. -/
def Notified (s : State) (evts : List Addr) (pid : Pid) : Prop :=
  ∃ evt ∈ evts, Enough s evt ∧ pid ∈ (s.mem evt).queue

instance (s : State) (evts : List Addr) (pid : Pid) : Decidable (Notified s evts pid) :=
  inferInstanceAs (Decidable (∃ evt ∈ evts, _))

structure SameWindow (s t : State) : Prop where
  sampleSize : t.sampleSize = s.sampleSize
  windowSize : t.windowSize = s.windowSize
  sampleQueue : t.sampleQueue = s.sampleQueue
  eventIdr : t.eventIdr = s.eventIdr
  freed : t.freed = s.freed
  brk : t.brk = s.brk

theorem SameWindow.refl (s : State) : SameWindow s s := ⟨rfl, rfl, rfl, rfl, rfl, rfl⟩

theorem SameWindow.trans {s t u : State} (first : SameWindow s t) (second : SameWindow t u) :
    SameWindow s u where
  sampleSize := second.sampleSize.trans first.sampleSize
  windowSize := second.windowSize.trans first.windowSize
  sampleQueue := second.sampleQueue.trans first.sampleQueue
  eventIdr := second.eventIdr.trans first.eventIdr
  freed := second.freed.trans first.freed
  brk := second.brk.trans first.brk

structure Checked (s t : State) (evts : List Addr) : Prop where
  window : SameWindow s t
  mem : ∀ evt, t.mem evt = if evt ∈ evts ∧ Enough s evt then triggered (s.mem evt) else s.mem evt
  waiters : t.waiters = s.waiters.map fun w => w.wakeIf (Notified s evts w.pid)

theorem checked_nil (s : State) : Checked s s [] := by
  refine ⟨SameWindow.refl s, fun evt => by simp, ?_⟩
  have none : ∀ pid, ¬ Notified s [] pid := by simp [Notified]
  simp [none, Waiter.wakeIf]

theorem enough_iff (s : State) (evt : Addr) :
    (threshCheck s (s.mem evt).motion).1 = true ↔ Enough s evt := by
  rw [threshCheck_fst, decide_eq_true_iff, Enough]

theorem checked_checkEvent (s : State) (evt : Addr) : Checked s (checkEvent s evt) [evt] := by
  have only : ∀ pid, Notified s [evt] pid ↔ Enough s evt ∧ pid ∈ (s.mem evt).queue := by
    simp [Notified]
  rw [checkEvent_eq]
  by_cases enough : Enough s evt
  · rw [if_pos ((enough_iff s evt).mpr enough)]
    refine ⟨⟨rfl, rfl, rfl, rfl, rfl, rfl⟩, fun other => ?_, ?_⟩
    · by_cases same : other = evt
      · subst same
        simp [wakeUpAll, State.setEvent, State.note, enough, triggered]
      · simp [wakeUpAll, State.setEvent, State.note, same]
    · simp [wakeUpAll, State.setEvent, State.note, only, enough]
  · rw [if_neg (fun hit => enough ((enough_iff s evt).mp hit))]
    refine ⟨SameWindow.refl s, fun other => ?_, ?_⟩
    · by_cases same : other = evt
      · simp [same, enough]
      · simp [same]
    · simp [only, enough, Waiter.wakeIf]

theorem Checked.motion {s t : State} {evts : List Addr} (done : Checked s t evts) (evt : Addr) :
    (t.mem evt).motion = (s.mem evt).motion := by
  rw [done.mem]
  split <;> rfl

theorem Checked.enough_iff {s t : State} {evts : List Addr} (done : Checked s t evts) (evt : Addr) :
    Enough t evt ↔ Enough s evt := by
  rw [Enough, Enough, done.window.sampleSize, done.window.sampleQueue, done.motion]

theorem Checked.append {s t u : State} {front back : List Addr} (first : Checked s t front)
    (second : Checked t u back) : Checked s u (front ++ back) := by
  refine ⟨first.window.trans second.window, fun evt => ?_, ?_⟩
  · have same := first.enough_iff evt
    rw [second.mem, first.mem]
    by_cases enough : Enough s evt
    · by_cases early : evt ∈ front <;> by_cases late : evt ∈ back <;>
        simp [same, enough, early, late, triggered]
    · simp [same, enough]
  · rw [second.waiters, first.waiters, List.map_map]
    refine List.map_congr_left fun w _ => ?_
    -- a process is woken by the first of its events; afterwards that event's queue is empty
    have later : Notified t back w.pid → Notified s (front ++ back) w.pid := by
      rintro ⟨evt, member, enough, queued⟩
      rw [first.mem] at queued
      split at queued
      · simp [triggered] at queued
      · exact ⟨evt, by simp [member], (first.enough_iff evt).mp enough, queued⟩
    have either : Notified s (front ++ back) w.pid ↔
        Notified s front w.pid ∨ Notified t back w.pid := by
      constructor
      · rintro ⟨evt, member, enough, queued⟩
        by_cases early : evt ∈ front
        · exact .inl ⟨evt, early, enough, queued⟩
        · have late : evt ∈ back := by simpa [early] using member
          refine .inr ⟨evt, late, (first.enough_iff evt).mpr enough, ?_⟩
          rw [first.mem, if_neg (fun h => early h.1)]
          exact queued
      · rintro (⟨evt, member, rest⟩ | late)
        · exact ⟨evt, by simp [member], rest⟩
        · exact later late
    simp [Waiter.wakeIf, either, Bool.or_assoc]

theorem checked_checkEvents (s : State) (evts : List Addr) : Checked s (checkEvents s evts) evts := by
  induction evts generalizing s with
  | nil => exact checked_nil s
  | cons evt evts ih => exact (checked_checkEvent s evt).append (ih (checkEvent s evt))

theorem not_enough_of_short (s : State) (nonneg : 0 ≤ s.sampleSize.toInt)
    (short : ¬ s.sampleSize.toUInt32.toNat ≤ s.sampleQueue.len) (evt : Addr) : ¬ Enough s evt := by
  have size := Int32.toNat_toUInt32_of_nonneg nonneg
  have few := List.countP_le_length (p := exceeds (s.mem evt).motion) (l := s.sampleQueue.items)
  rw [Enough]
  rw [Fifo.len] at short
  omega

theorem checkEvents_of_none (s : State) (evts : List Addr) (none : ∀ evt, ¬ Enough s evt) :
    checkEvents s evts = s := by
  induction evts with
  | nil => rfl
  | cons evt evts ih =>
    have miss : ¬ (threshCheck s (s.mem evt).motion).1 = true := fun hit =>
      none evt ((enough_iff s evt).mp hit)
    rw [checkEvents, List.foldl_cons, checkEvent_eq, if_neg miss]
    exact ih

theorem guard_irrelevant (s : State) (nonneg : 0 ≤ s.sampleSize.toInt) (evts : List Addr) :
    (if s.sampleSize.toUInt32.toNat ≤ s.sampleQueue.len then checkEvents s evts else s) =
      checkEvents s evts := by
  split
  · rfl
  next short =>
    exact (checkEvents_of_none s evts (not_enough_of_short s nonneg short)).symm

theorem setRotation_triggers (s : State) (nonneg : 0 ≤ s.sampleSize.toInt) (evts : List Addr) :
    Checked s (checkEvents s evts) evts ∧
      (if s.sampleSize.toUInt32.toNat ≤ s.sampleQueue.len then checkEvents s evts else s) =
        checkEvents s evts ∧
      ∀ before kRot, insertSample before kRot = s →
        setRotation before 0 (some kRot) = (checkEvents s (s.eventIdr.entries.map (·.2)), 0) := by
  refine ⟨checked_checkEvents s evts, guard_irrelevant s nonneg evts, ?_⟩
  rintro before kRot rfl
  have guarded := guard_irrelevant (insertSample before kRot) nonneg
    ((insertSample before kRot).eventIdr.entries.map (·.2))
  rw [← guarded]
  simp only [setRotation, ne_eq, not_true_eq_false, if_false, checkEvents, List.foldl_map]
  split <;> rfl

def twoEvents : State :=
  let s := (List.replicate 6 ⟨5, 5, 5⟩).foldl insertSample boot
  let s := (rotevtCreate s (some ⟨5, 5, 5, false⟩) true true).1
  (rotevtCreate s (some ⟨6, 5, 5, false⟩) true true).1

theorem setRotation_triggers_first :
    0 ≤ twoEvents.sampleSize.toInt ∧
      ((checkEvents twoEvents [1, 0]).mem 0).condition = .evtTriggered ∧
      ((checkEvents twoEvents [1, 0]).mem 1).condition = .initial := by
  have done := (setRotation_triggers twoEvents (by decide) [1, 0]).1
  refine ⟨by decide, ?_, ?_⟩
  · rw [done.mem]
    decide
  · rw [done.mem]
    decide

/-! ## Magnitudes -/

def Reaches (threshold : RotationMotion) (dummy : DevRotation) : Prop :=
  threshold.x.toInt ≤ |dummy.x.toInt| ∧ threshold.y.toInt ≤ |dummy.y.toInt| ∧
    threshold.z.toInt ≤ |dummy.z.toInt|

/-- A component is `INT_MIN`, which `abs` leaves negative, and its threshold is greater. -/
def Blind (threshold : RotationMotion) (dummy : DevRotation) : Prop :=
  dummy.x = Int32.minValue ∧ threshold.x ≠ Int32.minValue ∨
    dummy.y = Int32.minValue ∧ threshold.y ≠ Int32.minValue ∨
    dummy.z = Int32.minValue ∧ threshold.z ≠ Int32.minValue

instance (threshold : RotationMotion) (dummy : DevRotation) : Decidable (Reaches threshold dummy) :=
  inferInstanceAs (Decidable (_ ∧ _ ∧ _))

instance (threshold : RotationMotion) (dummy : DevRotation) : Decidable (Blind threshold dummy) :=
  inferInstanceAs (Decidable (_ ∨ _ ∨ _))

theorem toInt_abs {v : Int32} (normal : v ≠ Int32.minValue) : (abs v).toInt = |v.toInt| := by
  have low := v.le_toInt
  have above : v.toInt ≠ -2 ^ 31 := fun same => normal (Int32.toInt_inj.mp same)
  have high := v.toInt_lt
  unfold RotationModel.abs
  split
  next negative =>
    have below : v.toInt < 0 := Int32.lt_iff_toInt_lt.mp negative
    rw [Int32.toInt_neg, abs_of_neg below]
    exact Int.bmod_eq_of_le (by omega) (by omega)
  next positive =>
    have above : ¬ v.toInt < 0 := fun below => positive (Int32.lt_iff_toInt_lt.mpr below)
    rw [abs_of_nonneg (by omega)]

theorem le_abs_iff (t v : Int32) :
    t ≤ abs v ↔ t.toInt ≤ |v.toInt| ∧ ¬ (v = Int32.minValue ∧ t ≠ Int32.minValue) := by
  have low := t.le_toInt
  rw [Int32.le_iff_toInt_le]
  by_cases least : v = Int32.minValue
  · -- the magnitude is 2 ^ 31, beyond any `int`, but `abs` returns `INT_MIN` itself
    subst least
    have stuck : (abs Int32.minValue).toInt = -2 ^ 31 := by decide
    have reached : t.toInt ≤ |Int32.minValue.toInt| := by
      have high := t.toInt_lt
      rw [Int32.toInt_minValue, abs_of_neg (by norm_num)]
      omega
    have lowest : t.toInt ≤ -2 ^ 31 ↔ t = Int32.minValue := by
      rw [← Int32.toInt_inj, Int32.toInt_minValue]
      omega
    simp only [stuck, lowest, reached, true_and, ne_eq, not_not]
  · simp [toInt_abs least, least]

theorem exceeds_iff (threshold : RotationMotion) (both : threshold.bidirection = true)
    (dummy : DevRotation) :
    exceeds threshold dummy = true ↔ Reaches threshold dummy ∧ ¬ Blind threshold dummy := by
  simp only [exceeds, both, if_true, Bool.and_eq_true, decide_eq_true_eq, le_abs_iff, Reaches, Blind]
  tauto

theorem threshCheck_magnitude_iff (s : State) (threshold : RotationMotion)
    (both : threshold.bidirection = true) :
    ((threshCheck s threshold).1 = true ↔
        s.sampleSize.toInt ≤ s.sampleQueue.items.countP (Reaches threshold)) ↔
      ((s.sampleQueue.items.countP (Reaches threshold) : ℤ) < s.sampleSize.toInt ∨
        s.sampleSize.toInt ≤ s.sampleQueue.items.countP fun dummy =>
          Reaches threshold dummy ∧ ¬ Blind threshold dummy) := by
  have count : s.sampleQueue.items.countP (exceeds threshold) =
      s.sampleQueue.items.countP fun dummy => Reaches threshold dummy ∧ ¬ Blind threshold dummy := by
    refine List.countP_congr fun dummy _ => ?_
    rw [exceeds_iff threshold both, decide_eq_true_iff]
  have fewer : s.sampleQueue.items.countP (fun dummy =>
      Reaches threshold dummy ∧ ¬ Blind threshold dummy) ≤
      s.sampleQueue.items.countP (Reaches threshold) := by
    refine List.countP_mono_left fun dummy _ passes => ?_
    rw [decide_eq_true_iff] at passes ⊢
    exact passes.1
  rw [threshCheck_fst, decide_eq_true_iff, count]
  omega

def oneSample (dummy : DevRotation) : State :=
  { boot with sampleSize := 1, sampleQueue := Fifo.empty.put dummy }

theorem threshCheck_magnitude_iff_negative :
    (threshCheck (oneSample ⟨-7, 3, 0⟩) ⟨7, 3, 0, true⟩).1 = true ↔
      (oneSample ⟨-7, 3, 0⟩).sampleSize.toInt ≤
        (oneSample ⟨-7, 3, 0⟩).sampleQueue.items.countP (Reaches ⟨7, 3, 0, true⟩) :=
  (threshCheck_magnitude_iff (oneSample ⟨-7, 3, 0⟩) ⟨7, 3, 0, true⟩ rfl).mpr (.inr (by decide))

/-- A magnitude of 2 ^ 31 is not recognised. -/
theorem least_sample_missed :
    (threshCheck (oneSample ⟨Int32.minValue, 0, 0⟩) ⟨1, 0, 0, true⟩).1 = false ∧
      (oneSample ⟨Int32.minValue, 0, 0⟩).sampleSize.toInt ≤
        (oneSample ⟨Int32.minValue, 0, 0⟩).sampleQueue.items.countP (Reaches ⟨1, 0, 0, true⟩) := by
  decide

end UnixSystems.RotationThreshold
