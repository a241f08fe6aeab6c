import UnixSystems.RtRuntime

/-! When the real-time queue of a CPU is hidden from `pick_next_task`, and who will show it again.
A queue with tasks is counted in the CPU's `nr_running` exactly while it is not throttled. Only the
period timer ends a throttling, and it must not stop while a CPU has real-time tasks; a task that is
enqueued while the handler has already passed its CPU can slip through. -/

namespace UnixSystems.RtThrottling
open GuardedRuns RtBandwidth RtRuntime

/-! ## One queue -/

/-- `nr_running` counts the real-time tasks while the queue is visible, and it is visible only with
tasks in it. -/
structure Sums (rq : RtRq) : Prop where
  sound : rq.bug = false
  total : rq.nrRunning = rq.nrOther + if rq.rtQueued then rq.rtNrRunning else 0
  some : rq.rtQueued = true → rq.rtNrRunning ≠ 0

structure Counted (rq : RtRq) : Prop extends Sums rq where
  visible : rq.rtQueued = true ↔ rq.rtNrRunning ≠ 0 ∧ rq.rtThrottled = false

structure Hidden (rq : RtRq) : Prop where
  sound : rq.bug = false
  total : rq.nrRunning = rq.nrOther
  hidden : rq.rtQueued = false

variable {rq : RtRq}

theorem hidden_dequeueTopRtRq (sums : Sums rq) : Hidden rq.dequeueTopRtRq := by
  obtain ⟨sound, total, some⟩ := sums
  unfold RtRq.dequeueTopRtRq
  split
  · next queued =>
    rw [if_pos queued] at total
    have busy := some queued
    refine ⟨?_, ?_, rfl⟩
    · have counted : rq.nrRunning ≠ 0 := by omega
      simp [sound, counted]
    · dsimp only
      omega
  · next queued => exact ⟨sound, by simpa [queued] using total, by simpa using queued⟩

theorem counted_enqueueTopRtRq (sums : Sums rq) (shown : rq.rtQueued = true → rq.rtThrottled = false) :
    Counted rq.enqueueTopRtRq := by
  obtain ⟨sound, total, some⟩ := sums
  unfold RtRq.enqueueTopRtRq
  split
  · next stays =>
    refine ⟨⟨sound, total, some⟩, ⟨fun queued => ⟨some queued, shown queued⟩, fun shows => ?_⟩⟩
    simpa [shows.1, shows.2] using stays
  · next shows =>
    simp only [not_or, Bool.not_eq_true] at shows
    obtain ⟨hidden, free, busy⟩ := shows
    refine ⟨⟨sound, ?_, fun _ => busy⟩, ⟨fun _ => ⟨busy, free⟩, fun _ => rfl⟩⟩
    simpa [hidden] using total

theorem counted_schedRtRqEnqueue (sums : Sums rq) (shown : rq.rtQueued = true → rq.rtThrottled = false) :
    Counted rq.schedRtRqEnqueue := by
  unfold RtRq.schedRtRqEnqueue
  split
  · next empty =>
    refine ⟨sums, ⟨fun queued => absurd empty (sums.some queued), fun busy => absurd empty busy.1⟩⟩
  · exact counted_enqueueTopRtRq sums shown

theorem Hidden.counted {nr : ℕ} (hidden : Hidden rq) : Counted { rq with rtNrRunning := nr }.enqueueTopRtRq := by
  have shown : rq.rtQueued ≠ true := by simp [hidden.hidden]
  refine counted_enqueueTopRtRq ⟨hidden.sound, ?_, fun queued => absurd queued shown⟩
    fun queued => absurd queued shown
  simpa [hidden.hidden] using hidden.total

theorem counted_enqueueRtEntity (counted : Counted rq) : Counted rq.enqueueRtEntity :=
  (hidden_dequeueTopRtRq counted.toSums).counted

theorem counted_dequeueRtEntity (counted : Counted rq) : Counted rq.dequeueRtEntity :=
  (hidden_dequeueTopRtRq counted.toSums).counted

theorem counted_other (counted : Counted rq) (joins : Bool) : Counted (rq.other joins) := by
  obtain ⟨⟨sound, total, some⟩, visible⟩ := counted
  unfold RtRq.other
  split_ifs
  · exact ⟨⟨sound, by dsimp only; omega, some⟩, visible⟩
  · exact ⟨⟨sound, total, some⟩, visible⟩
  · exact ⟨⟨sound, by dsimp only; omega, some⟩, visible⟩

theorem Hidden.counted_of_throttled (hidden : Hidden rq) (throttled : rq.rtThrottled = true) : Counted rq := by
  have shown : rq.rtQueued ≠ true := by simp [hidden.hidden]
  refine ⟨⟨hidden.sound, ?_, fun queued => absurd queued shown⟩, ?_⟩
  · simpa [hidden.hidden] using hidden.total
  · simp [hidden.hidden, throttled]

@[simp] theorem dequeueTopRtRq_rtThrottled (rq : RtRq) : rq.dequeueTopRtRq.rtThrottled = rq.rtThrottled := by
  unfold RtRq.dequeueTopRtRq
  split <;> rfl

theorem counted_throttle (counted : Counted rq) (assigned : Option ℕ) : Counted (rq.throttle assigned) := by
  unfold RtRq.throttle
  split_ifs
  · exact ⟨⟨counted.sound, counted.total, counted.some⟩, counted.visible⟩
  · have sums : Sums { rq with rtThrottled := true } := ⟨counted.sound, counted.total, counted.some⟩
    exact (hidden_dequeueTopRtRq sums).counted_of_throttled (dequeueTopRtRq_rtThrottled _)
  · exact counted

theorem counted_refill (counted : Counted rq) (overrun : ℕ) : Counted (rq.refill overrun) := by
  unfold RtRq.refill
  dsimp only
  split
  · exact counted_schedRtRqEnqueue ⟨counted.sound, counted.total, counted.some⟩ fun _ => rfl
  · exact ⟨⟨counted.sound, counted.total, counted.some⟩, counted.visible⟩

/-! ## All queues -/

variable {Cpu : Type} [DecidableEq Cpu] {cpus : List Cpu} {s : State Cpu} {rt after : Cpu → RtRq} {c : Cpu}
  {seen : Cpu → ℕ} {overrun : ℕ}

def Visible (s : State Cpu) : Prop := ∀ c, Counted (s.rt c)

omit [DecidableEq Cpu] in
theorem counted_of_sameBut (same : SameBut rt after) (counted : ∀ c, Counted (rt c)) (c : Cpu) :
    Counted (after c) := by
  have here := counted c
  rw [← same c] at here
  exact ⟨⟨here.sound, here.total, here.some⟩, here.visible⟩

theorem counted_update (counted : ∀ c, Counted (rt c)) (own : Counted rq) (j : Cpu) :
    Counted (Function.update rt c rq j) := by
  by_cases here : j = c
  · subst here
    rwa [Function.update_self]
  · rw [Function.update_of_ne here]
    exact counted j

theorem visible_updateCurrRt (visible : Visible s) {delta : ℕ} : Visible (s.updateCurrRt cpus c delta seen) := by
  unfold State.updateCurrRt
  split
  · have charged : Visible (s.setRq c { s.rt c with rtTime := (s.rt c).rtTime + delta }) :=
      counted_update visible ⟨⟨(visible c).sound, (visible c).total, (visible c).some⟩, (visible c).visible⟩
    unfold State.schedRtRuntimeExceeded
    split_ifs
    · exact charged
    · exact charged
    · have lent := counted_of_sameBut (sameBut_balanceRuntime _ cpus c seen) charged
      exact counted_update lent (counted_throttle (lent c) _)
  · exact visible

theorem visible_visited (visible : Visible s) (j : Cpu) : Counted (s.visited cpus c overrun seen j) := by
  unfold State.visited
  split_ifs
  · have lent := counted_of_sameBut (sameBut_balanceRuntime s cpus c seen) visible
    exact counted_update lent (counted_refill (lent c) _) j
  · exact counted_update visible (counted_refill (visible c) _) j
  · exact visible j
  · next free =>
    exact counted_update visible
      (counted_schedRtRqEnqueue (visible c).toSums fun _ => by simpa using free) j

theorem visible_timerStep (visible : Visible s) : Visible (s.timerStep cpus overrun seen) := by
  unfold State.timerStep
  split
  · exact visible
  · exact visible
  · split_ifs <;> exact visible
  · exact visible
  · next i _ _ _ _ =>
    have reset : Visible (s.unshared i) := by
      unfold State.unshared
      split
      · exact counted_update visible
          ⟨⟨(visible i).sound, (visible i).total, (visible i).some⟩, (visible i).visible⟩
      · exact visible
    dsimp only
    split_ifs <;> exact reset
  · exact fun j => visible_visited visible j

theorem visible_offline (visible : Visible s) : Visible (s.disableRuntime cpus c) := by
  have counted := counted_of_sameBut (sameBut_settle s cpus c) visible
  exact counted_update counted (counted_schedRtRqEnqueue
    ⟨(counted c).sound, (counted c).total, (counted c).some⟩ fun _ => rfl)

def Unthrottled (s : State Cpu) : Action Cpu → Prop
  | .online c => (s.rt c).rtThrottled = true → (s.rt c).rtNrRunning = 0
  | _ => True

theorem visible_online_iff (visible : Visible s) :
    Visible (s.enableRuntime c) ↔ ((s.rt c).rtThrottled = true → (s.rt c).rtNrRunning = 0) := by
  have own := visible c
  constructor
  · intro after throttled
    by_contra busy
    have shown := (after c).visible
    simp only [State.enableRuntime, State.setRq, Function.update_self, and_true] at shown
    have free := (own.visible.mp (shown.mpr busy)).2
    simp [throttled] at free
  · intro empty
    refine counted_update visible ⟨⟨own.sound, own.total, own.some⟩, ?_⟩
    dsimp only
    rw [own.visible]
    refine and_congr_right fun busy => iff_of_true ?_ rfl
    by_contra throttled
    exact busy (empty (by simpa using throttled))

theorem visible_step_iff (visible : Visible s) (a : Action Cpu) : Visible (step cpus s a) ↔ Unthrottled s a := by
  cases a with
  | enqueue c =>
    refine iff_of_true (fun j => ?_) trivial
    rw [step, State.enqueue, startRtBandwidth_rt]
    exact counted_update visible (counted_enqueueRtEntity (visible c)) j
  | dequeue c => exact iff_of_true (counted_update visible (counted_dequeueRtEntity (visible c))) trivial
  | account c delta seen => exact iff_of_true (visible_updateCurrRt visible) trivial
  | other c joins => exact iff_of_true (counted_update visible (counted_other (visible c) joins)) trivial
  | timer overrun seen => exact iff_of_true (visible_timerStep visible) trivial
  | offline c => exact iff_of_true (visible_offline visible) trivial
  | online c => exact visible_online_iff visible
  | write runtime period =>
    refine iff_of_true ?_ trivial
    simp only [step]
    split <;> exact visible
  | spread =>
    refine iff_of_true ?_ trivial
    simp only [step]
    split
    · exact counted_of_sameBut (fun _ => rfl) visible
    · exact visible
  | commit =>
    refine iff_of_true ?_ trivial
    simp only [step]
    split <;> exact visible
  | feature share => exact iff_of_true visible trivial

omit [DecidableEq Cpu] in
theorem visible_of_start (start : Start s) : Visible s := by
  intro c
  have hidden : (s.rt c).rtQueued ≠ true := by simp [start.queued c]
  refine ⟨⟨start.sound c, ?_, fun queued => absurd queued hidden⟩, ?_⟩
  · simp [start.counted c, start.queued c]
  · simp [start.queued c, start.empty c]

theorem alwaysVisible_iff_unthrottled {acts : List (Action Cpu)} (start : Start s) :
    Always (step cpus) Visible s acts ↔ Along (step cpus) Unthrottled s acts :=
  always_iff_along (fun _ => True) Visible (fun _ _ _ _ => trivial)
    (fun _ a _ _ visible => visible_step_iff visible a) trivial (visible_of_start start)
    (along_of_forall (fun _ _ => trivial) s acts)

/-- A task runs over its time, is throttled, and is found by the next scan. -/
def throttlesAndRecovers : List (Action Bool) :=
  [.enqueue false, .account false 2000000 fun _ => 2000000, .timer 1 fun _ => 0, .timer 3 fun _ => 0,
    .timer 3 fun _ => 0, .timer 3 fun _ => 0]

theorem alwaysVisible_iff_unthrottled_recovers :
    let acts := throttlesAndRecovers ++ [.online false]
    Always (step [false, true]) Visible twoIdle acts ∧
      ((run (step [false, true]) twoIdle (acts.take 2)).rt false).rtThrottled = true ∧
      ((run (step [false, true]) twoIdle acts).rt false).rtQueued = true := by
  refine ⟨(alwaysVisible_iff_unthrottled start_twoIdle).mpr ?_, by decide, by decide⟩
  have recovered : ((run (step [false, true]) twoIdle throttlesAndRecovers).rt false).rtThrottled ≠ true := by decide
  exact ⟨trivial, trivial, trivial, trivial, trivial, trivial, fun throttled => absurd throttled recovered, trivial⟩

/-- A write makes a queue that is offline take part again; throttled meanwhile, its task cannot be
picked after `__enable_runtime`. -/
example :
    let s := run (step [false, true]) twoIdle
      [.offline true, .write (some 500) 1000, .spread, .commit, .enqueue true,
        .account true 600000 fun _ => 600000, .online true]
    (s.rt true).rtNrRunning = 1 ∧ (s.rt true).rtThrottled = false ∧ (s.rt true).rtQueued = false := by
  decide

/-! ## The timer -/

/-- The timer will not stop before it has looked at the CPU. -/
def Watched (s : State Cpu) (c : Cpu) : Prop :=
  match s.timer with
  | .off => False
  | .armed => True
  | .forwards idle => idle = false
  | .looks _ todo idle _ => c ∈ todo ∨ idle = false
  | .visits _ i rest idle _ => c = i ∨ c ∈ rest ∨ idle = false

def Covered (s : State Cpu) : Prop := ∀ c, (s.rt c).rtNrRunning ≠ 0 → Watched s c

structure Limited (s : State Cpu) : Prop where
  stage : s.stage = .idle
  enabled : s.bandwidthEnabled = true
  assigned : s.runtime ≠ none
  active : s.periodActive = true ↔ s.timer ≠ .off

def Unwritten (_ : State Cpu) : Action Cpu → Prop
  | .write _ _ => False
  | _ => True

/-- The first real-time task of a CPU does not come after a handler that found nothing to do has
passed the CPU. -/
def NotLate (s : State Cpu) : Action Cpu → Prop
  | .enqueue c => (s.rt c).rtNrRunning ≠ 0 ∨ s.timer = .off ∨ Watched s c
  | _ => True

/-! ### What the steps leave alone -/

/-- The timer is where it was, and no CPU has got its first real-time task. -/
structure Still (s after : State Cpu) : Prop where
  stage : after.stage = s.stage
  enabled : after.sysctlRuntime = s.sysctlRuntime
  assigned : after.runtime = s.runtime
  timer : after.timer = s.timer
  active : after.periodActive = s.periodActive
  count : ∀ c, (after.rt c).rtNrRunning ≠ 0 → (s.rt c).rtNrRunning ≠ 0

omit [DecidableEq Cpu] in
theorem Still.limited {after : State Cpu} (still : Still s after) (limited : Limited s) : Limited after where
  stage := still.stage.trans limited.stage
  enabled := by
    rw [State.bandwidthEnabled, still.enabled]
    exact limited.enabled
  assigned := by
    rw [still.assigned]
    exact limited.assigned
  active := by
    rw [still.active, still.timer]
    exact limited.active

omit [DecidableEq Cpu] in
theorem Still.covered {after : State Cpu} (still : Still s after) (covered : Covered s) : Covered after := by
  intro c busy
  rw [Watched, still.timer]
  exact covered c (still.count c busy)

theorem still_setRq (count : rq.rtNrRunning ≠ 0 → (s.rt c).rtNrRunning ≠ 0) : Still s (s.setRq c rq) where
  stage := rfl
  enabled := rfl
  assigned := rfl
  timer := rfl
  active := rfl
  count j busy := by
    by_cases here : j = c
    · subst here
      rw [setRq_self] at busy
      exact count busy
    · rwa [setRq_of_ne s here] at busy

theorem count_update (counts : rq.rtNrRunning = (rt c).rtNrRunning) (j : Cpu) :
    (Function.update rt c rq j).rtNrRunning = (rt j).rtNrRunning := by
  by_cases here : j = c
  · subst here
    rw [Function.update_self, counts]
  · rw [Function.update_of_ne here]

@[simp] theorem dequeueTopRtRq_rtNrRunning (rq : RtRq) : rq.dequeueTopRtRq.rtNrRunning = rq.rtNrRunning := by
  unfold RtRq.dequeueTopRtRq
  split <;> rfl

@[simp] theorem enqueueTopRtRq_rtNrRunning (rq : RtRq) : rq.enqueueTopRtRq.rtNrRunning = rq.rtNrRunning := by
  unfold RtRq.enqueueTopRtRq
  split <;> rfl

@[simp] theorem schedRtRqEnqueue_rtNrRunning (rq : RtRq) :
    rq.schedRtRqEnqueue.rtNrRunning = rq.rtNrRunning := by
  unfold RtRq.schedRtRqEnqueue
  split <;> simp

@[simp] theorem throttle_rtNrRunning (rq : RtRq) (assigned : Option ℕ) :
    (rq.throttle assigned).rtNrRunning = rq.rtNrRunning := by
  unfold RtRq.throttle
  split_ifs <;> simp

@[simp] theorem refill_rtNrRunning (rq : RtRq) (overrun : ℕ) :
    (rq.refill overrun).rtNrRunning = rq.rtNrRunning := by
  unfold RtRq.refill
  dsimp only
  split <;> simp

theorem other_rtNrRunning (rq : RtRq) (joins : Bool) : (rq.other joins).rtNrRunning = rq.rtNrRunning := by
  unfold RtRq.other
  split_ifs <;> rfl

theorem visited_count (j : Cpu) : (s.visited cpus c overrun seen j).rtNrRunning = (s.rt j).rtNrRunning := by
  have lent := SameBut.rtNrRunning (sameBut_balanceRuntime s cpus c seen)
  unfold State.visited
  split_ifs
  · exact (count_update (refill_rtNrRunning _ _) j).trans (lent j)
  · exact count_update (refill_rtNrRunning _ _) j
  · rfl
  · exact count_update (schedRtRqEnqueue_rtNrRunning _) j

theorem exceeded_count (j : Cpu) :
    ((s.schedRtRuntimeExceeded cpus c seen).rt j).rtNrRunning = (s.rt j).rtNrRunning := by
  unfold State.schedRtRuntimeExceeded
  split_ifs
  · rfl
  · rfl
  · exact (count_update (throttle_rtNrRunning _ _) j).trans
      (SameBut.rtNrRunning (sameBut_balanceRuntime s cpus c seen) j)

theorem still_updateCurrRt {delta : ℕ} : Still s (s.updateCurrRt cpus c delta seen) := by
  unfold State.updateCurrRt
  split
  · constructor
    case count =>
      intro j busy
      rw [exceeded_count, State.setRq, count_update (by rfl)] at busy
      exact busy
    all_goals
      unfold State.schedRtRuntimeExceeded
      split_ifs <;> rfl
  · exact ⟨rfl, rfl, rfl, rfl, rfl, fun _ busy => busy⟩

theorem still_offline : Still s (s.disableRuntime cpus c) := by
  refine ⟨rfl, rfl, rfl, rfl, rfl, fun j busy => ?_⟩
  have kept := SameBut.rtNrRunning (sameBut_settle s cpus c) j
  rw [State.disableRuntime] at busy
  dsimp only at busy
  rwa [count_update ((schedRtRqEnqueue_rtNrRunning _).trans (by rfl)), kept] at busy

/-! ### The timer's own steps -/

theorem unshared_count (i j : Cpu) : ((s.unshared i).rt j).rtNrRunning = (s.rt j).rtNrRunning := by
  unfold State.unshared
  split
  · exact count_update (by rfl) j
  · rfl

theorem limited_timerStep (limited : Limited s) : Limited (s.timerStep cpus overrun seen) := by
  obtain ⟨stage, enabled, assigned, active⟩ := limited
  unfold State.timerStep
  split
  · exact ⟨stage, enabled, assigned, active⟩
  · next armed => exact ⟨stage, enabled, assigned, by simpa [armed] using active⟩
  · next forwards =>
    split_ifs
    · exact ⟨stage, enabled, assigned, by simpa [forwards] using active⟩
    · exact ⟨stage, enabled, assigned, by simp⟩
    · exact ⟨stage, enabled, assigned, by simpa [forwards] using active⟩
  · next looks => exact ⟨stage, enabled, assigned, by simpa [looks] using active⟩
  · next i _ _ _ looks =>
    have reset : (s.unshared i).stage = .idle ∧ (s.unshared i).bandwidthEnabled = true ∧
        (s.unshared i).runtime ≠ none ∧ (s.unshared i).periodActive = true := by
      have on : s.periodActive = true := by simpa [looks] using active
      unfold State.unshared
      split <;> exact ⟨stage, enabled, assigned, on⟩
    dsimp only
    split_ifs <;> exact ⟨reset.1, reset.2.1, reset.2.2.1, by simp [reset.2.2.2]⟩
  · next visits => exact ⟨stage, enabled, assigned, by simpa [visits] using active⟩

theorem covered_timerStep (complete : ∀ c, c ∈ cpus) (limited : Limited s) (covered : Covered s) :
    Covered (s.timerStep cpus overrun seen) := by
  unfold Covered Watched at covered
  unfold State.timerStep
  cases place : s.timer with
  | off =>
    rw [place] at covered
    intro c busy
    exact absurd (covered c busy) id
  | armed => exact fun _ _ => rfl
  | forwards idle =>
    rw [place] at covered
    dsimp only
    split_ifs with passed found
    · exact fun c _ => .inl (complete c)
    · intro c busy
      cases found.symm.trans (covered c busy)
    · exact fun _ _ => trivial
  | looks n todo idle throttled =>
    rw [place] at covered
    cases todo with
    | nil =>
      intro c busy
      have busyStill : idle = false := (covered c busy).resolve_left List.not_mem_nil
      simp [Watched, limited.enabled, limited.assigned, busyStill]
    | cons i rest =>
      dsimp only
      split_ifs with skips
      · intro c busy
        dsimp only at busy
        rw [unshared_count] at busy skips
        refine (covered c busy).imp_left fun later => ?_
        refine (List.mem_cons.mp later).resolve_left fun same => ?_
        exact busy (same ▸ skips.2)
      · intro c busy
        dsimp only at busy
        rw [unshared_count] at busy
        refine or_assoc.mp ((covered c busy).imp_left List.mem_cons.mp)
  | visits n i rest idle throttled =>
    rw [place] at covered
    intro c busy
    dsimp only at busy
    have before := busy
    rw [visited_count] at before
    rcases covered c before with here | later | busyStill
    · subst here
      exact .inr (by simp [busy])
    · exact .inl later
    · exact .inr (by simp [busyStill])

/-! ### A task arrives -/

@[simp] theorem enqueueRtEntity_rtNrRunning (rq : RtRq) :
    rq.enqueueRtEntity.rtNrRunning = rq.rtNrRunning + 1 := by
  simp [RtRq.enqueueRtEntity]

@[simp] theorem dequeueRtEntity_rtNrRunning (rq : RtRq) :
    rq.dequeueRtEntity.rtNrRunning = rq.rtNrRunning - 1 := by
  simp [RtRq.dequeueRtEntity]

theorem enqueue_of_off (limited : Limited s) (off : s.timer = .off) :
    s.enqueue c = { s.setRq c (s.rt c).enqueueRtEntity with periodActive := true, timer := .armed } := by
  have inactive : s.periodActive ≠ true := fun active => limited.active.mp active off
  have enabled : s.bandwidthEnabled ≠ false := by simp [limited.enabled]
  exact if_neg (not_or.mpr ⟨enabled, not_or.mpr ⟨limited.assigned, inactive⟩⟩)

theorem enqueue_of_on (limited : Limited s) (on : s.timer ≠ .off) :
    s.enqueue c = s.setRq c (s.rt c).enqueueRtEntity :=
  if_pos (.inr (.inr (limited.active.mpr on)))

theorem limited_enqueue (limited : Limited s) : Limited (s.enqueue c) := by
  by_cases off : s.timer = .off
  · rw [enqueue_of_off limited off]
    exact ⟨limited.stage, limited.enabled, limited.assigned, by simp⟩
  · rw [enqueue_of_on limited off]
    exact ⟨limited.stage, limited.enabled, limited.assigned, limited.active⟩

theorem covered_enqueue_iff (limited : Limited s) (covered : Covered s) :
    Covered (s.enqueue c) ↔ NotLate s (.enqueue c) := by
  by_cases off : s.timer = .off
  · rw [enqueue_of_off limited off]
    exact iff_of_true (fun _ _ => trivial) (.inr (.inl off))
  · rw [enqueue_of_on limited off]
    constructor
    · intro after
      refine .inr (.inr (after c ?_))
      rw [setRq_self, enqueueRtEntity_rtNrRunning]
      exact Nat.succ_ne_zero _
    · intro onTime j busy
      by_cases here : j = c
      · subst here
        exact onTime.elim (covered j) (Or.resolve_left · off)
      · rw [setRq_of_ne s here] at busy
        exact covered j busy

/-! ### Whole runs -/

theorem still_of_unwritten (limited : Limited s) {a : Action Cpu} (unwritten : Unwritten s a)
    (others : ∀ c, a ≠ .enqueue c) (elsewhere : ∀ overrun seen, a ≠ .timer overrun seen) :
    Still s (step cpus s a) := by
  cases a with
  | enqueue c => exact absurd rfl (others c)
  | dequeue c => exact still_setRq (by rw [dequeueRtEntity_rtNrRunning]; omega)
  | account c delta seen => exact still_updateCurrRt
  | other c joins => exact still_setRq (by rw [other_rtNrRunning]; exact id)
  | timer overrun seen => exact absurd rfl (elsewhere overrun seen)
  | offline c => exact still_offline
  | online c => exact still_setRq id
  | write runtime period => exact unwritten.elim
  | spread =>
    have idle : s.stage ≠ .validated := by simp [limited.stage]
    rw [step, if_neg idle]
    exact ⟨rfl, rfl, rfl, rfl, rfl, fun _ => id⟩
  | commit =>
    have idle : s.stage ≠ .spread := by simp [limited.stage]
    rw [step, if_neg idle]
    exact ⟨rfl, rfl, rfl, rfl, rfl, fun _ => id⟩
  | feature share => exact ⟨rfl, rfl, rfl, rfl, rfl, fun _ => id⟩

theorem limited_step (a : Action Cpu) (unwritten : Unwritten s a) (limited : Limited s) :
    Limited (step cpus s a) := by
  cases a with
  | enqueue c => exact limited_enqueue limited
  | timer overrun seen => exact limited_timerStep limited
  | _ =>
    refine (still_of_unwritten limited unwritten ?_ ?_).limited limited
    all_goals simp

theorem covered_step_iff (complete : ∀ c, c ∈ cpus) (a : Action Cpu) (unwritten : Unwritten s a)
    (limited : Limited s) (covered : Covered s) : Covered (step cpus s a) ↔ NotLate s a := by
  cases a with
  | enqueue c => exact covered_enqueue_iff limited covered
  | timer overrun seen => exact iff_of_true (covered_timerStep complete limited covered) trivial
  | _ =>
    refine iff_of_true ((still_of_unwritten limited unwritten ?_ ?_).covered covered) trivial
    all_goals simp

omit [DecidableEq Cpu] in
theorem limited_of_start (start : Start s) (assigned : s.runtime ≠ none) : Limited s where
  stage := start.stage
  enabled := by
    rw [start.assigned] at assigned
    simpa [State.globalRtRuntime, State.bandwidthEnabled, Option.isSome_iff_ne_none] using assigned
  assigned := assigned
  active := by simp [start.inactive, start.timer]

omit [DecidableEq Cpu] in
theorem covered_of_start (start : Start s) : Covered s := fun c busy => absurd (start.empty c) busy

theorem alwaysCovered_iff_notLate {acts : List (Action Cpu)} (complete : ∀ c, c ∈ cpus) (start : Start s)
    (assigned : s.runtime ≠ none) (unwritten : Along (step cpus) Unwritten s acts) :
    Always (step cpus) Covered s acts ↔ Along (step cpus) NotLate s acts :=
  always_iff_along Limited Covered (fun _ a => limited_step a)
    (fun _ a unwritten limited covered => covered_step_iff complete a unwritten limited covered)
    (limited_of_start start assigned) (covered_of_start start) unwritten

theorem alwaysCovered_iff_notLate_recovers :
    Always (step [false, true]) Covered twoIdle throttlesAndRecovers ∧
      ((run (step [false, true]) twoIdle throttlesAndRecovers).rt false).rtThrottled = false := by
  refine ⟨(alwaysCovered_iff_notLate (by decide) start_twoIdle (by decide) ?_).mpr ?_, by decide⟩
  · exact along_of_forall_mem _ (by simp [throttlesAndRecovers, Unwritten])
  · exact ⟨.inr (.inl rfl), trivial, trivial, trivial, trivial, trivial, trivial⟩

/-- The handler has found nothing to do on either CPU when the first one gets a task; the timer
stops, and the task, once throttled, is left so. -/
example :
    let s := run (step [false, true]) twoIdle
      [.enqueue false, .timer 0 fun _ => 0, .timer 1 fun _ => 0, .dequeue false, .timer 0 fun _ => 0,
        .timer 0 fun _ => 0, .enqueue false, .timer 0 fun _ => 0, .timer 0 fun _ => 0,
        .account false 2000000 fun _ => 2000000]
    s.timer = .off ∧ (s.rt false).rtThrottled = true ∧ (s.rt false).rtNrRunning = 1 := by
  decide

end UnixSystems.RtThrottling
