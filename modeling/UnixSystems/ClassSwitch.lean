import UnixSystems.RunQueueOrder

/-! Runs in which the CPU switches between tasks of the weighted round robin class and of
the fair class. The fair class keeps its running task out of its tree and relies on
`put_prev_task` to put it back; whether that is called is up to the class that picks. -/
namespace UnixSystems.ClassSwitch
open GuardedRuns CircularList
open WrrModel hiding State Config
open WrrConservation hiding Action step Enabled
open FairModel CoreModel FairQueue RunQueueFrame RunQueueOrder

/-! ## Between calls -/

/-- Outside the scheduler, the current task is runnable and known to its class. -/
structure Settled (cpu : ℕ) (other : ℕ → UInt32) (s : State) (queue : ℕ → List Pid) : Prop where
  sound : Sound cpu other s queue (fairOf s (curr cpu s))
  active : ∀ p, curr cpu s = some p → IsFair s p ∧ (s.entity p).onRq = true ∨ p ∈ queue cpu

section Settled

variable (cfg : Config) {cpu : ℕ} {other : ℕ → UInt32} {s t : State} {queue new : ℕ → List Pid}
  {p : Pid}

theorem curr_kept (kept : Kept s.core t.core) (cpu : ℕ) : curr cpu t = curr cpu s := kept.curr cpu

theorem fairOf_kept (kept : Kept s.core t.core) (prev : Option Pid) : fairOf t prev = fairOf s prev := by
  simp only [fairOf, kept.schedClass]

theorem Settled.keep (settled : Settled cpu other s queue)
    (sound : Sound cpu other t new (fairOf s (curr cpu s))) (kept : Kept s.core t.core)
    (onRq : ∀ p, curr cpu s = some p → (s.entity p).onRq = true → (t.entity p).onRq = true)
    (listed : ∀ p, curr cpu s = some p → p ∈ queue cpu → p ∈ new cpu) : Settled cpu other t new := by
  refine ⟨?_, fun p current => ?_⟩
  · rw [curr_kept kept, fairOf_kept kept]
    exact sound
  · rw [curr_kept kept] at current
    rw [isFair_kept kept]
    exact (settled.active p current).imp (fun h => ⟨h.1, onRq p current h.2⟩) (listed p current)

theorem Settled.listed (settled : Settled cpu other s queue) (current : curr cpu s = some p)
    (own : (s.core.task p).schedClass = .wrr) : p ∈ queue cpu := by
  rcases settled.active p current with fair | inside
  · exact absurd (own.symm.trans fair.1) (by decide)
  · exact inside

theorem Settled.runnable (settled : Settled cpu other s queue) (current : curr cpu s = some p)
    (own : IsFair s p) : (s.entity p).onRq = true := by
  rcases settled.active p current with fair | inside
  · exact fair.2
  · exact absurd (own.symm.trans (settled.sound.wrr p inside)) (by decide)

theorem Settled.same (settled : Settled cpu other s queue) (core : SameCore s.core t.core)
    (kept : shape t = shape s) : Settled cpu other t queue := by
  have onRq : ∀ p, (t.entity p).onRq = (s.entity p).onRq := congrFun (congrArg Shape.onRq kept)
  refine settled.keep (settled.sound.same core kept) core.toKept (fun p _ on => ?_)
    (fun _ _ member => member)
  rw [onRq]
  exact on

theorem sameCore_tickClock (cpu : ℕ) (s : State) (now : UInt64) :
    SameCore s.core (tickClock cpu s now).core :=
  sameCore_modifyRq s.core cpu (fun rq => { rq with clockTask := now }) rfl rfl rfl

theorem Settled.clock (settled : Settled cpu other s queue) (now : UInt64) :
    Settled cpu other (tickClock cpu s now) queue :=
  settled.same (sameCore_tickClock cpu s now) rfl

theorem Settled.timed (settled : Settled cpu other s queue) :
    Settled cpu other (updateCurr cfg cpu s) queue :=
  settled.same (sameCore_updateCurr cfg cpu s) (shape_updateCurr cfg cpu s)

theorem Settled.resched (settled : Settled cpu other s queue) :
    Settled cpu other (reschedTask cpu s) queue :=
  settled.same (sameCore_modifyRq s.core cpu (fun rq => { rq with needResched := true }) rfl rfl rfl)
    rfl

theorem Settled.clear (settled : Settled cpu other s queue) (p : Pid) :
    Settled cpu other (clearBuddies s p) queue :=
  settled.keep (settled.sound.clear p) (Kept.refl _) (fun _ _ on => on) (fun _ _ member => member)

theorem Settled.skip (settled : Settled cpu other s queue) (p : Pid) :
    Settled cpu other (setSkipBuddy s p) queue :=
  settled.same (SameCore.refl _) rfl

theorem Settled.mark (settled : Settled cpu other s queue) {next last : Option Pid}
    (allowed : ∀ q, next = some q ∨ last = some q → IsFair s q ∧ (s.entity q).onRq = true) :
    Settled cpu other { s with cfs := { s.cfs with next := next, last := last } } queue :=
  settled.keep ⟨settled.sound.holds, settled.sound.wrr, { settled.sound.good with buddies := allowed }⟩
    (Kept.refl _) (fun _ _ on => on) (fun _ _ member => member)

theorem Settled.nextBuddy (settled : Settled cpu other s queue) (own : IsFair s p) :
    Settled cpu other (setNextBuddy s p) queue := by
  unfold setNextBuddy
  split
  · exact settled
  next runnable =>
    simp only [not_or, Bool.not_eq_false] at runnable
    refine settled.mark fun q buddy => ?_
    rcases buddy with ⟨⟨⟩⟩ | last
    · exact ⟨own, runnable.2⟩
    · exact settled.sound.good.buddies q (.inr last)

theorem Settled.lastBuddy (settled : Settled cpu other s queue) (own : IsFair s p) :
    Settled cpu other (setLastBuddy s p) queue := by
  unfold setLastBuddy
  split
  · exact settled
  next runnable =>
    simp only [not_or, Bool.not_eq_false] at runnable
    refine settled.mark fun q buddy => ?_
    rcases buddy with next | ⟨⟨⟩⟩
    · exact settled.sound.good.buddies q (.inl next)
    · exact ⟨own, runnable.2⟩

theorem Settled.preempt (settled : Settled cpu other s queue) (own : IsFair s p) (scale : Bool) :
    Settled cpu other (preemptWakeup cfg cpu s p scale) queue := by
  unfold preemptWakeup
  dsimp only
  split
  · exact settled.resched.lastBuddy own
  · exact settled.resched

theorem isFair_setNextBuddy (s : State) (p q : Pid) : IsFair (setNextBuddy s p) q ↔ IsFair s q := by
  unfold setNextBuddy
  split <;> rfl

theorem Settled.wakeup {c : Pid} (settled : Settled cpu other s queue)
    (ownCurr : IsFair s c) (own : IsFair s p) (flags : UInt32) :
    Settled cpu other (checkPreemptWakeup cfg cpu s c p flags) queue := by
  unfold checkPreemptWakeup
  dsimp only
  split
  · exact settled
  · set marked := cfg.nextBuddy = true ∧ decide (cfg.nrLatency ≤ s.cfs.nrRunning) = true ∧
      flags &&& wfFork = 0
    set t := if marked then setNextBuddy s p else s with ht
    have woken : Settled cpu other t queue := by
      rw [ht]
      split
      · exact settled.nextBuddy own
      · exact settled
    have fair : ∀ q, IsFair t q ↔ IsFair s q := by
      intro q
      rw [ht]
      split
      · exact isFair_setNextBuddy s p q
      · rfl
    have timed := woken.timed cfg
    have still : ∀ q, IsFair (updateCurr cfg cpu t) q ↔ IsFair s q := by
      intro q
      rw [isFair_kept (sameCore_updateCurr cfg cpu t).toKept, fair]
    split
    · exact woken
    · split
      · exact woken.preempt cfg ((fair c).mpr ownCurr) _
      · split
        · exact woken
        · split
          · split
            · exact timed.preempt cfg ((still c).mpr ownCurr) _
            · refine (timed.nextBuddy ((still p).mpr own)).preempt cfg ?_ _
              rw [isFair_setNextBuddy, still]
              exact ownCurr
          · exact timed

theorem Settled.checkPreempt (settled : Settled cpu other s queue) (p : Pid) (flags : UInt32) :
    Settled cpu other (checkPreemptCurr cfg cpu s p flags) queue := by
  unfold checkPreemptCurr
  split
  · exact settled.resched
  · split
    next ownCurr own => exact settled.wakeup cfg ownCurr own flags
    · exact settled.resched
    · exact settled

theorem Settled.yieldCpu (settled : Settled cpu other s queue) (now : UInt64) :
    ∃ new, Settled cpu other (schedYield cfg cpu s now) new := by
  unfold schedYield
  split
  · exact ⟨queue, settled⟩
  next c current =>
    split
    · refine ⟨queue, ?_⟩
      unfold yieldTaskFair
      split
      · exact settled
      · dsimp only
        split
        · exact (settled.clear c).skip c
        · exact (((settled.clear c).clock now).timed cfg).skip c
    next own =>
      have inside := settled.listed current own
      obtain ⟨l, r, split⟩ := List.append_of_mem inside
      have moved := settled.sound.holds.requeue false split
      have order := requeued_perm false split cpu
      have result : yieldTaskWrr s.core cpu = requeueTaskWrr s.core cpu c false := by
        simp only [yieldTaskWrr, show (s.core.rq cpu).curr = some c from current]
      refine ⟨_, settled.keep (settled.sound.relist (kept_yieldTaskWrr s.core cpu) rfl
        (result ▸ moved) fun q member => ?_) (kept_yieldTaskWrr s.core cpu) (fun _ _ on => on) ?_⟩
      · exact settled.sound.wrr q (order.mem_iff.mp member)
      · exact fun q _ member => order.mem_iff.mpr member
    · exact ⟨queue, settled⟩

theorem Settled.preemptTick (settled : Settled cpu other s queue) (several : 1 < s.cfs.nrRunning)
    (c : Pid) (idealRuntime : UInt64) :
    Settled cpu other (checkPreemptTick cfg cpu s c idealRuntime) queue := by
  unfold checkPreemptTick
  dsimp only
  split
  · exact settled.resched.clear c
  · split
    · exact settled
    · split
      next empty =>
        exact absurd several (settled.sound.nrRunning_le_one (List.head?_eq_none_iff.mp empty))
      · split
        · exact settled
        · split
          · exact settled.resched
          · exact settled

theorem Settled.tickFair (settled : Settled cpu other s queue) (c : Pid) (idealRuntime : UInt64) :
    Settled cpu other (taskTickFair cfg cpu s c idealRuntime) queue := by
  have timed := settled.timed cfg
  unfold taskTickFair
  dsimp only
  split
  next several => exact timed.preemptTick cfg several c idealRuntime
  · exact timed

theorem Settled.tickWrr (settled : Settled cpu other s queue) {c : Pid} (current : curr cpu s = some c)
    (own : (s.core.task c).schedClass = .wrr) :
    ∃ new, Settled cpu other { s with core := taskTickWrr cfg.toConfig s.core cpu c } new := by
  have inside := settled.listed current own
  obtain ⟨new, holds, order⟩ := settled.sound.holds.tick cfg.toConfig inside
  have kept := kept_taskTickWrr cfg.toConfig s.core cpu c
  refine ⟨new, settled.keep (settled.sound.relist kept rfl holds fun q member => ?_) kept
    (fun _ _ on => on) ?_⟩
  · exact settled.sound.wrr q ((order cpu).mem_iff.mp member)
  · exact fun q _ member => (order cpu).mem_iff.mpr member

theorem Settled.tick (settled : Settled cpu other s queue) (now idealRuntime : UInt64) :
    ∃ new, Settled cpu other (schedulerTick cfg cpu s now idealRuntime) new := by
  have clock := settled.clock now
  unfold schedulerTick
  dsimp only
  revert clock
  generalize tickClock cpu s now = s
  intro settled
  split
  · exact ⟨queue, settled⟩
  next c current =>
    split
    next own => exact ⟨queue, settled.tickFair cfg c idealRuntime⟩
    next own => exact settled.tickWrr cfg current own
    · exact ⟨queue, settled⟩

theorem Settled.enterFair (settled : Settled cpu other s queue) (flags : UInt32) (own : IsFair s p)
    (off : (s.entity p).onRq = false) :
    Settled cpu other (enqueueTaskFair cfg cpu s p flags) queue := by
  have away : fairOf s (curr cpu s) ≠ some p := by
    intro running
    obtain ⟨current, _⟩ := Option.filter_eq_some_iff.mp running
    have on := settled.runnable current own
    rw [off] at on
    exact Bool.noConfusion on
  obtain ⟨sound, kept⟩ := settled.sound.enqueueFair cfg own off away flags
  have curr : s.cfs.curr ≠ some p := by
    rw [show s.cfs.curr = _ from settled.sound.good.curr]
    exact away
  have onRq : ∀ q, (s.entity q).onRq = true →
      ((enqueueTaskFair cfg cpu s p flags).entity q).onRq = true := by
    intro q on
    have shaped := congrFun (congrArg Shape.onRq (shape_enqueueEntity cfg cpu s p flags curr)) q
    have other : q ≠ p := by
      rintro rfl
      simp [on] at off
    simp only [enqueueTaskFair, off, Bool.false_eq_true, if_false]
    refine Eq.trans shaped ?_
    simpa [shape, other] using on
  exact settled.keep sound kept (fun q _ => onRq q) (fun _ _ member => member)

theorem Settled.enterWrr (settled : Settled cpu other s queue) (flags : UInt32)
    (home : (s.core.task p).cpu = cpu) (own : (s.core.task p).schedClass = .wrr)
    (out : ∀ c, p ∉ queue c) :
    ∃ new, Settled cpu other { s with core := enqueueTaskWrr s.core cpu p flags } new := by
  have entered := settled.sound.enqueueWrr own home out flags
  refine ⟨_, settled.keep entered (kept_enqueueTaskWrr s.core cpu p flags) (fun _ _ on => on)
    fun q _ member => ?_⟩
  exact (mem_enqueued flags p q cpu).mpr (.inl member)

theorem Settled.enter (settled : Settled cpu other s queue) (flags : UInt32)
    (home : (s.core.task p).cpu = cpu)
    (ready : IsFair s p ∧ (s.entity p).onRq = false ∨
      (s.core.task p).schedClass = .wrr ∧ ∀ c, p ∉ queue c) :
    ∃ new, Settled cpu other (match (s.core.task p).schedClass with
      | .fair => enqueueTaskFair cfg cpu s p flags
      | .wrr => { s with core := enqueueTaskWrr s.core cpu p flags }
      | _ => s) new := by
  rcases ready with ⟨own, off⟩ | ⟨own, out⟩
  · have entered := settled.enterFair cfg flags own off
    simp only [IsFair] at own
    simp only [own]
    exact ⟨queue, entered⟩
  · simp only [own]
    exact settled.enterWrr flags home own out

theorem Settled.exit (settled : Settled cpu other s queue) (flags : UInt32)
    (ready : IsFair s p ∧ (s.entity p).onRq = true ∨ p ∈ queue cpu) :
    ∃ t new, (match (s.core.task p).schedClass with
      | .fair => dequeueTaskFair cfg cpu s p flags
      | .wrr => { s with core := dequeueTaskWrr cfg.toConfig s.core cpu p flags }
      | _ => s) = t ∧ Sound cpu other t new (fairOf s (curr cpu s)) ∧ Kept s.core t.core ∧
      t.puts = s.puts ∧ (∀ q, q ≠ p → (t.entity q).onRq = (s.entity q).onRq) ∧
      (∀ q, q ≠ p → q ∈ queue cpu → q ∈ new cpu) ∧ (IsFair s p → new = queue) := by
  rcases ready with ⟨own, on⟩ | inside
  · obtain ⟨sound, kept⟩ := settled.sound.dequeueFair cfg own on flags
    have shaped := shape_dequeueEntity cfg cpu s p flags
    simp only [IsFair] at own
    simp only [own]
    refine ⟨_, queue, rfl, sound, kept, congrArg Shape.puts shaped, fun q other => ?_,
      fun _ _ member => member, fun _ => rfl⟩
    refine (congrFun (congrArg Shape.onRq shaped) q).trans ?_
    simp [shape, other]
  · have own := settled.sound.wrr p inside
    obtain ⟨l, r, split⟩ := List.append_of_mem inside
    simp only [own]
    refine ⟨_, _, rfl, settled.sound.dequeueWrr cfg split flags,
      kept_dequeueTaskWrr cfg.toConfig s.core cpu p flags, rfl, fun _ _ => rfl,
      fun q other member => ?_, fun fair => absurd (fair.symm.trans own) (by decide)⟩
    rw [split] at member
    rw [Function.update_self]
    simp only [List.mem_append, List.mem_cons] at member ⊢
    tauto

end Settled

/-! ## Runs -/

/-- How tasks come and go: on their own CPU, one at a time, and not the current task, which
only leaves through `schedule()`. -/
def Enabled (cpu : ℕ) (s : State) : Action → Prop
  | .enqueue p _ _ => (s.core.task p).cpu = cpu ∧
      (IsFair s p ∧ (s.entity p).onRq = false ∨
        (s.core.task p).schedClass = .wrr ∧ ∀ c, ¬ Queued s.core c p)
  | .dequeue p _ _ => curr cpu s ≠ some p ∧
      (IsFair s p ∧ (s.entity p).onRq = true ∨ Queued s.core cpu p)
  | _ => True

/-- No task of the fair class calls `schedule()` while a task of the round robin class is
queued. -/
def Careful (cpu : ℕ) (s : State) : Action → Prop
  | .schedule _ _ => ∀ p, curr cpu s = some p → IsFair s p → (s.core.rq cpu).wrr.nrRunning = 0
  | _ => True

/-- The previous task has been put back by its own class whenever the round robin class
has picked the next one. -/
def PutsPrev (cfg : Config) (cpu : ℕ) (s : State) : Action → Prop
  | .schedule sleep now => (schedule cfg cpu s sleep now).2 = .wrr → ∀ p, curr cpu s = some p →
      ((s.core.task p).schedClass, some p) ∈ (schedule cfg cpu s sleep now).1.puts
  | _ => True

structure NoneLost (cfg : Config) (cpu : ℕ) (s : State) : Prop where
  present : ∀ p, IsFair s p → (s.entity p).onRq = true → curr cpu s = some p ∨ p ∈ s.cfs.tasksTimeline
  counted : s.cfs.nrRunning.toNat =
    s.cfs.tasksTimeline.length + if classOf s (curr cpu s) = .fair then 1 else 0
  found : s.cfs.nrRunning ≠ 0 → (pickNextTaskFair cfg cpu s (curr cpu s)).2 ≠ none
  sane : s.oops = false

def InOrder (cpu : ℕ) (other : ℕ → UInt32) (s : State) : Prop := ∃ queue, Settled cpu other s queue

section Runs

variable (cfg : Config) {cpu : ℕ} {other : ℕ → UInt32} {s : State} {queue : ℕ → List Pid} {p : Pid}

theorem InOrder.enqueue (order : InOrder cpu other s) {flags : UInt32} {now : UInt64}
    (enabled : Enabled cpu s (.enqueue p flags now)) :
    InOrder cpu other (enqueueTask cfg cpu s p flags now) := by
  obtain ⟨queue, settled⟩ := order
  obtain ⟨home, ready⟩ := enabled
  simp only [settled.sound.holds.queued_iff] at ready
  unfold enqueueTask
  split
  · exact (settled.clock now).enter cfg flags home ready
  · exact settled.enter cfg flags home ready

theorem InOrder.dequeue (order : InOrder cpu other s) {flags : UInt32} {now : UInt64}
    (enabled : Enabled cpu s (.dequeue p flags now)) :
    InOrder cpu other (dequeueTask cfg cpu s p flags now) := by
  obtain ⟨queue, settled⟩ := order
  obtain ⟨away, ready⟩ := enabled
  rw [settled.sound.holds.queued_iff] at ready
  have leave : ∀ {s : State}, Settled cpu other s queue → curr cpu s ≠ some p →
      (IsFair s p ∧ (s.entity p).onRq = true ∨ p ∈ queue cpu) →
      InOrder cpu other (match (s.core.task p).schedClass with
        | .fair => dequeueTaskFair cfg cpu s p flags
        | .wrr => { s with core := dequeueTaskWrr cfg.toConfig s.core cpu p flags }
        | _ => s) := by
    intro s settled away ready
    obtain ⟨t, new, rfl, sound, kept, _, onRq, listed, _⟩ := settled.exit cfg flags ready
    have current : ∀ q, curr cpu s = some q → q ≠ p := by
      rintro q current rfl
      exact away current
    refine ⟨new, settled.keep sound kept (fun q now on => ?_) fun q now => listed q (current q now)⟩
    rw [onRq q (current q now)]
    exact on
  unfold dequeueTask
  split
  · refine leave (settled.clock now) ?_ ready
    rw [curr_kept (sameCore_tickClock cpu s now).toKept]
    exact away
  · exact leave settled away ready

/-- The state in which `schedule()` picks: the previous task may have gone to sleep. -/
def beforePick (cfg : Config) (cpu : ℕ) (s : State) (sleep : Bool) (now : UInt64) : State :=
  deactivatePrev cfg cpu (tickClock cpu { s with puts := [] } now) sleep now

theorem Settled.atPick (settled : Settled cpu other s queue) (sleep : Bool) (now : UInt64) :
    ∃ new, Sound cpu other (beforePick cfg cpu s sleep now) new (fairOf s (curr cpu s)) ∧
      Kept s.core (beforePick cfg cpu s sleep now).core ∧
      (beforePick cfg cpu s sleep now).puts = [] ∧
      ∀ p, curr cpu s = some p → IsFair s p → new = queue := by
  have reset : Settled cpu other { s with puts := [] } queue :=
    ⟨⟨settled.sound.holds, settled.sound.wrr, { settled.sound.good with }⟩, settled.active⟩
  have clock := reset.clock now
  have core := sameCore_tickClock cpu { s with puts := [] } now
  have current : curr cpu (tickClock cpu { s with puts := [] } now) = curr cpu s :=
    core.toKept.curr cpu
  have running : fairOf (tickClock cpu { s with puts := [] } now)
      (curr cpu (tickClock cpu { s with puts := [] } now)) = fairOf s (curr cpu s) := by
    rw [current]
    exact fairOf_kept core.toKept _
  unfold beforePick deactivatePrev
  split
  next prev now' =>
    have ready := clock.active prev now'
    obtain ⟨t, new, left, sound, kept, puts, _, _, same⟩ :=
      clock.exit cfg (dequeueSleep ||| dequeueNoclock) ready
    have result : dequeueTask cfg cpu (tickClock cpu { s with puts := [] } now) prev
        (dequeueSleep ||| dequeueNoclock) now = t := by
      rw [← left]
      rfl
    rw [running] at sound
    rw [result]
    refine ⟨new, sound, core.toKept.trans kept, puts, fun p eq own => ?_⟩
    have prev_eq : prev = p := Option.some.inj (now'.symm.trans (current.trans eq))
    subst prev_eq
    exact same own
  · have sound := clock.sound
    rw [running] at sound
    exact ⟨queue, sound, core.toKept, rfl, fun _ _ _ => rfl⟩

theorem schedule_eq (cfg : Config) (cpu : ℕ) (s : State) (sleep : Bool) (now : UInt64) :
    schedule cfg cpu s sleep now =
      let picked := pickNextTask cfg cpu (beforePick cfg cpu s sleep now) (curr cpu s)
      ({ picked.1 with core := picked.1.core.modifyRq cpu fun rq =>
          { rq with curr := picked.2.2, needResched := false } }, picked.2.1) := rfl

theorem Sound.switchTo {t : State} {next : Option Pid}
    (sound : Sound cpu other t queue (fairOf t next))
    (active : ∀ p, next = some p → IsFair t p ∧ (t.entity p).onRq = true ∨ p ∈ queue cpu) :
    Settled cpu other { t with core := t.core.modifyRq cpu fun rq =>
      { rq with curr := next, needResched := false } } queue := by
  have queues := sameQueues_modifyRq t.core cpu (fun rq =>
    { rq with curr := next, needResched := false }) rfl rfl
  have current : curr cpu { t with core := t.core.modifyRq cpu fun rq =>
      { rq with curr := next, needResched := false } } = next := by
    simp [curr, WrrModel.State.modifyRq]
  refine ⟨⟨sound.holds.same queues, sound.wrr, ?_⟩, ?_⟩
  · rw [current]
    exact sound.good
  · rw [current]
    exact active

theorem Settled.wrrCount_beforePick (settled : Settled cpu other s queue)
    (current : curr cpu s = some p) (own : IsFair s p) (sleep : Bool) (now : UInt64) :
    ((beforePick cfg cpu s sleep now).core.rq cpu).wrr.nrRunning = (s.core.rq cpu).wrr.nrRunning := by
  obtain ⟨new, sound, _, _, same⟩ := settled.atPick cfg sleep now
  have before := settled.sound.holds.count cpu
  have after := sound.holds.count cpu
  rw [same p current own, ← before] at after
  exact UInt32.toNat_inj.mp after

theorem Settled.rescheduleRest (settled : Settled cpu other s queue) (sleep : Bool) (now : UInt64)
    (none : ((beforePick cfg cpu s sleep now).core.rq cpu).wrr.nrRunning = 0) :
    InOrder cpu other (schedule cfg cpu s sleep now).1 ∧ (schedule cfg cpu s sleep now).2 ≠ .wrr := by
  obtain ⟨new, sound, kept, _, _⟩ := settled.atPick cfg sleep now
  set t := beforePick cfg cpu s sleep now with ht
  rw [← fairOf_kept kept] at sound
  obtain ⟨picked, class_ne, own⟩ := sound.pickRest cfg
  have result : schedule cfg cpu s sleep now = _ := schedule_eq cfg cpu s sleep now
  rw [← ht, pickNextTask_noWrr cfg none] at result
  rw [result]
  set r := pickFairOrIdle cfg cpu t (curr cpu s)
  refine ⟨⟨new, Sound.switchTo ?_ fun p eq => .inl ?_⟩, class_ne⟩
  · have running : fairOf r.1 r.2.2 = r.2.2 := by
      rw [fairOf_kept picked.kept]
      cases next : r.2.2 with
      | none => rfl
      | some p => exact fairOf_fair (own p next)
    rw [running]
    exact picked.sound
  · rw [isFair_kept picked.kept]
    exact ⟨own p eq, picked.runnable p eq⟩

theorem Settled.rescheduleWrr (settled : Settled cpu other s queue) (sleep : Bool) (now : UInt64)
    (queued : ((beforePick cfg cpu s sleep now).core.rq cpu).wrr.nrRunning ≠ 0)
    (notFair : ∀ p, curr cpu s = some p → ¬ IsFair s p) :
    InOrder cpu other (schedule cfg cpu s sleep now).1 ∧ PutsPrev cfg cpu s (.schedule sleep now) := by
  obtain ⟨new, sound, _, _, _⟩ := settled.atPick cfg sleep now
  have idle : fairOf s (curr cpu s) = none := by
    cases current : curr cpu s with
    | none => rfl
    | some p => exact fairOf_other (notFair p current)
  rw [idle] at sound
  obtain ⟨u, p, picked, inside, sound', kept, puts⟩ := sound.pickWrr cfg queued (curr cpu s)
  have result : schedule cfg cpu s sleep now = _ := schedule_eq cfg cpu s sleep now
  rw [picked] at result
  rw [PutsPrev, result]
  refine ⟨⟨new, Sound.switchTo ?_ fun q eq => .inr ?_⟩, fun _ q current => ?_⟩
  · have wrr : ¬ IsFair u p := by
      rw [isFair_kept kept, IsFair, sound.wrr p inside]
      decide
    rw [fairOf_other wrr]
    exact sound'
  · obtain rfl : p = q := Option.some.inj eq
    exact inside
  · have cls : (s.core.task q).schedClass = .wrr := by
      rcases settled.active q current with fair | queued
      · exact absurd fair.1 (notFair q current)
      · exact settled.sound.wrr q queued
    rw [cls]
    simp only [puts, current]
    exact List.mem_cons_self

theorem InOrder.reschedule (order : InOrder cpu other s) {sleep : Bool} {now : UInt64}
    (careful : Careful cpu s (.schedule sleep now)) :
    InOrder cpu other (schedule cfg cpu s sleep now).1 ∧
      PutsPrev cfg cpu s (.schedule sleep now) := by
  obtain ⟨queue, settled⟩ := order
  by_cases none : ((beforePick cfg cpu s sleep now).core.rq cpu).wrr.nrRunning = 0
  · obtain ⟨order, class_ne⟩ := settled.rescheduleRest cfg sleep now none
    exact ⟨order, fun wrr => absurd wrr class_ne⟩
  · refine settled.rescheduleWrr cfg sleep now none fun p current own => none ?_
    rw [settled.wrrCount_beforePick cfg current own]
    exact careful p current own

theorem inOrder_step (cfg : Config) (cpu : ℕ) (other : ℕ → UInt32) (s : State) (a : Action)
    (enabled : Enabled cpu s a) (careful : Careful cpu s a) (order : InOrder cpu other s) :
    InOrder cpu other (step cfg cpu s a) := by
  cases a with
  | enqueue p flags now => exact order.enqueue cfg enabled
  | dequeue p flags now => exact order.dequeue cfg enabled
  | checkPreempt p flags =>
    obtain ⟨queue, settled⟩ := order
    exact ⟨queue, settled.checkPreempt cfg p flags⟩
  | yieldCpu now =>
    obtain ⟨queue, settled⟩ := order
    exact settled.yieldCpu cfg now
  | tick now idealRuntime =>
    obtain ⟨queue, settled⟩ := order
    exact settled.tick cfg now idealRuntime
  | schedule sleep now => exact (order.reschedule cfg careful).1

theorem putsPrev_iff_careful (cfg : Config) (cpu : ℕ) (other : ℕ → UInt32) (s : State) (a : Action)
    (order : InOrder cpu other s) : PutsPrev cfg cpu s a ↔ Careful cpu s a := by
  cases a with
  | schedule sleep now =>
    refine ⟨fun puts p current own => ?_, fun careful => (order.reschedule cfg careful).2⟩
    by_contra some
    obtain ⟨queue, settled⟩ := order
    obtain ⟨new, sound, _, none, _⟩ := settled.atPick cfg sleep now
    have queued : ((beforePick cfg cpu s sleep now).core.rq cpu).wrr.nrRunning ≠ 0 := by
      rw [settled.wrrCount_beforePick cfg current own]
      exact some
    obtain ⟨u, q, picked, _, _, _, logged⟩ := sound.pickWrr cfg queued (curr cpu s)
    have result : schedule cfg cpu s sleep now = _ := schedule_eq cfg cpu s sleep now
    rw [picked] at result
    have put := puts (by rw [result]) p current
    rw [show (s.core.task p).schedClass = .fair from own, result] at put
    simp [logged, none] at put
  | _ => simp [PutsPrev, Careful]

theorem noneLost_of_inOrder (cfg : Config) (cpu : ℕ) (other : ℕ → UInt32) (s : State)
    (order : InOrder cpu other s) : NoneLost cfg cpu s := by
  obtain ⟨queue, settled⟩ := order
  have good := settled.sound.good
  refine ⟨fun p own on => ?_, ?_, fun some => (settled.sound.pickFair cfg some).2, good.sane⟩
  · by_cases current : curr cpu s = some p
    · exact .inl current
    · refine .inr ((good.listed p).mpr ⟨own, on, fun running => ?_⟩)
      exact current (Option.filter_eq_some_iff.mp running).1
  · have count := good.count
    refine count.trans (congrArg (s.cfs.tasksTimeline.length + ·) ?_)
    cases current : curr cpu s with
    | none => rfl
    | some p =>
      by_cases own : IsFair s p
      · have on := settled.runnable current own
        have fair : classOf s (some p) = .fair := own
        simp [fairOf_fair own, shape, on, fair]
      · have fair : classOf s (some p) ≠ .fair := own
        simp [fairOf_other own, fair]

end Runs

theorem noneLost_iff_careful (cfg : Config) (cpu : ℕ) (other : ℕ → UInt32) (s : State)
    (start : InOrder cpu other s) (acts : List Action)
    (h : Along (step cfg cpu) (Enabled cpu) s acts) :
    (Along (step cfg cpu) (PutsPrev cfg cpu) s acts ∧
      Always (step cfg cpu) (NoneLost cfg cpu) s acts) ↔
    Along (step cfg cpu) (Careful cpu) s acts := by
  have exact_run : Along (step cfg cpu) (PutsPrev cfg cpu) s acts ↔
      Along (step cfg cpu) (Careful cpu) s acts :=
    along_iff_along (InOrder cpu other) (inOrder_step cfg cpu other)
      (fun s a _ order => putsPrev_iff_careful cfg cpu other s a order) start h
  refine ⟨fun run => exact_run.mp run.1, fun careful => ⟨exact_run.mpr careful, ?_⟩⟩
  exact always_of_invariant (InOrder cpu other)
    (fun s a admitted => inOrder_step cfg cpu other s a admitted.1 admitted.2)
    (noneLost_of_inOrder cfg cpu other) start (h.and careful)

/-! ## A mixed run -/

def plain : Config where
  timeslice := 10
  tickUsec := 1000
  posixTimers := true
  schedstats := true
  groupSched := true
  calcDeltaFair := fun delta _ => delta
  wakeupGranularity := 1000
  minGranularity := 750
  sleeperThresh := 3000
  nrLatency := 8
  nextBuddy := false
  lastBuddy := true
  wakeupPreemption := true

/-- An idle CPU. The first process is of the fair class, all others are of the round
robin class. -/
def mixed : State where
  core := { quiet with task := fun p =>
    let cls := if p = Pid.nth 0 then SchedClass.fair else SchedClass.wrr
    let policy := if p = Pid.nth 0 then Policy.normal else Policy.wrr
    ⟨⟨0, 0, 0⟩, ⟨10, 100, 0⟩, policy, cls, 0, rlimInfinity, 0⟩ }
  cfs := ⟨0, 0, 0, [], none, none, none, none⟩
  entity := fun _ => ⟨false, 0, 1024, 0⟩
  puts := []
  oops := false

theorem mixed_inOrder : InOrder 0 (fun _ => 0) mixed := by
  have zero : ∀ c, Function.update (fun _ : ℕ => (0 : UInt32)) 0 0 c = 0 :=
    congrFun (Function.update_eq_self 0 fun _ : ℕ => (0 : UInt32))
  have total : ∀ c, (mixed.core.rq c).nrRunning =
      Function.update (fun _ : ℕ => (0 : UInt32)) 0 0 c + (mixed.core.rq c).wrr.nrRunning := by
    intro c
    rw [zero]
    rfl
  have idle : curr 0 mixed = none := rfl
  refine ⟨fun _ => [], ⟨⟨?_, by simp, ?_⟩, by simp [idle]⟩⟩
  · exact ⟨fun c => ⟨⟨rfl, rfl⟩, by simp⟩, by simp, by simp, fun c => rfl, fun c => rfl, total⟩
  · rw [idle]
    exact ⟨rfl, by simp [fairOf], by simp [shape, mixed], by simp [shape, mixed], rfl, rfl,
      by simp [shape, mixed], rfl⟩

theorem not_queued {a : WrrModel.State} (links : a.links = quiet.links) (c : ℕ) (p : Pid) :
    ¬ Queued a c p := by
  rintro ⟨queue, ring, member⟩
  have empty : HasQueue a c [] := by
    rw [HasQueue, links]
    exact ⟨⟨rfl, rfl⟩, by simp⟩
  rw [ring.unique empty] at member
  simp at member

theorem noneLost_iff_careful_handover :
    InOrder 0 (fun _ => 0) mixed ∧
      (Along (step plain 0) (PutsPrev plain 0) mixed
          [.enqueue (.nth 1) 1 5, .schedule false 6, .enqueue (.nth 0) 1 7, .schedule true 8] ∧
        Always (step plain 0) (NoneLost plain 0) mixed
          [.enqueue (.nth 1) 1 5, .schedule false 6, .enqueue (.nth 0) 1 7, .schedule true 8]) := by
  refine ⟨mixed_inOrder, (noneLost_iff_careful plain 0 _ mixed mixed_inOrder _ ?_).mpr ?_⟩
  · exact ⟨⟨rfl, .inr ⟨rfl, fun c => not_queued rfl c _⟩⟩, trivial, ⟨rfl, .inl ⟨rfl, rfl⟩⟩, trivial,
      trivial⟩
  · refine ⟨trivial, fun p current => ?_, trivial, fun p current own => ?_, trivial⟩
    · exact absurd (Eq.trans (Eq.symm current) rfl : some p = none) (by simp)
    · obtain rfl : Pid.nth 1 = p := Option.some.inj current
      exact absurd (Eq.trans (Eq.symm own) rfl : SchedClass.fair = .wrr) (by decide)

/-- A fair task is running when a round robin task wakes up and is picked: the fair task
is runnable but neither running nor in the tree, and when the other task sleeps, the fair
class counts one task and finds none. -/
theorem preempted_lost :
    InOrder 0 (fun _ => 0) mixed ∧
      Along (step plain 0) (Enabled 0) mixed
        [.enqueue (.nth 0) 1 5, .schedule false 6, .enqueue (.nth 1) 1 7, .schedule false 8,
          .schedule true 9] ∧
      (let s := run (step plain 0) mixed
        [.enqueue (.nth 0) 1 5, .schedule false 6, .enqueue (.nth 1) 1 7, .schedule false 8]
      IsFair s (.nth 0) ∧ (s.entity (.nth 0)).onRq = true ∧ s.cfs.nrRunning = 1 ∧
        curr 0 s = some (.nth 1) ∧ s.cfs.tasksTimeline = [] ∧ s.puts = [(.wrr, some (.nth 0))] ∧
        (step plain 0 s (.schedule true 9)).oops = true) := by
  refine ⟨mixed_inOrder, ?_, ?_⟩
  · exact ⟨⟨rfl, .inl ⟨rfl, rfl⟩⟩, trivial, ⟨rfl, .inr ⟨rfl, fun c => not_queued rfl c _⟩⟩, trivial,
      trivial, trivial⟩
  · exact ⟨rfl, rfl, rfl, rfl, rfl, rfl, rfl⟩

end UnixSystems.ClassSwitch
