import UnixSystems.RunQueueFrame

/-! Run queues in order, with tasks of the weighted round robin class and of the fair
class: what enqueueing, dequeueing, putting back and picking do to them. -/
namespace UnixSystems.RunQueueOrder
open CircularList
open WrrModel hiding State Config
open WrrConservation hiding Action step Enabled
open FairModel CoreModel FairQueue RunQueueFrame

def IsFair (s : State) (p : Pid) : Prop := (s.core.task p).schedClass = .fair

/-- The run queue is in order while `running` is the entity the fair class has running.
`other` is what `rq->nr_running` counts on CPUs apart from the run list. -/
structure Sound (cpu : ℕ) (other : ℕ → UInt32) (s : State) (queue : ℕ → List Pid)
    (running : Option Pid) : Prop where
  holds : Holds (Function.update other cpu s.cfs.hNrRunning) s.core queue
  wrr : ∀ p ∈ queue cpu, (s.core.task p).schedClass = .wrr
  good : Good (IsFair s) (shape s) running

section Sound

variable (cfg : Config) {cpu : ℕ} {other : ℕ → UInt32} {s t : State} {queue : ℕ → List Pid}
  {running next : Option Pid} {p : Pid}

theorem isFair_kept (kept : Kept s.core t.core) : IsFair t = IsFair s :=
  funext fun p => congrArg (· = SchedClass.fair) (kept.schedClass p)

theorem Sound.move (sound : Sound cpu other s queue running) (core : SameCore s.core t.core)
    (hier : t.cfs.hNrRunning = s.cfs.hNrRunning) (good : Good (IsFair s) (shape t) next) :
    Sound cpu other t queue next := by
  refine ⟨?_, fun p member => ?_, ?_⟩
  · rw [hier]
    exact sound.holds.same core.toSameQueues
  · rw [core.schedClass]
    exact sound.wrr p member
  · rw [isFair_kept core.toKept]
    exact good

theorem Sound.same (sound : Sound cpu other s queue running) (core : SameCore s.core t.core)
    (kept : shape t = shape s) : Sound cpu other t queue running :=
  sound.move core (congrArg Shape.hNrRunning kept) (kept ▸ sound.good)

theorem Sound.relist {new : ℕ → List Pid} (sound : Sound cpu other s queue running)
    (kept : Kept s.core t.core) (same : shape t = shape s)
    (holds : Holds (Function.update other cpu s.cfs.hNrRunning) t.core new)
    (wrr : ∀ p ∈ new cpu, (s.core.task p).schedClass = .wrr) : Sound cpu other t new running := by
  have hier : t.cfs.hNrRunning = s.cfs.hNrRunning := congrArg Shape.hNrRunning same
  refine ⟨?_, fun p member => ?_, ?_⟩
  · rw [hier]
    exact holds
  · rw [kept.schedClass]
    exact wrr p member
  · rw [isFair_kept kept, same]
    exact sound.good

theorem holds_addNrRunning {a : WrrModel.State} {h : UInt32}
    (holds : Holds (Function.update other cpu h) a queue) :
    Holds (Function.update other cpu (h + 1)) (addNrRunning a cpu 1) queue := by
  have total := holds.total
  have links : (addNrRunning a cpu 1).links = a.links := by
    unfold addNrRunning
    dsimp only
    split <;> rfl
  have task : (addNrRunning a cpu 1).task = a.task := by
    unfold addNrRunning
    dsimp only
    split <;> rfl
  have rq : (addNrRunning a cpu 1).rq = Function.update a.rq cpu
      { a.rq cpu with nrRunning := (a.rq cpu).nrRunning + 1 } := by
    unfold addNrRunning
    dsimp only
    split <;> rfl
  have wrr : ∀ c, ((addNrRunning a cpu 1).rq c).wrr = (a.rq c).wrr := by
    intro c
    rw [rq]
    by_cases here : c = cpu <;> simp [here]
  refine ⟨fun c => ?_, holds.apart, fun c p member => ?_, fun c => ?_, fun c => ?_, fun c => ?_⟩
  · rw [HasQueue, links]
    exact holds.ring c
  · rw [task]
    exact holds.home c p member
  · rw [wrr]
    exact holds.count c
  · rw [wrr, weightOf, task]
    exact holds.weight c
  · rw [wrr, rq]
    by_cases here : c = cpu
    · subst here
      have before := total c
      simp only [Function.update_self] at before ⊢
      rw [before]
      grind
    · simpa [here] using total c

theorem holds_subNrRunning {a : WrrModel.State} {h : UInt32}
    (holds : Holds (Function.update other cpu h) a queue) :
    Holds (Function.update other cpu (h - 1)) (subNrRunning a cpu 1) queue := by
  have total := holds.total
  have wrr : ∀ c, ((subNrRunning a cpu 1).rq c).wrr = (a.rq c).wrr := by
    intro c
    by_cases here : c = cpu <;> simp [subNrRunning, WrrModel.State.modifyRq, here]
  refine ⟨holds.ring, holds.apart, holds.home, fun c => ?_, fun c => ?_, fun c => ?_⟩
  · rw [wrr]
    exact holds.count c
  · rw [wrr]
    exact holds.weight c
  · rw [wrr]
    by_cases here : c = cpu
    · subst here
      have before := total c
      simp only [subNrRunning, WrrModel.State.modifyRq, Function.update_self] at before ⊢
      rw [before]
      grind
    · simpa [subNrRunning, WrrModel.State.modifyRq, here] using total c

theorem Sound.enqueueFair (sound : Sound cpu other s queue running) (own : IsFair s p)
    (off : (s.entity p).onRq = false) (away : running ≠ some p) (flags : UInt32) :
    Sound cpu other (enqueueTaskFair cfg cpu s p flags) queue running ∧
      Kept s.core (enqueueTaskFair cfg cpu s p flags).core := by
  have curr : s.cfs.curr ≠ some p := by
    rw [show s.cfs.curr = running from sound.good.curr]
    exact away
  have entered := shape_enqueueEntity cfg cpu s p flags curr
  have core := sameCore_enqueueEntity cfg cpu s p flags
  have kept : Kept s.core (enqueueTaskFair cfg cpu s p flags).core := by
    simp only [enqueueTaskFair, off, Bool.false_eq_true, if_false]
    exact core.toKept.trans (kept_addNrRunning _ cpu 1)
  have shaped : shape (enqueueTaskFair cfg cpu s p flags) = { shape s with
      timeline := p ::ₘ (shape s).timeline
      nrRunning := (shape s).nrRunning + 1
      hNrRunning := (shape s).hNrRunning + 1
      onRq := Function.update (shape s).onRq p true } := by
    have counted : shape (enqueueTaskFair cfg cpu s p flags) =
        { shape (enqueueEntity cfg cpu s p flags) with
          hNrRunning := (shape (enqueueEntity cfg cpu s p flags)).hNrRunning + 1 } := by
      simp only [enqueueTaskFair, off, Bool.false_eq_true, if_false]
      rfl
    rw [counted, entered]
  have hier : (enqueueEntity cfg cpu s p flags).cfs.hNrRunning = s.cfs.hNrRunning :=
    congrArg Shape.hNrRunning entered
  refine ⟨⟨?_, fun q member => ?_, ?_⟩, kept⟩
  · have holds := holds_addNrRunning (sound.holds.same core.toSameQueues)
    simpa only [enqueueTaskFair, off, Bool.false_eq_true, if_false, hier] using holds
  · rw [kept.schedClass]
    exact sound.wrr q member
  · rw [isFair_kept kept, shaped]
    exact sound.good.enqueue own off away

theorem Sound.dequeueFair (sound : Sound cpu other s queue running) (own : IsFair s p)
    (on : (s.entity p).onRq = true) (flags : UInt32) :
    Sound cpu other (dequeueTaskFair cfg cpu s p flags) queue running ∧
      Kept s.core (dequeueTaskFair cfg cpu s p flags).core := by
  have left := shape_dequeueEntity cfg cpu s p flags
  have core := sameCore_dequeueEntity cfg cpu s p flags
  have kept : Kept s.core (dequeueTaskFair cfg cpu s p flags).core :=
    core.toKept.trans (kept_subNrRunning _ cpu 1)
  have shaped : shape (dequeueTaskFair cfg cpu s p flags) =
      { shape (dequeueEntity cfg cpu s p flags) with
        hNrRunning := (shape (dequeueEntity cfg cpu s p flags)).hNrRunning - 1 } := rfl
  have hier : (dequeueEntity cfg cpu s p flags).cfs.hNrRunning = s.cfs.hNrRunning :=
    congrArg Shape.hNrRunning left
  refine ⟨⟨?_, fun q member => ?_, ?_⟩, kept⟩
  · have holds := holds_subNrRunning (sound.holds.same core.toSameQueues)
    rw [← hier] at holds
    exact holds
  · rw [kept.schedClass]
    exact sound.wrr q member
  · rw [isFair_kept kept, shaped, left]
    exact sound.good.dequeue own on

theorem Sound.enqueueWrr (sound : Sound cpu other s queue running)
    (own : (s.core.task p).schedClass = .wrr) (home : (s.core.task p).cpu = cpu)
    (out : ∀ c, p ∉ queue c) (flags : UInt32) :
    Sound cpu other { s with core := enqueueTaskWrr s.core cpu p flags }
      (Function.update queue cpu (enqueued flags p (queue cpu))) running := by
  refine sound.relist (kept_enqueueTaskWrr s.core cpu p flags) rfl
    (sound.holds.enqueue flags out home) fun q member => ?_
  rcases (mem_enqueued flags p q cpu).mp member with old | ⟨rfl, _⟩
  · exact sound.wrr q old
  · exact own

theorem Sound.dequeueWrr (sound : Sound cpu other s queue running) {l r : List Pid}
    (split : queue cpu = l ++ p :: r) (flags : UInt32) :
    Sound cpu other { s with core := dequeueTaskWrr cfg.toConfig s.core cpu p flags }
      (Function.update queue cpu (l ++ r)) running := by
  refine sound.relist (kept_dequeueTaskWrr cfg.toConfig s.core cpu p flags) rfl
    (sound.holds.dequeue cfg.toConfig flags split) fun q member => sound.wrr q ?_
  exact ((sound.holds.listed.mem_dequeued split cpu q).mp member).1

/-! ## Picking -/

def fairOf (s : State) (prev : Option Pid) : Option Pid :=
  prev.filter fun p => (s.core.task p).schedClass = .fair

theorem fairOf_fair (own : IsFair s p) : fairOf s (some p) = some p := by
  simpa [fairOf, IsFair] using own

theorem fairOf_other (own : ¬ IsFair s p) : fairOf s (some p) = none := by
  simpa [fairOf, IsFair] using own

theorem Sound.put (sound : Sound cpu other s queue (some p)) :
    Sound cpu other (putPrevEntity cfg cpu s p) queue none := by
  have shaped := shape_putPrevEntity cfg cpu s p
  refine sound.move (sameCore_putPrevEntity cfg cpu s p) (congrArg Shape.hNrRunning shaped) ?_
  rw [shaped]
  exact sound.good.putPrev

theorem Sound.setNext (sound : Sound cpu other s queue none) (own : IsFair s p)
    (on : (s.entity p).onRq = true) : Sound cpu other (setNextEntity cpu s p) queue (some p) := by
  have shaped := shape_setNextEntity cpu s p
  rw [if_pos on] at shaped
  refine sound.move (sameCore_setNextEntity cpu s p) (congrArg Shape.hNrRunning shaped) ?_
  rw [shaped]
  exact sound.good.setNext own on

theorem Sound.putTask {prev : Option Pid}
    (sound : Sound cpu other s queue (fairOf s prev)) :
    Sound cpu other (putPrevTask cfg cpu s prev) queue none ∧
      Kept s.core (putPrevTask cfg cpu s prev).core ∧
      (shape (putPrevTask cfg cpu s prev)).nrRunning = s.cfs.nrRunning := by
  cases prev with
  | none => exact ⟨⟨sound.holds, sound.wrr, { sound.good with }⟩, Kept.refl _, rfl⟩
  | some p =>
    by_cases own : IsFair s p
    · rw [fairOf_fair own] at sound
      have logged : Sound cpu other { s with puts := (.fair, some p) :: s.puts } queue (some p) :=
        ⟨sound.holds, sound.wrr, { sound.good with }⟩
      have shaped := shape_putPrevEntity cfg cpu { s with puts := (.fair, some p) :: s.puts } p
      have core := sameCore_putPrevEntity cfg cpu { s with puts := (.fair, some p) :: s.puts } p
      simp only [IsFair] at own
      simp only [putPrevTask, own, putPrevTaskFair]
      exact ⟨logged.put cfg, core.toKept, congrArg Shape.nrRunning shaped⟩
    · rw [fairOf_other own] at sound
      have logged : Sound cpu other { s with puts := (.wrr, some p) :: s.puts } queue none :=
        ⟨sound.holds, sound.wrr, { sound.good with }⟩
      have core : SameCore s.core (putPrevTaskWrr cfg.toConfig s.core cpu (some p)) :=
        sameCore_of_accounted (accounted_updateCurrWrr cfg.toConfig s.core cpu)
      simp only [IsFair] at own
      cases cls : (s.core.task p).schedClass with
      | fair => exact absurd cls own
      | wrr =>
        simp only [putPrevTask, cls]
        exact ⟨logged.same core rfl, core.toKept, rfl⟩
      | stop | dl | rt | idle =>
        simp only [putPrevTask, cls]
        exact ⟨sound, Kept.refl _, rfl⟩

theorem Sound.pickEntity (sound : Sound cpu other s queue running) (some : s.cfs.nrRunning ≠ 0) :
    ∃ p, pickNextEntity cfg s (running.filter fun c => (s.entity c).onRq) =
        .some (clearBuddies s p, p) ∧ IsFair s p ∧ (s.entity p).onRq = true := by
  have good := sound.good
  have count := good.count
  cases picked : pickNextEntity cfg s (running.filter fun c => (s.entity c).onRq) with
  | none =>
    obtain ⟨empty, none⟩ := pickNextEntity_eq_none.mp picked
    have alone : running.any (shape s).onRq = false := by
      cases running with
      | none => rfl
      | some c => simpa [shape] using none
    rw [alone] at count
    simp only [shape, empty, Multiset.coe_nil, Multiset.card_zero] at count
    exact absurd (UInt32.toNat_inj.mp count) some
  | some result =>
    obtain ⟨t, p⟩ := result
    obtain ⟨rfl, place⟩ := pickNextEntity_some picked
    refine ⟨p, rfl, ?_⟩
    rcases place with inside | current | last | next
    · have listed := (good.listed p).mp inside
      exact ⟨listed.1, listed.2.1⟩
    · obtain ⟨current, on⟩ := Option.filter_eq_some_iff.mp current
      exact ⟨good.own p current, on⟩
    · exact good.buddies p (.inr last)
    · exact good.buddies p (.inl next)

theorem Sound.clear (sound : Sound cpu other s queue running) (p : Pid) :
    Sound cpu other (clearBuddies s p) queue running := by
  refine sound.move (SameCore.refl _) rfl ?_
  rw [shape_clearBuddies]
  exact sound.good.clear p

/-- The result of a pick: the run queue is in order for the task picked, which is of the
fair class and runnable if it is a task of that class. -/
structure Picked (cpu : ℕ) (other : ℕ → UInt32) (s : State) (queue : ℕ → List Pid)
    (result : State × Option Pid) : Prop where
  sound : Sound cpu other result.1 queue result.2
  kept : Kept s.core result.1.core
  runnable : ∀ p, result.2 = some p → (result.1.entity p).onRq = true

theorem Sound.picked_setNext {t : State} (sound : Sound cpu other t queue none)
    (kept : Kept s.core t.core) (own : IsFair t p) (on : (t.entity p).onRq = true) :
    Picked cpu other s queue (setNextEntity cpu t p, some p) := by
  have marked := sameCore_setNextEntity cpu t p
  refine ⟨sound.setNext own on, kept.trans marked.toKept, ?_⟩
  rintro q ⟨⟩
  exact (congrFun (congrArg Shape.onRq (shape_setNextEntity cpu t p)) p).trans on

theorem Sound.pickSimple {prev : Option Pid} (sound : Sound cpu other s queue (fairOf s prev))
    (some : s.cfs.nrRunning ≠ 0) :
    Picked cpu other s queue (pickNextFairSimple cfg cpu s prev) ∧
      (pickNextFairSimple cfg cpu s prev).2 ≠ none := by
  obtain ⟨put, kept, nr⟩ := sound.putTask cfg
  set t := putPrevTask cfg cpu s prev with ht
  have counted : t.cfs.nrRunning ≠ 0 := by
    rw [show t.cfs.nrRunning = s.cfs.nrRunning from nr]
    exact some
  obtain ⟨p, picked, own, on⟩ := put.pickEntity cfg counted
  simp only [Option.filter_none] at picked
  have result : pickNextFairSimple cfg cpu s prev =
      (setNextEntity cpu (clearBuddies t p) p, .some p) := by
    simp only [pickNextFairSimple, ← ht, picked]
  rw [result]
  exact ⟨(put.clear p).picked_setNext kept own on, by simp⟩

theorem sameCore_ite_updateCurr (needed : Bool) (s : State) :
    SameCore s.core (if needed then updateCurr cfg cpu s else s).core := by
  cases needed with
  | true => exact sameCore_updateCurr cfg cpu s
  | false => exact SameCore.refl _

theorem shape_ite_updateCurr (needed : Bool) (s : State) :
    shape (if needed then updateCurr cfg cpu s else s) = shape s := by
  cases needed with
  | true => exact shape_updateCurr cfg cpu s
  | false => rfl

theorem Sound.pickGroup (sound : Sound cpu other s queue (some p)) (some : s.cfs.nrRunning ≠ 0) :
    Picked cpu other s queue (pickNextFairGroup cfg cpu s p) ∧
      (pickNextFairGroup cfg cpu s p).2 ≠ none := by
  have curr : s.cfs.curr = .some p := sound.good.curr
  set running := (Option.some p).filter fun c => (s.entity c).onRq with hrunning
  set t := if running.isSome then updateCurr cfg cpu s else s with ht
  have core : SameCore s.core t.core := sameCore_ite_updateCurr cfg _ s
  have shaped : shape t = shape s := shape_ite_updateCurr cfg _ s
  have entered := sound.same core shaped
  have counted : t.cfs.nrRunning ≠ 0 := by
    rw [show t.cfs.nrRunning = s.cfs.nrRunning from congrArg Shape.nrRunning shaped]
    exact some
  have onRq : ∀ q, (t.entity q).onRq = (s.entity q).onRq := congrFun (congrArg Shape.onRq shaped)
  obtain ⟨q, picked, own, on⟩ := entered.pickEntity cfg counted
  simp only [onRq, ← hrunning] at picked
  have cleared := entered.clear q
  by_cases same : p = q
  · subst same
    have result : pickNextFairGroup cfg cpu s p = (clearBuddies t p, .some p) := by
      simp only [pickNextFairGroup, curr, ← hrunning, ← ht, picked, if_true]
    rw [result]
    refine ⟨⟨cleared, core.toKept, ?_⟩, by simp⟩
    rintro r ⟨⟩
    exact on
  · have result : pickNextFairGroup cfg cpu s p =
        (setNextEntity cpu (putPrevEntity cfg cpu (clearBuddies t q) p) q, .some q) := by
      simp only [pickNextFairGroup, curr, ← hrunning, ← ht, picked, if_neg same]
    set u := putPrevEntity cfg cpu (clearBuddies t q) p with hu
    have put := cleared.put cfg
    have back := sameCore_putPrevEntity cfg cpu (clearBuddies t q) p
    have still : (u.entity q).onRq = true :=
      (congrFun (congrArg Shape.onRq (shape_putPrevEntity cfg cpu (clearBuddies t q) p)) q).trans on
    have fair : IsFair u q := by
      rw [isFair_kept back.toKept]
      exact own
    rw [result]
    exact ⟨put.picked_setNext (core.toKept.trans back.toKept) fair still, by simp⟩

theorem Sound.pickFair {prev : Option Pid} (sound : Sound cpu other s queue (fairOf s prev))
    (some : s.cfs.nrRunning ≠ 0) :
    Picked cpu other s queue (pickNextTaskFair cfg cpu s prev) ∧
      (pickNextTaskFair cfg cpu s prev).2 ≠ none := by
  unfold pickNextTaskFair
  rw [if_neg some]
  cases prev with
  | none => exact sound.pickSimple cfg some
  | some p =>
    dsimp only
    split
    next group =>
      rw [fairOf_fair group.2] at sound
      exact sound.pickGroup cfg some
    next => exact sound.pickSimple cfg some

theorem Sound.pickRest {prev : Option Pid} (sound : Sound cpu other s queue (fairOf s prev)) :
    Picked cpu other s queue ((pickFairOrIdle cfg cpu s prev).1, (pickFairOrIdle cfg cpu s prev).2.2) ∧
      (pickFairOrIdle cfg cpu s prev).2.1 ≠ .wrr ∧
      ∀ p, (pickFairOrIdle cfg cpu s prev).2.2 = some p → IsFair s p := by
  unfold pickFairOrIdle
  by_cases none : s.cfs.nrRunning = 0
  · have idle : pickNextTaskFair cfg cpu s prev = (s, Option.none) := by
      simp [pickNextTaskFair, none]
    obtain ⟨put, kept, _⟩ := sound.putTask cfg
    rw [idle]
    exact ⟨⟨put, kept, by simp⟩, by simp, by simp⟩
  · obtain ⟨picked, found⟩ := sound.pickFair cfg none
    cases result : pickNextTaskFair cfg cpu s prev with
    | mk t next =>
      rw [result] at picked found
      cases next with
      | none => exact absurd rfl found
      | some p =>
        refine ⟨picked, by simp, ?_⟩
        rintro q ⟨⟩
        have own := picked.sound.good.own p rfl
        rwa [isFair_kept picked.kept] at own

theorem Sound.nrRunning_le_one (sound : Sound cpu other s queue running)
    (empty : s.cfs.tasksTimeline = []) : ¬ 1 < s.cfs.nrRunning := by
  have count := sound.good.count
  simp only [shape, empty, Multiset.coe_nil, Multiset.card_zero] at count
  rw [UInt32.lt_iff_toNat_lt, count, UInt32.toNat_one]
  split_ifs <;> omega

/-- A queued task of the round robin class is always picked first, and the only method
called on the previous task is that of the picking class. -/
theorem Sound.pickWrr (sound : Sound cpu other s queue running)
    (some : (s.core.rq cpu).wrr.nrRunning ≠ 0) (prev : Option Pid) :
    ∃ t p, pickNextTask cfg cpu s prev = (t, .wrr, .some p) ∧ p ∈ queue cpu ∧
      Sound cpu other t queue running ∧ Kept s.core t.core ∧ t.puts = (.wrr, prev) :: s.puts := by
  have total := sound.holds.total cpu
  have count := sound.holds.count cpu
  rw [Function.update_self] at total
  have slow : (s.core.rq cpu).nrRunning ≠ s.cfs.hNrRunning := by
    rw [total]
    intro same
    exact some (by grind)
  cases listed : queue cpu with
  | nil =>
    rw [listed] at count
    exact absurd (UInt32.toNat_inj.mp count) some
  | cons p rest =>
    have ring := sound.holds.ring cpu
    rw [listed] at ring
    have picked := pickNextTaskWrr_head cfg.toConfig ring some prev
    have same : SameCore s.core (pickNextTaskWrr cfg.toConfig s.core cpu prev).1 :=
      sameCore_of_accounted (accounted_pickNextTaskWrr _ _ _ _)
    refine ⟨(pickNextWrr cfg cpu s prev).1, p, ?_, by simp, ?_, same.toKept, ?_⟩
    · simp only [pickNextTask, slow, and_false, if_false, pickNextWrr, picked]
    · have logged : Sound cpu other { s with puts := (pickNextWrr cfg cpu s prev).1.puts } queue
          running := ⟨sound.holds, sound.wrr, { sound.good with }⟩
      exact logged.same same rfl
    · simp only [pickNextWrr, if_neg some]

theorem pickNextTask_noWrr (none : (s.core.rq cpu).wrr.nrRunning = 0) (prev : Option Pid) :
    pickNextTask cfg cpu s prev = pickFairOrIdle cfg cpu s prev := by
  have skipped : pickNextWrr cfg cpu s prev = (s, Option.none) := by
    simp [pickNextWrr, pickNextTaskWrr, none]
  unfold pickNextTask
  rw [skipped]
  split <;> rfl

end Sound

end UnixSystems.RunQueueOrder
