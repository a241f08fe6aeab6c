import UnixSystems.WrrModel

/-! What the methods of the class leave alone, for any view of the tasks and run queues that
does not see what they are there to change: the wrr entities, the counters, and the request to
reschedule. -/
namespace UnixSystems.WrrFrame
open CircularList WrrModel

structure View (α β : Type*) where
  task : Task → α
  rq : Rq → β

structure Blind {α β : Type*} (v : View α β) : Prop where
  wrr : ∀ t wrr, v.task { t with wrr := wrr } = v.task t
  schedExp : ∀ t time, v.task { t with schedExp := time } = v.task t
  counters : ∀ rq wrr count, v.rq { rq with wrr := wrr, nrRunning := count } = v.rq rq
  needResched : ∀ rq flag, v.rq { rq with needResched := flag } = v.rq rq

structure SameView {α β : Type*} (v : View α β) (s t : State) : Prop where
  task : ∀ p, v.task (t.task p) = v.task (s.task p)
  rq : ∀ c, v.rq (t.rq c) = v.rq (s.rq c)

section Frames

variable {α β : Type*} {v : View α β} {s t u : State}

theorem SameView.refl (v : View α β) (s : State) : SameView v s s := ⟨fun _ => rfl, fun _ => rfl⟩

theorem SameView.modifyTask (same : SameView v s t) (p : Pid) (f : Task → Task)
    (unseen : v.task (f (t.task p)) = v.task (t.task p)) : SameView v s (t.modifyTask p f) := by
  refine ⟨fun q => ?_, same.rq⟩
  by_cases here : q = p
  · subst here
    simpa [State.modifyTask, unseen] using same.task q
  · simpa [State.modifyTask, here] using same.task q

theorem SameView.modifyRq (same : SameView v s t) (cpu : ℕ) (f : Rq → Rq)
    (unseen : v.rq (f (t.rq cpu)) = v.rq (t.rq cpu)) : SameView v s (t.modifyRq cpu f) := by
  refine ⟨same.task, fun c => ?_⟩
  by_cases here : c = cpu
  · subst here
    simpa [State.modifyRq, unseen] using same.rq c
  · simpa [State.modifyRq, here] using same.rq c

theorem SameView.links (same : SameView v s t) (links : Links Node) :
    SameView v s { t with links := links } :=
  ⟨same.task, same.rq⟩

theorem SameView.addNrRunning (same : SameView v s t) (blind : Blind v) (cpu : ℕ) (count : UInt32) :
    SameView v s (addNrRunning t cpu count) := by
  have counted := same.modifyRq cpu
    (fun rq => { rq with nrRunning := (t.rq cpu).nrRunning + count }) (blind.counters _ _ _)
  unfold WrrModel.addNrRunning
  dsimp only
  split_ifs
  · exact ⟨counted.task, counted.rq⟩
  · exact counted

theorem sameView_enqueueTaskWrr (blind : Blind v) (s : State) (cpu : ℕ) (p : Pid) (flags : UInt32) :
    SameView v s (enqueueTaskWrr s cpu p flags) := by
  have woken : SameView v s (if flags &&& enqueueWakeup ≠ 0 then
      s.modifyTask p (fun t => { t with wrr := { t.wrr with timeout := 0 } }) else s) := by
    split_ifs
    · exact (SameView.refl v s).modifyTask p _ (blind.wrr _ _)
    · exact SameView.refl v s
  unfold enqueueTaskWrr
  refine SameView.addNrRunning ?_ blind cpu 1
  exact (woken.links _).modifyRq cpu _ (blind.counters _ _ _)

theorem sameView_dequeueTaskWrr (blind : Blind v) (cfg : Config) (s : State) (cpu : ℕ) (p : Pid)
    (flags : UInt32) (busy : (s.rq cpu).wrr.nrRunning ≠ 0) :
    SameView v (updateCurrWrr cfg s cpu) (dequeueTaskWrr cfg s cpu p flags) := by
  rw [dequeueTaskWrr, if_neg busy]
  have unlinked := (SameView.refl v (updateCurrWrr cfg s cpu)).links
    ((updateCurrWrr cfg s cpu).links.listDelInit (.entity p))
  refine SameView.modifyRq ?_ cpu _ (blind.counters _ _ _)
  exact unlinked.modifyRq cpu _ (blind.counters _ _ _)

theorem sameView_watchdog (blind : Blind v) (cfg : Config) (s : State) (p : Pid) :
    SameView v s (watchdog cfg s p) := by
  have same := SameView.refl v s
  unfold watchdog
  dsimp only
  split_ifs
  · exact (same.modifyTask p _ (blind.wrr _ _)).modifyTask p _ (blind.schedExp _ _)
  · exact same.modifyTask p _ (blind.wrr _ _)
  · exact same
  · exact same

theorem SameView.requeueTaskWrr (same : SameView v s t) (cpu : ℕ) (p : Pid) (head : Bool) :
    SameView v s (requeueTaskWrr t cpu p head) :=
  same.links _

theorem SameView.sliceExpired (same : SameView v s t) (blind : Blind v) (cfg : Config) (cpu : ℕ)
    (p : Pid) : SameView v s (sliceExpired cfg t cpu p) := by
  have refilled := same.modifyTask p (fun t =>
    { t with wrr := { t.wrr with timeSlice := t.wrr.weight * cfg.timeslice } }) (blind.wrr _ _)
  unfold WrrModel.sliceExpired
  dsimp only
  split_ifs
  · exact (refilled.requeueTaskWrr cpu p false).modifyRq cpu _ (blind.needResched _ _)
  · exact refilled

theorem sameView_taskTickWrr (blind : Blind v) (cfg : Config) (s : State) (cpu : ℕ) (p : Pid) :
    SameView v (updateCurrWrr cfg s cpu) (taskTickWrr cfg s cpu p) := by
  have watched := sameView_watchdog blind cfg (updateCurrWrr cfg s cpu) p
  have shortened := watched.modifyTask p (fun t =>
    { t with wrr := { t.wrr with timeSlice := t.wrr.timeSlice - 1 } }) (blind.wrr _ _)
  unfold taskTickWrr
  dsimp only
  split_ifs
  · exact watched
  · exact shortened
  · exact shortened.sliceExpired blind cfg cpu p

end Frames

end UnixSystems.WrrFrame
