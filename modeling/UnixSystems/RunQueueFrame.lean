import UnixSystems.FairQueue
import UnixSystems.WrrFrame

/-! What the operations of both classes leave alone on a run queue: the classes of the
tasks and which task is current and, for those of the fair class that only account time
or move entities, the run lists and their counters too. -/
namespace UnixSystems.RunQueueFrame
open WrrModel hiding State Config
open WrrConservation hiding Action step Enabled
open FairModel CoreModel WrrFrame

structure Kept (a b : WrrModel.State) : Prop where
  schedClass : ∀ p, (b.task p).schedClass = (a.task p).schedClass
  curr : ∀ c, (b.rq c).curr = (a.rq c).curr

theorem Kept.refl (a : WrrModel.State) : Kept a a := ⟨fun _ => rfl, fun _ => rfl⟩

theorem Kept.trans {a b c : WrrModel.State} (first : Kept a b) (second : Kept b c) : Kept a c :=
  ⟨fun p => (second.schedClass p).trans (first.schedClass p),
    fun cpu => (second.curr cpu).trans (first.curr cpu)⟩

theorem kept_modifyRq (a : WrrModel.State) (cpu : ℕ) (f : Rq → Rq)
    (same : (f (a.rq cpu)).curr = (a.rq cpu).curr) : Kept a (a.modifyRq cpu f) := by
  refine ⟨fun _ => rfl, fun c => ?_⟩
  by_cases here : c = cpu <;> simp [WrrModel.State.modifyRq, here, same]

theorem kept_of_accounted {a b : WrrModel.State} (same : Accounted a b) : Kept a b :=
  ⟨fun p => congrArg (·.2.1) (same.task p), fun c => congrArg (fun rq => (rq c).curr) same.rq⟩

theorem kept_subNrRunning (a : WrrModel.State) (cpu : ℕ) (count : UInt32) :
    Kept a (subNrRunning a cpu count) :=
  kept_modifyRq a cpu _ rfl

def classes : View SchedClass (Option Pid) := ⟨(·.schedClass), (·.curr)⟩

theorem classes_blind : Blind classes :=
  ⟨fun _ _ => rfl, fun _ _ => rfl, fun _ _ _ => rfl, fun _ _ => rfl⟩

theorem kept_of_sameView {a b : WrrModel.State} (same : SameView classes a b) : Kept a b :=
  ⟨same.task, same.rq⟩

theorem kept_addNrRunning (a : WrrModel.State) (cpu : ℕ) (count : UInt32) :
    Kept a (addNrRunning a cpu count) :=
  kept_of_sameView ((SameView.refl classes a).addNrRunning classes_blind cpu count)

theorem kept_enqueueTaskWrr (a : WrrModel.State) (cpu : ℕ) (p : Pid) (flags : UInt32) :
    Kept a (enqueueTaskWrr a cpu p flags) :=
  kept_of_sameView (sameView_enqueueTaskWrr classes_blind a cpu p flags)

theorem kept_dequeueTaskWrr (cfg : WrrModel.Config) (a : WrrModel.State) (cpu : ℕ) (p : Pid)
    (flags : UInt32) : Kept a (dequeueTaskWrr cfg a cpu p flags) := by
  by_cases idle : (a.rq cpu).wrr.nrRunning = 0
  · rw [dequeueTaskWrr, if_pos idle]
    exact Kept.refl a
  · exact (kept_of_accounted (accounted_updateCurrWrr cfg a cpu)).trans
      (kept_of_sameView (sameView_dequeueTaskWrr classes_blind cfg a cpu p flags idle))

theorem kept_taskTickWrr (cfg : WrrModel.Config) (a : WrrModel.State) (cpu : ℕ) (p : Pid) :
    Kept a (taskTickWrr cfg a cpu p) :=
  (kept_of_accounted (accounted_updateCurrWrr cfg a cpu)).trans
    (kept_of_sameView (sameView_taskTickWrr classes_blind cfg a cpu p))

theorem kept_yieldTaskWrr (a : WrrModel.State) (cpu : ℕ) : Kept a (yieldTaskWrr a cpu) := by
  unfold yieldTaskWrr
  cases (a.rq cpu).curr <;> exact ⟨fun _ => rfl, fun _ => rfl⟩

structure SameCore (a b : WrrModel.State) : Prop extends SameQueues a b, Kept a b

theorem SameCore.refl (a : WrrModel.State) : SameCore a a := ⟨SameQueues.refl a, Kept.refl a⟩

theorem sameCore_of_accounted {a b : WrrModel.State} (same : Accounted a b) : SameCore a b :=
  ⟨same.sameQueues, kept_of_accounted same⟩

theorem sameCore_modifyRq (a : WrrModel.State) (cpu : ℕ) (f : Rq → Rq)
    (wrr : (f (a.rq cpu)).wrr = (a.rq cpu).wrr)
    (total : (f (a.rq cpu)).nrRunning = (a.rq cpu).nrRunning)
    (curr : (f (a.rq cpu)).curr = (a.rq cpu).curr) : SameCore a (a.modifyRq cpu f) :=
  ⟨sameQueues_modifyRq a cpu f wrr total, kept_modifyRq a cpu f curr⟩

theorem updateMinVruntime_core (s : State) : (updateMinVruntime s).core = s.core := rfl

theorem modifyEntity_core (s : State) (p : Pid) (f : Entity → Entity) :
    (s.modifyEntity p f).core = s.core := rfl

theorem sameCore_updateCurr (cfg : Config) (cpu : ℕ) (s : State) :
    SameCore s.core (updateCurr cfg cpu s).core := by
  unfold updateCurr
  cases s.cfs.curr with
  | none => exact SameCore.refl _
  | some curr =>
    dsimp only
    split
    · exact SameCore.refl _
    · rw [updateMinVruntime_core, modifyEntity_core]
      dsimp only
      exact sameCore_of_accounted (accounted_modifyTask _ curr _ rfl)

theorem sameCore_enqueueEntity (cfg : Config) (cpu : ℕ) (s : State) (se : Pid) (flags : UInt32) :
    SameCore s.core (enqueueEntity cfg cpu s se flags).core := by
  have plain := sameCore_updateCurr cfg cpu s
  have renormalised := sameCore_updateCurr cfg cpu
    (s.modifyEntity se fun e => { e with vruntime := e.vruntime + s.cfs.minVruntime })
  unfold enqueueEntity
  dsimp only
  split_ifs <;> first | exact plain | exact renormalised

theorem sameCore_dequeueEntity (cfg : Config) (cpu : ℕ) (s : State) (se : Pid) (flags : UInt32) :
    SameCore s.core (dequeueEntity cfg cpu s se flags).core := by
  unfold dequeueEntity
  dsimp only
  split_ifs <;> exact sameCore_updateCurr cfg cpu s

theorem sameCore_putPrevEntity (cfg : Config) (cpu : ℕ) (s : State) (prev : Pid) :
    SameCore s.core (putPrevEntity cfg cpu s prev).core := by
  unfold putPrevEntity
  dsimp only
  split_ifs <;> first | exact sameCore_updateCurr cfg cpu s | exact SameCore.refl _

theorem sameCore_setNextEntity (cpu : ℕ) (s : State) (se : Pid) :
    SameCore s.core (setNextEntity cpu s se).core := by
  have marked : ∀ start, SameCore s.core
      (s.core.modifyTask se fun t => { t with se := { t.se with execStart := start } }) := fun start =>
    sameCore_of_accounted (accounted_modifyTask _ se _ rfl)
  unfold setNextEntity
  dsimp only
  split_ifs <;> exact marked _

end UnixSystems.RunQueueFrame
