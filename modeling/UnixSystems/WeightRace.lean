import UnixSystems.PolicyEffects

/-! `set_wrr_weight` tests the class of its caller before it takes the run queue lock under
which it changes the weight. In between, another CPU may give the caller a new class with
`__sched_setscheduler`. Here both run in any order, any number of times. -/
namespace UnixSystems.WeightRace
open GuardedRuns PolicyModel
open WrrModel hiding State
open WrrConservation hiding Action step Enabled

/-- `pending` are the calls that have passed their tests and wait for the lock. -/
structure State where
  sys : PolicyModel.State
  pending : Pid → Option Int32

/-- The part of `set_wrr_weight` before the lock. -/
def setWrrWeightTest (s : PolicyModel.State) (current : Pid) (weight : Int32) : Int :=
  if weight < 1 then -Errno.einval
  else if s.schedClass current ≠ .wrr then -Errno.eacces
  else 0

inductive Action where
  | test (current : Pid) (weight : Int32)
  | update (current : Pid) (now : UInt64)
  | schedSetscheduler (p : Pid) (attr : Attr) (call : Call) (now : UInt64)

def step (cfg : Config) (K : OtherClasses) (s : State) : Action → State
  | .test current weight =>
    if setWrrWeightTest s.sys current weight = 0 then
      { s with pending := Function.update s.pending current (some weight) }
    else s
  | .update current now =>
    match s.pending current with
    | none => s
    | some weight =>
      { sys := s.sys.modifyCore fun core => setWrrWeightLocked core current weight now
        pending := Function.update s.pending current none }
  | .schedSetscheduler p attr call now =>
    { s with sys := (schedSetscheduler cfg K s.sys p attr call now).1 }

theorem run_test_update (cfg : Config) (K : OtherClasses) (s : State) (current : Pid) (weight : Int32)
    (now : UInt64) (free : s.pending current = none) :
    run (step cfg K) s [.test current weight, .update current now] =
      { s with sys := s.sys.modifyCore fun core => (setWrrWeight core current weight now).1 } := by
  have cleared : Function.update s.pending current none = s.pending := by
    rw [← free, Function.update_eq_self]
  simp only [run_cons, run_nil, step, setWrrWeightTest, setWrrWeight, State.modifyCore]
  by_cases small : weight < 1
  · simp [small, free, Errno.einval]
  · by_cases wrr : (s.sys.core.task current).schedClass = .wrr
    · simp [small, wrr, State.schedClass, cleared]
    · simp [small, wrr, State.schedClass, free, Errno.eacces]

/-- A task that makes the call is running, so it is on a run queue. -/
def Enabled (s : State) : Action → Prop
  | .test current _ => (s.sys.prio current).onRq
  | _ => True

/-! ## Run lists around a change of class -/

/-- The run lists change from `queue` to `new`; right totals stay right. -/
structure Moves (s : WrrModel.State) (queue : ℕ → List Pid) (t : WrrModel.State)
    (new : ℕ → List Pid) : Prop where
  listed : ∃ base, Listed base t new
  weighed : Weighed s queue → Weighed t new
  cpu : ∀ q, (t.task q).cpu = (s.task q).cpu

section Moves

variable {s t u : WrrModel.State} {queue mid new : ℕ → List Pid}

theorem Moves.refl (listed : ∃ base, Listed base s queue) : Moves s queue s queue :=
  ⟨listed, id, fun _ => rfl⟩

theorem Moves.trans (first : Moves s queue t mid) (second : Moves t mid u new) :
    Moves s queue u new :=
  ⟨second.listed, fun weighed => second.weighed (first.weighed weighed),
    fun q => (second.cpu q).trans (first.cpu q)⟩

theorem moves_of_same (listed : ∃ base, Listed base s queue) (same : SameQueues s t) :
    Moves s queue t queue := by
  obtain ⟨base, listed⟩ := listed
  have carries := listed.same same
  exact ⟨⟨base, carries.1⟩, carries.2, same.cpu⟩

theorem moves_of_foreign (listed : ∃ base, Listed base s queue) (foreign : Foreign s t) :
    Moves s queue t queue := by
  obtain ⟨base, listed⟩ := listed
  have cpu : ∀ q, (t.task q).cpu = (s.task q).cpu := fun q => congrArg (·.2.2.1) (foreign.task q)
  have weight : ∀ q, (t.task q).wrr.weight = (s.task q).wrr.weight := fun q =>
    congrArg (·.2.2.2.1) (foreign.task q)
  refine ⟨⟨fun c => (t.rq c).nrRunning - (t.rq c).wrr.nrRunning, ?_, listed.apart, ?_, ?_, ?_⟩, ?_, cpu⟩
  · intro c
    rw [HasQueue, foreign.links]
    exact listed.ring c
  · intro c q member
    rw [cpu]
    exact listed.home c q member
  · intro c
    rw [foreign.wrr]
    exact listed.count c
  · intro c
    rw [UInt32.sub_add_cancel]
  · intro weighed c
    simp only [foreign.wrr, weightOf, weight]
    exact weighed c

end Moves

section Methods

variable {s : PolicyModel.State} {queue : ℕ → List Pid} {p : Pid} (cfg : Config) (K : OtherClasses)

def Still : Method → Prop
  | .enqueueTask _ | .dequeueTask _ => False
  | _ => True

theorem sameQueues_wrrMethod {m : Method} (still : Still m) (core : WrrModel.State) (cpu : ℕ)
    (queued : Bool) : SameQueues core (wrrMethod cfg m core cpu p queued) := by
  cases m with
  | enqueueTask flags => exact still.elim
  | dequeueTask flags => exact still.elim
  | putPrevTask => exact (accounted_updateCurrWrr cfg core cpu).sameQueues
  | setCurrTask => exact (accounted_setCurrTaskWrr core cpu).sameQueues
  | switchedFrom => exact SameQueues.refl core
  | switchedTo =>
    rcases switchedToWrr_eq core cpu p queued with same | same
    · rw [wrrMethod, same]
      exact SameQueues.refl core
    · rw [wrrMethod, same]
      exact sameQueues_modifyRq core cpu _ rfl rfl
  | prioChanged oldprio => exact SameQueues.refl core

theorem moves_callMethod (m : Method) (still : Still m) (schedClass : SchedClass)
    (listed : ∃ base, Listed base s.core queue) :
    Moves s.core queue (callMethod cfg K schedClass m p s).core queue := by
  simp only [callMethod, State.modifyCore]
  split_ifs
  · exact moves_of_same listed (sameQueues_wrrMethod cfg still s.core _ _)
  · exact moves_of_foreign listed (K.foreign schedClass m s.core _ p)

theorem moves_ite_callOwn (needed : Bool) (m : Method) (still : Still m)
    (listed : ∃ base, Listed base s.core queue) :
    Moves s.core queue (if needed then callOwn cfg K m p s else s).core queue := by
  cases needed with
  | true => exact moves_callMethod cfg K m still _ listed
  | false => exact Moves.refl listed

theorem moves_dequeue (flags : UInt32) (listed : ∃ base, Listed base s.core queue)
    (own : s.schedClass p = .wrr → p ∈ queue (s.core.task p).cpu)
    (other : s.schedClass p ≠ .wrr → ∀ c, p ∉ queue c) :
    ∃ new, Moves s.core queue (callOwn cfg K (.dequeueTask flags) p s).core new ∧
      ∀ c q, q ∈ new c ↔ q ∈ queue c ∧ q ≠ p := by
  have same := same_callOwn cfg K (.dequeueTask flags) p s
  simp only [callOwn, callMethod, State.modifyCore] at same ⊢
  split_ifs at same ⊢ with wrr
  · obtain ⟨base, listed⟩ := listed
    obtain ⟨l, r, split⟩ := List.append_of_mem (own wrr)
    have carries := listed.dequeue cfg flags split
    exact ⟨_, ⟨⟨base, carries.1⟩, carries.2, same.cpu⟩, listed.mem_dequeued split⟩
  · refine ⟨queue, moves_of_foreign listed (K.foreign _ _ _ _ _), fun c q => ?_⟩
    exact ⟨fun member => ⟨member, fun same => other wrr c (same ▸ member)⟩, And.left⟩

theorem moves_enqueue (flags : UInt32) (listed : ∃ base, Listed base s.core queue)
    (absent : ∀ c, p ∉ queue c) :
    ∃ new, Moves s.core queue (callOwn cfg K (.enqueueTask flags) p s).core new ∧
      ∀ c q, q ∈ new c ↔ q ∈ queue c ∨ q = p ∧ s.schedClass p = .wrr ∧ (s.core.task p).cpu = c := by
  have same := same_callOwn cfg K (.enqueueTask flags) p s
  simp only [callOwn, callMethod, State.modifyCore] at same ⊢
  split_ifs at same ⊢ with wrr
  · obtain ⟨base, listed⟩ := listed
    have carries := listed.enqueue flags absent rfl
    refine ⟨_, ⟨⟨base, carries.1⟩, carries.2, same.cpu⟩, fun c q => ?_⟩
    rw [mem_enqueued, wrr, eq_self, true_and]
  · refine ⟨queue, moves_of_foreign listed (K.foreign _ _ _ _ _), fun c q => ?_⟩
    simp [wrr]

structure Placed (s : PolicyModel.State) (queue : ℕ → List Pid) : Prop where
  listed : ∃ base, Listed base s.core queue
  members : ∀ c q, q ∈ queue c ↔
    (s.prio q).onRq ∧ s.schedClass q = .wrr ∧ (s.core.task q).cpu = c

theorem moves_takeOff (placed : Placed s queue) (running : Bool) (flags : UInt32) (p : Pid) :
    ∃ new, Moves s.core queue (takeOff cfg K (s.prio p).onRq running flags p s).core new ∧
      ∀ c q, q ∈ new c ↔ q ∈ queue c ∧ q ≠ p := by
  have off : ∃ new, Moves s.core queue
      (if (s.prio p).onRq then callOwn cfg K (.dequeueTask flags) p s else s).core new ∧
      ∀ c q, q ∈ new c ↔ q ∈ queue c ∧ q ≠ p := by
    split_ifs with queued
    · exact moves_dequeue cfg K flags placed.listed
        (fun wrr => (placed.members _ p).mpr ⟨queued, wrr, rfl⟩)
        fun other c member => other ((placed.members c p).mp member).2.1
    · refine ⟨queue, Moves.refl placed.listed, fun c q => ⟨fun member => ⟨member, ?_⟩, And.left⟩⟩
      rintro rfl
      exact queued ((placed.members c q).mp member).1
  obtain ⟨new, moves, members⟩ := off
  exact ⟨new, moves.trans (moves_ite_callOwn cfg K running .putPrevTask trivial moves.listed), members⟩

theorem moves_putBack (listed : ∃ base, Listed base s.core queue) (absent : ∀ c, p ∉ queue c)
    (queued running : Bool) (flags : UInt32) :
    ∃ new, Moves s.core queue (putBack cfg K queued running flags p s).core new ∧
      ∀ c q, q ∈ new c ↔
        q ∈ queue c ∨ q = p ∧ queued ∧ s.schedClass p = .wrr ∧ (s.core.task p).cpu = c := by
  have back : ∃ new, Moves s.core queue
      (if queued then callOwn cfg K (.enqueueTask flags) p s else s).core new ∧
      ∀ c q, q ∈ new c ↔
        q ∈ queue c ∨ q = p ∧ queued ∧ s.schedClass p = .wrr ∧ (s.core.task p).cpu = c := by
    split_ifs with on
    · simpa only [on, true_and] using moves_enqueue cfg K flags listed absent
    · exact ⟨queue, Moves.refl listed, fun c q => by simp [on]⟩
  obtain ⟨new, moves, members⟩ := back
  exact ⟨new, moves.trans (moves_ite_callOwn cfg K running .setCurrTask trivial moves.listed), members⟩

theorem moves_checkClassChanged (listed : ∃ base, Listed base s.core queue) (prevClass : SchedClass)
    (oldprio : Int) :
    Moves s.core queue (checkClassChanged cfg K s p prevClass oldprio).core queue := by
  unfold checkClassChanged
  split_ifs
  · have left := moves_callMethod (p := p) cfg K .switchedFrom trivial prevClass listed
    exact left.trans (moves_callMethod cfg K .switchedTo trivial _ left.listed)
  · exact moves_callMethod cfg K (.prioChanged oldprio) trivial _ listed
  · exact Moves.refl listed

theorem placed_requeueAround (placed : Placed s queue) (flags : UInt32)
    {change : PolicyModel.State → PolicyModel.State} (flags' : PolicyModel.State → UInt32)
    (quietly : ∀ u, SameQueues u.core (change u).core) {policy : Policy} {schedClass : SchedClass}
    {a : Prio} (assigned : ∀ u, Same s u → Assigned u (change u) p policy schedClass a)
    (on : a.onRq = (s.prio p).onRq) :
    ∃ new, Placed (requeueAround cfg K s p flags change flags') new ∧
      (Weighed s.core queue → Weighed (requeueAround cfg K s p flags change flags').core new) := by
  have whole := requeueAround_assigned cfg K flags flags' assigned
  set running := decide ((s.core.rq (s.core.task p).cpu).curr = some p) with hrunning
  obtain ⟨mid, off, without⟩ := moves_takeOff cfg K placed running flags p
  have own := assigned _ (same_takeOff cfg K (s.prio p).onRq running flags p s)
  set changed := change (takeOff cfg K (s.prio p).onRq running flags p s) with hchanged
  -- while its class changes the task is on no wrr list
  have between := off.trans (moves_of_same off.listed (quietly _))
  have absent : ∀ c, p ∉ mid c := fun c member => ((without c p).mp member).2 rfl
  obtain ⟨new, back, within⟩ := moves_putBack cfg K between.listed absent (s.prio p).onRq running
    (flags' changed)
  have moves := between.trans (back.trans (moves_checkClassChanged (p := p) cfg K back.listed
    (s.schedClass p) (s.prio p).prio))
  have cpu : ∀ q, ((requeueAround cfg K s p flags change flags').core.task q).cpu =
      (s.core.task q).cpu := moves.cpu
  refine ⟨new, ⟨moves.listed, fun c q => ?_⟩, moves.weighed⟩
  rw [within, without, own.schedClass, between.cpu, cpu]
  by_cases same : q = p
  · subst same
    rw [whole.prio, whole.schedClass, on]
    simp
  · obtain ⟨-, kept, prio⟩ := whole.others q same
    rw [kept, prio, placed.members]
    simp [same]

end Methods

/-! ## Changing the class -/

section Change

variable {s : PolicyModel.State} {queue : ℕ → List Pid} {p : Pid}

theorem sameQueues_setscheduler (s : PolicyModel.State) (p : Pid) (attr : Attr) (keepBoost : Bool) :
    SameQueues s.core (setscheduler s p attr keepBoost).core := by
  have stored := sameQueues_modifyTask s.core p (fun t => { t with policy := newPolicy s p attr })
    rfl rfl
  unfold setscheduler State.setSchedClass
  exact stored.trans (sameQueues_modifyTask _ p (fun t => { t with schedClass := _ }) rfl rfl)

theorem Placed.same {t : PolicyModel.State} (placed : Placed s queue) (same : SameQueues s.core t.core)
    (on : ∀ q, (t.prio q).onRq = (s.prio q).onRq) (kept : ∀ q, t.schedClass q = s.schedClass q) :
    Placed t queue ∧ (Weighed s.core queue → Weighed t.core queue) := by
  have moves := moves_of_same placed.listed same
  refine ⟨⟨moves.listed, fun c q => ?_⟩, moves.weighed⟩
  rw [on, kept, same.cpu]
  exact placed.members c q

theorem placed_reset (placed : Placed s queue) (p : Pid) (reset : Bool) :
    Placed (s.modifyPrio p fun a => { a with schedResetOnFork := reset }) queue := by
  have stored := assigned_modifyPrio s p fun a => { a with schedResetOnFork := reset }
  exact (placed.same (t := s.modifyPrio p _) (SameQueues.refl s.core) (stored.prio_eq Prio.onRq rfl)
    fun _ => rfl).1

theorem placed_changeScheduler (cfg : Config) (K : OtherClasses) (placed : Placed s queue) (p : Pid)
    (attr : Attr) (pi reset : Bool) :
    ∃ new, Placed (changeScheduler cfg K s p attr pi reset) new ∧
      (Weighed s.core queue → Weighed (changeScheduler cfg K s p attr pi reset).core new) := by
  unfold changeScheduler
  exact placed_requeueAround cfg K (placed_reset placed p reset) _ _
    (fun u => sameQueues_setscheduler u p attr pi)
    (fun u same => setscheduler_assigned_of_same same p attr pi) (newParams_frame _ attr _).2.2

theorem placed_schedSetscheduler (cfg : Config) (K : OtherClasses) (placed : Placed s queue) (p : Pid)
    (attr : Attr) (call : Call) (now : UInt64) :
    ∃ new, Placed (schedSetscheduler cfg K s p attr call now).1 new ∧
      (Weighed s.core queue → Weighed (schedSetscheduler cfg K s p attr call now).1.core new) := by
  have ticked : SameQueues s.core (locked s p now).core :=
    sameQueues_modifyRq s.core (s.core.task p).cpu (fun rq => { rq with clockTask := now }) rfl rfl
  have clock := placed.same ticked (fun _ => rfl) fun _ => rfl
  rcases schedSetscheduler_cases cfg K s p attr call now with
    ⟨policy, reset, -, changes⟩ | ⟨-, same | same | ⟨reset, stored⟩⟩
  · obtain ⟨new, after, weighed⟩ := placed_changeScheduler cfg K clock.1 p attr call.pi reset
    rw [changes]
    exact ⟨new, after, fun before => weighed (clock.2 before)⟩
  · rw [same]
    exact ⟨queue, placed, id⟩
  · rw [same]
    exact ⟨queue, clock⟩
  · rw [stored]
    exact ⟨queue, placed_reset clock.1 p reset, clock.2⟩

theorem onRq_schedSetscheduler (cfg : Config) (K : OtherClasses) (s : PolicyModel.State) (p q : Pid)
    (attr : Attr) (call : Call) (now : UInt64) :
    ((schedSetscheduler cfg K s p attr call now).1.prio q).onRq = (s.prio q).onRq := by
  rcases schedSetscheduler_assigned cfg K s p attr call now with
    ⟨policy, reset, -, assigned⟩ | ⟨-, reset, assigned⟩
  · exact assigned.prio_eq Prio.onRq (newParams_frame _ attr _).2.2 q
  · exact assigned.prio_eq Prio.onRq rfl q

end Change

/-! ## Runs -/

def WeightLaw (s : State) : Prop :=
  ∀ cpu queue, HasQueue s.sys.core cpu queue →
    (s.sys.core.rq cpu).wrr.totalWeight.toNat = weightOf s.sys.core queue % 2 ^ 32

/-- The run lists hold the wrr tasks, and whoever waits for the lock is running. -/
def Orderly (s : State) : Prop :=
  (∃ queue, Placed s.sys queue) ∧ ∀ p, s.pending p ≠ none → (s.sys.prio p).onRq

/-- When the lock is granted, the caller is still of the wrr class, or its weight does not
change. -/
def StillWrr (s : State) : Action → Prop
  | .update current _ => ∀ weight ∈ s.pending current,
    s.sys.schedClass current = .wrr ∨ weight.toUInt32 = (s.sys.core.task current).wrr.weight
  | _ => True

section Runs

variable {s : State} {queue : ℕ → List Pid}

theorem weightLaw_iff (placed : Placed s.sys queue) : WeightLaw s ↔ Weighed s.sys.core queue := by
  obtain ⟨base, listed⟩ := placed.listed
  constructor
  · exact fun law cpu => law cpu (queue cpu) (listed.ring cpu)
  · intro weighed cpu other ring
    rw [← (listed.ring cpu).unique ring]
    exact weighed cpu

theorem step_update_of_none (cfg : Config) (K : OtherClasses) {current : Pid} (now : UInt64)
    (idle : s.pending current = none) : step cfg K s (.update current now) = s := by
  simp [step, idle]

theorem step_update_of_some (cfg : Config) (K : OtherClasses) {current : Pid} (now : UInt64)
    {weight : Int32} (waits : s.pending current = some weight) :
    step cfg K s (.update current now) =
      { sys := s.sys.modifyCore fun core => setWrrWeightLocked core current weight now
        pending := Function.update s.pending current none } := by
  simp [step, waits]

theorem placed_setWrrWeightLocked {s : PolicyModel.State} (placed : Placed s queue) (p : Pid)
    (weight : Int32) (now : UInt64) :
    Placed (s.modifyCore fun core => setWrrWeightLocked core p weight now) queue := by
  have change := reweighed_setWrrWeightLocked s.core p weight now
  obtain ⟨base, listed⟩ := placed.listed
  refine ⟨⟨base, listed.reweigh change⟩, fun c q => ?_⟩
  have kept : (s.modifyCore fun core => setWrrWeightLocked core p weight now).schedClass q =
      s.schedClass q := by
    by_cases own : q = p <;> simp [State.schedClass, State.modifyCore, setWrrWeightLocked,
      updateRqClock, WrrModel.State.modifyTask, WrrModel.State.modifyRq, own]
  rw [kept]
  simp only [State.modifyCore, change.cpu]
  exact placed.members c q

theorem orderly_step (cfg : Config) (K : OtherClasses) (s : State) (a : Action)
    (enabled : Enabled s a) (orderly : Orderly s) : Orderly (step cfg K s a) := by
  obtain ⟨⟨queue, placed⟩, running⟩ := orderly
  cases a with
  | test current weight =>
    unfold step
    dsimp only
    split_ifs
    · refine ⟨⟨queue, placed⟩, fun p waits => ?_⟩
      by_cases own : p = current
      · rw [own]
        exact enabled
      · simp only [Function.update_of_ne own] at waits
        exact running p waits
    · exact ⟨⟨queue, placed⟩, running⟩
  | update current now =>
    cases waits : s.pending current with
    | none =>
      rw [step_update_of_none cfg K now waits]
      exact ⟨⟨queue, placed⟩, running⟩
    | some weight =>
      rw [step_update_of_some cfg K now waits]
      refine ⟨⟨queue, placed_setWrrWeightLocked placed current weight now⟩, fun p still => ?_⟩
      by_cases own : p = current
      · simp [own] at still
      · simp only [Function.update_of_ne own] at still
        exact running p still
  | schedSetscheduler p attr call now =>
    obtain ⟨new, after, -⟩ := placed_schedSetscheduler cfg K placed p attr call now
    refine ⟨⟨new, after⟩, fun q waits => ?_⟩
    rw [step, onRq_schedSetscheduler]
    exact running q waits

/-- A task that is on no run list changes its weight: the totals stay right only if the
weight does not change at all. -/
theorem weighed_reweigh_iff {s t : WrrModel.State} {p : Pid} {weight : UInt32}
    (weighed : Weighed s queue) (change : Reweighed s t p weight) (absent : ∀ c, p ∉ queue c) :
    Weighed t queue ↔ weight = (s.task p).wrr.weight := by
  have sums : ∀ c, weightOf t (queue c) = weightOf s (queue c) := fun c =>
    weightOf_other (absent c) change.others
  have total : Weighed t queue ↔
      (s.rq (s.task p).cpu).wrr.totalWeight - (s.task p).wrr.weight + weight =
        (s.rq (s.task p).cpu).wrr.totalWeight := by
    constructor
    · intro after
      have own := after (s.task p).cpu
      rw [change.changed, sums, ← weighed] at own
      exact UInt32.toNat_inj.mp own
    · intro same c
      rw [sums, ← weighed c]
      by_cases here : c = (s.task p).cpu
      · rw [here, change.changed, same]
      · rw [change.kept c here]
  rw [total]
  -- in the group of 32 bit words
  constructor
  · intro same
    grind
  · rintro rfl
    exact UInt32.sub_add_cancel _ _

theorem weightLaw_update_iff (cfg : Config) (K : OtherClasses) (s : State) (current : Pid)
    (now : UInt64) (orderly : Orderly s) (law : WeightLaw s) :
    WeightLaw (step cfg K s (.update current now)) ↔ StillWrr s (.update current now) := by
  obtain ⟨⟨queue, placed⟩, running⟩ := orderly
  cases waits : s.pending current with
  | none =>
    rw [step_update_of_none cfg K now waits]
    exact iff_of_true law fun weight pending => by simp [waits] at pending
  | some weight =>
    have weighed := (weightLaw_iff placed).mp law
    have change := reweighed_setWrrWeightLocked s.sys.core current weight now
    have queued : (s.sys.prio current).onRq := running current (by simp [waits])
    obtain ⟨base, listed⟩ := placed.listed
    have cond : StillWrr s (.update current now) ↔ s.sys.schedClass current = .wrr ∨
        weight.toUInt32 = (s.sys.core.task current).wrr.weight := by
      simp [StillWrr, waits]
    rw [step_update_of_some cfg K now waits, cond,
      weightLaw_iff (placed_setWrrWeightLocked placed current weight now)]
    -- the caller is running, so it is on its run list just when it is of the class
    by_cases wrr : s.sys.schedClass current = .wrr
    · have listedHere := (placed.members _ current).mpr ⟨queued, wrr, rfl⟩
      exact iff_of_true (weighed.reweigh listed change listedHere) (.inl wrr)
    · have absent : ∀ c, current ∉ queue c := fun c member =>
        wrr ((placed.members c current).mp member).2.1
      rw [or_iff_right wrr]
      exact weighed_reweigh_iff weighed change absent

theorem weightLaw_step_iff (cfg : Config) (K : OtherClasses) (s : State) (a : Action)
    (orderly : Orderly s) (law : WeightLaw s) : WeightLaw (step cfg K s a) ↔ StillWrr s a := by
  cases a with
  | test current weight =>
    refine iff_of_true ?_ trivial
    unfold step
    dsimp only
    split_ifs <;> exact law
  | update current now => exact weightLaw_update_iff cfg K s current now orderly law
  | schedSetscheduler p attr call now =>
    obtain ⟨⟨queue, placed⟩, -⟩ := orderly
    obtain ⟨new, after, weighed⟩ := placed_schedSetscheduler cfg K placed p attr call now
    have start := (weightLaw_iff placed).mp law
    exact iff_of_true
      ((weightLaw_iff (s := step cfg K s (.schedSetscheduler p attr call now)) after).mpr
        (weighed start)) trivial

end Runs

theorem weightLaw_iff_stillWrr (cfg : Config) (K : OtherClasses) (s : State) (orderly : Orderly s)
    (law : WeightLaw s) (acts : List Action) (h : Along (step cfg K) Enabled s acts) :
    Always (step cfg K) WeightLaw s acts ↔ Along (step cfg K) StillWrr s acts :=
  always_iff_along Orderly WeightLaw (fun s a => orderly_step cfg K s a)
    (fun s a _ => weightLaw_step_iff cfg K s a) orderly law h

def running : State where
  sys :=
    { core := enqueueTaskWrr quiet 0 (.nth 0) 1
      prio := fun p => ⟨120, 120, 120, 0, false, none, p = .nth 0, true⟩ }
  pending := fun _ => none

theorem orderly_running : Orderly running ∧ WeightLaw running := by
  have holds : Holds _ (enqueueTaskWrr quiet 0 (.nth 0) 1) _ :=
    (holds_init quiet initWrrRq_quiet).enqueue 1 (by simp) rfl
  have same := fun q => unaccounted_enqueueTaskWrr quiet 0 (.nth 0) q 1
  have placed : Placed running.sys (Function.update (fun _ => []) 0 (enqueued 1 (.nth 0) [])) := by
    refine ⟨⟨_, holds.listed⟩, fun c q => ?_⟩
    have wrr : running.sys.schedClass q = .wrr := congrArg (·.2.1) (same q)
    have cpu : (running.sys.core.task q).cpu = 0 := congrArg (·.2.2.1) (same q)
    rw [wrr, cpu, mem_enqueued 1 (.nth 0) q c]
    simp [running]
  refine ⟨⟨⟨_, placed⟩, fun p waits => absurd rfl waits⟩, (weightLaw_iff placed).mpr ?_⟩
  exact (holds_iff.mp holds).2

theorem weightLaw_iff_stillWrr_alone :
    Orderly running ∧ WeightLaw running ∧
      Along (step ⟨10, 1000, true, true⟩ idleClasses) Enabled running
        [.test (.nth 0) 7, .update (.nth 0) 3] ∧
      Always (step ⟨10, 1000, true, true⟩ idleClasses) WeightLaw running
        [.test (.nth 0) 7, .update (.nth 0) 3] := by
  obtain ⟨orderly, law⟩ := orderly_running
  have enabled : Along (step ⟨10, 1000, true, true⟩ idleClasses) Enabled running
      [.test (.nth 0) 7, .update (.nth 0) 3] := ⟨rfl, trivial, trivial⟩
  refine ⟨orderly, law, enabled, (weightLaw_iff_stillWrr _ _ _ orderly law _ enabled).mpr ?_⟩
  exact ⟨trivial, fun _ _ => .inl (by decide), trivial⟩

/-- Between the test and the update the task is made a real-time task: its run list is empty
then, and the total of CPU 0 is not. -/
theorem lost_race :
    Orderly running ∧ WeightLaw running ∧
      Along (step ⟨10, 1000, true, true⟩ idleClasses) Enabled running
        [.test (.nth 0) 7, .schedSetscheduler (.nth 0) (plainAttr .fifo 10) privileged 2,
          .update (.nth 0) 3] ∧
      ¬ Always (step ⟨10, 1000, true, true⟩ idleClasses) WeightLaw running
        [.test (.nth 0) 7, .schedSetscheduler (.nth 0) (plainAttr .fifo 10) privileged 2,
          .update (.nth 0) 3] := by
  obtain ⟨orderly, law⟩ := orderly_running
  refine ⟨orderly, law, ⟨rfl, trivial, trivial, trivial⟩, fun always => ?_⟩
  have tested := orderly_step ⟨10, 1000, true, true⟩ idleClasses running (.test (.nth 0) 7) rfl orderly
  have changed := orderly_step ⟨10, 1000, true, true⟩ idleClasses _
    (.schedSetscheduler (.nth 0) (plainAttr .fifo 10) privileged 2) trivial tested
  have before := always [.test (.nth 0) 7,
    .schedSetscheduler (.nth 0) (plainAttr .fifo 10) privileged 2] ⟨[.update (.nth 0) 3], rfl⟩
  have after := always _ (List.prefix_refl _)
  have still := (weightLaw_step_iff ⟨10, 1000, true, true⟩ idleClasses _ (.update (.nth 0) 3) changed
    before).mp after 7 (by decide)
  revert still
  decide

end UnixSystems.WeightRace
