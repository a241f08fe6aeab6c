import UnixSystems.CoreModel
import UnixSystems.WrrConservation

/-! `pick_next_task` of core.c over the whole list of classes: its short cut for run
queues with nothing but fair tasks, and the loop that the short cut replaces. The code of
the stop, deadline, real-time, fair and idle classes is a parameter; the wrr class between
them is that of wrr.c. -/
namespace UnixSystems.PickNextTask
open GuardedRuns
open WrrModel hiding State
open WrrConservation hiding Action step Enabled

variable {Rest : Type*}

/-- `rest` is what the other classes keep. -/
structure State (Rest : Type*) where
  core : WrrModel.State
  rest : Rest

inductive Picked where
  | null
  | retryTask
  | task (p : Option Pid)
deriving DecidableEq

abbrev Pick (Rest : Type*) := State Rest → Option Pid → State Rest × Picked

/-- The classes around wrr. `queued` are the tasks that the stop, deadline, real-time and
fair classes have on a CPU; the idle class always has a task to run. -/
structure Classes (Rest : Type*) where
  queued : Rest → ℕ → List Pid
  stopNrRunning : Rest → ℕ → ℕ
  dlNrRunning : Rest → ℕ → ℕ
  rtNrRunning : Rest → ℕ → ℕ
  hNrRunning : Rest → ℕ → UInt32
  pickNextTaskStop : ℕ → Pick Rest
  pickNextTaskDl : ℕ → Pick Rest
  pickNextTaskRt : ℕ → Pick Rest
  pickNextTaskFair : ℕ → Pick Rest
  pickNextTaskIdle : ℕ → State Rest → Option Pid → State Rest

def classOf (s : State Rest) : Option Pid → SchedClass
  | none => .idle
  | some p => (s.core.task p).schedClass

def pickWrr (cfg : Config) (cpu : ℕ) : Pick Rest := fun s prev =>
  match pickNextTaskWrr cfg s.core cpu prev with
  | (core, none) => ({ s with core := core }, .null)
  | (core, some p) => ({ s with core := core }, .task (some p))

/-- From `sched_class_highest` along the `next` pointers. -/
def classList (K : Classes Rest) (cfg : Config) (cpu : ℕ) : List (Pick Rest) :=
  [K.pickNextTaskStop cpu, K.pickNextTaskDl cpu, K.pickNextTaskRt cpu, pickWrr cfg cpu,
    K.pickNextTaskFair cpu, fun s prev => (K.pickNextTaskIdle cpu s prev, .task none)]

def forEachClass : List (Pick Rest) → Pick Rest
  | [], s, _ => (s, .null)
  | pick :: classes, s, prev =>
    match pick s prev with
    | (s, .null) => forEachClass classes s prev
    | found => found

/-- A call returns a task, runs into `BUG()`, or has been sent back to the first class more
often than the fuel allows. -/
inductive Outcome (Rest : Type*) where
  | returns (s : State Rest) (next : Option Pid)
  | bug
  | retrying

def again (K : Classes Rest) (cfg : Config) (cpu : ℕ) : ℕ → State Rest → Option Pid → Outcome Rest
  | 0, _, _ => .retrying
  | fuel + 1, s, prev =>
    match forEachClass (classList K cfg cpu) s prev with
    | (s, .task p) => .returns s p
    | (s, .retryTask) => again K cfg cpu fuel s prev
    | (_, .null) => .bug

def pickNextTask (K : Classes Rest) (cfg : Config) (cpu fuel : ℕ) (s : State Rest)
    (prev : Option Pid) : Outcome Rest :=
  if (classOf s prev = .idle ∨ classOf s prev = .fair) ∧
      (s.core.rq cpu).nrRunning = K.hNrRunning s.rest cpu then
    match K.pickNextTaskFair cpu s prev with
    | (s, .retryTask) => again K cfg cpu fuel s prev
    | (s, .null) => .returns (K.pickNextTaskIdle cpu s prev) none
    | (s, .task p) => .returns s p
  else again K cfg cpu fuel s prev

/-! ## The count relation -/

def Summed (K : Classes Rest) (s : State Rest) (cpu : ℕ) : Prop :=
  (s.core.rq cpu).nrRunning.toNat =
    K.stopNrRunning s.rest cpu + K.dlNrRunning s.rest cpu + K.rtNrRunning s.rest cpu +
      (s.core.rq cpu).wrr.nrRunning.toNat + (K.hNrRunning s.rest cpu).toNat

def NoneAbove (K : Classes Rest) (s : State Rest) (cpu : ℕ) : Prop :=
  K.stopNrRunning s.rest cpu = 0 ∧ K.dlNrRunning s.rest cpu = 0 ∧ K.rtNrRunning s.rest cpu = 0

/-- Each class counts its tasks and the total counts them all; no task is in two classes. -/
def Counted (K : Classes Rest) (s : State Rest) : Prop :=
  ∃ queue, Listed (fun cpu => (K.queued s.rest cpu).length.toUInt32) s.core queue ∧
    ∀ cpu, (K.queued s.rest cpu ++ queue cpu).Nodup ∧
      (K.queued s.rest cpu).length = K.stopNrRunning s.rest cpu + K.dlNrRunning s.rest cpu +
        K.rtNrRunning s.rest cpu + (K.hNrRunning s.rest cpu).toNat

/-- There are too few processes for the sum to wrap. -/
theorem Counted.summed {K : Classes Rest} {s : State Rest} (counted : Counted K s) (cpu : ℕ) :
    Summed K s cpu := by
  obtain ⟨queue, listed, others⟩ := counted
  have room := Pid.length_lt_of_nodup _ (others cpu).1
  have split := (others cpu).2
  rw [List.length_append, ← listed.count cpu] at room
  rw [Summed, listed.total cpu, UInt32.toNat_add, Nat.toUInt32, UInt32.toNat_ofNat']
  omega

def step (cfg : Config) (s : State Rest) (a : WrrConservation.Action) : State Rest :=
  { s with core := WrrConservation.step cfg s.core a }

/-- The core enqueues a task in one class at a time. A new weight may be stored whether or
not the task is queued. -/
def Enabled (K : Classes Rest) (s : State Rest) : WrrConservation.Action → Prop
  | .enqueueTask cpu p flags =>
    WrrConservation.Enabled s.core (.enqueueTask cpu p flags) ∧ p ∉ K.queued s.rest cpu
  | .setWrrWeight _ _ _ => True
  | a => WrrConservation.Enabled s.core a

theorem enabled_wrr {K : Classes Rest} {s : State Rest} {a : WrrConservation.Action}
    (enabled : Enabled K s a) :
    WrrConservation.Enabled s.core a ∨ ∃ p weight now, a = .setWrrWeight p weight now := by
  cases a with
  | enqueueTask cpu p flags => exact .inl enabled.1
  | setWrrWeight p weight now => exact .inr ⟨p, weight, now, rfl⟩
  | _ => exact .inl (by simpa only [Enabled] using enabled)

theorem listed_step (cfg : Config) {K : Classes Rest} {s : State Rest} {base : ℕ → UInt32}
    {queue : ℕ → List Pid} (listed : Listed base s.core queue) {a : WrrConservation.Action}
    (enabled : Enabled K s a) :
    ∃ new, Listed base (step cfg s a).core new ∧ ∀ c, ∀ q ∈ new c, q ∈ queue c ∨ Arrives a c q := by
  rcases enabled_wrr enabled with ready | ⟨p, weight, now, rfl⟩
  · obtain ⟨new, carries, members⟩ := listed.step cfg ready
    exact ⟨new, carries.1, members⟩
  · exact ⟨queue, listed.reweigh (reweighed_setWrrWeightLocked s.core p weight now),
      fun _ _ member => .inl member⟩

theorem counted_step (K : Classes Rest) (cfg : Config) (s : State Rest) (a : WrrConservation.Action)
    (enabled : Enabled K s a) (counted : Counted K s) : Counted K (step cfg s a) := by
  obtain ⟨queue, listed, others⟩ := counted
  obtain ⟨new, holds, members⟩ := listed_step cfg listed enabled
  refine ⟨new, holds, fun cpu => ⟨?_, (others cpu).2⟩⟩
  have apart := List.nodup_append'.mp (others cpu).1
  refine List.nodup_append'.mpr ⟨apart.1, (holds.ring cpu).nodup, fun q elsewhere here => ?_⟩
  -- only an enqueued task is new on the list, and the core does not enqueue it twice
  rcases members cpu q here with old | ⟨flags, rfl⟩
  · exact apart.2.2 elsewhere old
  · exact enabled.2 elsewhere

/-! ## The short cut -/

/-- Nothing has been pulled onto the run queue, nor moved on its wrr list. -/
structure Unpulled (K : Classes Rest) (cpu : ℕ) (s t : State Rest) : Prop where
  links : t.core.links = s.core.links
  wrr : (t.core.rq cpu).wrr = (s.core.rq cpu).wrr
  stop : K.stopNrRunning t.rest cpu = K.stopNrRunning s.rest cpu
  dl : K.dlNrRunning t.rest cpu = K.dlNrRunning s.rest cpu
  rt : K.rtNrRunning t.rest cpu = K.rtNrRunning s.rest cpu

/-- A class without runnable tasks returns none and pulls none in. It may still account
time to a `prev` of its own; with a `prev` of the fair or idle class it does nothing. -/
def Passes (K : Classes Rest) (cpu : ℕ) (count : Rest → ℕ → ℕ) (pick : Pick Rest) : Prop :=
  ∀ s prev, count s.rest cpu = 0 →
    (pick s prev).2 = .null ∧ Unpulled K cpu s (pick s prev).1 ∧
      (classOf s prev = .idle ∨ classOf s prev = .fair → (pick s prev).1 = s)

structure Quiet (K : Classes Rest) (cpu : ℕ) : Prop where
  stop : Passes K cpu K.stopNrRunning (K.pickNextTaskStop cpu)
  dl : Passes K cpu K.dlNrRunning (K.pickNextTaskDl cpu)
  rt : Passes K cpu K.rtNrRunning (K.pickNextTaskRt cpu)
  fair : ∀ s prev, (K.pickNextTaskFair cpu s prev).2 ≠ .retryTask

section ShortCut

variable {K : Classes Rest} {cfg : Config} {cpu : ℕ} {s : State Rest} {prev : Option Pid}

theorem forEachClass_of_null {pick : Pick Rest} (classes : List (Pick Rest))
    (null : (pick s prev).2 = .null) :
    forEachClass (pick :: classes) s prev = forEachClass classes (pick s prev).1 prev := by
  rw [forEachClass]
  generalize pick s prev = found at null
  obtain ⟨t, picked⟩ := found
  subst null
  rfl

theorem exists_forEachClass_eq (cfg : Config) (quiet : Quiet K cpu) (above : NoneAbove K s cpu)
    (prev : Option Pid) :
    ∃ t, forEachClass (classList K cfg cpu) s prev =
        forEachClass ((classList K cfg cpu).drop 3) t prev ∧
      t.core.links = s.core.links ∧ (t.core.rq cpu).wrr = (s.core.rq cpu).wrr ∧
      (classOf s prev = .idle ∨ classOf s prev = .fair → t = s) := by
  -- each class hands the run queue on to the next, whose count is still 0
  obtain ⟨null, first, same⟩ := quiet.stop s prev above.1
  have dlNone := first.dl.trans above.2.1
  obtain ⟨null', second, same'⟩ := quiet.dl _ prev dlNone
  have rtNone := second.rt.trans (first.rt.trans above.2.2)
  obtain ⟨null'', third, same''⟩ := quiet.rt _ prev rtNone
  refine ⟨_, ?_, third.links.trans (second.links.trans first.links),
    third.wrr.trans (second.wrr.trans first.wrr), fun low => ?_⟩
  · rw [classList, forEachClass_of_null _ null, forEachClass_of_null _ null',
      forEachClass_of_null _ null'']
    rfl
  · rw [same low] at same' same''
    rw [same' low] at same''
    rw [same low, same' low, same'' low]

theorem noneAbove_of_shortCut (summed : Summed K s cpu)
    (all : (s.core.rq cpu).nrRunning = K.hNrRunning s.rest cpu) :
    NoneAbove K s cpu ∧ (s.core.rq cpu).wrr.nrRunning = 0 := by
  rw [Summed, all] at summed
  have zero : (s.core.rq cpu).wrr.nrRunning.toNat = 0 := by omega
  exact ⟨⟨by omega, by omega, by omega⟩, UInt32.toNat_inj.mp zero⟩

theorem pickWrr_of_empty (empty : (s.core.rq cpu).wrr.nrRunning = 0) :
    pickWrr cfg cpu s prev = (s, .null) := by
  simp [pickWrr, pickNextTaskWrr, empty]

theorem pickNextTask_eq_again (quiet : Quiet K cpu) (summed : Summed K s cpu) (fuel : ℕ) :
    pickNextTask K cfg cpu (fuel + 1) s prev = again K cfg cpu (fuel + 1) s prev := by
  unfold pickNextTask
  split_ifs with shortCut
  · obtain ⟨low, all⟩ := shortCut
    obtain ⟨above, empty⟩ := noneAbove_of_shortCut summed all
    obtain ⟨t, loop, -, -, unchanged⟩ := exists_forEachClass_eq cfg quiet above prev
    obtain rfl := unchanged low
    -- a retry would cost the loop a round that the short cut has not spent
    have noRetry := quiet.fair t prev
    have passed : forEachClass ((classList K cfg cpu).drop 3) t prev =
        forEachClass ((classList K cfg cpu).drop 4) t prev := by
      have null : (pickWrr cfg cpu t prev).2 = .null := by rw [pickWrr_of_empty empty]
      have step := forEachClass_of_null ((classList K cfg cpu).drop 4) null
      rwa [pickWrr_of_empty empty] at step
    rw [again, loop, passed]
    simp only [classList, List.drop_succ_cons, List.drop_zero, forEachClass]
    generalize K.pickNextTaskFair cpu t prev = found at noRetry
    obtain ⟨u, picked⟩ := found
    cases picked with
    | null => rfl
    | retryTask => exact absurd rfl noRetry
    | task p => rfl
  · rfl

theorem pickWrr_head {p : Pid} (head : (pickNextTaskWrr cfg s.core cpu prev).2 = some p) :
    pickWrr cfg cpu s prev =
      ({ s with core := (pickNextTaskWrr cfg s.core cpu prev).1 }, .task (some p)) := by
  unfold pickWrr
  generalize pickNextTaskWrr cfg s.core cpu prev = found at head
  obtain ⟨core, next⟩ := found
  subst head
  rfl

theorem again_head (quiet : Quiet K cpu) (above : NoneAbove K s cpu) {p : Pid} {rest : List Pid}
    (queue : HasQueue s.core cpu (p :: rest)) (busy : (s.core.rq cpu).wrr.nrRunning ≠ 0) (fuel : ℕ) :
    ∃ t, again K cfg cpu (fuel + 1) s prev = .returns t (some p) := by
  obtain ⟨t, loop, links, wrr, -⟩ := exists_forEachClass_eq cfg quiet above prev
  have queue' : HasQueue t.core cpu (p :: rest) := by rwa [HasQueue, links]
  have picked := pickWrr_head (pickNextTaskWrr_head cfg queue' (by rwa [wrr]) prev)
  refine ⟨{ t with core := (pickNextTaskWrr cfg t.core cpu prev).1 }, ?_⟩
  rw [again, loop]
  simp only [classList, List.drop_succ_cons, List.drop_zero, forEachClass, picked]

end ShortCut

theorem shortCut_hides_nothing (K : Classes Rest) (cfg : Config) (cpu : ℕ) (quiet : Quiet K cpu) :
    (∀ s prev fuel, Summed K s cpu →
      pickNextTask K cfg cpu (fuel + 1) s prev = again K cfg cpu (fuel + 1) s prev) ∧
    (∀ s prev fuel p rest, Summed K s cpu → NoneAbove K s cpu → HasQueue s.core cpu (p :: rest) →
      (s.core.rq cpu).wrr.nrRunning.toNat = (p :: rest).length →
        ∃ t, pickNextTask K cfg cpu (fuel + 1) s prev = .returns t (some p)) ∧
    ∀ s acts, Counted K s → Along (step cfg) (Enabled K) s acts →
      Always (step cfg) (fun t => ∀ c, Summed K t c) s acts := by
  refine ⟨?_, ?_, ?_⟩
  · intro s prev fuel summed
    exact pickNextTask_eq_again quiet summed fuel
  · intro s prev fuel p rest summed above queue count
    have busy : (s.core.rq cpu).wrr.nrRunning ≠ 0 := by
      intro zero
      simp [zero] at count
    rw [pickNextTask_eq_again quiet summed fuel]
    exact again_head quiet above queue busy fuel
  · intro s acts counted h
    exact always_of_invariant (Counted K) (counted_step K cfg) (fun _ counted => counted.summed)
      counted h

def oneFair : Classes Unit where
  queued := fun _ _ => [.nth 1]
  stopNrRunning := fun _ _ => 0
  dlNrRunning := fun _ _ => 0
  rtNrRunning := fun _ _ => 0
  hNrRunning := fun _ _ => 1
  pickNextTaskStop := fun _ s _ => (s, .null)
  pickNextTaskDl := fun _ s _ => (s, .null)
  pickNextTaskRt := fun _ s _ => (s, .null)
  pickNextTaskFair := fun _ s _ => (s, .task (some (.nth 1)))
  pickNextTaskIdle := fun _ s _ => s

def woken : State Unit where
  core := enqueueTaskWrr { quiet with rq := fun _ => ⟨1, ⟨0, 0⟩, none, 0, false⟩ } 0 (.nth 0) 1
  rest := ()

theorem shortCut_hides_nothing_woken :
    Quiet oneFair 0 ∧ Summed oneFair woken 0 ∧
      ∃ t, pickNextTask oneFair ⟨10, 1000, true, true⟩ 0 1 woken none = .returns t (some (.nth 0)) := by
  have silent : Quiet oneFair 0 := by
    constructor
    · exact fun s prev _ => ⟨rfl, ⟨rfl, rfl, rfl, rfl, rfl⟩, fun _ => rfl⟩
    · exact fun s prev _ => ⟨rfl, ⟨rfl, rfl, rfl, rfl, rfl⟩, fun _ => rfl⟩
    · exact fun s prev _ => ⟨rfl, ⟨rfl, rfl, rfl, rfl, rfl⟩, fun _ => rfl⟩
    · exact fun _ _ same => by cases same
  have summed : Summed oneFair woken 0 := by
    unfold Summed
    decide
  have empty : HasQueue { quiet with rq := fun _ => ⟨1, ⟨0, 0⟩, none, 0, false⟩ } 0 [] :=
    (holds_init quiet initWrrRq_quiet).ring 0
  have queue : HasQueue woken.core 0 [.nth 0] := (hasQueue_enqueue 1 empty (by simp)).1
  exact ⟨silent, summed, (shortCut_hides_nothing oneFair _ 0 silent).2.1 woken none 0 (.nth 0) [] summed
    ⟨rfl, rfl, rfl⟩ queue (by decide)⟩

/-! ## The model with one CPU

With nothing above wrr and the fair class of fair.c this is the `pick_next_task` of the
scheduler core on one CPU, which besides logs the calls of `put_prev_task`. -/

def embed (s : FairModel.State) : State FairModel.State := ⟨s.core, s⟩

def unembed (t : State FairModel.State) : FairModel.State := { t.rest with core := t.core }

def fairClasses (cfg : FairModel.Config) : Classes FairModel.State where
  queued := fun s _ => s.cfs.curr.toList ++ s.cfs.tasksTimeline
  stopNrRunning := fun _ _ => 0
  dlNrRunning := fun _ _ => 0
  rtNrRunning := fun _ _ => 0
  hNrRunning := fun s _ => s.cfs.hNrRunning
  pickNextTaskStop := fun _ s _ => (s, .null)
  pickNextTaskDl := fun _ s _ => (s, .null)
  pickNextTaskRt := fun _ s _ => (s, .null)
  pickNextTaskFair := fun cpu t prev =>
    match CoreModel.pickNextTaskFair cfg cpu (unembed t) prev with
    | (s, some p) => (embed s, .task (some p))
    | (s, none) => (embed s, .null)
  pickNextTaskIdle := fun cpu t prev => embed (CoreModel.putPrevTask cfg cpu (unembed t) prev)

section Core

variable (cfg : FairModel.Config) (cpu : ℕ) (s : FairModel.State) (prev : Option Pid)

theorem classOf_embed : classOf (embed s) prev = CoreModel.classOf s prev := by
  cases prev with
  | none => rfl
  | some p => rfl

theorem forEachClass_fair :
    forEachClass ((classList (fairClasses cfg) cfg.toConfig cpu).drop 4) (embed s) prev =
      (embed (CoreModel.pickFairOrIdle cfg cpu s prev).1,
        .task (CoreModel.pickFairOrIdle cfg cpu s prev).2.2) := by
  have whole : unembed (embed s) = s := rfl
  simp only [classList, List.drop_succ_cons, List.drop_zero, forEachClass, fairClasses, whole,
    CoreModel.pickFairOrIdle]
  generalize CoreModel.pickNextTaskFair cfg cpu s prev = found
  obtain ⟨t, next⟩ := found
  cases next with
  | none => rfl
  | some p => rfl

theorem pickNextTask_shortCut (fuel : ℕ)
    (shortCut : (CoreModel.classOf s prev = .idle ∨ CoreModel.classOf s prev = .fair) ∧
      (s.core.rq cpu).nrRunning = s.cfs.hNrRunning) :
    pickNextTask (fairClasses cfg) cfg.toConfig cpu fuel (embed s) prev =
      .returns (embed (CoreModel.pickFairOrIdle cfg cpu s prev).1)
        (CoreModel.pickFairOrIdle cfg cpu s prev).2.2 := by
  have taken : (classOf (embed s) prev = .idle ∨ classOf (embed s) prev = .fair) ∧
      ((embed s).core.rq cpu).nrRunning = (fairClasses cfg).hNrRunning (embed s).rest cpu := by
    rw [classOf_embed]
    exact shortCut
  have whole : unembed (embed s) = s := rfl
  rw [pickNextTask, if_pos taken]
  simp only [fairClasses, whole, CoreModel.pickFairOrIdle]
  generalize CoreModel.pickNextTaskFair cfg cpu s prev = found
  obtain ⟨t, next⟩ := found
  cases next with
  | none => rfl
  | some p => rfl

theorem pickNextWrr_of_empty (empty : (s.core.rq cpu).wrr.nrRunning = 0) :
    CoreModel.pickNextWrr cfg cpu s prev = (s, none) := by
  simp [CoreModel.pickNextWrr, pickNextTaskWrr, empty]

theorem pickNextTask_core (fuel : ℕ)
    (busy : (s.core.rq cpu).wrr.nrRunning ≠ 0 → ∃ p rest, HasQueue s.core cpu (p :: rest)) :
    ∃ t, pickNextTask (fairClasses cfg) cfg.toConfig cpu (fuel + 1) (embed s) prev =
        .returns t (CoreModel.pickNextTask cfg cpu s prev).2.2 ∧
      { unembed t with puts := [] } =
        { (CoreModel.pickNextTask cfg cpu s prev).1 with puts := [] } := by
  by_cases shortCut : (CoreModel.classOf s prev = .idle ∨ CoreModel.classOf s prev = .fair) ∧
      (s.core.rq cpu).nrRunning = s.cfs.hNrRunning
  · rw [pickNextTask_shortCut cfg cpu s prev _ shortCut, CoreModel.pickNextTask, if_pos shortCut]
    exact ⟨_, rfl, rfl⟩
  · have slow : ¬ ((classOf (embed s) prev = .idle ∨ classOf (embed s) prev = .fair) ∧
        ((embed s).core.rq cpu).nrRunning = (fairClasses cfg).hNrRunning (embed s).rest cpu) := by
      rw [classOf_embed]
      exact shortCut
    have skip : forEachClass (classList (fairClasses cfg) cfg.toConfig cpu) (embed s) prev =
        forEachClass (pickWrr cfg.toConfig cpu ::
          (classList (fairClasses cfg) cfg.toConfig cpu).drop 4) (embed s) prev := rfl
    rw [pickNextTask, if_neg slow, again, skip, CoreModel.pickNextTask, if_neg shortCut]
    by_cases empty : (s.core.rq cpu).wrr.nrRunning = 0
    · have passed : pickWrr cfg.toConfig cpu (embed s) prev = (embed s, .null) :=
        pickWrr_of_empty empty
      rw [forEachClass_of_null _ (congrArg Prod.snd passed), passed, forEachClass_fair,
        pickNextWrr_of_empty cfg cpu s prev empty]
      exact ⟨_, rfl, rfl⟩
    · -- the models differ in the log of `put_prev_task` only
      obtain ⟨p, rest, queue⟩ := busy empty
      have head := pickNextTaskWrr_head cfg.toConfig queue empty prev
      have picked := pickWrr_head (s := embed s) head
      simp only [forEachClass, picked, CoreModel.pickNextWrr, head]
      exact ⟨_, rfl, rfl⟩

end Core

end UnixSystems.PickNextTask
