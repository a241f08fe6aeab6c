import UnixSystems.PolicyEffects
import UnixSystems.WrrFrame

/-! How the class charges CPU time. What a task should be charged is kept by a meter that only
looks at which task is `rq->curr`, at the clock, and at when the class brings the account up to
date. One run queue; the classes of the tasks do not change. -/
namespace UnixSystems.WrrCharge
open GuardedRuns
open WrrModel
open WrrConservation hiding Action step Enabled
open PolicyModel hiding State
open WrrFrame

/-- `takeOver` is a task of another class becoming current: its class puts the previous task
first. Only `clock` lets time pass. -/
inductive Action where
  | enqueueTask (p : Pid) (flags : UInt32)
  | dequeueTask (p : Pid) (flags : UInt32)
  | taskTick (p : Pid)
  | putPrevTask (prev : Option Pid)
  | setCurrTask
  | pickNextTask (prev : Option Pid)
  | takeOver (next : Option Pid)
  | clock (now : UInt64)

def setCurr (cpu : ℕ) (s : State) (next : Option Pid) : State :=
  s.modifyRq cpu fun rq => { rq with curr := next }

def putCurr (cfg : Config) (cpu : ℕ) (s : State) : State :=
  match (s.rq cpu).curr with
  | none => s
  | some prev => if (s.task prev).schedClass = .wrr then putPrevTaskWrr cfg s cpu (some prev) else s

def step (cfg : Config) (cpu : ℕ) (s : State) : Action → State
  | .enqueueTask p flags => enqueueTaskWrr s cpu p flags
  | .dequeueTask p flags => dequeueTaskWrr cfg s cpu p flags
  | .taskTick p => taskTickWrr cfg s cpu p
  | .putPrevTask prev => putPrevTaskWrr cfg s cpu prev
  | .setCurrTask => setCurrTaskWrr s cpu
  | .pickNextTask prev =>
    match pickNextTaskWrr cfg s cpu prev with
    | (s, none) => s
    | (s, some p) => setCurr cpu s (some p)
  | .takeOver next => setCurr cpu (putCurr cfg cpu s) next
  | .clock now => updateRqClock s cpu now

/-! ## The meter -/

structure Meter where
  since : ℕ
  ran : Pid → ℕ

def Meter.update (m : Meter) (curr : Option Pid) (now : ℕ) : Meter where
  since := now
  ran := match curr with
    | none => m.ran
    | some p => Function.update m.ran p (m.ran p + (now - m.since))

def updates (cpu : ℕ) (s : State) : Action → Bool
  | .taskTick _ | .putPrevTask _ | .takeOver _ => true
  | .dequeueTask _ _ | .pickNextTask _ => (s.rq cpu).wrr.nrRunning ≠ 0
  | _ => false

def now (cpu : ℕ) (s : State) : ℕ := (s.rq cpu).clockTask.toNat

structure Metered where
  sys : State
  meter : Meter

def meteredStep (cfg : Config) (cpu : ℕ) (x : Metered) (a : Action) : Metered where
  sys := step cfg cpu x.sys a
  meter := if updates cpu x.sys a then x.meter.update (x.sys.rq cpu).curr (now cpu x.sys) else x.meter

def Charged (init : State) (x : Metered) : Prop :=
  ∀ p, (x.sys.task p).schedClass = .wrr →
    ((x.sys.task p).se.sumExecRuntime - (init.task p).se.sumExecRuntime).toNat = x.meter.ran p

/-- The clock never goes back and spans less than 2^63; only a task of another class takes
over. -/
def Enabled (cpu start : ℕ) (x : Metered) : Action → Prop
  | .clock time => now cpu x.sys ≤ time.toNat ∧ time.toNat < start + 2 ^ 63
  | .takeOver next => ∀ p ∈ next, (x.sys.task p).schedClass ≠ .wrr
  | _ => True

/-- `set_curr_task` comes when the current task has been charged up to now: the core calls it
after `put_prev_task`, and the clock does not advance in between. -/
def Paired (cpu : ℕ) (x : Metered) : Action → Prop
  | .setCurrTask => ∀ p ∈ (x.sys.rq cpu).curr, (x.sys.task p).schedClass = .wrr →
      x.meter.since = now cpu x.sys
  | _ => True

/-! ## The invariant -/

/-- The account of each wrr task is what the meter says, and the current task carries the time
of the last update. -/
structure Balanced (cpu start : ℕ) (init : State) (s : State) (m : Meter) : Prop where
  account : ∀ p, (s.task p).schedClass = .wrr →
    (s.task p).se.sumExecRuntime = (init.task p).se.sumExecRuntime + UInt64.ofNat (m.ran p)
  bound : ∀ p, (s.task p).schedClass = .wrr → m.ran p + start ≤ m.since
  marked : ∀ p, (s.rq cpu).curr = some p → (s.task p).schedClass = .wrr →
    (s.task p).se.execStart.toNat = m.since
  order : m.since ≤ now cpu s ∧ now cpu s < start + 2 ^ 63

def timing : View (UInt64 × UInt64 × SchedClass) (Option Pid × UInt64) where
  task t := (t.se.execStart, t.se.sumExecRuntime, t.schedClass)
  rq rq := (rq.curr, rq.clockTask)

theorem timing_blind : Blind timing :=
  ⟨fun _ _ => rfl, fun _ _ => rfl, fun _ _ _ => rfl, fun _ _ => rfl⟩

section Step

variable {cfg : Config} {cpu start : ℕ} {init s t : State} {m : Meter}

theorem Balanced.charged (balanced : Balanced cpu start init s m) : Charged init ⟨s, m⟩ := by
  intro p wrr
  have short : m.ran p < 2 ^ 64 := by
    have bound := balanced.bound p wrr
    have order := balanced.order
    omega
  have gained : (s.task p).se.sumExecRuntime - (init.task p).se.sumExecRuntime =
      UInt64.ofNat (m.ran p) := by
    rw [balanced.account p wrr]
    exact add_sub_cancel_left _ _
  rw [gained, UInt64.toNat_ofNat']
  exact Nat.mod_eq_of_lt short

theorem Balanced.sameView (balanced : Balanced cpu start init s m) (same : SameView timing s t) :
    Balanced cpu start init t m := by
  have class_eq : ∀ p, (t.task p).schedClass = (s.task p).schedClass := fun p =>
    congrArg (·.2.2) (same.task p)
  have clock_eq : (t.rq cpu).clockTask = (s.rq cpu).clockTask := congrArg (·.2) (same.rq cpu)
  refine ⟨fun p wrr => ?_, fun p wrr => ?_, fun p curr wrr => ?_, ?_⟩
  · rw [class_eq] at wrr
    exact (congrArg (·.2.1) (same.task p)).trans (balanced.account p wrr)
  · rw [class_eq] at wrr
    exact balanced.bound p wrr
  · rw [class_eq] at wrr
    have start_eq : (t.task p).se.execStart = (s.task p).se.execStart := congrArg (·.1) (same.task p)
    rw [start_eq]
    exact balanced.marked p ((congrArg (·.1) (same.rq cpu)).symm.trans curr) wrr
  · rw [now, clock_eq]
    exact balanced.order

theorem toInt64_nonpos_iff (x : UInt64) (short : x.toNat < 2 ^ 63) : x.toInt64 ≤ 0 ↔ x = 0 := by
  have value : x.toInt64.toInt = x.toNat := by
    show x.toBitVec.toInt = _
    exact BitVec.toInt_eq_toNat_of_lt (by simpa using (by omega : 2 * x.toNat < 2 ^ 64))
  rw [Int64.le_iff_toInt_le, value]
  constructor
  · intro nonpos
    exact UInt64.toNat_inj.mp (by simpa using nonpos)
  · rintro rfl
    simp

theorem updateCurrWrr_self (cfg : Config) {p : Pid} (curr : (s.rq cpu).curr = some p)
    (wrr : (s.task p).schedClass = .wrr)
    (short : ((s.rq cpu).clockTask - (s.task p).se.execStart).toNat < 2 ^ 63) :
    ((updateCurrWrr cfg s cpu).task p).se.execStart = (s.rq cpu).clockTask ∧
      ((updateCurrWrr cfg s cpu).task p).se.sumExecRuntime =
        (s.task p).se.sumExecRuntime + ((s.rq cpu).clockTask - (s.task p).se.execStart) := by
  rw [updateCurrWrr, curr]
  dsimp only
  rw [if_neg (not_not.mpr wrr)]
  by_cases idle : ((s.rq cpu).clockTask - (s.task p).se.execStart).toInt64 ≤ 0
  · -- no time has passed, so that leaving the mark alone is setting it
    have nothing := (toInt64_nonpos_iff _ short).mp idle
    rw [if_pos idle, nothing]
    exact ⟨(sub_eq_zero.mp nothing).symm, (add_zero _).symm⟩
  · rw [if_neg idle]
    simp [State.modifyTask]

theorem updateCurrWrr_task_of_ne (cfg : Config) {p : Pid} (other : (s.rq cpu).curr ≠ some p) :
    (updateCurrWrr cfg s cpu).task p = s.task p := by
  unfold updateCurrWrr
  cases here : (s.rq cpu).curr with
  | none => rfl
  | some curr =>
    have apart : p ≠ curr := fun same => other (same ▸ here)
    dsimp only
    split_ifs <;> simp [State.modifyTask, apart]

theorem Meter.ran_update (m : Meter) (curr : Option Pid) (time : ℕ) (p : Pid) :
    (m.update curr time).ran p = if curr = some p then m.ran p + (time - m.since) else m.ran p := by
  unfold Meter.update
  cases curr with
  | none => simp
  | some curr =>
    by_cases here : p = curr
    · simp [here]
    · simp [here, Ne.symm here]

theorem Balanced.elapsed (balanced : Balanced cpu start init s m) {p : Pid}
    (curr : (s.rq cpu).curr = some p) (wrr : (s.task p).schedClass = .wrr) :
    ((s.rq cpu).clockTask - (s.task p).se.execStart).toNat = now cpu s - m.since := by
  have marked := balanced.marked p curr wrr
  have past : (s.task p).se.execStart ≤ (s.rq cpu).clockTask := by
    rw [UInt64.le_iff_toNat_le, marked]
    exact balanced.order.1
  rw [UInt64.toNat_sub_of_le _ _ past, marked]
  rfl

theorem Balanced.update (cfg : Config) (balanced : Balanced cpu start init s m) :
    Balanced cpu start init (updateCurrWrr cfg s cpu) (m.update (s.rq cpu).curr (now cpu s)) := by
  have same := accounted_updateCurrWrr cfg s cpu
  have class_eq : ∀ p, ((updateCurrWrr cfg s cpu).task p).schedClass = (s.task p).schedClass :=
    fun p => congrArg (·.2.1) (same.task p)
  have order := balanced.order
  have short : ∀ p, (s.rq cpu).curr = some p → (s.task p).schedClass = .wrr →
      ((s.rq cpu).clockTask - (s.task p).se.execStart).toNat < 2 ^ 63 := by
    intro p curr wrr
    have bound := balanced.bound p wrr
    rw [balanced.elapsed curr wrr]
    omega
  refine ⟨fun p wrr => ?_, fun p wrr => ?_, fun p curr wrr => ?_, ?_⟩
  · rw [class_eq] at wrr
    rw [m.ran_update]
    by_cases here : (s.rq cpu).curr = some p
    · have delta : (s.rq cpu).clockTask - (s.task p).se.execStart =
          UInt64.ofNat (now cpu s - m.since) := by
        rw [← balanced.elapsed here wrr, UInt64.ofNat_toNat]
      rw [if_pos here, (updateCurrWrr_self cfg here wrr (short p here wrr)).2, balanced.account p wrr,
        delta, UInt64.ofNat_add, add_assoc]
    · rw [if_neg here, updateCurrWrr_task_of_ne cfg here]
      exact balanced.account p wrr
  · rw [class_eq] at wrr
    have bound := balanced.bound p wrr
    rw [m.ran_update]
    show _ ≤ now cpu s
    split_ifs <;> omega
  · rw [class_eq] at wrr
    rw [same.rq] at curr
    rw [(updateCurrWrr_self cfg curr wrr (short p curr wrr)).1]
    rfl
  · have clock_eq : now cpu (updateCurrWrr cfg s cpu) = now cpu s := by rw [now, same.rq, now]
    rw [clock_eq]
    exact ⟨le_rfl, order.2⟩

theorem putCurr_eq (cfg : Config) (cpu : ℕ) (s : State) : putCurr cfg cpu s = updateCurrWrr cfg s cpu := by
  unfold putCurr
  cases curr : (s.rq cpu).curr with
  | none => simp [updateCurrWrr, curr]
  | some prev =>
    dsimp only
    split_ifs with wrr
    · rfl
    · simp [updateCurrWrr, curr, wrr]

theorem Balanced.mark (balanced : Balanced cpu start init s m) (p : Pid)
    (level : (s.rq cpu).curr = some p → (s.task p).schedClass = .wrr → m.since = now cpu s) :
    Balanced cpu start init (s.modifyTask p fun t =>
      { t with se := { t.se with execStart := (s.rq cpu).clockTask } }) m := by
  refine ⟨fun q wrr => ?_, fun q wrr => ?_, fun q curr wrr => ?_, balanced.order⟩
  · by_cases here : q = p
    · subst here
      simpa [State.modifyTask] using balanced.account q (by simpa [State.modifyTask] using wrr)
    · simpa [State.modifyTask, here] using
        balanced.account q (by simpa [State.modifyTask, here] using wrr)
  · by_cases here : q = p
    · subst here
      exact balanced.bound q (by simpa [State.modifyTask] using wrr)
    · exact balanced.bound q (by simpa [State.modifyTask, here] using wrr)
  · by_cases here : q = p
    · subst here
      simpa [State.modifyTask, now] using (level curr (by simpa [State.modifyTask] using wrr)).symm
    · simpa [State.modifyTask, here] using
        balanced.marked q curr (by simpa [State.modifyTask, here] using wrr)

theorem Balanced.setCurr (balanced : Balanced cpu start init s m) (next : Option Pid)
    (marked : ∀ p ∈ next, (s.task p).schedClass = .wrr → (s.task p).se.execStart.toNat = m.since) :
    Balanced cpu start init (setCurr cpu s next) m := by
  refine ⟨balanced.account, balanced.bound, fun p curr wrr => marked p ?_ wrr, ?_⟩
  · simpa [WrrCharge.setCurr, State.modifyRq] using curr
  · simpa [WrrCharge.setCurr, State.modifyRq, now] using balanced.order

theorem Balanced.pick (cfg : Config) (balanced : Balanced cpu start init s m) (prev : Option Pid)
    (busy : (s.rq cpu).wrr.nrRunning ≠ 0) :
    Balanced cpu start init (step cfg cpu s (.pickNextTask prev))
      (m.update (s.rq cpu).curr (now cpu s)) := by
  have charged := balanced.update cfg
  have clock_eq := (accounted_updateCurrWrr cfg s cpu).rq
  simp only [step, pickNextTaskWrr, if_neg busy, putPrevTaskWrr]
  cases (updateCurrWrr cfg s cpu).links.next (.head cpu) with
  | head c => exact charged
  | entity p =>
    refine (charged.mark p fun _ _ => ?_).setCurr (some p) fun q chosen wrr => ?_
    · simp [Meter.update, now, clock_eq]
    · rw [Option.mem_some_iff.mp chosen]
      simp [State.modifyTask, Meter.update, now, clock_eq]

theorem Balanced.clock (balanced : Balanced cpu start init s m) (time : UInt64)
    (forward : now cpu s ≤ time.toNat) (span : time.toNat < start + 2 ^ 63) :
    Balanced cpu start init (updateRqClock s cpu time) m := by
  refine ⟨balanced.account, balanced.bound, fun p curr wrr => balanced.marked p ?_ wrr, ?_⟩
  · simpa [updateRqClock, State.modifyRq] using curr
  · have before := balanced.order.1
    simpa [updateRqClock, State.modifyRq, now] using And.intro (before.trans forward) span

end Step

theorem balanced_step (cfg : Config) {cpu start : ℕ} {init : State} (x : Metered) (a : Action)
    (ok : Enabled cpu start x a ∧ Paired cpu x a) (balanced : Balanced cpu start init x.sys x.meter) :
    Balanced cpu start init (meteredStep cfg cpu x a).sys (meteredStep cfg cpu x a).meter := by
  obtain ⟨s, m⟩ := x
  have charged := balanced.update cfg
  cases a with
  | enqueueTask p flags => exact balanced.sameView (sameView_enqueueTaskWrr timing_blind s cpu p flags)
  | dequeueTask p flags =>
    by_cases idle : (s.rq cpu).wrr.nrRunning = 0
    · simpa [meteredStep, step, updates, dequeueTaskWrr, idle] using balanced
    · have dequeued := charged.sameView (sameView_dequeueTaskWrr timing_blind cfg s cpu p flags idle)
      simpa [meteredStep, step, updates, idle] using dequeued
  | taskTick p => exact charged.sameView (sameView_taskTickWrr timing_blind cfg s cpu p)
  | putPrevTask prev => exact charged
  | setCurrTask =>
    show Balanced cpu start init (setCurrTaskWrr s cpu) m
    unfold setCurrTaskWrr
    cases curr : (s.rq cpu).curr with
    | none => exact balanced
    | some p => exact balanced.mark p (ok.2 p)
  | pickNextTask prev =>
    by_cases idle : (s.rq cpu).wrr.nrRunning = 0
    · simpa [meteredStep, step, updates, pickNextTaskWrr, idle] using balanced
    · simpa [meteredStep, updates, idle] using balanced.pick cfg prev idle
  | takeOver next =>
    show Balanced cpu start init (setCurr cpu (putCurr cfg cpu s) next) _
    rw [putCurr_eq]
    refine charged.setCurr next fun p here wrr => absurd ?_ (ok.1 p here)
    exact (congrArg (·.2.1) ((accounted_updateCurrWrr cfg s cpu).task p)).symm.trans wrr
  | clock time => exact balanced.clock time ok.1.1 ok.1.2

/-- The run starts with the meter at zero. A wrr task that is already current has just become
so. -/
def metered (cpu : ℕ) (s : State) : Metered := ⟨s, ⟨now cpu s, fun _ => 0⟩⟩

theorem always_charged (cfg : Config) (cpu : ℕ) (s : State)
    (fresh : ∀ p ∈ (s.rq cpu).curr, (s.task p).schedClass = .wrr →
      (s.task p).se.execStart = (s.rq cpu).clockTask)
    (acts : List Action)
    (enabled : Along (meteredStep cfg cpu) (Enabled cpu (now cpu s)) (metered cpu s) acts)
    (paired : Along (meteredStep cfg cpu) (Paired cpu) (metered cpu s) acts) :
    Always (meteredStep cfg cpu) (Charged s) (metered cpu s) acts := by
  have init : Balanced cpu (now cpu s) s s ⟨now cpu s, fun _ => 0⟩ := by
    refine ⟨fun p _ => by simp, fun p _ => by simp, fun p curr wrr => ?_, le_rfl, by omega⟩
    rw [fresh p curr wrr]
    rfl
  exact always_of_invariant (fun x => Balanced cpu (now cpu s) s x.sys x.meter)
    (fun x a => balanced_step cfg x a) (fun x balanced => balanced.charged) init (enabled.and paired)

theorem always_charged_tick :
    Along (meteredStep ⟨10, 1000, true, true⟩ 0) (Paired 0) (metered 0 quiet)
        [.enqueueTask (.nth 0) 0, .pickNextTask none, .clock 10, .taskTick (.nth 0)] ∧
      Always (meteredStep ⟨10, 1000, true, true⟩ 0) (Charged quiet) (metered 0 quiet)
        [.enqueueTask (.nth 0) 0, .pickNextTask none, .clock 10, .taskTick (.nth 0)] := by
  have paired : Along (meteredStep ⟨10, 1000, true, true⟩ 0) (Paired 0) (metered 0 quiet)
      [.enqueueTask (.nth 0) 0, .pickNextTask none, .clock 10, .taskTick (.nth 0)] :=
    ⟨trivial, trivial, trivial, trivial, trivial⟩
  refine ⟨paired, always_charged _ 0 quiet (fun p curr => nomatch curr) _ ?_ paired⟩
  exact ⟨trivial, trivial, ⟨by decide, by decide⟩, trivial, trivial⟩

/-- `set_curr_task` on its own, while the task that was picked is running. -/
def lateMark : List Action :=
  [.enqueueTask (.nth 0) 0, .pickNextTask none, .clock 10, .setCurrTask, .clock 20, .taskTick (.nth 0)]

theorem lateMark_loses_time :
    Along (meteredStep ⟨10, 1000, true, true⟩ 0) (Enabled 0 (now 0 quiet)) (metered 0 quiet) lateMark ∧
      ((run (meteredStep ⟨10, 1000, true, true⟩ 0) (metered 0 quiet) lateMark).sys.task
        (.nth 0)).se.sumExecRuntime = 10 ∧
      ¬ Always (meteredStep ⟨10, 1000, true, true⟩ 0) (Charged quiet) (metered 0 quiet) lateMark := by
  refine ⟨⟨trivial, trivial, ⟨by decide, by decide⟩, trivial, ⟨by decide, by decide⟩, trivial, trivial⟩,
    by decide, fun always => ?_⟩
  have charged := always lateMark List.prefix_rfl (.nth 0) (by decide)
  exact absurd charged (by decide)

/-! ## The core -/

theorem now_step (cfg : Config) (cpu : ℕ) (s : State) (a : Action) (still : ∀ time, a ≠ .clock time) :
    now cpu (step cfg cpu s a) = now cpu s := by
  have charged : now cpu (updateCurrWrr cfg s cpu) = now cpu s :=
    congrArg (fun rq => (rq cpu).clockTask.toNat) (accounted_updateCurrWrr cfg s cpu).rq
  have viewed : ∀ {t u}, SameView timing t u → now cpu u = now cpu t := fun same =>
    congrArg (fun seen => seen.2.toNat) (same.rq cpu)
  have switched : ∀ t next, now cpu (setCurr cpu t next) = now cpu t := fun t next => by
    simp [setCurr, State.modifyRq, now]
  cases a with
  | enqueueTask p flags => exact viewed (sameView_enqueueTaskWrr timing_blind s cpu p flags)
  | dequeueTask p flags =>
    by_cases idle : (s.rq cpu).wrr.nrRunning = 0
    · simp [step, dequeueTaskWrr, idle]
    · exact (viewed (sameView_dequeueTaskWrr timing_blind cfg s cpu p flags idle)).trans charged
  | taskTick p => exact (viewed (sameView_taskTickWrr timing_blind cfg s cpu p)).trans charged
  | putPrevTask prev => exact charged
  | setCurrTask =>
    show now cpu (setCurrTaskWrr s cpu) = _
    unfold setCurrTaskWrr
    cases (s.rq cpu).curr <;> rfl
  | pickNextTask prev =>
    by_cases idle : (s.rq cpu).wrr.nrRunning = 0
    · simp [step, pickNextTaskWrr, idle]
    · simp only [step, pickNextTaskWrr, if_neg idle, putPrevTaskWrr]
      cases (updateCurrWrr cfg s cpu).links.next (.head cpu) with
      | head c => exact charged
      | entity p => exact (switched _ _).trans charged
  | takeOver next => exact (switched _ _).trans (by rw [putCurr_eq, charged])
  | clock time => exact absurd rfl (still time)

theorem paired_while_still (cfg : Config) (cpu : ℕ) (x : Metered) (acts : List Action)
    (here : x.meter.since = now cpu x.sys) (still : ∀ a ∈ acts, ∀ time, a ≠ .clock time) :
    Along (meteredStep cfg cpu) (Paired cpu) x acts := by
  induction acts generalizing x with
  | nil => trivial
  | cons a l ih =>
    have same := now_step cfg cpu x.sys a (still a List.mem_cons_self)
    refine ⟨?_, ih _ ?_ fun b inside => still b (List.mem_cons_of_mem a inside)⟩
    · cases a <;> first | trivial | exact fun _ _ _ => here
    · show (if _ then _ else _ : Meter).since = now cpu (step cfg cpu x.sys a)
      rw [same]
      split_ifs
      · rfl
      · exact here

/-- The core puts the current task, changes it, and sets it again, all at one time: every call
of `set_curr_task` is then paired. -/
theorem paired_of_put (cfg : Config) (cpu : ℕ) (x : Metered) (prev : Option Pid) (acts : List Action)
    (still : ∀ a ∈ acts, ∀ time, a ≠ .clock time) :
    Along (meteredStep cfg cpu) (Paired cpu) x (.putPrevTask prev :: acts) := by
  refine ⟨trivial, paired_while_still cfg cpu _ acts ?_ still⟩
  exact (now_step cfg cpu x.sys (.putPrevTask prev) (fun _ => Action.noConfusion)).symm

end UnixSystems.WrrCharge
