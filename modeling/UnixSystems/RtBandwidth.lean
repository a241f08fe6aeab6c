import UnixSystems.GuardedRuns

/-! The bandwidth control of the real-time class, `rt.c` without group scheduling: every CPU may
run real-time tasks for `rt_runtime` of each period, CPUs lend each other what they do not need, a
queue that has used up its time is throttled, and one timer replenishes them all. The steps are
those between which the locks are dropped: the timer's handler looks at one CPU after the other,
and a write to the two sysctl variables reaches the queues before it reaches `def_rt_bandwidth`. -/
namespace UnixSystems.RtBandwidth

/-- The real-time part of a run queue, with the queue's own `nr_running`. A runtime of `none` is
`RUNTIME_INF`. The runtimes of the source are unsigned; that they never become negative here is
what makes them agree. -/
structure RtRq where
  rtRuntime : Option ℤ
  rtTime : ℕ
  rtThrottled : Bool
  rtNrRunning : ℕ
  rtQueued : Bool
  nrRunning : ℕ
  /-- The tasks of other classes, counted in `nrRunning` as well. -/
  nrOther : ℕ
  /-- The `BUG_ON` of `dequeue_top_rt_rq` has fired. -/
  bug : Bool
  deriving DecidableEq, Repr

/-- `sched_rt_period_timer`: the state of the timer and, while its handler runs, how far it is. -/
inductive Timer (Cpu : Type) where
  | off
  | armed
  /-- About to ask for the periods that have passed, with what the last scan returned. -/
  | forwards (idle : Bool)
  /-- At the test whether the first of these CPUs can be skipped. -/
  | looks (overrun : ℕ) (todo : List Cpu) (idle throttled : Bool)
  /-- Past the test, about to take the lock of the CPU's run queue. -/
  | visits (overrun : ℕ) (cpu : Cpu) (rest : List Cpu) (idle throttled : Bool)
  deriving DecidableEq, Repr

/-- How far a write to the sysctl variables is: stored and found valid, spread over the queues. -/
inductive Stage where
  | idle
  | validated
  | spread
  deriving DecidableEq, Repr

structure State (Cpu : Type) where
  rt : Cpu → RtRq
  /-- `sysctl_sched_rt_runtime` in microseconds, `none` when negative. -/
  sysctlRuntime : Option ℕ
  sysctlPeriod : ℕ
  stage : Stage
  /-- `def_rt_bandwidth`: runtime, period and `rt_period_active`. -/
  runtime : Option ℕ
  period : ℕ
  periodActive : Bool
  timer : Timer Cpu
  /-- The feature `RT_RUNTIME_SHARE`. -/
  share : Bool
  /-- The `BUG_ON (want)` of `__disable_runtime` has fired. -/
  leaked : Bool

/-! ## The queue as a whole -/

def RtRq.dequeueTopRtRq (rq : RtRq) : RtRq :=
  if rq.rtQueued then
    { rq with
      bug := rq.bug || rq.nrRunning == 0
      nrRunning := rq.nrRunning - rq.rtNrRunning
      rtQueued := false }
  else rq

def RtRq.enqueueTopRtRq (rq : RtRq) : RtRq :=
  if rq.rtQueued ∨ rq.rtThrottled ∨ rq.rtNrRunning = 0 then rq
  else { rq with nrRunning := rq.nrRunning + rq.rtNrRunning, rtQueued := true }

def RtRq.schedRtRqEnqueue (rq : RtRq) : RtRq :=
  if rq.rtNrRunning = 0 then rq else rq.enqueueTopRtRq

/-- `enqueue_rt_entity`, as far as the counts are concerned. -/
def RtRq.enqueueRtEntity (rq : RtRq) : RtRq :=
  let rq := rq.dequeueTopRtRq
  { rq with rtNrRunning := rq.rtNrRunning + 1 }.enqueueTopRtRq

def RtRq.dequeueRtEntity (rq : RtRq) : RtRq :=
  let rq := rq.dequeueTopRtRq
  { rq with rtNrRunning := rq.rtNrRunning - 1 }.enqueueTopRtRq

/-! ## Time used and time allowed -/

def exceeds (time : ℕ) : Option ℤ → Bool
  | none => false
  | some runtime => decide (runtime < time)

def below (time : ℕ) : Option ℤ → Bool
  | none => true
  | some runtime => decide ((time : ℤ) < runtime)

def atLeast (period : ℕ) : Option ℤ → Bool
  | none => true
  | some runtime => decide ((period : ℤ) ≤ runtime)

/-- What is left of the time used after so many periods. With `RUNTIME_INF` the product wraps to
a number larger than any time. -/
def replenish (time overrun : ℕ) : Option ℤ → ℕ
  | none => 0
  | some runtime => time - min time (overrun * runtime.toNat)

def signed : Option ℤ → ℤ
  | none => -1
  | some runtime => runtime

variable {Cpu : Type} [DecidableEq Cpu]

def setRuntime (rt : Cpu → RtRq) (i : Cpu) (runtime : Option ℤ) : Cpu → RtRq :=
  Function.update rt i { rt i with rtRuntime := runtime }

/-! ## Lending -/

/-- What is taken from a queue with spare time: its share of it, but no more than brings the
taker's runtime to the period. -/
def loan (weight period : ℕ) (own spare : ℤ) : ℤ :=
  if own + spare / weight > period then period - own else spare / weight

/-- `do_balance_runtime`. The times used on the other CPUs are passed as they are read, since
nothing stops them from growing meanwhile. -/
def doBalanceRuntime (weight period : ℕ) (seen : Cpu → ℕ) (c : Cpu) :
    List Cpu → (Cpu → RtRq) → Cpu → RtRq
  | [], rt => rt
  | i :: rest, rt =>
    if i = c then doBalanceRuntime weight period seen c rest rt
    else
      match (rt c).rtRuntime, (rt i).rtRuntime with
      | some own, some runtime =>
        if runtime - seen i > 0 then
          let diff := loan weight period own (runtime - seen i)
          let rt := setRuntime (setRuntime rt i (some (runtime - diff))) c (some (own + diff))
          if own + diff = period then rt else doBalanceRuntime weight period seen c rest rt
        else doBalanceRuntime weight period seen c rest rt
      | _, _ => doBalanceRuntime weight period seen c rest rt

def taken (want runtime : ℤ) : ℤ := if want > 0 then min runtime want else want

/-- The loop of `__disable_runtime`: take back what was lent, or give back what was borrowed.
Returns what is still wanted. -/
def reclaim (c : Cpu) : List Cpu → ℤ → (Cpu → RtRq) → ℤ × (Cpu → RtRq)
  | [], want, rt => (want, rt)
  | i :: rest, want, rt =>
    if i = c then reclaim c rest want rt
    else
      match (rt i).rtRuntime with
      | none => reclaim c rest want rt
      | some runtime =>
        let diff := taken want runtime
        let rt := setRuntime rt i (some (runtime - diff))
        if want - diff = 0 then (0, rt) else reclaim c rest (want - diff) rt

/-! ## The operations -/

def State.bandwidthEnabled (s : State Cpu) : Bool := s.sysctlRuntime.isSome

def nsecPerUsec : ℕ := 1000

def State.globalRtRuntime (s : State Cpu) : Option ℕ := s.sysctlRuntime.map (· * nsecPerUsec)

def State.globalRtPeriod (s : State Cpu) : ℕ := s.sysctlPeriod * nsecPerUsec

def State.setRq (s : State Cpu) (c : Cpu) (rq : RtRq) : State Cpu :=
  { s with rt := Function.update s.rt c rq }

def State.allowance (s : State Cpu) : Option ℤ := s.runtime.map Nat.cast

section
variable (cpus : List Cpu)

def State.balanceRuntime (s : State Cpu) (c : Cpu) (seen : Cpu → ℕ) : Cpu → RtRq :=
  if s.share ∧ exceeds (s.rt c).rtTime (s.rt c).rtRuntime then
    doBalanceRuntime cpus.length s.period seen c cpus s.rt
  else s.rt

/-- Settling what was lent and borrowed, unless there is nothing to settle: what is still wanted,
and the queues. -/
def State.settle (s : State Cpu) (c : Cpu) : ℤ × (Cpu → RtRq) :=
  let own := (s.rt c).rtRuntime
  if own = none ∨ own = s.allowance then (0, s.rt)
  else reclaim c cpus (signed s.allowance - signed own) s.rt

def State.disableRuntime (s : State Cpu) (c : Cpu) : State Cpu :=
  let settled := s.settle cpus c
  let rq := { settled.2 c with rtRuntime := none, rtThrottled := false }
  { s with
    leaked := s.leaked || settled.1 != 0
    rt := Function.update settled.2 c rq.schedRtRqEnqueue }

def State.enableRuntime (s : State Cpu) (c : Cpu) : State Cpu :=
  s.setRq c { s.rt c with rtRuntime := s.allowance, rtTime := 0, rtThrottled := false }

/-- The end of `sched_rt_runtime_exceeded`: a queue that has used up its time is throttled,
unless no runtime is assigned at all. -/
def RtRq.throttle (rq : RtRq) (assigned : Option ℕ) : RtRq :=
  if exceeds rq.rtTime rq.rtRuntime then
    if assigned = some 0 then { rq with rtTime := 0 }
    else { rq with rtThrottled := true }.dequeueTopRtRq
  else rq

def State.schedRtRuntimeExceeded (s : State Cpu) (c : Cpu) (seen : Cpu → ℕ) : State Cpu :=
  if (s.rt c).rtThrottled then s
  else if atLeast s.period (s.rt c).rtRuntime then s
  else
    let rt := s.balanceRuntime cpus c seen
    { s with rt := Function.update rt c ((rt c).throttle s.runtime) }

/-- `update_curr_rt`, for a current task of the real-time class. -/
def State.updateCurrRt (s : State Cpu) (c : Cpu) (delta : ℕ) (seen : Cpu → ℕ) : State Cpu :=
  if s.bandwidthEnabled ∧ (s.rt c).rtRuntime ≠ none then
    (s.setRq c { s.rt c with rtTime := (s.rt c).rtTime + delta }).schedRtRuntimeExceeded cpus c seen
  else s

omit [DecidableEq Cpu] in
def State.startRtBandwidth (s : State Cpu) : State Cpu :=
  if s.bandwidthEnabled = false ∨ s.runtime = none ∨ s.periodActive then s
  else { s with periodActive := true, timer := .armed }

def State.enqueue (s : State Cpu) (c : Cpu) : State Cpu :=
  (s.setRq c (s.rt c).enqueueRtEntity).startRtBandwidth

def State.dequeue (s : State Cpu) (c : Cpu) : State Cpu :=
  s.setRq c (s.rt c).dequeueRtEntity

/-! ## The timer -/

/-- Without the feature the timer gives every queue its own runtime back. -/
def State.unshared (s : State Cpu) (i : Cpu) : State Cpu :=
  if s.share = false ∧ (s.rt i).rtRuntime ≠ none then
    s.setRq i { s.rt i with rtRuntime := s.allowance }
  else s

def RtRq.refill (rq : RtRq) (overrun : ℕ) : RtRq :=
  let time := replenish rq.rtTime overrun rq.rtRuntime
  if rq.rtThrottled ∧ below time rq.rtRuntime then
    { rq with rtTime := time, rtThrottled := false }.schedRtRqEnqueue
  else { rq with rtTime := time }

def State.visited (s : State Cpu) (i : Cpu) (overrun : ℕ) (seen : Cpu → ℕ) : Cpu → RtRq :=
  if (s.rt i).rtTime ≠ 0 then
    let rt := if (s.rt i).rtThrottled then s.balanceRuntime cpus i seen else s.rt
    Function.update rt i ((rt i).refill overrun)
  else if (s.rt i).rtThrottled then s.rt
  else Function.update s.rt i (s.rt i).schedRtRqEnqueue

/-- One step of `sched_rt_period_timer` and `do_sched_rt_period_timer`. -/
def State.timerStep (s : State Cpu) (overrun : ℕ) (seen : Cpu → ℕ) : State Cpu :=
  match s.timer with
  | .off => s
  | .armed => { s with timer := .forwards false }
  | .forwards idle =>
    if overrun ≠ 0 then { s with timer := .looks overrun cpus true false }
    else if idle then { s with periodActive := false, timer := .off }
    else { s with timer := .armed }
  | .looks _ [] idle throttled =>
    let unlimited := s.bandwidthEnabled = false ∨ s.runtime = none
    { s with timer := .forwards (if throttled = false ∧ unlimited then true else idle) }
  | .looks overrun (i :: rest) idle throttled =>
    let s := s.unshared i
    if (s.rt i).rtTime = 0 ∧ (s.rt i).rtNrRunning = 0 then
      { s with timer := .looks overrun rest idle throttled }
    else { s with timer := .visits overrun i rest idle throttled }
  | .visits overrun i rest idle throttled =>
    let rt := s.visited cpus i overrun seen
    let busy := (rt i).rtTime ≠ 0 ∨ (rt i).rtNrRunning ≠ 0
    { s with
      rt := rt
      timer := .looks overrun rest (if busy then false else idle) (throttled || (rt i).rtThrottled) }

/-! ## Runs -/

inductive Action (Cpu : Type) where
  | enqueue (c : Cpu)
  | dequeue (c : Cpu)
  /-- The current real-time task of the CPU is charged. -/
  | account (c : Cpu) (delta : ℕ) (seen : Cpu → ℕ)
  /-- A task of another class joins the run queue, or leaves it. -/
  | other (c : Cpu) (joins : Bool)
  | timer (overrun : ℕ) (seen : Cpu → ℕ)
  | offline (c : Cpu)
  | online (c : Cpu)
  /-- `sched_rt_handler` up to `sched_rt_global_validate`. -/
  | write (runtime : Option ℕ) (period : ℕ)
  /-- `sched_rt_global_constraints`. -/
  | spread
  /-- `sched_rt_do_global`. -/
  | commit
  | feature (share : Bool)

/-- The other classes change `nr_running` by one task of theirs. -/
def RtRq.other (rq : RtRq) (joins : Bool) : RtRq :=
  if joins then { rq with nrRunning := rq.nrRunning + 1, nrOther := rq.nrOther + 1 }
  else if rq.nrOther = 0 then rq
  else { rq with nrRunning := rq.nrRunning - 1, nrOther := rq.nrOther - 1 }

/-- `sched_rt_global_validate`: a negative runtime passes. -/
def validates (runtime : Option ℕ) (period : ℕ) : Bool :=
  0 < period && runtime.all (· ≤ period)

/-- The mutex of `sched_rt_handler` admits one write at a time. -/
def step (s : State Cpu) : Action Cpu → State Cpu
  | .enqueue c => s.enqueue c
  | .dequeue c => s.dequeue c
  | .account c delta seen => s.updateCurrRt cpus c delta seen
  | .other c joins => s.setRq c ((s.rt c).other joins)
  | .timer overrun seen => s.timerStep cpus overrun seen
  | .offline c => s.disableRuntime cpus c
  | .online c => s.enableRuntime c
  | .write runtime period =>
    if s.stage = .idle ∧ validates runtime period then
      { s with sysctlRuntime := runtime, sysctlPeriod := period, stage := .validated }
    else s
  | .spread =>
    if s.stage = .validated then
      { s with
        rt := fun c => { s.rt c with rtRuntime := s.globalRtRuntime.map Nat.cast }
        stage := .spread }
    else s
  | .commit =>
    if s.stage = .spread then
      { s with runtime := s.globalRtRuntime, period := s.globalRtPeriod, stage := .idle }
    else s
  | .feature share => { s with share := share }

end

/-- The state `sched_init` leaves behind. -/
structure Start (s : State Cpu) : Prop where
  assigned : s.runtime = s.globalRtRuntime
  runtime : ∀ c, (s.rt c).rtRuntime = s.allowance
  time : ∀ c, (s.rt c).rtTime = 0
  throttled : ∀ c, (s.rt c).rtThrottled = false
  empty : ∀ c, (s.rt c).rtNrRunning = 0
  queued : ∀ c, (s.rt c).rtQueued = false
  counted : ∀ c, (s.rt c).nrRunning = (s.rt c).nrOther
  sound : ∀ c, (s.rt c).bug = false
  stage : s.stage = .idle
  inactive : s.periodActive = false
  timer : s.timer = .off
  leaked : s.leaked = false

theorem setRq_self (s : State Cpu) (c : Cpu) (rq : RtRq) : (s.setRq c rq).rt c = rq := by
  simp [State.setRq]

theorem setRq_of_ne (s : State Cpu) {c j : Cpu} (other : j ≠ c) (rq : RtRq) : (s.setRq c rq).rt j = s.rt j := by
  simp [State.setRq, other]

/-! ## What the loops over the CPUs do -/

theorem loan_le {weight period : ℕ} {own spare : ℤ} (nonneg : 0 ≤ spare) :
    loan weight period own spare ≤ spare := by
  have part : spare / weight ≤ spare := Int.ediv_le_self _ nonneg
  unfold loan
  split <;> omega

theorem loan_nonneg (weight period : ℕ) {own spare : ℤ} (holds : 0 ≤ own) (nonneg : 0 ≤ spare) :
    0 ≤ own + loan weight period own spare := by
  have part : 0 ≤ spare / weight := Int.ediv_nonneg nonneg (Int.natCast_nonneg weight)
  unfold loan
  split <;> omega

section
variable {rt : Cpu → RtRq} {c i j : Cpu} {weight period : ℕ} {seen : Cpu → ℕ} {want : ℤ}

@[simp] theorem setRuntime_self {runtime : Option ℤ} :
    setRuntime rt i runtime i = { rt i with rtRuntime := runtime } :=
  Function.update_self i _ _

theorem setRuntime_of_ne {runtime : Option ℤ} (other : j ≠ i) : setRuntime rt i runtime j = rt j :=
  Function.update_of_ne other _ _

theorem doBalanceRuntime_induction (P : (Cpu → RtRq) → Prop)
    (lends : ∀ rt : Cpu → RtRq, P rt → ∀ i, i ≠ c → ∀ own runtime diff : ℤ,
      (rt c).rtRuntime = some own → (rt i).rtRuntime = some runtime →
      (0 ≤ own → 0 ≤ own + diff) → diff ≤ runtime →
      P (setRuntime (setRuntime rt i (some (runtime - diff))) c (some (own + diff))))
    (cpus : List Cpu) (start : P rt) : P (doBalanceRuntime weight period seen c cpus rt) := by
  induction cpus generalizing rt with
  | nil => exact start
  | cons i rest ih =>
    rw [doBalanceRuntime]
    by_cases self : i = c
    · rw [if_pos self]
      exact ih start
    rw [if_neg self]
    cases own : (rt c).rtRuntime with
    | none => exact ih start
    | some o =>
      cases theirs : (rt i).rtRuntime with
      | none => exact ih start
      | some runtime =>
        dsimp only
        by_cases spare : runtime - seen i > 0
        · have lent := lends rt start i self o runtime _ own theirs
            (fun holds => loan_nonneg weight period holds spare.le) ((loan_le spare.le).trans (by omega))
          rw [if_pos spare]
          split
          · exact lent
          · exact ih lent
        · rw [if_neg spare]
          exact ih start

theorem reclaim_induction (P : ℤ → (Cpu → RtRq) → Prop)
    (takes : ∀ want (rt : Cpu → RtRq), P want rt → ∀ i, i ≠ c → ∀ runtime : ℤ,
      (rt i).rtRuntime = some runtime →
      P (want - taken want runtime) (setRuntime rt i (some (runtime - taken want runtime))))
    (cpus : List Cpu) (start : P want rt) :
    P (reclaim c cpus want rt).1 (reclaim c cpus want rt).2 := by
  induction cpus generalizing want rt with
  | nil => exact start
  | cons i rest ih =>
    rw [reclaim]
    by_cases self : i = c
    · rw [if_pos self]
      exact ih start
    rw [if_neg self]
    cases theirs : (rt i).rtRuntime with
    | none => exact ih start
    | some runtime =>
      have after := takes want rt start i self runtime theirs
      dsimp only
      split
      · next satisfied => exact satisfied ▸ after
      · exact ih after

def SameBut (rt after : Cpu → RtRq) : Prop := ∀ j, { after j with rtRuntime := (rt j).rtRuntime } = rt j

omit [DecidableEq Cpu] in
theorem SameBut.refl (rt : Cpu → RtRq) : SameBut rt rt := fun _ => rfl

omit [DecidableEq Cpu] in
theorem SameBut.rtNrRunning {after : Cpu → RtRq} (same : SameBut rt after) (j : Cpu) :
    (after j).rtNrRunning = (rt j).rtNrRunning := by
  rw [← same j]

theorem SameBut.setRuntime {after : Cpu → RtRq} (same : SameBut rt after) (runtime : Option ℤ) :
    SameBut rt (setRuntime after i runtime) := by
  intro j
  by_cases here : j = i
  · subst here
    rw [setRuntime_self]
    exact same j
  · rw [setRuntime_of_ne here]
    exact same j

theorem sameBut_doBalanceRuntime (cpus : List Cpu) :
    SameBut rt (doBalanceRuntime weight period seen c cpus rt) :=
  doBalanceRuntime_induction (SameBut rt)
    (fun _ same _ _ _ _ _ _ _ _ _ => (same.setRuntime _).setRuntime _) cpus (SameBut.refl rt)

theorem sameBut_balanceRuntime (s : State Cpu) (cpus : List Cpu) (c : Cpu) (seen : Cpu → ℕ) :
    SameBut s.rt (s.balanceRuntime cpus c seen) := by
  unfold State.balanceRuntime
  split
  · exact sameBut_doBalanceRuntime cpus
  · exact SameBut.refl s.rt

theorem sameBut_reclaim (cpus : List Cpu) : SameBut rt (reclaim c cpus want rt).2 :=
  reclaim_induction (fun _ => SameBut rt) (fun _ _ same _ _ _ _ => same.setRuntime _) cpus
    (SameBut.refl rt)

omit [DecidableEq Cpu] in
@[simp] theorem startRtBandwidth_rt (s : State Cpu) : s.startRtBandwidth.rt = s.rt := by
  unfold State.startRtBandwidth
  split <;> rfl

theorem sameBut_settle (s : State Cpu) (cpus : List Cpu) (c : Cpu) : SameBut s.rt (s.settle cpus c).2 := by
  unfold State.settle
  dsimp only
  split
  · exact SameBut.refl s.rt
  · exact sameBut_reclaim cpus

theorem reclaim_self (cpus : List Cpu) : (reclaim c cpus want rt).2 c = rt c :=
  reclaim_induction (fun _ after => after c = rt c)
    (fun _ _ same _ other _ _ => (setRuntime_of_ne other.symm).trans same) cpus rfl

end

end UnixSystems.RtBandwidth
