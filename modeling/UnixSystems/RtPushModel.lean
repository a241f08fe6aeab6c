import UnixSystems.GuardedRuns

/-! The protocol by which a CPU that lowers its priority asks the CPUs with waiting real-time tasks
to push them, `tell_cpu_to_push` and `rto_push_irq_work_func` of `rt.c`. One irq work travels over
the overloaded CPUs; requests that arrive meanwhile make it go round once more. Each access to
memory that another CPU may see is a step of its own. -/
namespace UnixSystems.RtPushModel

/-- Where a CPU is in the two functions. A flag says in which of them, where they share code:
`true` in `tell_cpu_to_push`, `false` in the irq work. -/
inductive Activity (Cpu : Type) where
  | idle
  /-- Has incremented `rto_loop_next`, about to try `rto_loop_start`. -/
  | tryStart
  | acquire (tells : Bool)
  /-- Under `rto_lock`, about to see whether the irq work is under way. -/
  | test
  /-- At the top of the loop of `rto_next_cpu`. -/
  | scan (tells : Bool)
  /-- The mask is exhausted; about to read `rto_loop_next`. -/
  | check (tells : Bool)
  /-- With what `rto_next_cpu` returned, or with -1. -/
  | release (tells : Bool) (next : Option Cpu)
  | startUnlock (next : Option Cpu)
  | getRd (next : Cpu)
  | queue (next : Cpu)
  | push
  | putRd
  deriving DecidableEq, Repr

/-- The fields of the root domain. The two counters are only compared for equality, so that the sign
of the `int` does not matter. -/
structure State (Cpu : Type) where
  rtoMask : Finset Cpu
  rtoLoop : UInt32
  rtoLoopNext : UInt32
  rtoLoopStart : Bool
  rtoLock : Option Cpu
  /-- `none` is -1. -/
  rtoCpu : Option Cpu
  /-- The CPU on which `rto_push_work` is pending. -/
  work : Option Cpu
  /-- What `sched_get_rd` and `sched_put_rd` have added for the irq work. -/
  refcount : ℕ
  /-- `irq_work_queue_on` has found the work pending already. -/
  dropped : Bool
  act : Cpu → Activity Cpu
  /-- The CPUs that were overloaded when a request was made, and have neither pushed nor ceased to
  be overloaded since. No code reads this. -/
  owed : Finset Cpu

variable {Cpu : Type} [LinearOrder Cpu]

def After : Option Cpu → Cpu → Prop
  | none, _ => True
  | some k, c => k < c

instance (k : Option Cpu) (c : Cpu) : Decidable (After k c) :=
  match k with
  | none => inferInstanceAs (Decidable True)
  | some k => inferInstanceAs (Decidable (k < c))

def cpumaskNext (k : Option Cpu) (mask : Finset Cpu) : Option Cpu := (mask.filter (After k ·)).min

def State.goto (s : State Cpu) (t : Cpu) (a : Activity Cpu) : State Cpu :=
  { s with act := Function.update s.act t a }

def started : Option Cpu → Activity Cpu
  | none => .idle
  | some k => .getRd k

def passedOn : Option Cpu → Activity Cpu
  | none => .putRd
  | some k => .queue k

def advance (s : State Cpu) (t : Cpu) : State Cpu :=
  match s.act t with
  | .idle => s
  | .tryStart =>
    if s.rtoLoopStart then s.goto t .idle
    else { s with rtoLoopStart := true }.goto t (.acquire true)
  | .acquire tells =>
    if s.rtoLock = none then
      { s with rtoLock := some t }.goto t (if tells then .test else .scan false)
    else s
  | .test => if s.rtoCpu = none then s.goto t (.scan true) else s.goto t (.release true none)
  | .scan tells =>
    match cpumaskNext s.rtoCpu s.rtoMask with
    | some k => { s with rtoCpu := some k }.goto t (.release tells (some k))
    | none => { s with rtoCpu := none }.goto t (.check tells)
  | .check tells =>
    if s.rtoLoop = s.rtoLoopNext then s.goto t (.release tells none)
    else { s with rtoLoop := s.rtoLoopNext }.goto t (.scan tells)
  | .release tells next =>
    { s with rtoLock := none }.goto t (if tells then .startUnlock next else passedOn next)
  | .startUnlock next => { s with rtoLoopStart := false }.goto t (started next)
  | .getRd next => { s with refcount := s.refcount + 1 }.goto t (.queue next)
  | .queue next =>
    if s.work = none then { s with work := some next }.goto t .idle
    else { s with dropped := true }.goto t .idle
  | .push => { s with owed := s.owed.erase t }.goto t (.acquire false)
  | .putRd => { s with refcount := s.refcount - 1 }.goto t .idle

inductive Action (Cpu : Type) where
  /-- `tell_cpu_to_push` begins, with the increment of `rto_loop_next`. -/
  | request (t : Cpu)
  | advance (t : Cpu)
  /-- The pending irq work interrupts its CPU. -/
  | interrupt
  /-- `rt_set_overload`. -/
  | setOverload (c : Cpu)
  /-- `rt_clear_overload`. -/
  | clearOverload (c : Cpu)

/-- Both functions run with interrupts disabled: a CPU starts one when it is in neither. -/
def step (s : State Cpu) : Action Cpu → State Cpu
  | .request t =>
    if s.act t = .idle then
      { s with rtoLoopNext := s.rtoLoopNext + 1, owed := s.owed ∪ s.rtoMask }.goto t .tryStart
    else s
  | .advance t => advance s t
  | .interrupt =>
    match s.work with
    | none => s
    | some c => if s.act c = .idle then { s with work := none }.goto c .push else s
  | .setOverload c => { s with rtoMask := insert c s.rtoMask }
  | .clearOverload c => { s with rtoMask := s.rtoMask.erase c, owed := s.owed.erase c }

structure Start (s : State Cpu) : Prop where
  mask : s.rtoMask = ∅
  loops : s.rtoLoop = s.rtoLoopNext
  unlocked : s.rtoLock = none
  cpu : s.rtoCpu = none
  work : s.work = none
  refcount : s.refcount = 0
  dropped : s.dropped = false
  idle : ∀ t, s.act t = .idle
  owed : s.owed = ∅

/-! ## The next CPU of a mask -/

section
variable {k : Option Cpu} {mask : Finset Cpu} {c n : Cpu}

theorem cpumaskNext_le (found : cpumaskNext k mask = some n) (member : c ∈ mask) (after : After k c) : n ≤ c :=
  Finset.min_le_of_eq (Finset.mem_filter.mpr ⟨member, after⟩) found

theorem not_after_of_cpumaskNext (exhausted : cpumaskNext k mask = none) (member : c ∈ mask) : ¬ After k c := by
  intro after
  have empty := Finset.min_eq_top.mp exhausted
  have here : c ∈ mask.filter (After k ·) := Finset.mem_filter.mpr ⟨member, after⟩
  rw [empty] at here
  exact absurd here (Finset.notMem_empty c)

end

end UnixSystems.RtPushModel
