import UnixSystems.FairModel

/-! The scheduler core of core.c on one CPU, with the classes wrr, fair and idle: no task
is of the stop, deadline or real-time class, whose picks then find nothing. A call goes to
the method of the task's class; `none` is the idle task. With a single run queue there is
no other CPU to pull tasks from, so `idle_balance` finds nothing either. -/
namespace UnixSystems.CoreModel
open WrrModel hiding State Config
open FairModel

def classOf (s : State) : Option Pid → SchedClass
  | none => .idle
  | some p => (s.core.task p).schedClass

def curr (cpu : ℕ) (s : State) : Option Pid := (s.core.rq cpu).curr

def enqueueNoclock : UInt32 := 0x08

def dequeueNoclock : UInt32 := 0x08

def tickClock (cpu : ℕ) (s : State) (now : UInt64) : State :=
  { s with core := updateRqClock s.core cpu now }

def enqueueTask (cfg : Config) (cpu : ℕ) (s : State) (p : Pid) (flags : UInt32) (now : UInt64) :
    State :=
  let s := if flags &&& enqueueNoclock = 0 then tickClock cpu s now else s
  match (s.core.task p).schedClass with
  | .fair => enqueueTaskFair cfg cpu s p flags
  | .wrr => { s with core := enqueueTaskWrr s.core cpu p flags }
  | _ => s

def dequeueTask (cfg : Config) (cpu : ℕ) (s : State) (p : Pid) (flags : UInt32) (now : UInt64) :
    State :=
  let s := if flags &&& dequeueNoclock = 0 then tickClock cpu s now else s
  match (s.core.task p).schedClass with
  | .fair => dequeueTaskFair cfg cpu s p flags
  | .wrr => { s with core := dequeueTaskWrr cfg.toConfig s.core cpu p flags }
  | _ => s

/-! ## Picking -/

/-- The method of the idle class does nothing to the run queue. -/
def putPrevTask (cfg : Config) (cpu : ℕ) (s : State) : Option Pid → State
  | none => { s with puts := (.idle, none) :: s.puts }
  | some p =>
    match (s.core.task p).schedClass with
    | .fair => putPrevTaskFair cfg cpu s p
    | .wrr =>
      { s with
        core := putPrevTaskWrr cfg.toConfig s.core cpu (some p)
        puts := (.wrr, some p) :: s.puts }
    | _ => s

/-- What wrr.c does is to call its own `putPrevTaskWrr`, whatever the class of `prev`. -/
def pickNextWrr (cfg : Config) (cpu : ℕ) (s : State) (prev : Option Pid) : State × Option Pid :=
  let (core, next) := pickNextTaskWrr cfg.toConfig s.core cpu prev
  ({ s with
      core := core
      puts := if (s.core.rq cpu).wrr.nrRunning = 0 then s.puts else (.wrr, prev) :: s.puts },
    next)

/-- The short cut of group scheduling: the current entity is compared with the tree
before it is put back. -/
def pickNextFairGroup (cfg : Config) (cpu : ℕ) (s : State) (prev : Pid) : State × Option Pid :=
  let running := s.cfs.curr.filter fun c => (s.entity c).onRq
  let s := if running.isSome then updateCurr cfg cpu s else s
  match pickNextEntity cfg s running with
  | none => ({ s with oops := true }, none)
  | some (s, p) =>
    if prev = p then (s, some p)
    else (setNextEntity cpu (putPrevEntity cfg cpu s prev) p, some p)

def pickNextFairSimple (cfg : Config) (cpu : ℕ) (s : State) (prev : Option Pid) :
    State × Option Pid :=
  let s := putPrevTask cfg cpu s prev
  match pickNextEntity cfg s none with
  | none => ({ s with oops := true }, none)
  | some (s, p) => (setNextEntity cpu s p, some p)

def pickNextTaskFair (cfg : Config) (cpu : ℕ) (s : State) (prev : Option Pid) :
    State × Option Pid :=
  if s.cfs.nrRunning = 0 then (s, none)
  else match prev with
    | none => pickNextFairSimple cfg cpu s none
    | some p =>
      if cfg.groupSched ∧ (s.core.task p).schedClass = .fair then pickNextFairGroup cfg cpu s p
      else pickNextFairSimple cfg cpu s (some p)

def pickFairOrIdle (cfg : Config) (cpu : ℕ) (s : State) (prev : Option Pid) :
    State × SchedClass × Option Pid :=
  match pickNextTaskFair cfg cpu s prev with
  | (s, some p) => (s, .fair, some p)
  | (s, none) => (putPrevTask cfg cpu s prev, .idle, none)

def pickNextTask (cfg : Config) (cpu : ℕ) (s : State) (prev : Option Pid) :
    State × SchedClass × Option Pid :=
  if (classOf s prev = .idle ∨ classOf s prev = .fair) ∧
      (s.core.rq cpu).nrRunning = s.cfs.hNrRunning then
    pickFairOrIdle cfg cpu s prev
  else match pickNextWrr cfg cpu s prev with
    | (s, some p) => (s, .wrr, some p)
    | (s, none) => pickFairOrIdle cfg cpu s prev

/-! ## Scheduling -/

/-- `sleep` says that the task is not being preempted, has left the running state and has
no signal pending. -/
def deactivatePrev (cfg : Config) (cpu : ℕ) (s : State) (sleep : Bool) (now : UInt64) : State :=
  match curr cpu s, sleep with
  | some prev, true => dequeueTask cfg cpu s prev (dequeueSleep ||| dequeueNoclock) now
  | _, _ => s

def schedule (cfg : Config) (cpu : ℕ) (s : State) (sleep : Bool) (now : UInt64) :
    State × SchedClass :=
  let prev := curr cpu s
  let s := tickClock cpu { s with puts := [] } now
  let s := deactivatePrev cfg cpu s sleep now
  let (s, picker, next) := pickNextTask cfg cpu s prev
  ({ s with core := s.core.modifyRq cpu fun rq => { rq with curr := next, needResched := false } },
    picker)

/-- A wakeup of a task of another class only asks for a reschedule. -/
def checkPreemptCurr (cfg : Config) (cpu : ℕ) (s : State) (p : Pid) (flags : UInt32) : State :=
  match curr cpu s with
  | none => reschedTask cpu s
  | some c =>
    match (s.core.task c).schedClass, (s.core.task p).schedClass with
    | .fair, .fair => checkPreemptWakeup cfg cpu s c p flags
    | .fair, .wrr => reschedTask cpu s
    | _, _ => s

def schedYield (cfg : Config) (cpu : ℕ) (s : State) (now : UInt64) : State :=
  match curr cpu s with
  | none => s
  | some c =>
    match (s.core.task c).schedClass with
    | .fair => yieldTaskFair cfg cpu s c now
    | .wrr => { s with core := yieldTaskWrr s.core cpu }
    | _ => s

def schedulerTick (cfg : Config) (cpu : ℕ) (s : State) (now idealRuntime : UInt64) : State :=
  let s := tickClock cpu s now
  match curr cpu s with
  | none => s
  | some c =>
    match (s.core.task c).schedClass with
    | .fair => taskTickFair cfg cpu s c idealRuntime
    | .wrr => { s with core := taskTickWrr cfg.toConfig s.core cpu c }
    | _ => s

inductive Action where
  | enqueue (p : Pid) (flags : UInt32) (now : UInt64)
  | dequeue (p : Pid) (flags : UInt32) (now : UInt64)
  | checkPreempt (p : Pid) (flags : UInt32)
  | yieldCpu (now : UInt64)
  | tick (now idealRuntime : UInt64)
  | schedule (sleep : Bool) (now : UInt64)

def step (cfg : Config) (cpu : ℕ) (s : State) : Action → State
  | .enqueue p flags now => enqueueTask cfg cpu s p flags now
  | .dequeue p flags now => dequeueTask cfg cpu s p flags now
  | .checkPreempt p flags => checkPreemptCurr cfg cpu s p flags
  | .yieldCpu now => schedYield cfg cpu s now
  | .tick now idealRuntime => schedulerTick cfg cpu s now idealRuntime
  | .schedule sleep now => (CoreModel.schedule cfg cpu s sleep now).1

end UnixSystems.CoreModel
