import UnixSystems.WrrModel

/-! The completely fair class of fair.c, as far as it decides which task runs next: one
run queue whose tasks all belong to the root task group, so that every entity is a task
and nothing is throttled. The red-black tree is kept as its in-order sequence.

Load tracking, statistics of waiting and bandwidth control are left out. What converts
time into virtual time and compares granularities is a parameter. -/
namespace UnixSystems.FairModel
open WrrModel

structure Config extends WrrModel.Config where
  /-- `CONFIG_FAIR_GROUP_SCHED` -/
  groupSched : Bool
  /-- `calc_delta_fair`, as a function of the time and the weight of the entity -/
  calcDeltaFair : UInt64 → UInt64 → UInt64
  wakeupGranularity : UInt64
  minGranularity : UInt64
  /-- how far behind a waking entity may be placed -/
  sleeperThresh : UInt64
  nrLatency : UInt32
  nextBuddy : Bool
  lastBuddy : Bool
  wakeupPreemption : Bool

structure Entity where
  onRq : Bool
  vruntime : UInt64
  weight : UInt64
  prevSumExecRuntime : UInt64

structure CfsRq where
  nrRunning : UInt32
  hNrRunning : UInt32
  minVruntime : UInt64
  tasksTimeline : List Pid
  curr : Option Pid
  next : Option Pid
  last : Option Pid
  skip : Option Pid

/-- `puts` records the calls of `put_prev_task` methods since the last `schedule()`, and
`oops` that a null entity was dereferenced. -/
structure State where
  core : WrrModel.State
  cfs : CfsRq
  entity : Pid → Entity
  puts : List (SchedClass × Option Pid)
  oops : Bool

def State.modifyEntity (s : State) (p : Pid) (f : Entity → Entity) : State :=
  { s with entity := Function.update s.entity p (f (s.entity p)) }

def State.vruntime (s : State) (p : Pid) : UInt64 := (s.entity p).vruntime

def maxVruntime (maxVruntime vruntime : UInt64) : UInt64 :=
  if 0 < (vruntime - maxVruntime).toInt64 then vruntime else maxVruntime

def minVruntime (minVruntime vruntime : UInt64) : UInt64 :=
  if (vruntime - minVruntime).toInt64 < 0 then vruntime else minVruntime

def entityBefore (s : State) (a b : Pid) : Bool := (s.vruntime a - s.vruntime b).toInt64 < 0

/-! ## The tree -/

def timelineInsert (s : State) (se : Pid) : List Pid → List Pid
  | [] => [se]
  | entry :: rest =>
    if entityBefore s se entry then se :: entry :: rest else entry :: timelineInsert s se rest

def insertEntity (s : State) (se : Pid) : State :=
  { s with cfs := { s.cfs with tasksTimeline := timelineInsert s se s.cfs.tasksTimeline } }

def eraseEntity (s : State) (se : Pid) : State :=
  { s with cfs := { s.cfs with tasksTimeline := s.cfs.tasksTimeline.erase se } }

def pickFirstEntity (s : State) : Option Pid := s.cfs.tasksTimeline.head?

def pickEntityAfter (s : State) (se : Pid) : Option Pid :=
  (s.cfs.tasksTimeline.dropWhile (· ≠ se)).tail.head?

/-! ## Time -/

def updateMinVruntime (s : State) : State :=
  let curr := s.cfs.curr.filter fun c => (s.entity c).onRq
  let vruntime := match curr with
    | some c => s.vruntime c
    | none => s.cfs.minVruntime
  let vruntime := match pickFirstEntity s, curr with
    | none, _ => vruntime
    | some se, none => s.vruntime se
    | some se, some _ => minVruntime vruntime (s.vruntime se)
  { s with cfs := { s.cfs with minVruntime := maxVruntime s.cfs.minVruntime vruntime } }

def updateCurr (cfg : Config) (cpu : ℕ) (s : State) : State :=
  match s.cfs.curr with
  | none => s
  | some curr =>
    let now := (s.core.rq cpu).clockTask
    let deltaExec := now - (s.core.task curr).se.execStart
    if deltaExec.toInt64 ≤ 0 then s
    else
      let s := { s with core := s.core.modifyTask curr fun t => { t with se :=
        { execStart := now
          sumExecRuntime := t.se.sumExecRuntime + deltaExec
          execMax := if cfg.schedstats then max deltaExec t.se.execMax else t.se.execMax } } }
      let s := s.modifyEntity curr fun e =>
        { e with vruntime := e.vruntime + cfg.calcDeltaFair deltaExec e.weight }
      updateMinVruntime s

def placeEntity (cfg : Config) (s : State) (se : Pid) : State :=
  s.modifyEntity se fun e =>
    { e with vruntime := maxVruntime e.vruntime (s.cfs.minVruntime - cfg.sleeperThresh) }

/-! ## Buddies -/

def clearBuddies (s : State) (se : Pid) : State :=
  { s with cfs := { s.cfs with
    last := if s.cfs.last = some se then none else s.cfs.last
    next := if s.cfs.next = some se then none else s.cfs.next
    skip := if s.cfs.skip = some se then none else s.cfs.skip } }

def setLastBuddy (s : State) (se : Pid) : State :=
  if (s.core.task se).policy = .idle ∨ (s.entity se).onRq = false then s
  else { s with cfs := { s.cfs with last := some se } }

def setNextBuddy (s : State) (se : Pid) : State :=
  if (s.core.task se).policy = .idle ∨ (s.entity se).onRq = false then s
  else { s with cfs := { s.cfs with next := some se } }

def setSkipBuddy (s : State) (se : Pid) : State :=
  { s with cfs := { s.cfs with skip := some se } }

/-- Should `se` preempt `curr`: -1, 0 or 1. -/
def wakeupPreemptEntity (cfg : Config) (s : State) (curr se : Pid) : ℤ :=
  let vdiff := (s.vruntime curr - s.vruntime se).toInt64
  if vdiff ≤ 0 then -1
  else
    let gran := (cfg.calcDeltaFair cfg.wakeupGranularity (s.entity se).weight).toInt64
    if gran < vdiff then 1 else 0

/-! ## Entities -/

def enqueueMigrated : UInt32 := 0x40

def dequeueSleep : UInt32 := 0x01

def dequeueSave : UInt32 := 0x02

def dequeueMove : UInt32 := 0x04

/-- The current entity is not kept in the tree. -/
def enqueueEntity (cfg : Config) (cpu : ℕ) (s : State) (se : Pid) (flags : UInt32) : State :=
  let renorm := flags &&& enqueueWakeup = 0 ∨ flags &&& enqueueMigrated ≠ 0
  let curr := s.cfs.curr = some se
  let renormalise (s : State) : State :=
    s.modifyEntity se fun e => { e with vruntime := e.vruntime + s.cfs.minVruntime }
  let s := if renorm ∧ curr then renormalise s else s
  let s := updateCurr cfg cpu s
  let s := if renorm ∧ ¬ curr then renormalise s else s
  let s := { s with cfs := { s.cfs with nrRunning := s.cfs.nrRunning + 1 } }
  let s := if flags &&& enqueueWakeup ≠ 0 then placeEntity cfg s se else s
  let s := if curr then s else insertEntity s se
  s.modifyEntity se fun e => { e with onRq := true }

def dequeueEntity (cfg : Config) (cpu : ℕ) (s : State) (se : Pid) (flags : UInt32) : State :=
  let s := updateCurr cfg cpu s
  let s := clearBuddies s se
  let s := if s.cfs.curr ≠ some se then eraseEntity s se else s
  let s := s.modifyEntity se fun e => { e with onRq := false }
  let s := { s with cfs := { s.cfs with nrRunning := s.cfs.nrRunning - 1 } }
  let s := if flags &&& dequeueSleep = 0 then
      s.modifyEntity se fun e => { e with vruntime := e.vruntime - s.cfs.minVruntime }
    else s
  if flags &&& (dequeueSave ||| dequeueMove) ≠ dequeueSave then updateMinVruntime s else s

def setNextEntity (cpu : ℕ) (s : State) (se : Pid) : State :=
  let s := if (s.entity se).onRq then eraseEntity s se else s
  let s := { s with core := s.core.modifyTask se fun t =>
    { t with se := { t.se with execStart := (s.core.rq cpu).clockTask } } }
  let s := { s with cfs := { s.cfs with curr := some se } }
  s.modifyEntity se fun e => { e with prevSumExecRuntime := (s.core.task se).se.sumExecRuntime }

def putPrevEntity (cfg : Config) (cpu : ℕ) (s : State) (prev : Pid) : State :=
  let s := if (s.entity prev).onRq then updateCurr cfg cpu s else s
  let s := if (s.entity prev).onRq then insertEntity s prev else s
  { s with cfs := { s.cfs with curr := none } }

/-- `curr`, when it is set and nothing was found or it is to the left of what was found. -/
def leftOf (s : State) (curr found : Option Pid) : Option Pid :=
  match found, curr with
  | none, _ => curr
  | some a, none => some a
  | some a, some c => if entityBefore s c a then some c else some a

/-- A candidate is preferred to the choice made so far if that is not too unfair. -/
def prefer (cfg : Config) (s : State) (left : Pid) (candidate : Option Pid) (se : Pid) : Pid :=
  match candidate with
  | none => se
  | some c => if wakeupPreemptEntity cfg s c left < 1 then c else se

/-- Without an entity to the left there is nothing to compare the buddies with, and
nothing to return. -/
def pickNextEntity (cfg : Config) (s : State) (curr : Option Pid) : Option (State × Pid) :=
  match leftOf s curr (pickFirstEntity s) with
  | none => none
  | some left =>
    let second := if s.cfs.skip = some left then
        if some left = curr then pickFirstEntity s else leftOf s curr (pickEntityAfter s left)
      else none
    let se := prefer cfg s left second left
    let se := prefer cfg s left s.cfs.last se
    let se := prefer cfg s left s.cfs.next se
    some (clearBuddies s se, se)

/-! ## Methods of the class -/

def enqueueTaskFair (cfg : Config) (cpu : ℕ) (s : State) (p : Pid) (flags : UInt32) : State :=
  let s := if (s.entity p).onRq then s else enqueueEntity cfg cpu s p flags
  let s := { s with cfs := { s.cfs with hNrRunning := s.cfs.hNrRunning + 1 } }
  { s with core := addNrRunning s.core cpu 1 }

def dequeueTaskFair (cfg : Config) (cpu : ℕ) (s : State) (p : Pid) (flags : UInt32) : State :=
  let s := dequeueEntity cfg cpu s p flags
  let s := { s with cfs := { s.cfs with hNrRunning := s.cfs.hNrRunning - 1 } }
  { s with core := subNrRunning s.core cpu 1 }

def putPrevTaskFair (cfg : Config) (cpu : ℕ) (s : State) (prev : Pid) : State :=
  putPrevEntity cfg cpu { s with puts := (.fair, some prev) :: s.puts } prev

def yieldTaskFair (cfg : Config) (cpu : ℕ) (s : State) (curr : Pid) (now : UInt64) : State :=
  if (s.core.rq cpu).nrRunning = 1 then s
  else
    let s := clearBuddies s curr
    let s := if (s.core.task curr).policy = .batch then s
      else updateCurr cfg cpu { s with core := updateRqClock s.core cpu now }
    setSkipBuddy s curr

def reschedTask (cpu : ℕ) (s : State) : State := { s with core := reschedCurr s.core cpu }

def wfFork : UInt32 := 0x02

/-- The end of `check_preempt_wakeup`, where the current task is to be preempted. -/
def preemptWakeup (cfg : Config) (cpu : ℕ) (s : State) (curr : Pid) (scale : Bool) : State :=
  let s := reschedTask cpu s
  if (s.entity curr).onRq ∧ cfg.lastBuddy ∧ scale then setLastBuddy s curr else s

def checkPreemptWakeup (cfg : Config) (cpu : ℕ) (s : State) (curr p : Pid) (wakeFlags : UInt32) :
    State :=
  let scale := decide (cfg.nrLatency ≤ s.cfs.nrRunning)
  if curr = p then s
  else
    let marked := cfg.nextBuddy ∧ scale ∧ wakeFlags &&& wfFork = 0
    let s := if marked then setNextBuddy s p else s
    if (s.core.rq cpu).needResched then s
    else if (s.core.task curr).policy = .idle ∧ (s.core.task p).policy ≠ .idle then
      preemptWakeup cfg cpu s curr scale
    else if (s.core.task p).policy ≠ .normal ∨ ¬ cfg.wakeupPreemption then s
    else
      let s := updateCurr cfg cpu s
      if wakeupPreemptEntity cfg s curr p = 1 then
        preemptWakeup cfg cpu (if marked then s else setNextBuddy s p) curr scale
      else s

/-- `idealRuntime` is what `sched_slice` grants the current entity. -/
def checkPreemptTick (cfg : Config) (cpu : ℕ) (s : State) (curr : Pid) (idealRuntime : UInt64) :
    State :=
  let deltaExec := (s.core.task curr).se.sumExecRuntime - (s.entity curr).prevSumExecRuntime
  if idealRuntime < deltaExec then clearBuddies (reschedTask cpu s) curr
  else if deltaExec < cfg.minGranularity then s
  else match pickFirstEntity s with
    | none => { s with oops := true }
    | some se =>
      let delta := s.vruntime curr - s.vruntime se
      if delta.toInt64 < 0 then s else if idealRuntime < delta then reschedTask cpu s else s

def taskTickFair (cfg : Config) (cpu : ℕ) (s : State) (curr : Pid) (idealRuntime : UInt64) : State :=
  let s := updateCurr cfg cpu s
  if 1 < s.cfs.nrRunning then checkPreemptTick cfg cpu s curr idealRuntime else s

end UnixSystems.FairModel
