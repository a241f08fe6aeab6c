import UnixSystems.CircularList
import UnixSystems.KernelTypes

/-! The weighted round robin class of wrr.c, one definition per function, over the run
queues of any number of CPUs. The run list of a CPU is threaded through the tasks it
holds; `unsigned int` counters wrap. The idle task of a CPU is `none`.

The accounting of thread groups and cpu cgroups, the tick dependency of `NO_HZ_FULL`
and the locks are left out: nothing here reads them. -/
namespace UnixSystems.WrrModel
open CircularList

/-- Constants and options that the kernel configuration fixes: `WRR_TIMESLICE`,
`USEC_PER_SEC / HZ`, and whether posix timers and scheduler statistics are compiled in. -/
structure Config where
  timeslice : UInt32
  tickUsec : UInt64
  posixTimers : Bool
  schedstats : Bool

inductive SchedClass where
  | stop
  | dl
  | rt
  | wrr
  | fair
  | idle
deriving DecidableEq

inductive Policy where
  | normal
  | fifo
  | rr
  | batch
  | idle
  | deadline
  | wrr
deriving DecidableEq

structure SchedEntity where
  execStart : UInt64
  sumExecRuntime : UInt64
  execMax : UInt64

/-- The run list links of the entity are the node of its task. -/
structure SchedWrrEntity where
  weight : UInt32
  timeSlice : UInt32
  timeout : UInt64

structure Task where
  se : SchedEntity
  wrr : SchedWrrEntity
  policy : Policy
  schedClass : SchedClass
  cpu : ℕ
  rlimitRttime : UInt64
  schedExp : UInt64

structure WrrRq where
  nrRunning : UInt32
  totalWeight : UInt32

structure Rq where
  nrRunning : UInt32
  wrr : WrrRq
  curr : Option Pid
  clockTask : UInt64
  needResched : Bool

inductive Node where
  | head (cpu : ℕ)
  | entity (p : Pid)
deriving DecidableEq

structure State where
  links : Links Node
  task : Pid → Task
  rq : ℕ → Rq
  overload : Bool

def State.modifyTask (s : State) (p : Pid) (f : Task → Task) : State :=
  { s with task := Function.update s.task p (f (s.task p)) }

def State.modifyRq (s : State) (cpu : ℕ) (f : Rq → Rq) : State :=
  { s with rq := Function.update s.rq cpu (f (s.rq cpu)) }

def initWrrRq (s : State) (cpu : ℕ) : State :=
  { s.modifyRq cpu (fun rq => { rq with wrr := ⟨0, 0⟩ }) with
    links := s.links.initListHead (.head cpu) }

/-- The current task of another class is skipped, and so is time that did not advance. -/
def updateCurrWrr (cfg : Config) (s : State) (cpu : ℕ) : State :=
  match (s.rq cpu).curr with
  | none => s
  | some curr =>
    if (s.task curr).schedClass ≠ .wrr then s
    else
      let now := (s.rq cpu).clockTask
      let deltaExec := now - (s.task curr).se.execStart
      if deltaExec.toInt64 ≤ 0 then s
      else s.modifyTask curr fun t =>
        { t with se :=
          { execStart := now
            sumExecRuntime := t.se.sumExecRuntime + deltaExec
            execMax := if cfg.schedstats then max t.se.execMax deltaExec else t.se.execMax } }

def enqueueWakeup : UInt32 := 0x01

def enqueueHead : UInt32 := 0x10

def addNrRunning (s : State) (cpu : ℕ) (count : UInt32) : State :=
  let prevNr := (s.rq cpu).nrRunning
  let s := s.modifyRq cpu fun rq => { rq with nrRunning := prevNr + count }
  if prevNr < 2 ∧ 2 ≤ prevNr + count then { s with overload := true } else s

def subNrRunning (s : State) (cpu : ℕ) (count : UInt32) : State :=
  s.modifyRq cpu fun rq => { rq with nrRunning := rq.nrRunning - count }

def enqueueTaskWrr (s : State) (cpu : ℕ) (p : Pid) (flags : UInt32) : State :=
  let s := if flags &&& enqueueWakeup ≠ 0 then
      s.modifyTask p fun t => { t with wrr := { t.wrr with timeout := 0 } }
    else s
  let s := { s with links :=
    if flags &&& enqueueHead ≠ 0 then s.links.listAdd (.entity p) (.head cpu)
    else s.links.listAddTail (.entity p) (.head cpu) }
  let s := s.modifyRq cpu fun rq =>
    { rq with wrr := ⟨rq.wrr.nrRunning + 1, rq.wrr.totalWeight + (s.task p).wrr.weight⟩ }
  addNrRunning s cpu 1

/-- The flags are not looked at. -/
def dequeueTaskWrr (cfg : Config) (s : State) (cpu : ℕ) (p : Pid) (_flags : UInt32) : State :=
  if (s.rq cpu).wrr.nrRunning = 0 then s
  else
    let s := updateCurrWrr cfg s cpu
    let s := { s with links := s.links.listDelInit (.entity p) }
    let s := s.modifyRq cpu fun rq =>
      { rq with wrr := ⟨rq.wrr.nrRunning - 1, rq.wrr.totalWeight - (s.task p).wrr.weight⟩ }
    subNrRunning s cpu 1

def putPrevTaskWrr (cfg : Config) (s : State) (cpu : ℕ) (_prev : Option Pid) : State :=
  updateCurrWrr cfg s cpu

/-- `list_first_entry` of an empty list would be a pointer into the run queue; the
counter is then non-zero although nothing is queued. -/
def pickNextTaskWrr (cfg : Config) (s : State) (cpu : ℕ) (prev : Option Pid) :
    State × Option Pid :=
  if (s.rq cpu).wrr.nrRunning = 0 then (s, none)
  else
    let s := putPrevTaskWrr cfg s cpu prev
    match s.links.next (.head cpu) with
    | .head _ => (s, none)
    | .entity p =>
      (s.modifyTask p fun t => { t with se := { t.se with execStart := (s.rq cpu).clockTask } },
        some p)

def rlimInfinity : UInt64 := 0xFFFFFFFFFFFFFFFF

def watchdog (cfg : Config) (s : State) (p : Pid) : State :=
  if cfg.posixTimers then
    let soft := (s.task p).rlimitRttime
    let hard := (s.task p).rlimitRttime
    if soft ≠ rlimInfinity then
      let s := s.modifyTask p fun t => { t with wrr := { t.wrr with timeout := t.wrr.timeout + 1 } }
      let next := (min soft hard + cfg.tickUsec - 1) / cfg.tickUsec
      if next < (s.task p).wrr.timeout then
        s.modifyTask p fun t => { t with schedExp := t.se.sumExecRuntime }
      else s
    else s
  else s

def requeueTaskWrr (s : State) (cpu : ℕ) (p : Pid) (head : Bool) : State :=
  { s with links :=
    if head then s.links.listMove (.entity p) (.head cpu)
    else s.links.listMoveTail (.entity p) (.head cpu) }

def yieldTaskWrr (s : State) (cpu : ℕ) : State :=
  match (s.rq cpu).curr with
  | none => s
  | some curr => requeueTaskWrr s cpu curr false

def reschedCurr (s : State) (cpu : ℕ) : State :=
  s.modifyRq cpu fun rq => { rq with needResched := true }

def sliceExpired (cfg : Config) (s : State) (cpu : ℕ) (p : Pid) : State :=
  let s := s.modifyTask p fun t =>
    { t with wrr := { t.wrr with timeSlice := t.wrr.weight * cfg.timeslice } }
  if s.links.prev (.entity p) ≠ s.links.next (.entity p) then
    reschedCurr (requeueTaskWrr s cpu p false) cpu
  else s

def taskTickWrr (cfg : Config) (s : State) (cpu : ℕ) (p : Pid) : State :=
  let s := updateCurrWrr cfg s cpu
  let s := watchdog cfg s p
  if (s.task p).policy ≠ .wrr then s
  else
    let s := s.modifyTask p fun t => { t with wrr := { t.wrr with timeSlice := t.wrr.timeSlice - 1 } }
    if (s.task p).wrr.timeSlice ≠ 0 then s else sliceExpired cfg s cpu p

/-- A task of another policy is told 0. -/
def getRrIntervalWrr (cfg : Config) (s : State) (_cpu : ℕ) (p : Pid) : UInt32 :=
  if (s.task p).policy = .wrr then (s.task p).wrr.weight * cfg.timeslice else 0

def updateRqClock (s : State) (cpu : ℕ) (now : UInt64) : State :=
  s.modifyRq cpu fun rq => { rq with clockTask := now }

/-- The part of `set_wrr_weight` that holds the run queue lock of the caller. -/
def setWrrWeightLocked (s : State) (current : Pid) (weight : Int32) (now : UInt64) : State :=
  let cpu := (s.task current).cpu
  let s := updateRqClock s cpu now
  let s := s.modifyRq cpu fun rq => { rq with wrr := { rq.wrr with
    totalWeight := rq.wrr.totalWeight - (s.task current).wrr.weight + weight.toUInt32 } }
  s.modifyTask current fun t => { t with wrr := { t.wrr with weight := weight.toUInt32 } }

/-- The whole system call, with no other one in between; it returns 0 or an error. -/
def setWrrWeight (s : State) (current : Pid) (weight : Int32) (now : UInt64) : State × Int :=
  if weight < 1 then (s, -Errno.einval)
  else if (s.task current).schedClass ≠ .wrr then (s, -Errno.eacces)
  else (setWrrWeightLocked s current weight now, 0)

end UnixSystems.WrrModel
