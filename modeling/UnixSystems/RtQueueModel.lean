import UnixSystems.GuardedRuns
import UnixSystems.PriorityLists

/-! The run queues of the real-time class, `rt.c` without group scheduling: a list of tasks for each
priority with a bitmap of those that are not empty, the counters kept beside it, the list of tasks
that may be pushed to other CPUs, and the mask of overloaded CPUs of the root domain. Bandwidth is
modelled elsewhere; here a throttled queue is one from which nothing is picked. -/
namespace UnixSystems.RtQueueModel
open PriorityLists

def maxRtPrio : ℕ := 100

structure TaskStruct (Cpu : Type) where
  /-- The task is of the real-time class. -/
  rt : Bool
  prio : ℕ
  /-- The policy is `SCHED_RR`. -/
  rr : Bool
  nrCpusAllowed : ℕ
  cpu : Cpu
  onRq : Bool
  onList : Bool
  timeSlice : ℕ

structure RtRq (Task : Type) where
  /-- `active.queue`. -/
  queue : ℕ → List Task
  bitmap : ℕ → Bool
  rtNrRunning : ℕ
  rrNrRunning : ℕ
  /-- `highest_prio.curr` and `highest_prio.next`. -/
  highestCurr : ℕ
  highestNext : ℕ
  rtNrMigratory : ℕ
  rtNrTotal : ℕ
  overloaded : Bool
  /-- The priority of each node is set when it is added. -/
  pushableTasks : List (ℕ × Task)
  online : Bool
  /-- `rq->curr`, of whatever class. -/
  curr : Task

structure State (Cpu Task : Type) where
  task : Task → TaskStruct Cpu
  rq : Cpu → RtRq Task
  rtoMask : Finset Cpu
  rtoCount : ℕ
  /-- A `BUG_ON` has fired. -/
  bug : Bool

/-! ## One queue -/

section Queue
variable {Cpu Task : Type} [DecidableEq Task]

def schedFindFirstBit (bitmap : ℕ → Bool) : ℕ :=
  ((List.range (maxRtPrio + 1)).find? bitmap).getD (maxRtPrio + 1)

def RtRq.delist (rq : RtRq Task) (p : Task) (prio : ℕ) : RtRq Task :=
  { rq with
    queue := Function.update rq.queue prio ((rq.queue prio).erase p)
    bitmap := if (rq.queue prio).erase p = [] then Function.update rq.bitmap prio false else rq.bitmap }

/-- The first part of `__enqueue_rt_entity`. -/
def RtRq.enlist (rq : RtRq Task) (p : Task) (prio : ℕ) (head : Bool) : RtRq Task :=
  { rq with
    queue := Function.update rq.queue prio (if head then p :: rq.queue prio else rq.queue prio ++ [p])
    bitmap := Function.update rq.bitmap prio true }

def RtRq.incRtPrio (rq : RtRq Task) (prio : ℕ) : RtRq Task :=
  if prio < rq.highestCurr then { rq with highestCurr := prio } else rq

def RtRq.decRtPrio (rq : RtRq Task) (prio : ℕ) : RtRq Task :=
  if rq.rtNrRunning ≠ 0 then
    if prio = rq.highestCurr then { rq with highestCurr := schedFindFirstBit rq.bitmap } else rq
  else { rq with highestCurr := maxRtPrio }

def TaskStruct.mark (t : TaskStruct Cpu) (onRq onList : Bool) : TaskStruct Cpu :=
  { t with onRq := onRq, onList := onList }

def TaskStruct.migratory (t : TaskStruct Cpu) : Bool := 1 < t.nrCpusAllowed

/-- `inc_rt_tasks`, up to the test for an overload. -/
def RtRq.incRtTasks (rq : RtRq Task) (t : TaskStruct Cpu) : RtRq Task :=
  let rq :=
    { rq with
      rtNrRunning := rq.rtNrRunning + 1
      rrNrRunning := rq.rrNrRunning + t.rr.toNat }.incRtPrio t.prio
  { rq with rtNrTotal := rq.rtNrTotal + 1, rtNrMigratory := rq.rtNrMigratory + t.migratory.toNat }

def RtRq.decRtTasks (rq : RtRq Task) (t : TaskStruct Cpu) : RtRq Task :=
  let rq :=
    { rq with
      rtNrRunning := rq.rtNrRunning - 1
      rrNrRunning := rq.rrNrRunning - t.rr.toNat }.decRtPrio t.prio
  { rq with rtNrTotal := rq.rtNrTotal - 1, rtNrMigratory := rq.rtNrMigratory - t.migratory.toNat }

def plistDel (p : Task) (l : List (ℕ × Task)) : List (ℕ × Task) := l.filter (·.2 ≠ p)

def RtRq.enqueuePushableTask (rq : RtRq Task) (p : Task) (prio : ℕ) : RtRq Task :=
  { rq with
    pushableTasks := addTail (prio, p) (plistDel p rq.pushableTasks)
    highestNext := if prio < rq.highestNext then prio else rq.highestNext }

/-- `dequeue_pushable_task`, which reads the priority of the task that is first now. -/
def RtRq.dequeuePushableTask (rq : RtRq Task) (task : Task → TaskStruct Cpu) (p : Task) : RtRq Task :=
  let rest := plistDel p rq.pushableTasks
  { rq with
    pushableTasks := rest
    highestNext := (rest.head?.map fun e => (task e.2).prio).getD maxRtPrio }

end Queue

/-! ## All queues -/

section Queues
variable {Cpu Task : Type} [DecidableEq Cpu] [DecidableEq Task]

def State.setRq (s : State Cpu Task) (c : Cpu) (rq : RtRq Task) : State Cpu Task :=
  { s with rq := Function.update s.rq c rq }

def State.setTask (s : State Cpu Task) (p : Task) (t : TaskStruct Cpu) : State Cpu Task :=
  { s with task := Function.update s.task p t }

def State.rtSetOverload (s : State Cpu Task) (c : Cpu) : State Cpu Task :=
  if (s.rq c).online then { s with rtoMask := insert c s.rtoMask, rtoCount := s.rtoCount + 1 } else s

def State.rtClearOverload (s : State Cpu Task) (c : Cpu) : State Cpu Task :=
  if (s.rq c).online then { s with rtoMask := s.rtoMask.erase c, rtoCount := s.rtoCount - 1 } else s

def State.updateRtMigration (s : State Cpu Task) (c : Cpu) : State Cpu Task :=
  if (s.rq c).rtNrMigratory ≠ 0 ∧ (s.rq c).rtNrTotal > 1 then
    if (s.rq c).overloaded then s
    else (s.rtSetOverload c).setRq c { s.rq c with overloaded := true }
  else if (s.rq c).overloaded then (s.rtClearOverload c).setRq c { s.rq c with overloaded := false }
  else s

/-- `__enqueue_rt_entity`. Without `move` the entity has stayed on its list. -/
def State.enqueueEntity (s : State Cpu Task) (p : Task) (head move : Bool) : State Cpu Task :=
  let t := s.task p
  let rq := if move then (s.rq t.cpu).enlist p t.prio head else s.rq t.cpu
  let s := s.setTask p (t.mark true (move || t.onList))
  (s.setRq t.cpu (rq.incRtTasks t)).updateRtMigration t.cpu

def State.dequeueEntity (s : State Cpu Task) (p : Task) (move : Bool) : State Cpu Task :=
  let t := s.task p
  let rq := if move then (s.rq t.cpu).delist p t.prio else s.rq t.cpu
  let s := s.setTask p (t.mark false (!move && t.onList))
  (s.setRq t.cpu (rq.decRtTasks t)).updateRtMigration t.cpu

def State.dequeueStack (s : State Cpu Task) (p : Task) (move : Bool) : State Cpu Task :=
  if (s.task p).onRq then s.dequeueEntity p move else s

def State.enqueuePushable (s : State Cpu Task) (p : Task) : State Cpu Task :=
  s.setRq (s.task p).cpu ((s.rq (s.task p).cpu).enqueuePushableTask p (s.task p).prio)

def State.dequeuePushable (s : State Cpu Task) (p : Task) : State Cpu Task :=
  s.setRq (s.task p).cpu ((s.rq (s.task p).cpu).dequeuePushableTask s.task p)

def State.taskCurrent (s : State Cpu Task) (p : Task) : Bool := (s.rq (s.task p).cpu).curr = p

def State.enqueueTaskRt (s : State Cpu Task) (p : Task) (head move : Bool) : State Cpu Task :=
  let s := (s.dequeueStack p move).enqueueEntity p head move
  if s.taskCurrent p = false ∧ (s.task p).migratory then s.enqueuePushable p else s

def State.dequeueTaskRt (s : State Cpu Task) (p : Task) (move : Bool) : State Cpu Task :=
  (s.dequeueStack p move).dequeuePushable p

def State.requeueTaskRt (s : State Cpu Task) (p : Task) (head : Bool) : State Cpu Task :=
  let t := s.task p
  if t.onRq then
    let rq := s.rq t.cpu
    let rest := (rq.queue t.prio).erase p
    s.setRq t.cpu { rq with queue := Function.update rq.queue t.prio (if head then p :: rest else rest ++ [p]) }
  else s

def State.putPrevTaskRt (s : State Cpu Task) (p : Task) : State Cpu Task :=
  if (s.task p).onRq ∧ (s.task p).migratory then s.enqueuePushable p else s

/-- `_pick_next_task_rt`: the `BUG_ON` fires when no bit but the delimiter is set. -/
def State.pickNextRtEntity (s : State Cpu Task) (c : Cpu) : Option Task :=
  let idx := schedFindFirstBit (s.rq c).bitmap
  if idx ≥ maxRtPrio then none else ((s.rq c).queue idx).head?

def State.setCurr (s : State Cpu Task) (c : Cpu) (p : Task) : State Cpu Task :=
  s.setRq c { s.rq c with curr := p }

/-- `put_prev_task`, as far as the real-time class is concerned. -/
def State.putPrevTask (s : State Cpu Task) (prev : Task) : State Cpu Task :=
  if (s.task prev).rt then s.putPrevTaskRt prev else s

/-- The end of `__schedule`. The queue is passed over when it is throttled or a class above has a
task; then, and when it is empty, `other` is the next task, and its class is the one that puts the
previous task. The WRR class calls `putPrevTaskWrr` instead of `put_prev_task`. -/
def State.schedule (s : State Cpu Task) (c : Cpu) (passed wrr : Bool) (other : Task) : State Cpu Task :=
  let prev := (s.rq c).curr
  if passed ∨ (s.rq c).rtNrRunning = 0 then
    let s := if wrr then s else s.putPrevTask prev
    s.setCurr c other
  else
    let s := s.putPrevTask prev
    match s.pickNextRtEntity c with
    | none => { s with bug := true }
    | some p => (s.dequeuePushable p).setCurr c p

def State.pickNextPushableTask (s : State Cpu Task) (c : Cpu) : State Cpu Task × Option Task :=
  match (s.rq c).pushableTasks with
  | [] => (s, none)
  | (_, p) :: _ =>
    let t := s.task p
    if t.cpu = c ∧ (s.rq c).curr ≠ p ∧ 1 < t.nrCpusAllowed ∧ t.onRq ∧ t.rt then (s, some p)
    else ({ s with bug := true }, some p)

/-- The three calls by which a queued task is moved to another CPU. -/
def State.moveTask (s : State Cpu Task) (p : Task) (d : Cpu) : State Cpu Task :=
  let s := s.dequeueTaskRt p true
  (s.setTask p { s.task p with cpu := d }).enqueueTaskRt p false true

/-- `push_rt_task`, for what `find_lock_lowest_rq` finds. -/
def State.pushRtTask (s : State Cpu Task) (c : Cpu) (lowest : Option Cpu) : State Cpu Task :=
  if (s.rq c).overloaded = false then s
  else
    match s.pickNextPushableTask c with
    | (s, none) => s
    | (s, some p) =>
      if (s.task p).prio < (s.task (s.rq c).curr).prio then s
      else
        match lowest with
        | none => s
        | some d => s.moveTask p d

/-- `pull_rt_task`, for one overloaded CPU. The first pushable task that may run here is taken if it
would run here before what is queued, and not before what runs there. -/
def State.pullRtTask (s : State Cpu Task) (this src : Cpu) (allowed : Task → Bool) : State Cpu Task :=
  if (s.rq src).highestNext ≥ (s.rq this).highestCurr then s
  else
    match (s.rq src).pushableTasks.find? fun e => (s.rq src).curr ≠ e.2 ∧ allowed e.2 with
    | none => s
    | some (_, p) =>
      if (s.task p).prio < (s.rq this).highestCurr ∧ ¬ (s.task p).prio < (s.task (s.rq src).curr).prio then
        s.moveTask p this
      else s

structure Attributes where
  prio : ℕ
  rr : Bool
  nrCpusAllowed : ℕ

def TaskStruct.withAttributes (t : TaskStruct Cpu) (a : Attributes) : TaskStruct Cpu :=
  { t with prio := a.prio, rr := a.rr, nrCpusAllowed := a.nrCpusAllowed }

/-- The pattern of `__sched_setscheduler`, `rt_mutex_setprio` and `do_set_cpus_allowed` for a task
that stays in the class. -/
def State.change (s : State Cpu Task) (p : Task) (a : Attributes) (head move : Bool) : State Cpu Task :=
  let queued := (s.task p).onRq
  let running := s.taskCurrent p
  let s := if queued then s.dequeueTaskRt p move else s
  let s := if running then s.putPrevTaskRt p else s
  let s := s.setTask p ((s.task p).withAttributes a)
  let s := if queued then s.enqueueTaskRt p head move else s
  if running then s.dequeuePushable p else s

def State.leave (s : State Cpu Task) (p : Task) : State Cpu Task :=
  let queued := (s.task p).onRq
  let running := s.taskCurrent p
  let s := if queued then s.dequeueTaskRt p true else s
  let s := if running then s.putPrevTaskRt p else s
  s.setTask p { s.task p with rt := false }

/-- And for one that enters it, queued before in another class or not. -/
def State.join (s : State Cpu Task) (p : Task) (a : Attributes) (queued head : Bool) : State Cpu Task :=
  let running := s.taskCurrent p
  let s := s.setTask p { (s.task p).withAttributes a with rt := true }
  let s := if queued then s.enqueueTaskRt p head true else s
  if running then s.dequeuePushable p else s

/-- The round-robin part of `task_tick_rt`. -/
def State.taskTickRt (s : State Cpu Task) (c : Cpu) (slice : ℕ) : State Cpu Task :=
  let p := (s.rq c).curr
  let t := s.task p
  if t.rr = false then s
  else
    -- the slice is unsigned
    let left := (t.timeSlice + (2 ^ 32 - 1)) % 2 ^ 32
    let s := s.setTask p { t with timeSlice := left }
    if left ≠ 0 then s
    else
      let s := s.setTask p { s.task p with timeSlice := slice }
      if ((s.rq t.cpu).queue t.prio).length > 1 then s.requeueTaskRt p false else s

def State.rqOnline (s : State Cpu Task) (c : Cpu) : State Cpu Task :=
  if (s.rq c).online then s
  else
    let s := s.setRq c { s.rq c with online := true }
    if (s.rq c).overloaded then s.rtSetOverload c else s

def State.rqOffline (s : State Cpu Task) (c : Cpu) : State Cpu Task :=
  if (s.rq c).online then
    let s := if (s.rq c).overloaded then s.rtClearOverload c else s
    s.setRq c { s.rq c with online := false }
  else s

/-! ## Runs -/

inductive Action (Cpu Task : Type) where
  /-- A task is woken, or starts, on a CPU. -/
  | wake (p : Task) (c : Cpu)
  /-- A task of another class goes to a CPU. -/
  | place (p : Task) (c : Cpu)
  /-- `__schedule`; the current task goes to sleep or not. -/
  | schedule (c : Cpu) (sleeps passed wrr : Bool) (other : Task)
  | yield (c : Cpu)
  | tick (c : Cpu) (slice : ℕ)
  /-- `check_preempt_equal_prio` makes room for the task. -/
  | preemptEqual (p : Task)
  | push (c : Cpu) (lowest : Option Cpu)
  | pull (this src : Cpu) (allowed : Task → Bool)
  /-- Another move of a waiting task, such as that of `push_rt_task` after it has dropped the lock. -/
  | migrate (p : Task) (d : Cpu)
  | change (p : Task) (a : Attributes) (head move : Bool)
  | leave (p : Task)
  | join (p : Task) (a : Attributes) (queued head : Bool)
  | online (c : Cpu)
  | offline (c : Cpu)

def step (s : State Cpu Task) : Action Cpu Task → State Cpu Task
  | .wake p c => (s.setTask p { s.task p with cpu := c }).enqueueTaskRt p false true
  | .place p c => s.setTask p { s.task p with cpu := c }
  | .schedule c sleeps passed wrr other =>
    let s := if sleeps then s.dequeueTaskRt (s.rq c).curr true else s
    s.schedule c passed wrr other
  | .yield c => s.requeueTaskRt (s.rq c).curr false
  | .tick c slice => s.taskTickRt c slice
  | .preemptEqual p => s.requeueTaskRt p true
  | .push c lowest => s.pushRtTask c lowest
  | .pull this src allowed => s.pullRtTask this src allowed
  | .migrate p d => s.moveTask p d
  | .change p a head move => s.change p a head move
  | .leave p => s.leave p
  | .join p a queued head => s.join p a queued head
  | .online c => s.rqOnline c
  | .offline c => s.rqOffline c

/-- What the callers see to. -/
def Legal (s : State Cpu Task) : Action Cpu Task → Prop
  | .wake p _ =>
    (s.task p).rt = true ∧ (s.task p).prio < maxRtPrio ∧ (s.task p).onRq = false ∧ ∀ c, (s.rq c).curr ≠ p
  | .place p _ => (s.task p).rt = false ∧ ∀ c, (s.rq c).curr ≠ p
  | .schedule c sleeps _ _ other =>
    (sleeps = true → (s.task (s.rq c).curr).rt = true) ∧ (s.task other).rt = false ∧ (s.task other).cpu = c
  | .yield c => (s.task (s.rq c).curr).rt = true
  | .tick c _ => (s.task (s.rq c).curr).rt = true
  | .preemptEqual p => (s.task p).onRq = true
  | .push _ _ => True
  | .pull _ _ _ => True
  | .migrate p _ => (s.task p).onRq = true ∧ s.taskCurrent p = false
  | .change p a _ move =>
    (s.task p).rt = true ∧ a.prio < maxRtPrio ∧ (move = false → a.prio = (s.task p).prio)
  | .leave p => (s.task p).rt = true
  | .join p a queued _ =>
    (s.task p).rt = false ∧ a.prio < maxRtPrio ∧ (s.taskCurrent p = true → queued = true)
  | .online _ => True
  | .offline _ => True

/-- `init_rt_rq` has run on each CPU, and no real-time task has been queued yet. -/
structure Start (s : State Cpu Task) : Prop where
  queues : ∀ c, (s.rq c).queue = fun _ => []
  bitmaps : ∀ c i, (s.rq c).bitmap i = decide (i = maxRtPrio)
  running : ∀ c, (s.rq c).rtNrRunning = 0 ∧ (s.rq c).rrNrRunning = 0
  highest : ∀ c, (s.rq c).highestCurr = maxRtPrio ∧ (s.rq c).highestNext = maxRtPrio
  migration : ∀ c, (s.rq c).rtNrMigratory = 0 ∧ (s.rq c).rtNrTotal = 0
  overloaded : ∀ c, (s.rq c).overloaded = false
  pushable : ∀ c, (s.rq c).pushableTasks = []
  mask : s.rtoMask = ∅ ∧ s.rtoCount = 0
  marks : ∀ p, (s.task p).onRq = false ∧ (s.task p).onList = false
  /-- Another class runs. -/
  currents : ∀ c, (s.task (s.rq c).curr).rt = false ∧ (s.task (s.rq c).curr).cpu = c
  sound : s.bug = false

end Queues

end UnixSystems.RtQueueModel
