import Mathlib

/-! Sleeping, waking and migrating on several CPUs: `__schedule`, `try_to_wake_up` with the
remote wake list, `move_queued_task` and the load balancer, cut at every access that another
CPU can observe. Each CPU executes one activity with interrupts off, or its current task; a
spinlock names the CPU that holds it. Memory is sequentially consistent: the barriers of the
source are taken at their word. Stores made under one lock to data that is read under that
lock only are one step. The branch of `__schedule` for `PF_WQ_WORKER`, which wakes another worker
by `try_to_wake_up_local`, is left out. -/
namespace UnixSystems.WakeModel

def taskRunning : UInt64 := 0x0000
def taskInterruptible : UInt64 := 0x0001
def taskUninterruptible : UInt64 := 0x0002
def taskDead : UInt64 := 0x0080
def taskWakekill : UInt64 := 0x0100
def taskWaking : UInt64 := 0x0200
def taskNoload : UInt64 := 0x0400
def taskNormal : UInt64 := taskInterruptible ||| taskUninterruptible

inductive OnRq where
  | no | queued | migrating
  deriving DecidableEq

/-- The fields of `task_struct` that decide where a task is. `frozen` is the flag `PF_FROZEN`. -/
structure TaskStruct (Cpu : Type) where
  state : UInt64
  onRq : OnRq
  onCpu : Bool
  cpu : Cpu
  frozen : Bool
  inIowait : Bool
  schedContributesToLoad : Bool

/-- `curr` is absent when the CPU runs its idle task. `queue` holds what the classes have
enqueued. `ipi` stands for a reschedule interrupt that is under way and for the flag that tells
a polling idle task the same. -/
structure Rq (Cpu Task : Type) where
  curr : Option Task
  queue : List Task
  wakeList : List Task
  lock : Option Cpu
  nrUninterruptible : UInt64
  nrIowait : UInt32
  ipi : Bool

inductive TtwuPc (Cpu : Type) where
  | lockPi | testState | testOnRq
  | readRq | lockRq (rq : Cpu) | checkRq (rq : Cpu) | remote (rq : Cpu) | dropRq (rq : Cpu) | relax
  | unlockRemote (rq : Cpu) (woken : Bool)
  | waitOnCpu | markWaking | selectRq | queue (rq : Cpu) | listAdd (rq : Cpu) | kick (rq : Cpu)
  | lockDest (rq : Cpu) | activate (rq : Cpu) | setRunning (rq : Cpu) | unlockDest (rq : Cpu)
  | unlockPi

inductive SchedulePc where
  | lock | decide | pick | dropped | finish | unlock

inductive PendingPc (Task : Type) where
  | take | lock | activate | setRunning (p : Task) | unlock

/-- Where `__set_cpus_allowed_ptr` stands, with `move_queued_task` from `unlockSrc` on. -/
inductive MovePc (Cpu : Type) where
  | lockPi | readRq | lockRq (rq : Cpu) | checkRq (rq : Cpu) | moveQueued (rq : Cpu)
  | unlockSrc (rq dest : Cpu) | lockDest (dest : Cpu) | attach (dest : Cpu) | unlockRq (rq : Cpu)
  | unlockPi | dropRq (rq : Cpu) | dropPi | relax

inductive BalancePc where
  | lockSrc | detach | lockDst | attach | unlockDst

inductive SpecialPc where
  | lockPi | set | unlockPi

/-- What a CPU is executing. The lists are local variables: the entries taken off the wake list,
the tasks detached from the busiest queue. -/
inductive Activity (Cpu Task : Type) where
  | run
  | ttwu (p : Task) (mask : UInt64) (pc : TtwuPc Cpu)
  | schedule (preempt : Bool) (prev : Option Task) (pc : SchedulePc)
  | pending (tasks : List Task) (pc : PendingPc Task)
  | move (p : Task) (pc : MovePc Cpu)
  | balance (tasks : List Task) (src dst : Cpu) (pc : BalancePc)
  | special (p : Task) (value : UInt64) (pc : SpecialPc)

structure State (Cpu Task : Type) where
  task : Task → TaskStruct Cpu
  rq : Cpu → Rq Cpu Task
  piLock : Task → Option Cpu
  act : Cpu → Activity Cpu Task

/-- What the source leaves to code outside this model: the CPU that `select_task_rq` returns,
the task a class picks, and yes-no answers. -/
structure Choice (Cpu Task : Type) where
  cpu : Cpu
  task : Option Task
  flag : Bool

inductive Action (Cpu Task : Type) where
  | tryToWakeUp (c : Cpu) (p : Task) (mask : UInt64)
  | schedule (c : Cpu) (preempt : Bool)
  | schedTtwuPending (c : Cpu) (ipi : Bool)
  | setCpusAllowed (c : Cpu) (p : Task)
  | loadBalance (c src : Cpu)
  | setCurrentState (c : Cpu) (value : UInt64)
  | setSpecialState (c : Cpu) (value : UInt64)
  | setFlags (c : Cpu) (frozen inIowait : Bool)
  | moveLocked (p : Task) (src dst : Cpu)
  | advance (c : Cpu) (choice : Choice Cpu Task)

variable {Cpu Task : Type} [DecidableEq Cpu] [DecidableEq Task]

namespace State

def setTask (s : State Cpu Task) (p : Task) (t : TaskStruct Cpu) : State Cpu Task :=
  { s with task := Function.update s.task p t }

def setRq (s : State Cpu Task) (c : Cpu) (rq : Rq Cpu Task) : State Cpu Task :=
  { s with rq := Function.update s.rq c rq }

def setPi (s : State Cpu Task) (p : Task) (holder : Option Cpu) : State Cpu Task :=
  { s with piLock := Function.update s.piLock p holder }

def goto (s : State Cpu Task) (c : Cpu) (a : Activity Cpu Task) : State Cpu Task :=
  { s with act := Function.update s.act c a }

def lockRq (s : State Cpu Task) (c holder : Cpu) : State Cpu Task :=
  s.setRq c { s.rq c with lock := some holder }

def unlockRq (s : State Cpu Task) (c : Cpu) : State Cpu Task :=
  s.setRq c { s.rq c with lock := none }

omit [DecidableEq Cpu] in
@[simp] theorem setTask_task (s : State Cpu Task) (p : Task) (t : TaskStruct Cpu) :
    (s.setTask p t).task p = t := by
  simp [setTask]

omit [DecidableEq Cpu] in
theorem setTask_task_of_ne (s : State Cpu Task) {p q : Task} (other : q ≠ p) (t : TaskStruct Cpu) :
    (s.setTask p t).task q = s.task q := by
  simp [setTask, other]

omit [DecidableEq Task] in
@[simp] theorem setRq_rq (s : State Cpu Task) (c : Cpu) (rq : Rq Cpu Task) :
    (s.setRq c rq).rq c = rq := by
  simp [setRq]

omit [DecidableEq Task] in
theorem setRq_rq_of_ne (s : State Cpu Task) {c d : Cpu} (other : d ≠ c) (rq : Rq Cpu Task) :
    (s.setRq c rq).rq d = s.rq d := by
  simp [setRq, other]

end State

def taskContributesToLoad (t : TaskStruct Cpu) : Bool :=
  t.state &&& taskUninterruptible != 0 && !t.frozen && t.state &&& taskNoload == 0

/-- `deactivate_task`, without the counter's decrement of `nr_running` inside the classes. -/
def deactivateTask (rq : Rq Cpu Task) (p : Task) (t : TaskStruct Cpu) : Rq Cpu Task :=
  { rq with
    nrUninterruptible := rq.nrUninterruptible + if taskContributesToLoad t then 1 else 0
    queue := rq.queue.erase p }

def activateTask (rq : Rq Cpu Task) (p : Task) (t : TaskStruct Cpu) : Rq Cpu Task :=
  { rq with
    nrUninterruptible := rq.nrUninterruptible - if taskContributesToLoad t then 1 else 0
    queue := p :: rq.queue }

/-- The part of `ttwu_do_activate` that ends with `p->on_rq = TASK_ON_RQ_QUEUED`. A waking task
has state `TASK_WAKING`, so that `activate_task` finds no load in it; the counter goes by what
was noted before. -/
def ttwuActivate (s : State Cpu Task) (c : Cpu) (p : Task) : State Cpu Task :=
  let t := s.task p
  let rq := { s.rq c with
    nrUninterruptible := (s.rq c).nrUninterruptible - if t.schedContributesToLoad then 1 else 0 }
  (s.setRq c (activateTask rq p t)).setTask p { t with onRq := .queued }

def ttwuDoWakeup (s : State Cpu Task) (p : Task) : State Cpu Task :=
  s.setTask p { s.task p with state := taskRunning }

/-- One step of `try_to_wake_up(p, mask)` on CPU `c`. A spinning CPU leaves the state alone. -/
def ttwuStep (s : State Cpu Task) (c : Cpu) (p : Task) (mask : UInt64) (choice : Choice Cpu Task) :
    TtwuPc Cpu → State Cpu Task
  | .lockPi =>
    if s.piLock p = none then (s.setPi p (some c)).goto c (.ttwu p mask .testState) else s
  | .testState =>
    if (s.task p).state &&& mask = 0 then s.goto c (.ttwu p mask .unlockPi)
    else s.goto c (.ttwu p mask .testOnRq)
  | .testOnRq =>
    if (s.task p).onRq = .no then s.goto c (.ttwu p mask .waitOnCpu)
    else s.goto c (.ttwu p mask .readRq)
  | .readRq => s.goto c (.ttwu p mask (.lockRq (s.task p).cpu))
  | .lockRq rq =>
    if (s.rq rq).lock = none then (s.lockRq rq c).goto c (.ttwu p mask (.checkRq rq)) else s
  | .checkRq rq =>
    if (s.task p).cpu = rq ∧ (s.task p).onRq ≠ .migrating then s.goto c (.ttwu p mask (.remote rq))
    else s.goto c (.ttwu p mask (.dropRq rq))
  | .remote rq =>
    if (s.task p).onRq = .queued then
      (ttwuDoWakeup s p).goto c (.ttwu p mask (.unlockRemote rq true))
    else s.goto c (.ttwu p mask (.unlockRemote rq false))
  | .dropRq rq => (s.unlockRq rq).goto c (.ttwu p mask .relax)
  | .relax => if (s.task p).onRq = .migrating then s else s.goto c (.ttwu p mask .readRq)
  | .unlockRemote rq woken =>
    (s.unlockRq rq).goto c (.ttwu p mask (if woken then .unlockPi else .waitOnCpu))
  | .waitOnCpu => if (s.task p).onCpu then s else s.goto c (.ttwu p mask .markWaking)
  | .markWaking =>
    let t := s.task p
    let rq := s.rq t.cpu
    ((s.setRq t.cpu { rq with nrIowait := rq.nrIowait - if t.inIowait then 1 else 0 }).setTask p
      { t with schedContributesToLoad := taskContributesToLoad t, state := taskWaking }).goto c
        (.ttwu p mask .selectRq)
  | .selectRq =>
    (s.setTask p { s.task p with cpu := choice.cpu }).goto c (.ttwu p mask (.queue choice.cpu))
  | .queue rq => s.goto c (.ttwu p mask (if choice.flag then .listAdd rq else .lockDest rq))
  | .listAdd rq =>
    -- `llist_add` tells whether the list was empty; only then is the other CPU told
    (s.setRq rq { s.rq rq with wakeList := p :: (s.rq rq).wakeList }).goto c
      (.ttwu p mask (if (s.rq rq).wakeList = [] then .kick rq else .unlockPi))
  | .kick rq => (s.setRq rq { s.rq rq with ipi := true }).goto c (.ttwu p mask .unlockPi)
  | .lockDest rq =>
    if (s.rq rq).lock = none then (s.lockRq rq c).goto c (.ttwu p mask (.activate rq)) else s
  | .activate rq => (ttwuActivate s rq p).goto c (.ttwu p mask (.setRunning rq))
  | .setRunning rq => (ttwuDoWakeup s p).goto c (.ttwu p mask (.unlockDest rq))
  | .unlockDest rq => (s.unlockRq rq).goto c (.ttwu p mask .unlockPi)
  | .unlockPi => (s.setPi p none).goto c .run

/-- The test of `signal_pending_state`: only these states are cut short by a signal. -/
def signalState (t : TaskStruct Cpu) : Bool :=
  t.state &&& (taskInterruptible ||| taskWakekill) != 0

/-- The branch of `__schedule` that takes `prev` off the run queue. -/
def putToSleep (s : State Cpu Task) (c : Cpu) (p : Task) : State Cpu Task :=
  let t := s.task p
  let rq := deactivateTask (s.rq c) p t
  (s.setRq c { rq with nrIowait := rq.nrIowait + if t.inIowait then 1 else 0 }).setTask p
    { t with onRq := .no }

/-- The classes pick from what is enqueued, and the idle task otherwise. -/
def pickNextTask (rq : Rq Cpu Task) (wanted : Option Task) : Option Task :=
  wanted.filter (· ∈ rq.queue)

def setOnCpu (s : State Cpu Task) (p : Option Task) (onCpu : Bool) : State Cpu Task :=
  match p with
  | none => s
  | some p => s.setTask p { s.task p with onCpu }

/-- One step of `__schedule` and of the `finish_task_switch` that ends it. -/
def scheduleStep (s : State Cpu Task) (c : Cpu) (preempt : Bool) (prev : Option Task)
    (choice : Choice Cpu Task) : SchedulePc → State Cpu Task
  | .lock =>
    if (s.rq c).lock = none then (s.lockRq c c).goto c (.schedule preempt prev .decide) else s
  | .decide =>
    match prev with
    | none => s.goto c (.schedule preempt none .pick)
    | some p =>
      if preempt ∨ (s.task p).state = taskRunning then s.goto c (.schedule preempt (some p) .pick)
      else if choice.flag ∧ signalState (s.task p) then
        (ttwuDoWakeup s p).goto c (.schedule preempt (some p) .pick)
      else (putToSleep s c p).goto c (.schedule preempt (some p) .pick)
  | .pick =>
    -- a class that looks for work elsewhere lets go of the lock meanwhile
    if choice.flag then (s.unlockRq c).goto c (.schedule preempt prev .dropped)
    else
      let next := pickNextTask (s.rq c) choice.task
      if next = prev then s.goto c (.schedule preempt prev .unlock)
      else
        (setOnCpu (s.setRq c { s.rq c with curr := next }) next true).goto c
          (.schedule preempt prev .finish)
  | .dropped =>
    if (s.rq c).lock = none then (s.lockRq c c).goto c (.schedule preempt prev .pick) else s
  | .finish => (setOnCpu s prev false).goto c (.schedule preempt none .unlock)
  | .unlock => (s.unlockRq c).goto c .run

def pendingStep (s : State Cpu Task) (c : Cpu) (tasks : List Task) : PendingPc Task → State Cpu Task
  | .take =>
    let rest := (s.rq c).wakeList
    (s.setRq c { s.rq c with wakeList := [] }).goto c (if rest = [] then .run else .pending rest .lock)
  | .lock => if (s.rq c).lock = none then (s.lockRq c c).goto c (.pending tasks .activate) else s
  | .activate =>
    match tasks with
    | [] => s.goto c (.pending [] .unlock)
    | p :: rest => (ttwuActivate s c p).goto c (.pending rest (.setRunning p))
  | .setRunning p => (ttwuDoWakeup s p).goto c (.pending tasks .activate)
  | .unlock => (s.unlockRq c).goto c .run

/-- One step of `__set_cpus_allowed_ptr`. `task_rq_lock` gives both locks back when it finds
that the task has moved. -/
def moveStep (s : State Cpu Task) (c : Cpu) (p : Task) (choice : Choice Cpu Task) :
    MovePc Cpu → State Cpu Task
  | .lockPi => if s.piLock p = none then (s.setPi p (some c)).goto c (.move p .readRq) else s
  | .readRq => s.goto c (.move p (.lockRq (s.task p).cpu))
  | .lockRq rq =>
    if (s.rq rq).lock = none then (s.lockRq rq c).goto c (.move p (.checkRq rq)) else s
  | .checkRq rq =>
    if (s.task p).cpu = rq ∧ (s.task p).onRq ≠ .migrating then s.goto c (.move p (.moveQueued rq))
    else s.goto c (.move p (.dropRq rq))
  | .moveQueued rq =>
    if choice.flag ∧ (s.task p).onRq = .queued ∧ (s.task p).onCpu = false then
      let t := { s.task p with onRq := OnRq.migrating, cpu := choice.cpu }
      ((s.setRq rq { s.rq rq with queue := (s.rq rq).queue.erase p }).setTask p t).goto c
        (.move p (.unlockSrc rq choice.cpu))
    else s.goto c (.move p (.unlockRq rq))
  | .unlockSrc rq dest => (s.unlockRq rq).goto c (.move p (.lockDest dest))
  | .lockDest dest =>
    if (s.rq dest).lock = none then (s.lockRq dest c).goto c (.move p (.attach dest)) else s
  | .attach dest =>
    ((s.setRq dest { s.rq dest with queue := p :: (s.rq dest).queue }).setTask p
      { s.task p with onRq := .queued }).goto c (.move p (.unlockRq dest))
  | .unlockRq rq => (s.unlockRq rq).goto c (.move p .unlockPi)
  | .unlockPi => (s.setPi p none).goto c .run
  | .dropRq rq => (s.unlockRq rq).goto c (.move p .dropPi)
  | .dropPi => (s.setPi p none).goto c (.move p .relax)
  | .relax => if (s.task p).onRq = .migrating then s else s.goto c (.move p .lockPi)

/-- `detach_task`, for a task that `can_migrate_task` lets go: it is not running. -/
def detachTask (s : State Cpu Task) (p : Task) (src dst : Cpu) : State Cpu Task :=
  let t := s.task p
  (s.setRq src (deactivateTask (s.rq src) p t)).setTask p { t with onRq := .migrating, cpu := dst }

def attachTask (s : State Cpu Task) (p : Task) (dst : Cpu) : State Cpu Task :=
  let t := s.task p
  (s.setRq dst (activateTask (s.rq dst) p t)).setTask p { t with onRq := .queued }

/-- One step of `load_balance`, from `detach_tasks` to `attach_tasks`. -/
def balanceStep (s : State Cpu Task) (c : Cpu) (tasks : List Task) (src dst : Cpu)
    (choice : Choice Cpu Task) : BalancePc → State Cpu Task
  | .lockSrc =>
    if (s.rq src).lock = none then (s.lockRq src c).goto c (.balance tasks src dst .detach) else s
  | .detach =>
    match choice.task with
    | some p =>
      if p ∈ (s.rq src).queue ∧ (s.task p).onCpu = false then
        (detachTask s p src dst).goto c (.balance (p :: tasks) src dst .detach)
      else s
    | none =>
      (s.unlockRq src).goto c (if tasks = [] then .run else .balance tasks src dst .lockDst)
  | .lockDst =>
    if (s.rq dst).lock = none then (s.lockRq dst c).goto c (.balance tasks src dst .attach) else s
  | .attach =>
    match tasks with
    | [] => s.goto c (.balance [] src dst .unlockDst)
    | p :: rest => (attachTask s p dst).goto c (.balance rest src dst .attach)
  | .unlockDst => (s.unlockRq dst).goto c .run

def specialStep (s : State Cpu Task) (c : Cpu) (p : Task) (value : UInt64) :
    SpecialPc → State Cpu Task
  | .lockPi => if s.piLock p = none then (s.setPi p (some c)).goto c (.special p value .set) else s
  | .set => (s.setTask p { s.task p with state := value }).goto c (.special p value .unlockPi)
  | .unlockPi => (s.setPi p none).goto c .run

/-- `deactivate_task`, `set_task_cpu` and `activate_task` with both run queues locked. -/
def moveBoth (s : State Cpu Task) (p : Task) (src dst : Cpu) : State Cpu Task :=
  let t := s.task p
  ((s.setRq src (deactivateTask (s.rq src) p t)).setRq dst (activateTask (s.rq dst) p t)).setTask p
    { t with cpu := dst }

def advance (s : State Cpu Task) (c : Cpu) (choice : Choice Cpu Task) : State Cpu Task :=
  match s.act c with
  | .run => s
  | .ttwu p mask pc => ttwuStep s c p mask choice pc
  | .schedule preempt prev pc => scheduleStep s c preempt prev choice pc
  | .pending tasks pc => pendingStep s c tasks pc
  | .move p pc => moveStep s c p choice pc
  | .balance tasks src dst pc => balanceStep s c tasks src dst choice pc
  | .special p value pc => specialStep s c p value pc

/-- The CPU executes its current task, with interrupts on. -/
def Activity.isRun : Activity Cpu Task → Bool
  | .run => true
  | _ => false

/-- The current task, or an interrupt on top of it, enters one of the functions above. -/
def enter (s : State Cpu Task) (c : Cpu) (a : Activity Cpu Task) : State Cpu Task :=
  if (s.act c).isRun then s.goto c a else s

/-- What the current task does to its own `task_struct` without a lock. -/
def modifyCurrent (s : State Cpu Task) (c : Cpu) (f : TaskStruct Cpu → TaskStruct Cpu) :
    State Cpu Task :=
  match (s.rq c).curr with
  | none => s
  | some p => if (s.act c).isRun then s.setTask p (f (s.task p)) else s

def bothFree (s : State Cpu Task) (src dst : Cpu) : Prop :=
  src ≠ dst ∧ (s.rq src).lock = none ∧ (s.rq dst).lock = none

instance (s : State Cpu Task) (src dst : Cpu) : Decidable (bothFree s src dst) :=
  inferInstanceAs (Decidable (_ ∧ _ ∧ _))

def step (s : State Cpu Task) : Action Cpu Task → State Cpu Task
  | .tryToWakeUp c p mask => enter s c (.ttwu p mask .lockPi)
  | .schedule c preempt => enter s c (.schedule preempt (s.rq c).curr .lock)
  | .schedTtwuPending c ipi =>
    -- an interrupt, or a call that leaves one pending
    if (s.act c).isRun then
      (s.setRq c { s.rq c with ipi := (s.rq c).ipi && !ipi }).goto c (.pending [] .take)
    else s
  | .setCpusAllowed c p => enter s c (.move p .lockPi)
  | .loadBalance c src => enter s c (.balance [] src c .lockSrc)
  | .setCurrentState c value => modifyCurrent s c fun t => { t with state := value }
  | .setSpecialState c value =>
    match (s.rq c).curr with
    | none => s
    | some p => enter s c (.special p value .lockPi)
  | .setFlags c frozen inIowait => modifyCurrent s c fun t => { t with frozen, inIowait }
  | .moveLocked p src dst =>
    if bothFree s src dst ∧ p ∈ (s.rq src).queue ∧ (s.task p).onCpu = false then moveBoth s p src dst
    else s
  | .advance c choice => advance s c choice

end UnixSystems.WakeModel
