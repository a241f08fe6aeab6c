import UnixSystems.WrrConservation

/-! Where core.c chooses the scheduling class of a task: `sched_fork`,
`__sched_setscheduler` and `rt_mutex_setprio`, one definition per function. The methods of
the classes other than wrr are a parameter; they leave the wrr run lists alone. What the
deadline and real-time classes keep in a task of their own is left to them.

A call runs under the locks that it takes, so the policy it rechecks is the one it
checked. The chain of further `rt_mutex_setprio` calls that `rt_mutex_adjust_pi` may make
consists of calls of their own. -/
namespace UnixSystems.PolicyModel
open WrrModel hiding State
open WrrConservation hiding Action step Enabled

/-! ## Priorities and policies -/

def maxRtPrio : Int := 100

def maxUserRtPrio : Int := 100

def dlPrio (prio : Int) : Bool := prio < 0

def rtPrio (prio : Int) : Bool := prio < maxRtPrio

def niceToPrio (nice : Int) : Int := nice + 120

def prioToNice (prio : Int) : Int := prio - 120

def idlePolicy (policy : Policy) : Bool := policy = .idle

def fairPolicy (policy : Policy) : Bool := policy = .normal ∨ policy = .batch

def rtPolicy (policy : Policy) : Bool := policy = .fifo ∨ policy = .rr

def dlPolicy (policy : Policy) : Bool := policy = .deadline

/-- What core.c keeps of a task besides its class, its policy and its CPU. -/
structure Prio where
  staticPrio : Int
  normalPrio : Int
  prio : Int
  rtPriority : ℕ
  schedResetOnFork : Bool
  piTopTask : Option Pid
  onRq : Bool
  mm : Bool

structure State where
  core : WrrModel.State
  prio : Pid → Prio

def State.modifyPrio (s : State) (p : Pid) (f : Prio → Prio) : State :=
  { s with prio := Function.update s.prio p (f (s.prio p)) }

def State.modifyCore (s : State) (f : WrrModel.State → WrrModel.State) : State :=
  { s with core := f s.core }

def State.policy (s : State) (p : Pid) : Policy := (s.core.task p).policy

def State.schedClass (s : State) (p : Pid) : SchedClass := (s.core.task p).schedClass

def State.setSchedClass (s : State) (p : Pid) (schedClass : SchedClass) : State :=
  s.modifyCore fun core => core.modifyTask p fun t => { t with schedClass := schedClass }

def normalPrio (policy : Policy) (a : Prio) : Int :=
  if dlPolicy policy then -1
  else if rtPolicy policy then maxRtPrio - 1 - a.rtPriority
  else a.staticPrio

/-- `__rt_effective_prio`. -/
def effectivePrio (s : State) (piTask : Option Pid) (prio : Int) : Int :=
  match piTask with
  | none => prio
  | some donor => min prio (s.prio donor).prio

def rtEffectivePrio (s : State) (p : Pid) (prio : Int) : Int :=
  effectivePrio s (s.prio p).piTopTask prio

/-! ## Methods of the classes -/

inductive Method where
  | enqueueTask (flags : UInt32)
  | dequeueTask (flags : UInt32)
  | putPrevTask
  | setCurrTask
  | switchedFrom
  | switchedTo
  | prioChanged (oldprio : Int)

/-- What a method of another class leaves alone: the wrr run lists and their counters, and
what core.c and wrr.c keep of each task. -/
structure Foreign (s t : WrrModel.State) : Prop where
  links : t.links = s.links
  wrr : ∀ cpu, (t.rq cpu).wrr = (s.rq cpu).wrr
  task : ∀ p, unaccounted (t.task p) = unaccounted (s.task p)

structure OtherClasses where
  method : SchedClass → Method → WrrModel.State → ℕ → Pid → WrrModel.State
  foreign : ∀ schedClass m s cpu p, Foreign s (method schedClass m s cpu p)
  dlEntityPreempt : Pid → Pid → Bool

def setCurrTaskWrr (s : WrrModel.State) (cpu : ℕ) : WrrModel.State :=
  match (s.rq cpu).curr with
  | none => s
  | some p => s.modifyTask p fun t => { t with se := { t.se with execStart := (s.rq cpu).clockTask } }

/-- `check_preempt_curr` for a wrr task: walking down the classes, `wrr` is met before the
class of the current task only if that is `fair` or `idle`. -/
def checkPreemptCurr (s : WrrModel.State) (cpu : ℕ) : WrrModel.State :=
  match (s.rq cpu).curr.map fun c => (s.task c).schedClass with
  | none | some .idle | some .fair => reschedCurr s cpu
  | _ => s

def switchedToWrr (s : WrrModel.State) (cpu : ℕ) (p : Pid) (queued : Bool) : WrrModel.State :=
  if queued then
    if (s.rq cpu).curr = some p then reschedCurr s cpu else checkPreemptCurr s cpu
  else s

/-- The entries of `wrrSchedClass`; `switched_from` is absent and `prioChangedWrr` empty. -/
def wrrMethod (cfg : Config) (m : Method) (s : WrrModel.State) (cpu : ℕ) (p : Pid) (queued : Bool) :
    WrrModel.State :=
  match m with
  | .enqueueTask flags => enqueueTaskWrr s cpu p flags
  | .dequeueTask flags => dequeueTaskWrr cfg s cpu p flags
  | .putPrevTask => putPrevTaskWrr cfg s cpu (some p)
  | .setCurrTask => setCurrTaskWrr s cpu
  | .switchedTo => switchedToWrr s cpu p queued
  | .switchedFrom | .prioChanged _ => s

/-- A call goes to the class given, for the run queue of the task. -/
def callMethod (cfg : Config) (K : OtherClasses) (schedClass : SchedClass) (m : Method) (p : Pid)
    (s : State) : State :=
  s.modifyCore fun core =>
    if schedClass = .wrr then wrrMethod cfg m core (core.task p).cpu p (s.prio p).onRq
    else K.method schedClass m core (core.task p).cpu p

def callOwn (cfg : Config) (K : OtherClasses) (m : Method) (p : Pid) (s : State) : State :=
  callMethod cfg K (s.schedClass p) m p s

def checkClassChanged (cfg : Config) (K : OtherClasses) (s : State) (p : Pid)
    (prevClass : SchedClass) (oldprio : Int) : State :=
  if prevClass ≠ s.schedClass p then
    callOwn cfg K .switchedTo p (callMethod cfg K prevClass .switchedFrom p s)
  else if oldprio ≠ (s.prio p).prio ∨ dlPrio (s.prio p).prio then
    callOwn cfg K (.prioChanged oldprio) p s
  else s

def dequeueSave : UInt32 := 0x02

def dequeueMove : UInt32 := 0x04

def noclock : UInt32 := 0x08

def enqueueReplenish : UInt32 := 0x20

def takeOff (cfg : Config) (K : OtherClasses) (queued running : Bool) (flags : UInt32) (p : Pid)
    (s : State) : State :=
  let s := if queued then callOwn cfg K (.dequeueTask flags) p s else s
  if running then callOwn cfg K .putPrevTask p s else s

def putBack (cfg : Config) (K : OtherClasses) (queued running : Bool) (flags : UInt32) (p : Pid)
    (s : State) : State :=
  let s := if queued then callOwn cfg K (.enqueueTask flags) p s else s
  if running then callOwn cfg K .setCurrTask p s else s

/-- How both callers change a task: off its queue by its old class, changed, and back by
its new one. -/
def requeueAround (cfg : Config) (K : OtherClasses) (s : State) (p : Pid) (flags : UInt32)
    (change : State → State) (flags' : State → UInt32) : State :=
  let queued := (s.prio p).onRq
  let running := (s.core.rq (s.core.task p).cpu).curr = some p
  let changed := change (takeOff cfg K queued running flags p s)
  checkClassChanged cfg K (putBack cfg K queued running (flags' changed) p changed) p
    (s.schedClass p) (s.prio p).prio

def idleClasses : OtherClasses where
  method := fun _ _ s _ _ => s
  foreign := fun _ _ _ _ _ => ⟨rfl, fun _ => rfl, fun _ => rfl⟩
  dlEntityPreempt := fun _ _ => false

/-! ## rt_mutex_setprio -/

def setprioFlags (K : OtherClasses) (s : State) (p : Pid) (piTask : Option Pid) (prio : Int)
    (flags : UInt32) : UInt32 :=
  if dlPrio prio then
    if ¬ dlPrio (s.prio p).normalPrio ∨ piTask.any (K.dlEntityPreempt · p) then
      flags ||| enqueueReplenish
    else flags
  else if rtPrio prio then
    if (s.prio p).prio < prio then flags ||| enqueueHead else flags
  else flags

def setprioClass (prio : Int) : SchedClass :=
  if dlPrio prio then .dl else if rtPrio prio then .rt else .fair

def setprio (cfg : Config) (K : OtherClasses) (s : State) (p : Pid) (piTask : Option Pid)
    (prio : Int) : State :=
  let flags := if (s.prio p).prio = prio then dequeueSave ||| noclock
    else dequeueSave ||| dequeueMove ||| noclock
  let flags' := setprioFlags K s p piTask prio flags
  requeueAround cfg K s p flags
    (fun s => (s.setSchedClass p (setprioClass prio)).modifyPrio p fun a => { a with prio := prio })
    fun _ => flags'

def rtMutexSetprio (cfg : Config) (K : OtherClasses) (s : State) (p : Pid) (piTask : Option Pid)
    (now : UInt64) : State :=
  let prio := effectivePrio s piTask (s.prio p).normalPrio
  if (s.prio p).piTopTask = piTask ∧ prio = (s.prio p).prio ∧ ¬ dlPrio prio then s
  else
    let s := s.modifyCore fun core => updateRqClock core (core.task p).cpu now
    let s := s.modifyPrio p fun a => { a with piTopTask := piTask }
    if prio = (s.prio p).prio ∧ ¬ dlPrio prio then s else setprio cfg K s p piTask prio

/-! ## __sched_setscheduler -/

/-- The `sched_policy` of a request: `SETPARAM_POLICY`, one of the policies, or a number
that is none. -/
inductive PolicyArg where
  | setparam
  | named (policy : Policy)
  | invalid

/-- A request; `sched_copy_attr` has clamped the nice value. -/
structure Attr where
  policy : PolicyArg
  nice : Int
  low : -20 ≤ nice
  high : nice ≤ 19
  priority : ℕ
  flags : UInt64

/-- What the call finds out from other parts of the kernel. `user` and `pi` are its
arguments; `stopTask` says that the task is the stop thread of its CPU, `rtBarred` and
`dlBarred` that its group or root domain has no bandwidth for the new policy. -/
structure Call where
  user : Bool
  pi : Bool
  capable : Bool
  canNice : Int → Bool
  rlimRtprio : ℕ
  sameOwner : Bool
  security : Int
  stopTask : Bool
  rtBarred : Bool
  dlBarred : Bool
  checkparamDl : Bool
  dlParamChanged : Bool
  dlOverflow : Bool

def flagResetOnFork : UInt64 := 0x01

def flagReclaim : UInt64 := 0x02

def requested (s : State) (p : Pid) (attr : Attr) : Option (Policy × Bool) :=
  match attr.policy with
  | .setparam => some (s.policy p, (s.prio p).schedResetOnFork)
  | .named policy => some (policy, attr.flags &&& flagResetOnFork ≠ 0)
  | .invalid => none

def invalidParams (a : Prio) (policy : Policy) (attr : Attr) (call : Call) : Prop :=
  attr.flags &&& ~~~(flagResetOnFork ||| flagReclaim) ≠ 0 ∨
    (a.mm ∧ maxUserRtPrio - 1 < attr.priority) ∨ (¬ a.mm ∧ maxRtPrio - 1 < attr.priority) ∨
    (dlPolicy policy ∧ ¬ call.checkparamDl) ∨ rtPolicy policy ≠ (attr.priority ≠ 0)

instance (a : Prio) (policy : Policy) (attr : Attr) (call : Call) :
    Decidable (invalidParams a policy attr call) := by
  unfold invalidParams
  infer_instance

def notPermitted (a : Prio) (old policy : Policy) (resetOnFork : Bool) (attr : Attr) (call : Call) :
    Prop :=
  (fairPolicy policy ∧ attr.nice < prioToNice a.staticPrio ∧ ¬ call.canNice attr.nice) ∨
    (rtPolicy policy ∧ ((policy ≠ old ∧ call.rlimRtprio = 0) ∨
      (a.rtPriority < attr.priority ∧ call.rlimRtprio < attr.priority))) ∨
    dlPolicy policy ∨
    (idlePolicy old ∧ ¬ idlePolicy policy ∧ ¬ call.canNice (prioToNice a.staticPrio)) ∨
    ¬ call.sameOwner ∨ (a.schedResetOnFork ∧ ¬ resetOnFork)

instance (a : Prio) (old policy : Policy) (resetOnFork : Bool) (attr : Attr) (call : Call) :
    Decidable (notPermitted a old policy resetOnFork attr call) := by
  unfold notPermitted
  infer_instance

/-- Nothing but the reset flag would change. -/
def nothingToChange (a : Prio) (old policy : Policy) (attr : Attr) (call : Call) : Prop :=
  policy = old ∧ ¬ (fairPolicy policy ∧ attr.nice ≠ prioToNice a.staticPrio) ∧
    ¬ (rtPolicy policy ∧ attr.priority ≠ a.rtPriority) ∧ ¬ (dlPolicy policy ∧ call.dlParamChanged)

instance (a : Prio) (old policy : Policy) (attr : Attr) (call : Call) :
    Decidable (nothingToChange a old policy attr call) := by
  unfold nothingToChange
  infer_instance

def newPolicy (s : State) (p : Pid) (attr : Attr) : Policy :=
  match attr.policy with
  | .named policy => policy
  | _ => s.policy p

def newParams (policy : Policy) (attr : Attr) (a : Prio) : Prio :=
  let a := if fairPolicy policy then { a with staticPrio := niceToPrio attr.nice } else a
  let a := { a with rtPriority := attr.priority }
  { a with normalPrio := normalPrio policy a }

def setschedulerParams (s : State) (p : Pid) (attr : Attr) : State :=
  let policy := newPolicy s p attr
  let s := s.modifyCore fun core => core.modifyTask p fun t => { t with policy := policy }
  s.modifyPrio p (newParams policy attr)

/-- The choice at the end of `__setscheduler`. -/
def setschedulerClass (prio : Int) : SchedClass :=
  if dlPrio prio then .dl else if rtPrio prio then .rt else .wrr

def setscheduler (s : State) (p : Pid) (attr : Attr) (keepBoost : Bool) : State :=
  let s := setschedulerParams s p attr
  let prio := normalPrio (s.policy p) (s.prio p)
  let prio := if keepBoost then rtEffectivePrio s p prio else prio
  (s.modifyPrio p fun a => { a with prio := prio }).setSchedClass p (setschedulerClass prio)

/-- From the label `change` on, once the bandwidth has been granted. -/
def changeScheduler (cfg : Config) (K : OtherClasses) (s : State) (p : Pid) (attr : Attr)
    (pi resetOnFork : Bool) : State :=
  let s := s.modifyPrio p fun a => { a with schedResetOnFork := resetOnFork }
  let dl := match attr.policy with
    | .named policy => dlPolicy policy
    | _ => false
  let newprio := if dl then -1 else maxRtPrio - 1 - attr.priority
  let oldprio := (s.prio p).prio
  let flags := if pi ∧ rtEffectivePrio s p newprio = oldprio then dequeueSave ||| noclock
    else dequeueSave ||| dequeueMove ||| noclock
  requeueAround cfg K s p flags (setscheduler · p attr pi) fun s =>
    if oldprio < (s.prio p).prio then flags ||| enqueueHead else flags

def schedSetscheduler (cfg : Config) (K : OtherClasses) (s : State) (p : Pid) (attr : Attr)
    (call : Call) (now : UInt64) : State × Int :=
  match requested s p attr with
  | none => (s, -Errno.einval)
  | some (policy, resetOnFork) =>
    if invalidParams (s.prio p) policy attr call then (s, -Errno.einval)
    else if call.user ∧ ¬ call.capable ∧
        notPermitted (s.prio p) (s.policy p) policy resetOnFork attr call then (s, -Errno.eperm)
    else if call.user ∧ call.security ≠ 0 then (s, call.security)
    else
      let s := s.modifyCore fun core => updateRqClock core (core.task p).cpu now
      if call.stopTask then (s, -Errno.einval)
      else if nothingToChange (s.prio p) (s.policy p) policy attr call then
        (s.modifyPrio p fun a => { a with schedResetOnFork := resetOnFork }, 0)
      else if call.user ∧ (rtPolicy policy ∧ call.rtBarred ∨ dlPolicy policy ∧ call.dlBarred) then
        (s, -Errno.eperm)
      else if (dlPolicy policy ∨ dlPrio (s.prio p).prio) ∧ call.dlOverflow then (s, -Errno.ebusy)
      else (changeScheduler cfg K s p attr call.pi resetOnFork, 0)

theorem zero_nice : -20 ≤ (0 : Int) ∧ (0 : Int) ≤ 19 := by decide

def plainAttr (policy : Policy) (priority : ℕ) : Attr :=
  ⟨.named policy, 0, zero_nice.1, zero_nice.2, priority, 0⟩

def privileged : Call :=
  ⟨true, true, true, fun _ => true, 0, true, 0, false, false, false, true, true, false⟩

/-! ## sched_fork -/

def resetOnFork (policy : Policy) (a : Prio) : Policy × Prio :=
  let privileged := dlPolicy policy ∨ rtPolicy policy
  let staticPrio := if privileged ∨ prioToNice a.staticPrio < 0 then niceToPrio 0 else a.staticPrio
  (if privileged then .wrr else policy,
    { a with
      staticPrio := staticPrio
      rtPriority := if privileged then 0 else a.rtPriority
      normalPrio := staticPrio
      prio := staticPrio
      schedResetOnFork := false })

/-- The policy and the attributes of the child, which `copy_process` has made a copy of
`current` that nothing is blocked on. -/
def childOf (s : State) (current : Pid) : Policy × Prio :=
  let a := { s.prio current with
    onRq := false
    piTopTask := none
    prio := (s.prio current).normalPrio }
  if a.schedResetOnFork then resetOnFork (s.policy current) a else (s.policy current, a)

/-- If the call fails, the child is freed again. -/
def schedFork (s : State) (current child : Pid) : State × Int :=
  let (policy, a) := childOf s current
  if dlPrio a.prio then (s, -Errno.eagain)
  else
    let t := { s.core.task current with
      se := ⟨0, 0, 0⟩
      policy := policy
      schedClass := if rtPrio a.prio then .rt else .wrr }
    ((s.modifyCore fun core => core.modifyTask child fun _ => t).modifyPrio child fun _ => a, 0)

end UnixSystems.PolicyModel
