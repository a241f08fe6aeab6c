import UnixSystems.WakeModel
import UnixSystems.GuardedRuns
import UnixSystems.Holders

/-! Where a task is while CPUs sleep, wake and migrate tasks concurrently. The abstract model
gives each task one place, and `Hop` is how the place may change; the state of the source is
tied to it by what a task sees of the state: its entries in queues and lists, its own fields,
and the role that each CPU's activity plays for it. -/
namespace UnixSystems.WakePlaces
open WakeModel Holders

/-! ## Places -/

/-- `switchedOut` and `switchedOff` tasks are no longer current, but the CPU still uses their
stack; the first is enqueued, the second is not. The places from `waking` to `taken` are those
of a task between `TASK_WAKING` and `TASK_RUNNING`. A CPU named `w` has the task in its hands. -/
inductive Place (Cpu : Type) where
  | ready (c : Cpu)
  | running (c : Cpu)
  | switchedOut (c : Cpu)
  | descheduling (c : Cpu)
  | switchedOff (c : Cpu)
  | blocked
  | waking (w : Cpu)
  | routed (w c : Cpu)
  | listed (c : Cpu)
  | taken (c : Cpu)
  | activated (c w : Cpu)
  | migrating (w d : Cpu)

variable {Cpu Task : Type}

namespace Place

def queue : Place Cpu → Option Cpu
  | ready c | running c | switchedOut c | activated c _ => some c
  | _ => none

def wakeList : Place Cpu → Option Cpu
  | listed c => some c
  | _ => none

def current : Place Cpu → Option Cpu
  | running c | descheduling c => some c
  | _ => none

/-- The value of `task_cpu`, where the place settles it. -/
def home : Place Cpu → Option Cpu
  | ready c | running c | switchedOut c | descheduling c | switchedOff c => some c
  | routed _ c | listed c | taken c | activated c _ => some c
  | migrating _ d => some d
  | blocked | waking _ => none

/-- The CPU that alone may take the task on from here. -/
def owner : Place Cpu → Option Cpu
  | switchedOut c | descheduling c | switchedOff c | taken c => some c
  | waking w | routed w _ | activated _ w | migrating w _ => some w
  | ready _ | running _ | blocked | listed _ => none

def onRq : Place Cpu → OnRq
  | ready _ | running _ | switchedOut _ | activated _ _ => .queued
  | migrating _ _ => .migrating
  | _ => .no

def onCpu : Place Cpu → Bool
  | running _ | switchedOut _ | descheduling _ | switchedOff _ => true
  | _ => false

def woken : Place Cpu → Bool
  | waking _ | routed _ _ | listed _ | taken _ | activated _ _ => true
  | _ => false

/-- Asleep, or on the way there with the run queue left. -/
def off : Place Cpu → Bool
  | descheduling _ | switchedOff _ | blocked => true
  | _ => false

structure Fits (place : Place Cpu) (t : TaskStruct Cpu) : Prop where
  onRq : t.onRq = place.onRq
  onCpu : t.onCpu = place.onCpu
  home : ∀ c, place.home = some c → t.cpu = c
  waking : t.state = taskWaking ↔ place.woken
  asleep : place.off → t.state ≠ taskRunning

end Place

/-- How CPU `w` may change the place of a task. -/
inductive Hop (w : Cpu) : Place Cpu → Place Cpu → Prop
  | mark : Hop w .blocked (.waking w)
  | route (c : Cpu) : Hop w (.waking w) (.routed w c)
  | list (c : Cpu) : Hop w (.routed w c) (.listed c)
  | take : Hop w (.listed w) (.taken w)
  | activate (c : Cpu) : Hop w (.routed w c) (.activated c w)
  | activateTaken : Hop w (.taken w) (.activated w w)
  | wake (c : Cpu) : Hop w (.activated c w) (.ready c)
  | pick : Hop w (.ready w) (.running w)
  | sleep : Hop w (.running w) (.descheduling w)
  | preempt : Hop w (.running w) (.switchedOut w)
  | leave : Hop w (.descheduling w) (.switchedOff w)
  | finishOut : Hop w (.switchedOut w) (.ready w)
  | finishOff : Hop w (.switchedOff w) .blocked
  | detach (c d : Cpu) : Hop w (.ready c) (.migrating w d)
  | attach (d : Cpu) : Hop w (.migrating w d) (.ready d)
  | move (c d : Cpu) : Hop w (.ready c) (.ready d)

/-! ## Roles -/

/-- What an activity knows of a task, or may do with it next. -/
inductive Role (Cpu : Type) where
  | tested
  | seen (rq : Cpu)
  | checked (rq : Cpu)
  | waits
  | atMark
  | hands
  | routes (rq : Cpu)
  | activates (rq : Cpu)
  | chooses
  | finishes
  | takes
  | carries (d : Cpu)

namespace Role

/-- `tested` is a wake-up past the test of `state`; `seen` and `checked` hold the lock of the
queue they name, where they found the task. -/
def Allows (w : Cpu) (place : Place Cpu) : Option (Role Cpu) → Prop
  | none => place.owner ≠ some w
  | some tested => place.owner ≠ some w ∧ place.woken = false
  | some (seen rq) =>
    place.owner ≠ some w ∧ place.onRq ≠ .migrating ∧ ∀ c, place.home = some c → c = rq
  | some (checked rq) =>
    place.owner ≠ some w ∧ place.onRq ≠ .migrating ∧ (∀ c, place.home = some c → c = rq) ∧
      place.woken = false
  | some waits => place.owner ≠ some w ∧ place.off
  | some atMark => place = .blocked
  | some hands => place = .waking w
  | some (routes rq) => place = .routed w rq
  | some (activates rq) => place = .activated rq w
  | some chooses => place = .running w ∨ place = .descheduling w
  | some finishes => place = .switchedOut w ∨ place = .switchedOff w
  | some takes => place = .taken w
  | some (carries d) => place = .migrating w d

/-- The roles that only the holder of the task's `pi_lock` plays. -/
def needsPi : Role Cpu → Bool
  | tested | seen _ | checked _ | waits | atMark | hands | routes _ => true
  | _ => false

def needsRq : Role Cpu → Option Cpu
  | seen rq | checked rq | activates rq => some rq
  | _ => none

end Role

section Hops

variable {w w' : Cpu} {place place' : Place Cpu}

theorem Hop.owner_or (hop : Hop w place place') : place.owner = none ∨ place.owner = some w := by
  cases hop <;> simp [Place.owner]

theorem Hop.owner_or' (hop : Hop w place place') : place'.owner = none ∨ place'.owner = some w := by
  cases hop <;> simp [Place.owner]

theorem Hop.owner_ne (hop : Hop w place place') (other : w' ≠ w) : place'.owner ≠ some w' := by
  rcases hop.owner_or' with none | own
  · simp [none]
  · simpa [own] using Ne.symm other

theorem Hop.current_or (hop : Hop w place place') : place.current = none ∨ place.current = some w := by
  cases hop <;> simp [Place.current]

theorem Hop.woken (hop : Hop w place place') (settled : place.home ≠ none) (sleeps : place.woken = false) :
    place'.woken = false := by
  cases hop <;> simp_all [Place.home, Place.woken]

theorem Hop.off (hop : Hop w place place') (settled : place.home ≠ none) (off : place.off) : place'.off := by
  cases hop <;> simp_all [Place.home, Place.off]

theorem Hop.home (hop : Hop w place place') (settled : place.home ≠ none) (unlocked : ∀ c, place ≠ .ready c)
    (still : place.onRq ≠ .migrating) :
    place'.onRq ≠ .migrating ∧ ∀ c, place'.home = some c → place.home = some c := by
  cases hop <;> simp_all [Place.home, Place.onRq]

/-- A hop of one CPU leaves the roles of the others in order. The holder of `pi_lock` alone
moves a sleeping task, and a queued one is moved under the lock of its queue. -/
theorem Role.Allows.hop (hop : Hop w place place') (other : w' ≠ w) {r : Option (Role Cpu)}
    (allows : Allows w' place r) (pi : place.home = none → ∀ r', r = some r' → r'.needsPi = false)
    (lock : ∀ c, place = .ready c → ∀ r', r = some r' → r'.needsRq ≠ some c) :
    Allows w' place' r := by
  have apart := hop.owner_ne other
  have settled : ∀ r', r = some r' → r'.needsPi = true → place.home ≠ none := fun r' eq needs none => by
    simpa [needs] using pi none r' eq
  have foreign : place.owner ≠ some w' := by
    rcases hop.owner_or with none | own
    · simp [none]
    · simpa [own] using Ne.symm other
  have elsewhere : place.current ≠ some w' := by
    rcases hop.current_or with none | own
    · simp [none]
    · simpa [own] using Ne.symm other
  have away : ∀ rq, (∀ c, place.home = some c → c = rq) → (∀ c, place = .ready c → some rq ≠ some c) →
      ∀ c, place ≠ .ready c := by
    rintro rq near held c rfl
    exact held c rfl (congrArg some (near c rfl).symm)
  cases r with
  | none => exact apart
  | some r =>
    cases r with
    | tested => exact ⟨apart, hop.woken (settled _ rfl rfl) allows.2⟩
    | seen rq =>
      have moved := hop.home (settled _ rfl rfl) (away rq allows.2.2 fun c here => lock c here _ rfl) allows.2.1
      exact ⟨apart, moved.1, fun c here => allows.2.2 c (moved.2 c here)⟩
    | checked rq =>
      have moved := hop.home (settled _ rfl rfl) (away rq allows.2.2.1 fun c here => lock c here _ rfl)
        allows.2.1
      exact ⟨apart, moved.1, fun c here => allows.2.2.1 c (moved.2 c here),
        hop.woken (settled _ rfl rfl) allows.2.2.2⟩
    | waits => exact ⟨apart, hop.off (settled _ rfl rfl) allows.2⟩
    | atMark => exact absurd (congrArg Place.home allows) (settled _ rfl rfl)
    | hands | routes | activates | takes | carries =>
      exact absurd (congrArg Place.owner allows) foreign
    | chooses =>
      rcases allows with rfl | rfl <;> exact absurd rfl elsewhere
    | finishes =>
      rcases allows with rfl | rfl <;> exact absurd rfl foreign

end Hops

/-! ## What an activity holds -/

section Activities

variable [DecidableEq Task]

def ttwuRole : TtwuPc Cpu → Option (Role Cpu)
  | .testOnRq | .readRq | .lockRq _ | .checkRq _ | .dropRq _ | .relax => some .tested
  | .remote rq => some (.checked rq)
  | .unlockRemote _ false | .waitOnCpu => some .waits
  | .markWaking => some .atMark
  | .selectRq => some .hands
  | .queue rq | .listAdd rq | .lockDest rq | .activate rq => some (.routes rq)
  | .setRunning rq => some (.activates rq)
  | .lockPi | .testState | .unlockRemote _ true | .kick _ | .unlockDest _ | .unlockPi => none

def scheduleRole : SchedulePc → Option (Role Cpu)
  | .pick | .dropped => some .chooses
  | .finish => some .finishes
  | .lock | .decide | .unlock => none

def moveRole : MovePc Cpu → Option (Role Cpu)
  | .moveQueued rq => some (.seen rq)
  | .unlockSrc _ dest | .lockDest dest | .attach dest => some (.carries dest)
  | _ => none

def role (w : Cpu) (a : Activity Cpu Task) (q : Task) : Option (Role Cpu) :=
  match a with
  | .run | .special _ _ _ => none
  | .ttwu p _ pc => if q = p then ttwuRole pc else none
  | .schedule _ prev pc => if prev = some q then scheduleRole pc else none
  | .pending tasks pc =>
    if q ∈ tasks then some .takes
    else
      match pc with
      | .setRunning p => if q = p then some (.activates w) else none
      | _ => none
  | .move p pc => if q = p then moveRole pc else none
  | .balance tasks _ dst _ => if q ∈ tasks then some (.carries dst) else none

def batch : Activity Cpu Task → List Task
  | .pending tasks _ | .balance tasks _ _ _ => tasks
  | _ => []

def piLock : Activity Cpu Task → Option Task
  | .ttwu _ _ .lockPi => none
  | .ttwu p _ _ => some p
  | .move _ .lockPi | .move _ .relax => none
  | .move p _ => some p
  | .special _ _ .lockPi => none
  | .special p _ _ => some p
  | _ => none

def rqLock (w : Cpu) : Activity Cpu Task → Option Cpu
  | .ttwu _ _ (.checkRq rq) | .ttwu _ _ (.remote rq) | .ttwu _ _ (.dropRq rq) => some rq
  | .ttwu _ _ (.unlockRemote rq _) | .ttwu _ _ (.activate rq) | .ttwu _ _ (.setRunning rq) => some rq
  | .ttwu _ _ (.unlockDest rq) => some rq
  | .schedule _ _ .decide | .schedule _ _ .pick | .schedule _ _ .finish | .schedule _ _ .unlock => some w
  | .pending _ .activate | .pending _ (.setRunning _) | .pending _ .unlock => some w
  | .move _ (.checkRq rq) | .move _ (.moveQueued rq) | .move _ (.unlockSrc rq _) => some rq
  | .move _ (.attach rq) | .move _ (.unlockRq rq) | .move _ (.dropRq rq) => some rq
  | .balance _ src _ .detach => some src
  | .balance _ _ dst .attach | .balance _ _ dst .unlockDst => some dst
  | _ => none

/-- What an activity's local variables keep to. `prev` is read before the lock is taken and is
the current task until the switch. -/
def Local (curr : Option Task) : Activity Cpu Task → Prop
  | .ttwu _ mask _ => mask &&& (taskWaking ||| taskDead) = 0
  | .schedule _ prev .lock | .schedule _ prev .decide | .schedule _ prev .pick => curr = prev
  | .schedule _ prev .dropped => curr = prev
  | .pending tasks .take | .pending tasks .unlock | .balance tasks _ _ .unlockDst => tasks = []
  | .pending tasks (.setRunning p) => p ∉ tasks
  | .special p value _ => curr = some p ∧ value ≠ taskWaking
  | _ => True

theorem piLock_of_role {w : Cpu} {a : Activity Cpu Task} {p : Task} {r : Role Cpu}
    (plays : role w a p = some r) (needs : r.needsPi) : piLock a = some p := by
  cases a with
  | run | special => simp [role] at plays
  | ttwu q mask pc =>
    obtain ⟨rfl, own⟩ : p = q ∧ ttwuRole pc = some r := by simpa [role] using plays
    cases pc
    case lockPi => cases own
    all_goals rfl
  | schedule preempt prev pc =>
    have own : scheduleRole pc = some r := (by simpa [role] using plays : _ ∧ _).2
    cases pc <;> cases own <;> cases needs
  | pending tasks pc =>
    simp only [role] at plays
    split at plays
    · cases plays
      cases needs
    · cases pc <;> simp at plays
      rw [← plays.2] at needs
      cases needs
  | move q pc =>
    obtain ⟨rfl, own⟩ : p = q ∧ moveRole pc = some r := by simpa [role] using plays
    cases pc
    case lockPi | relax => cases own
    all_goals rfl
  | balance tasks src dst pc =>
    have own : Role.carries dst = r := (by simpa [role] using plays : _ ∧ _).2
    rw [← own] at needs
    cases needs

theorem rqLock_of_role {w c : Cpu} {a : Activity Cpu Task} {p : Task} {r : Role Cpu}
    (plays : role w a p = some r) (needs : r.needsRq = some c) : rqLock w a = some c := by
  cases a with
  | run | special => simp [role] at plays
  | ttwu q mask pc =>
    have own : ttwuRole pc = some r := (by simpa [role] using plays : _ ∧ _).2
    cases pc
    case unlockRemote rq woken => cases woken <;> cases own; cases needs
    all_goals cases own <;> first | exact needs | cases needs
  | schedule preempt prev pc =>
    have own : scheduleRole pc = some r := (by simpa [role] using plays : _ ∧ _).2
    cases pc <;> cases own <;> cases needs
  | pending tasks pc =>
    simp only [role] at plays
    split at plays
    · cases plays
      cases needs
    · cases pc <;> simp at plays
      rw [← plays.2] at needs
      exact needs
  | move q pc =>
    have own : moveRole pc = some r := (by simpa [role] using plays : _ ∧ _).2
    cases pc <;> cases own <;> first | exact needs | cases needs
  | balance tasks src dst pc =>
    have own : Role.carries dst = r := (by simpa [role] using plays : _ ∧ _).2
    rw [← own] at needs
    cases needs

theorem act_of_scheduleRole {w : Cpu} {a : Activity Cpu Task} {p : Task} {r : Role Cpu}
    (plays : role w a p = some r) (last : r = .chooses ∨ r = .finishes) :
    ∃ preempt pc, a = .schedule preempt (some p) pc ∧ scheduleRole pc = some r := by
  cases a with
  | schedule preempt prev pc =>
    obtain ⟨rfl, own⟩ : prev = some p ∧ scheduleRole pc = some r := by simpa [role] using plays
    exact ⟨preempt, pc, rfl, own⟩
  | run | special => simp [role] at plays
  | ttwu q mask pc =>
    have own : ttwuRole pc = some r := (by simpa [role] using plays : _ ∧ _).2
    rcases last with rfl | rfl <;> cases pc
    case inl.unlockRemote rq woken | inr.unlockRemote rq woken => cases woken <;> cases own
    all_goals cases own
  | pending tasks pc =>
    simp only [role] at plays
    split at plays
    · rcases last with rfl | rfl <;> cases plays
    · cases pc <;> simp at plays
      rcases last with rfl | rfl <;> cases plays.2
  | move q pc =>
    have own : moveRole pc = some r := (by simpa [role] using plays : _ ∧ _).2
    rcases last with rfl | rfl <;> cases pc <;> cases own
  | balance tasks src dst pc =>
    have own : Role.carries dst = r := (by simpa [role] using plays : _ ∧ _).2
    rcases last with rfl | rfl <;> cases own

end Activities

/-! ## What a task sees -/

section Views

variable [DecidableEq Task]

@[ext] structure View (Cpu : Type) where
  queue : Cpu → ℕ
  wakeList : Cpu → ℕ
  batch : Cpu → ℕ
  curr : Cpu → Prop
  task : TaskStruct Cpu
  role : Cpu → Option (Role Cpu)

def view (s : State Cpu Task) (p : Task) : View Cpu where
  queue c := (s.rq c).queue.count p
  wakeList c := (s.rq c).wakeList.count p
  batch c := (batch (s.act c)).count p
  curr c := (s.rq c).curr = some p
  task := s.task p
  role c := role c (s.act c) p

variable (s : State Cpu Task) (p q : Task) (c w : Cpu)

@[simp] theorem view_setTask_self (t : TaskStruct Cpu) :
    view (s.setTask p t) p = { view s p with task := t } := by
  simp only [view, State.setTask, Function.update_self]

theorem view_setTask_of_ne {p q : Task} (other : q ≠ p) (t : TaskStruct Cpu) :
    view (s.setTask p t) q = view s q := by
  simp only [view, State.setTask, Function.update_of_ne other]

@[simp] theorem view_setPi (holder : Option Cpu) : view (s.setPi p holder) q = view s q := rfl

variable [DecidableEq Cpu]

theorem view_setRq (rq : Rq Cpu Task) :
    view (s.setRq c rq) q = { view s q with
      queue := Function.update (view s q).queue c (rq.queue.count q)
      wakeList := Function.update (view s q).wakeList c (rq.wakeList.count q)
      curr := Function.update (view s q).curr c (rq.curr = some q) } := by
  apply View.ext <;> first | rfl | (funext d; by_cases same : d = c <;> simp [view, State.setRq, same])

theorem view_setRq_queue {rq : Rq Cpu Task} (wakeList : rq.wakeList = (s.rq c).wakeList)
    (curr : rq.curr = (s.rq c).curr) :
    view (s.setRq c rq) q = { view s q with
      queue := Function.update (view s q).queue c (rq.queue.count q) } := by
  have wakeList : rq.wakeList.count q = (view s q).wakeList c := by rw [wakeList]; rfl
  have curr : (rq.curr = some q) = (view s q).curr c := by rw [curr]; rfl
  rw [view_setRq, wakeList, curr]
  simp only [Function.update_eq_self]

theorem view_setRq_wakeList {rq : Rq Cpu Task} (queue : rq.queue = (s.rq c).queue)
    (curr : rq.curr = (s.rq c).curr) :
    view (s.setRq c rq) q = { view s q with
      wakeList := Function.update (view s q).wakeList c (rq.wakeList.count q) } := by
  have queue : rq.queue.count q = (view s q).queue c := by rw [queue]; rfl
  have curr : (rq.curr = some q) = (view s q).curr c := by rw [curr]; rfl
  rw [view_setRq, queue, curr]
  simp only [Function.update_eq_self]

theorem view_setRq_of_same {rq : Rq Cpu Task} (queue : rq.queue.count q = (s.rq c).queue.count q)
    (wakeList : rq.wakeList = (s.rq c).wakeList) (curr : rq.curr = (s.rq c).curr) :
    view (s.setRq c rq) q = view s q := by
  have queue : rq.queue.count q = (view s q).queue c := queue
  rw [view_setRq_queue s q c wakeList curr, queue]
  simp only [Function.update_eq_self]

@[simp] theorem view_lockRq : view (s.lockRq c w) q = view s q :=
  view_setRq_of_same s q c rfl rfl rfl

@[simp] theorem view_unlockRq : view (s.unlockRq c) q = view s q :=
  view_setRq_of_same s q c rfl rfl rfl

theorem view_goto (a : Activity Cpu Task) :
    view (s.goto w a) q = { view s q with
      batch := Function.update (view s q).batch w ((batch a).count q)
      role := Function.update (view s q).role w (role w a q) } := by
  apply View.ext <;> first | rfl | (funext d; by_cases same : d = w <;> simp [view, State.goto, same])

theorem view_goto_of_same {a : Activity Cpu Task}
    (batch : (batch a).count q = (WakePlaces.batch (s.act w)).count q)
    (role : role w a q = WakePlaces.role w (s.act w) q) : view (s.goto w a) q = view s q := by
  have batch : (WakePlaces.batch a).count q = (view s q).batch w := batch
  have role : WakePlaces.role w a q = (view s q).role w := role
  rw [view_goto, batch, role]
  simp only [Function.update_eq_self]

def once (place : Option Cpu) (c : Cpu) : ℕ := if place = some c then 1 else 0

@[simp] theorem update_once_some_zero : Function.update (once (some c)) c 0 = once none := by
  funext d
  by_cases same : d = c
  · simp [same, once]
  · simp [same, once, Ne.symm same]

@[simp] theorem update_once_none_one : Function.update (once none) c 1 = once (some c) := by
  funext d
  by_cases same : d = c
  · simp [same, once]
  · simp [same, once, Ne.symm same]

structure Fit (v : View Cpu) (place : Place Cpu) : Prop where
  queue : v.queue = once place.queue
  wakeList : v.wakeList = once place.wakeList
  batch : ∀ c, v.batch c ≤ 1
  curr : v.curr = fun c => place.current = some c
  fits : place.Fits v.task
  roles : ∀ w, Role.Allows w place (v.role w)

section Queues

variable {s p c} {rq : Rq Cpu Task} {place : Place Cpu}

theorem count_eq_zero (fit : Fit (view s p) place) (queue : place.queue = none) :
    (s.rq c).queue.count p = 0 := by
  simpa [view, queue, once] using congrFun fit.queue c

theorem count_eq_one (fit : Fit (view s p) place) (queue : place.queue = some c) :
    (s.rq c).queue.count p = 1 := by
  simpa [view, queue, once] using congrFun fit.queue c

theorem queue_of_mem (fit : Fit (view s p) place) (queued : p ∈ (s.rq c).queue) :
    place.queue = some c := by
  have count : (s.rq c).queue.count p = once place.queue c := congrFun fit.queue c
  have pos := List.count_pos_iff.mpr queued
  by_contra off
  simp only [once, if_neg off] at count
  omega

theorem role_of_activated {w : Cpu} (fit : Fit (view s p) (.activated c w)) :
    role w (s.act w) p = some (.activates c) := by
  have plays : Role.Allows w (.activated c w) (role w (s.act w) p) := fit.roles w
  cases r : role w (s.act w) p with
  | none => simp [r, Role.Allows, Place.owner] at plays
  | some r' =>
    cases r' <;> simp_all [Role.Allows, Place.owner]

theorem queue_enqueue (fit : Fit (view s p) place) (absent : place.queue = none)
    (queue : rq.queue = p :: (s.rq c).queue) (wakeList : rq.wakeList = (s.rq c).wakeList)
    (curr : rq.curr = (s.rq c).curr) :
    view (s.setRq c rq) p = { view s p with queue := once (some c) } := by
  rw [view_setRq_queue s p c wakeList curr, queue, List.count_cons_self, count_eq_zero fit absent,
    fit.queue, absent, update_once_none_one]

theorem queue_dequeue (fit : Fit (view s p) place) (present : place.queue = some c)
    (queue : rq.queue = (s.rq c).queue.erase p) (wakeList : rq.wakeList = (s.rq c).wakeList)
    (curr : rq.curr = (s.rq c).curr) :
    view (s.setRq c rq) p = { view s p with queue := once none } := by
  rw [view_setRq_queue s p c wakeList curr, queue, List.count_erase_self, count_eq_one fit present,
    fit.queue, present, update_once_some_zero]

theorem view_enqueue_of_ne {q : Task} (other : q ≠ p) (queue : rq.queue = p :: (s.rq c).queue)
    (wakeList : rq.wakeList = (s.rq c).wakeList) (curr : rq.curr = (s.rq c).curr) :
    view (s.setRq c rq) q = view s q :=
  view_setRq_of_same s q c (by rw [queue, List.count_cons_of_ne other.symm]) wakeList curr

theorem view_dequeue_of_ne {q : Task} (other : q ≠ p) (queue : rq.queue = (s.rq c).queue.erase p)
    (wakeList : rq.wakeList = (s.rq c).wakeList) (curr : rq.curr = (s.rq c).curr) :
    view (s.setRq c rq) q = view s q :=
  view_setRq_of_same s q c (by rw [queue, List.count_erase_of_ne other]) wakeList curr

end Queues

structure Locks (s : State Cpu Task) : Prop where
  rq : Agree (fun c => (s.rq c).lock) fun w => rqLock w (s.act w)
  pi : Agree s.piLock fun w => piLock (s.act w)
  own : ∀ c, Local (s.rq c).curr (s.act c)

structure Inv (s : State Cpu Task) : Prop where
  locks : Locks s
  placed : ∀ p, ∃ place, Fit (view s p) place

end Views

end UnixSystems.WakePlaces
