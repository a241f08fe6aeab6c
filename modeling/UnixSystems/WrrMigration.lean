import UnixSystems.SaveRestore
import UnixSystems.WrrBalance

/-! The rest of `pullTaskWrr`, from the target CPU on: the loop over the run list of the
target that picks a task, and its move with `deactivate_task`, `set_task_cpu` and
`activate_task`. The local `thisRq` is never assigned: it is a parameter here, `none` when it
does not happen to point to a run queue. -/
namespace UnixSystems.WrrMigration
open CircularList
open WrrModel hiding State
open WrrConservation hiding Action step Enabled
open PolicyModel hiding State effectivePrio
open SaveRestore WrrBalance

/-- What the loop and the move read of a task besides what the classes keep. -/
structure TaskInfo where
  onRq : UInt32
  onCpu : Bool
  cpusAllowed : Cpumask
  contributesToLoad : Bool

structure State where
  core : WrrModel.State
  info : Pid → TaskInfo
  nrUninterruptible : ℕ → UInt64

def taskRunning (s : State) (p : Pid) : Bool := (s.info p).onCpu

def deactivateTask (cfg : Config) (K : OtherClasses) (s : State) (cpu : ℕ) (p : Pid) (flags : UInt32)
    (now : UInt64) : State :=
  { s with
    core := dequeueTask cfg K s.core cpu p flags now
    nrUninterruptible := if (s.info p).contributesToLoad then
        Function.update s.nrUninterruptible cpu (s.nrUninterruptible cpu + 1)
      else s.nrUninterruptible }

def activateTask (K : OtherClasses) (s : State) (cpu : ℕ) (p : Pid) (flags : UInt32) (now : UInt64) :
    State :=
  { s with
    core := enqueueTask K s.core cpu p flags now
    nrUninterruptible := if (s.info p).contributesToLoad then
        Function.update s.nrUninterruptible cpu (s.nrUninterruptible cpu - 1)
      else s.nrUninterruptible }

def setTaskCpu (s : State) (p : Pid) (cpu : ℕ) : State :=
  { s with core := s.core.modifyTask p fun t => { t with cpu := cpu } }

/-- The test in the loop, as it is written. -/
def candidate (s : State) (thisCpu : ℕ) (p : Pid) : Bool :=
  taskRunning s p && (s.core.task p).policy = .wrr && (s.info p).onRq ≠ 0 &&
    (s.info p).cpusAllowed.test thisCpu

/-- How the loop ends: with a task, at the head of the list, or not within the fuel. -/
inductive Search where
  | found (p : Pid)
  | finished
  | unfinished
deriving DecidableEq

def searchFrom (s : State) (thisCpu : ℕ) : ℕ → Node → Search
  | 0, _ => .unfinished
  | _ + 1, .head _ => .finished
  | fuel + 1, .entity p =>
    if candidate s thisCpu p then .found p
    else searchFrom s thisCpu fuel (s.core.links.next (.entity p))

/-- The task moved and the state, or the use of a wild pointer. -/
inductive Outcome where
  | done (moved : Option Pid) (s : State)
  | wild
  | unfinished

def moveTask (cfg : Config) (K : OtherClasses) (s : State) (thisCpu thisRq target : ℕ) (p : Pid)
    (now : UInt64) : State :=
  let s := deactivateTask cfg K s target p 0 now
  let s := setTaskCpu s p thisCpu
  activateTask K s thisRq p 0 now

/-- From `double_rq_lock` on, which reads `thisRq`. -/
def pullFrom (cfg : Config) (K : OtherClasses) (s : State) (thisCpu : ℕ) (thisRq : Option ℕ)
    (target fuel : ℕ) (now : UInt64) : Outcome :=
  match thisRq with
  | none => .wild
  | some thisRq =>
    match searchFrom s thisCpu fuel (s.core.links.next (.head target)) with
    | .found p => .done (some p) (moveTask cfg K s thisCpu thisRq target p now)
    | .finished => .done none s
    | .unfinished => .unfinished

/-- The whole function; `targetCpu` is not initialised either. -/
def pullTaskWrr (cfg : Config) (K : OtherClasses) (s : State) (cpuActive : ℕ → Bool)
    (online : List ℕ) (thisCpu : ℕ) (thisRq : Option ℕ) (fuel : ℕ) (now : UInt64) : Outcome :=
  match pullTarget s.core cpuActive online thisCpu with
  | .inactive | .early => .done none s
  | .target none => .wild
  | .target (some target) => pullFrom cfg K s thisCpu thisRq target fuel now

/-- As the target is never chosen, no task is ever moved. -/
theorem pullTaskWrr_eq (cfg : Config) (K : OtherClasses) (s : State) (cpuActive : ℕ → Bool)
    (online : List ℕ) (thisCpu : ℕ) (thisRq : Option ℕ) (fuel : ℕ) (now : UInt64) :
    pullTaskWrr cfg K s cpuActive online thisCpu thisRq fuel now = .done none s := by
  cases active : cpuActive thisCpu with
  | true => rw [pullTaskWrr, pullTarget_early s.core cpuActive online thisCpu active]
  | false => simp [pullTaskWrr, pullTarget, active]

/-! ## What is found -/

section Search

variable {s : State} {thisCpu target : ℕ} {queue : List Pid}

theorem searchFrom_chain {fuel : ℕ} {first : Node}
    (chain : Chain s.core.links first (queue.map .entity) (.head target))
    (enough : queue.length < fuel) :
    searchFrom s thisCpu fuel (s.core.links.next first) =
      match queue.find? (candidate s thisCpu) with
      | some p => .found p
      | none => .finished := by
  induction queue generalizing first fuel with
  | nil =>
    cases fuel with
    | zero => simp at enough
    | succ fuel => rw [chain.1, searchFrom, List.find?_nil]
  | cons p queue ih =>
    cases fuel with
    | zero => simp at enough
    | succ fuel =>
      rw [chain.1.1, searchFrom, List.find?_cons]
      cases candidate s thisCpu p with
      | true => rfl
      | false => exact ih chain.2 (by simpa using enough)

theorem searchFrom_eq (thisCpu : ℕ) (ring : HasQueue s.core target queue) {fuel : ℕ}
    (enough : queue.length < fuel) :
    searchFrom s thisCpu fuel (s.core.links.next (.head target)) =
      match queue.find? (candidate s thisCpu) with
      | some p => .found p
      | none => .finished :=
  searchFrom_chain ring.chain enough

end Search

/-! ## What should be moved -/

/-- What holds of the tasks on a run list while its lock is held. -/
structure Locked (s : State) (target : ℕ) (queue : List Pid) : Prop where
  onRq : ∀ p ∈ queue, (s.info p).onRq ≠ 0
  onCpu : ∀ p ∈ queue, (s.info p).onCpu ↔ (s.core.rq target).curr = some p

structure Eligible (s : State) (thisCpu target : ℕ) (queue : List Pid) (p : Pid) : Prop where
  listed : p ∈ queue
  waiting : (s.core.rq target).curr ≠ some p
  policy : (s.core.task p).policy = .wrr
  allowed : (s.info p).cpusAllowed.test thisCpu

structure Moves (queue new : ℕ → List Pid) (target thisCpu : ℕ) (p : Pid) : Prop where
  gone : p ∉ new target
  here : p ∈ new thisCpu
  conserved : ∀ cpus : List ℕ, cpus.Nodup → target ∈ cpus → thisCpu ∈ cpus →
    (cpus.flatMap new).Perm (cpus.flatMap queue)

def MovesWaiting (s : State) (thisCpu target : ℕ) (queue : ℕ → List Pid) : Outcome → Prop
  | .done (some p) t => Eligible s thisCpu target (queue target) p ∧
      ∃ new : ℕ → List Pid, (∀ c, HasQueue t.core c (new c)) ∧ Moves queue new target thisCpu p
  | .done none t => (∀ p, ¬ Eligible s thisCpu target (queue target) p) ∧
      ∀ c, HasQueue t.core c (queue c)
  | _ => False

section Pull

variable {s : State} {thisCpu target : ℕ} {queue : ℕ → List Pid}

theorem not_eligible_of_candidate (locked : Locked s target (queue target)) {p : Pid}
    (listed : p ∈ queue target) (found : candidate s thisCpu p = true) :
    ¬ Eligible s thisCpu target (queue target) p := by
  intro eligible
  simp only [candidate, Bool.and_eq_true] at found
  exact eligible.waiting ((locked.onCpu p listed).mp found.1.1.1)

section Move

variable {base : ℕ → UInt32} {p : Pid} {l r : List Pid}

theorem moves_update (split : queue target = l ++ p :: r) (other : thisCpu ≠ target)
    (out : p ∉ l ++ r) :
    Moves queue (Function.update (Function.update queue target (l ++ r)) thisCpu
      (queue thisCpu ++ [p])) target thisCpu p := by
  constructor
  · rwa [Function.update_of_ne (Ne.symm other), Function.update_self]
  · rw [Function.update_self]
    simp
  · intro cpus distinct hasTarget hasThis
    obtain ⟨front, order⟩ : ∃ front, cpus.Perm (target :: thisCpu :: front) := by
      have first := List.perm_cons_erase hasTarget
      have inside : thisCpu ∈ cpus.erase target := (List.mem_erase_of_ne other).mpr hasThis
      exact ⟨_, first.trans ((List.perm_cons_erase inside).cons target)⟩
    have apart := order.nodup_iff.mp distinct
    simp only [List.nodup_cons, List.mem_cons, not_or] at apart
    have rest : front.flatMap (Function.update (Function.update queue target (l ++ r)) thisCpu
        (queue thisCpu ++ [p])) = front.flatMap queue := by
      refine List.flatMap_congr fun c member => ?_
      have awayThis : c ≠ thisCpu := fun same => apart.2.1 (same ▸ member)
      have awayTarget : c ≠ target := fun same => apart.1.2 (same ▸ member)
      rw [Function.update_of_ne awayThis, Function.update_of_ne awayTarget]
    refine (order.flatMap_right _).trans (List.Perm.trans ?_ (order.flatMap_right queue).symm)
    simp only [List.flatMap_cons, rest, Function.update_self, Function.update_of_ne (Ne.symm other), split]
    refine List.perm_iff_count.mpr fun q => ?_
    simp only [List.count_append, List.count_cons, List.count_nil]
    omega

theorem moveTask_core (cfg : Config) (K : OtherClasses) {thisRq : ℕ}
    (wrr : (s.core.task p).schedClass = .wrr) (now : UInt64) :
    (moveTask cfg K s thisCpu thisRq target p now).core =
      enqueueTaskWrr (updateRqClock ((dequeueTaskWrr cfg (updateRqClock s.core target now) target p
        0).modifyTask p fun t => { t with cpu := thisCpu }) thisRq now) thisRq p 0 := by
  have timed : (0 : UInt32) &&& noclock = 0 := by decide
  have first : ((updateRqClock s.core target now).task p).schedClass = .wrr := wrr
  have second : (((dequeueTaskWrr cfg (updateRqClock s.core target now) target p 0).modifyTask p
      fun t => { t with cpu := thisCpu }).task p).schedClass = .wrr := by
    simp only [WrrModel.State.modifyTask, Function.update_self]
    rw [schedClass_dequeueTaskWrr]
    exact wrr
  have third : ((updateRqClock ((dequeueTaskWrr cfg (updateRqClock s.core target now) target p
      0).modifyTask p fun t => { t with cpu := thisCpu }) thisRq now).task p).schedClass = .wrr := second
  simp only [moveTask, activateTask, setTaskCpu, deactivateTask, dequeueTask, enqueueTask, if_pos timed,
    if_pos first, if_pos third]

theorem moveTask_moves (cfg : Config) (K : OtherClasses) (listed : Listed base s.core queue)
    (split : queue target = l ++ p :: r) (other : thisCpu ≠ target)
    (wrr : (s.core.task p).schedClass = .wrr) (now : UInt64) :
    ∃ new : ℕ → List Pid, (∀ c, HasQueue (moveTask cfg K s thisCpu thisCpu target p now).core c (new c)) ∧
      Moves queue new target thisCpu p := by
  have distinct := (listed.ring target).nodup
  rw [split, List.nodup_middle, List.nodup_cons] at distinct
  have ticked : SameQueues s.core (updateRqClock s.core target now) :=
    sameQueues_modifyRq s.core target _ rfl rfl
  have off := (listed.same ticked).1.dequeue cfg 0 split
  have out : ∀ c, p ∉ Function.update queue target (l ++ r) c := fun c member =>
    ((listed.mem_dequeued split c p).mp member).2 rfl
  have moved := off.1.setTaskCpu thisCpu out
  have clocked := moved.1.same (sameQueues_modifyRq _ thisCpu (fun rq => { rq with clockTask := now })
    rfl rfl)
  have home : ((updateRqClock ((dequeueTaskWrr cfg (updateRqClock s.core target now) target p 0).modifyTask
      p fun t => { t with cpu := thisCpu }) thisCpu now).task p).cpu = thisCpu := by
    simp [updateRqClock, WrrModel.State.modifyRq, WrrModel.State.modifyTask]
  have on := clocked.1.enqueue 0 out home
  rw [enqueued, if_neg (by decide), Function.update_of_ne other] at on
  refine ⟨_, fun c => ?_, moves_update split other distinct.1⟩
  rw [moveTask_core cfg K wrr]
  exact on.1.ring c

end Move

theorem eligible_or_candidate (locked : Locked s target (queue target)) {p : Pid}
    (listed : p ∈ queue target) (policy : (s.core.task p).policy = .wrr)
    (allowed : (s.info p).cpusAllowed.test thisCpu = true) :
    Eligible s thisCpu target (queue target) p ∨ candidate s thisCpu p = true := by
  by_cases current : (s.core.rq target).curr = some p
  · have running := (locked.onCpu p listed).mpr current
    have onRq := locked.onRq p listed
    exact .inr (by simp [candidate, taskRunning, running, policy, onRq, allowed])
  · exact .inl ⟨listed, current, policy, allowed⟩

end Pull

theorem movesWaiting_iff (cfg : Config) (K : OtherClasses) (s : State) (thisCpu target : ℕ)
    (thisRq : Option ℕ) (queue : ℕ → List Pid) (ring : ∀ c, HasQueue s.core c (queue c))
    (locked : Locked s target (queue target)) (fuel : ℕ) (enough : (queue target).length < fuel)
    (now : UInt64) :
    MovesWaiting s thisCpu target queue (pullFrom cfg K s thisCpu thisRq target fuel now) ↔
      thisRq.isSome ∧ ∀ p ∈ queue target, (s.core.task p).policy = .wrr →
        ¬ (s.info p).cpusAllowed.test thisCpu := by
  cases thisRq with
  | none => simp [pullFrom, MovesWaiting]
  | some thisRq =>
    have search := searchFrom_eq thisCpu (ring target) enough
    cases found : (queue target).find? (candidate s thisCpu) with
    | some p =>
      have listed := List.mem_of_find?_eq_some found
      have hit := List.find?_some found
      rw [found] at search
      simp only [pullFrom, search, Option.isSome_some, true_and]
      constructor
      · exact fun moves => absurd moves.1 (not_eligible_of_candidate locked listed hit)
      · intro barred
        simp only [candidate, Bool.and_eq_true, decide_eq_true_eq] at hit
        exact absurd hit.2 (barred p listed hit.1.1.2)
    | none =>
      have missed := List.find?_eq_none.mp found
      rw [found] at search
      simp only [pullFrom, search, Option.isSome_some, true_and]
      constructor
      · intro moves p listed policy allowed
        rcases eligible_or_candidate locked listed policy allowed with eligible | hit
        · exact moves.1 p eligible
        · exact missed p listed hit
      · intro barred
        exact ⟨fun p eligible => barred p eligible.listed eligible.policy eligible.allowed, ring⟩

def busyZero (mask : Cpumask) : State where
  core := twoWaiting.modifyRq 0 fun rq => { rq with curr := some (.nth 0) }
  info := fun p => ⟨1, p = .nth 0, mask, false⟩
  nrUninterruptible := fun _ => 0

theorem busyZero_ring (mask : Cpumask) (c : ℕ) : HasQueue (busyZero mask).core c (twoListed c) :=
  twoWaiting_holds.ring c

theorem busyZero_locked (mask : Cpumask) : Locked (busyZero mask) 0 (twoListed 0) where
  onRq := fun _ _ => by simp [busyZero]
  onCpu := fun p _ => by simp [busyZero, WrrModel.State.modifyRq, eq_comm]

theorem movesWaiting_iff_pinned :
    MovesWaiting (busyZero (.interval 0 1)) 1 0 twoListed
      (pullFrom ⟨10, 1000, true, true⟩ idleClasses (busyZero (.interval 0 1)) 1 (some 1) 0 3 7) := by
  have barred : ¬ (Cpumask.interval 0 1).test 1 := by decide
  exact (movesWaiting_iff _ idleClasses _ 1 0 (some 1) twoListed (busyZero_ring _) (busyZero_locked _) 3
    (by decide) 7).mpr ⟨rfl, fun p _ _ => barred⟩

theorem running_task_pulled :
    (∃ t, pullFrom ⟨10, 1000, true, true⟩ idleClasses (busyZero (.interval 0 2)) 1 (some 1) 0 3 7 =
        .done (some (.nth 0)) t) ∧
      ((busyZero (.interval 0 2)).core.rq 0).curr = some (.nth 0) ∧
      Eligible (busyZero (.interval 0 2)) 1 0 (twoListed 0) (.nth 1) ∧
      ¬ MovesWaiting (busyZero (.interval 0 2)) 1 0 twoListed
        (pullFrom ⟨10, 1000, true, true⟩ idleClasses (busyZero (.interval 0 2)) 1 (some 1) 0 3 7) := by
  have found : searchFrom (busyZero (.interval 0 2)) 1 3
      ((busyZero (.interval 0 2)).core.links.next (.head 0)) = .found (.nth 0) := by decide
  have current : ((busyZero (.interval 0 2)).core.rq 0).curr = some (.nth 0) := by decide
  have eligible : Eligible (busyZero (.interval 0 2)) 1 0 (twoListed 0) (.nth 1) :=
    ⟨by decide, by decide, by decide, by decide⟩
  refine ⟨⟨_, by simp only [pullFrom, found]; rfl⟩, current, eligible, ?_⟩
  simp only [pullFrom, found]
  exact fun moves => moves.1.waiting current

end UnixSystems.WrrMigration
