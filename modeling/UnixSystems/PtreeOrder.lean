import UnixSystems.PtreeTrace
import UnixSystems.WrappedQueue

/-! What ptree reports is the beginning of the level order of the processes below the
root, with their depths. The array is its own queue: after the rows of its first `next`
entries it is the front of the order, cut off at the size of the buffer. The cursor has 16
bits, so that this ends with the 65536th entry. -/
namespace UnixSystems.PtreeOrder
open LevelOrder WrappedQueue PtreeModel PtreeTrace

variable {Task : Type*}

/-- A process tree seen from the initial pid namespace: pids are distinct, looking one up
finds its task, and a child knows its parent. -/
structure WellFormed (k : Kernel Task) : Prop where
  linked : ∀ t ∈ k.tasks, ∀ c ∈ (k.task t).children, c ∈ k.tasks ∧ (k.task c).realParent = t
  distinct : ∀ t ∈ k.tasks, ∀ u ∈ k.tasks, (k.task t).pid = (k.task u).pid → t = u
  initial : ∀ t ∈ k.tasks, k.vpid t = some (k.task t).pid
  init : k.initTask ∈ k.tasks ∧ (k.task k.initTask).pid = 0

structure Linked (k : Kernel Task) : Prop where
  linked : ∀ t ∈ k.tasks, ∀ c ∈ (k.task t).children, c ∈ k.tasks ∧ (k.task c).realParent = t
  distinct : ∀ t ∈ k.tasks, ∀ u ∈ k.tasks, (k.task t).pid = (k.task u).pid → t = u
  init : k.initTask ∈ k.tasks ∧ (k.task k.initTask).pid = 0

theorem WellFormed.toLinked {k : Kernel Task} (wf : WellFormed k) : Linked k :=
  ⟨wf.linked, wf.distinct, wf.init⟩

def Resolves (k : Kernel Task) (t : Task) : Prop := getRoot k (k.task t).pid = some t

def report (k : Kernel Task) (x : Task × ℕ) : Prinfo := { psCopy k x.1 0 with level := x.2 }

theorem psCopy_eq_report (k : Kernel Task) (t : Task) {d : ℕ} (small : d < 65536) :
    psCopy k t (UInt16.ofNat d) = report k (t, d) := by
  simp [psCopy, report, Nat.mod_eq_of_lt small]

theorem getRoot_mem {k : Kernel Task} (linked : Linked k) {pid : Int32} {t : Task}
    (found : getRoot k pid = some t) : t ∈ k.tasks := by
  unfold getRoot at found
  split at found
  · obtain rfl : k.initTask = t := Option.some.inj found
    exact linked.init.1
  · exact List.mem_of_find?_eq_some found

theorem WellFormed.resolves {k : Kernel Task} (wf : WellFormed k) {t : Task} (member : t ∈ k.tasks) :
    Resolves k t := by
  unfold Resolves getRoot
  split
  next zero =>
    have same := wf.distinct t member k.initTask wf.init.1 (zero.trans wf.init.2.symm)
    rw [same]
  next =>
    cases found : findTaskByVpid k (k.task t).pid with
    | none =>
      have absent := List.find?_eq_none.mp found t member
      simp [wf.initial t member] at absent
    | some u =>
      have there := List.mem_of_find?_eq_some found
      have hit := List.find?_some found
      simp only [wf.initial u there, decide_eq_true_eq, Option.some.injEq] at hit
      rw [wf.distinct u there t member hit]

/-! ## Depth -/

variable [DecidableEq Task]

/-- The children that are processes, not threads. -/
def leaders (k : Kernel Task) (t : Task) : List Task :=
  (k.task t).children.filter fun c => (k.task c).groupLeader = c

section Lookup

variable {k : Kernel Task} {root : Task} {last : ℕ}

theorem generation_tasks (linked : Linked k) (member : root ∈ k.tasks) {d : ℕ} :
    ∀ t ∈ generation (leaders k) root d, t ∈ k.tasks := by
  induction d with
  | zero =>
    intro t here
    obtain rfl : t = root := by simpa [generation, below] using here
    exact member
  | succ d ih =>
    intro t here
    rw [generation_succ, List.mem_flatMap] at here
    obtain ⟨b, upper, child⟩ := here
    exact (linked.linked b (ih b upper) t (List.mem_of_mem_filter child)).1

theorem order_tasks (linked : Linked k) (member : root ∈ k.tasks) {x : Task × ℕ}
    (here : x ∈ order (leaders k) root last) : x.1 ∈ k.tasks :=
  generation_tasks linked member x.1 ((mem_order (leaders k)).mp here).2

omit [DecidableEq Task] in
theorem look_of_resolves {t : Task} (resolves : Resolves k t) :
    look k t = ⟨.value t, [⟨t, some t⟩]⟩ := by
  rw [look, resolves]

theorem traceLevel_resolved (linked : Linked k) (member : root ∈ k.tasks)
    (finite : generation (leaders k) root last = []) {j : ℕ} {x : Task × ℕ}
    (here : (order (leaders k) root last)[j]? = some x)
    (resolved : ∀ i ≤ j, ∀ y, (order (leaders k) root last)[i]? = some y → Resolves k y.1)
    (fuel : ℕ) (res : UInt16) :
    (∀ l ∈ (traceLevel k (k.task root).pid fuel x.1 res).log, l.Right) ∧
      (traceLevel k (k.task root).pid fuel x.1 res).result =
        if x.2 < fuel then .value (res + UInt16.ofNat (x.2 + 1)) else .unfinished := by
  induction fuel generalizing j x res with
  | zero => simp [traceLevel]
  | succ fuel ih =>
    have generated := ((mem_order (leaders k)).mp (List.mem_of_getElem? here)).2
    have inside := generation_tasks linked member x.1 generated
    rw [traceLevel]
    by_cases top : (k.task root).pid = (k.task x.1).pid
    · have same := linked.distinct root member x.1 inside top
      have shallow : x.2 = 0 := by
        by_contra deep
        obtain ⟨d, deeper⟩ := Nat.exists_eq_succ_of_ne_zero deep
        rw [← same, deeper] at generated
        exact root_not_mem_generation (leaders k) finite generated
      rw [if_neg (not_not.mpr top), shallow]
      simp [Traced.value]
    · have other : x ≠ (root, 0) := fun same => top (by rw [same])
      obtain ⟨i, before, y, there, child⟩ := (parent_index (leaders k) finite here).resolve_left other
      simp only [row, List.mem_map] at child
      obtain ⟨c, sibling, rfl⟩ := child
      have upper := order_tasks linked member (List.mem_of_getElem? there)
      have parent := (linked.linked y.1 upper c (List.mem_of_mem_filter sibling)).2
      have looked := look_of_resolves (resolved j le_rfl _ here)
      obtain ⟨right, ends⟩ := ih there (fun n le => resolved n (le.trans before.le)) (res + 1)
      rw [if_pos top, looked, Traced.bind_of_value rfl, parent]
      refine ⟨fun l entry => ?_, ?_⟩
      · rcases List.mem_cons.mp entry with rfl | later
        · rfl
        · exact right l later
      · rw [ends, UInt16.add_assoc, Nat.add_comm (y.2 + 1) 1, UInt16.ofNat_add 1 (y.2 + 1)]
        simp

end Lookup

/-! ## One row -/

theorem traceRow_eq (k : Kernel Task) (knr : ℕ) (level : UInt16) (siblings : List Task)
    (entries : List (Task × UInt16)) (fits : entries.length ≤ knr) :
    traceRow k knr level siblings entries = (entries ++ (siblings.filter fun c =>
      (k.task c).groupLeader = c).map (·, level)).take knr := by
  induction siblings generalizing entries with
  | nil => simp [traceRow, List.take_of_length_le fits]
  | cons task siblings ih =>
    by_cases full : entries.length < knr
    · by_cases leader : (k.task task).groupLeader = task
      · have next := ih (entries ++ [(task, level)]) (by simp; omega)
        simp only [traceRow, if_pos full, if_pos leader, next]
        simp [leader]
      · have next := ih entries fits
        simp only [traceRow, if_pos full, if_neg leader, next]
        simp [leader]
    · have exact_fit : entries.length = knr := by omega
      simp only [traceRow, if_neg full]
      rw [List.take_append_of_le_length (by omega), List.take_of_length_le fits]

/-! ## The loop -/

section Loop

variable {k : Kernel Task} {root : Task} {last knr walk : ℕ}

def filled (k : Kernel Task) (root : Task) (last knr m : ℕ) : List Prinfo :=
  ((front (leaders k) root last m).take knr).map (report k)

def lower (x : Task × ℕ) : Task × UInt16 := (x.1, UInt16.ofNat x.2)

def entry (k : Kernel Task) (x : Task × ℕ) : Prinfo := psCopy k x.1 (UInt16.ofNat x.2)

theorem traceRow_lower (level : UInt16) (x : Task × ℕ) (same : level = UInt16.ofNat (x.2 + 1))
    (q : List (Task × ℕ)) (fits : q.length ≤ knr) :
    traceRow k knr level (k.task x.1).children (q.map lower) =
      ((q ++ row (leaders k) x).take knr).map lower := by
  have entries : (leaders k x.1).map (·, level) = (row (leaders k) x).map lower := by
    rw [row, List.map_map, same]
    rfl
  rw [traceRow_eq k knr level _ _ (by simpa using fits)]
  change ((q.map lower) ++ (leaders k x.1).map (·, level)).take knr = _
  rw [entries, ← List.map_append, List.map_take]

theorem cursor_succ (next : UInt16) : (next + 1).toNat = (next.toNat + 1) % 65536 := by
  rw [UInt16.toNat_add, UInt16.toNat_one]

theorem trace_visit (fuel : ℕ) (next : UInt16) (q : List (Task × ℕ))
    (inside : next.toNat < q.length) (room : q.length < knr) {x : Task × ℕ}
    (here : q[next.toNat]? = some x) {top : Task × ℕ} (first : q.head? = some top) :
    traceBfs k knr walk (fuel + 1) next (q.map lower) = (look k x.1).bind fun parent =>
      (traceLevel k (k.task top.1).pid walk parent 0).bind fun level =>
        traceBfs k knr walk fuel (next + 1)
          (traceRow k knr level (k.task parent).children (q.map lower)) := by
  rw [traceBfs, List.length_map, if_pos ⟨inside, room⟩, List.getElem?_map, here, List.head?_map, first]
  rfl

theorem Queue.head? {next : ℕ} {q : List (Task × ℕ)} (one : 1 ≤ knr)
    (queue : Queue (leaders k) root last knr 65536 next q) : q.head? = some (root, 0) := by
  have starts : ∀ m, ((front (leaders k) root last m).take knr).head? = some (root, 0) := by
    intro m
    rw [List.head?_take, if_neg (by omega)]
    rfl
  cases queue with
  | first early => exact starts next
  | again early long begins =>
    obtain ⟨rest, rfl⟩ := begins
    rw [List.head?_append, starts]
    rfl

theorem trace_step (linked : Linked k) (member : root ∈ k.tasks)
    (finite : generation (leaders k) root last = []) {next : UInt16} {q : List (Task × ℕ)}
    (queue : Queue (leaders k) root last knr 65536 next.toNat q) (inside : next.toNat < q.length)
    (room : q.length < knr) {x : Task × ℕ} (here : q[next.toNat]? = some x)
    (resolved : ∀ i ≤ next.toNat, ∀ y, (order (leaders k) root last)[i]? = some y → Resolves k y.1)
    (deep : x.2 < walk) (fuel : ℕ) :
    Queue (leaders k) root last knr 65536 (next + 1).toNat ((q ++ row (leaders k) x).take knr) ∧
      ∃ log : List (Lookup Task), (∀ l ∈ log, l.Right) ∧
        traceBfs k knr walk (fuel + 1) next (q.map lower) =
          ⟨(traceBfs k knr walk fuel (next + 1) (((q ++ row (leaders k) x).take knr).map lower)).result,
            log ++
            (traceBfs k knr walk fuel (next + 1) (((q ++ row (leaders k) x).take knr).map lower)).log⟩ := by
  obtain ⟨y, at_next, there, _⟩ := queue.visits finite inside room
  obtain rfl : y = x := Option.some.inj (at_next.symm.trans here)
  obtain ⟨right, ends⟩ := traceLevel_resolved linked member finite there resolved walk 0
  rw [if_pos deep, UInt16.zero_add] at ends
  constructor
  · have advanced := queue.step finite inside room here
    rwa [cursor_succ]
  · refine ⟨⟨y.1, some y.1⟩ :: (traceLevel k (k.task root).pid walk y.1 0).log, fun l entry => ?_, ?_⟩
    · rcases List.mem_cons.mp entry with rfl | later
      · rfl
      · exact right l later
    · rw [trace_visit fuel next q inside room here (Queue.head? (by omega) queue),
        look_of_resolves (resolved _ le_rfl _ there), Traced.bind_of_value rfl,
        Traced.bind_of_value ends, traceRow_lower _ y rfl q queue.fits]
      simp

/-- The tasks whose rows are added resolve: those with the first 65536 places in the order, as
long as there is room in the array. -/
def VisitedResolve (k : Kernel Task) (root : Task) (last knr : ℕ) : Prop :=
  ∀ m < 65536, ∀ x, (order (leaders k) root last)[m]? = some x →
    (front (leaders k) root last m).length < knr → Resolves k x.1

theorem WellFormed.visitedResolve (wf : WellFormed k) (member : root ∈ k.tasks) (last knr : ℕ) :
    VisitedResolve k root last knr := fun _ _ _ here _ =>
  wf.resolves (order_tasks wf.toLinked member (List.mem_of_getElem? here))

theorem VisitedResolve.upto (visited : VisitedResolve k root last knr) {m : ℕ} (early : m < 65536)
    (room : (front (leaders k) root last m).length < knr) {i : ℕ} (le : i ≤ m) {y : Task × ℕ}
    (there : (order (leaders k) root last)[i]? = some y) : Resolves k y.1 :=
  visited i (le.trans_lt early) y there ((front_mono (leaders k) le).length_le.trans_lt room)

theorem trace_stop (finite : generation (leaders k) root last = []) {next : UInt16}
    {q : List (Task × ℕ)} (queue : Queue (leaders k) root last knr 65536 next.toNat q)
    (stop : ¬ (next.toNat < q.length ∧ q.length < knr)) (walk fuel : ℕ) :
    Outcome (leaders k) root last knr 65536 q ∧
      traceBfs k knr walk (fuel + 1) next (q.map lower) = .value (q.map lower) := by
  refine ⟨queue.stop finite stop, ?_⟩
  rw [traceBfs, List.length_map, if_neg stop]

theorem trace_runs (linked : Linked k) (member : root ∈ k.tasks)
    (finite : generation (leaders k) root last = []) (visited : VisitedResolve k root last knr)
    (far : (order (leaders k) root last).length ≤ walk) (parental : leaders k root ≠ [])
    {next : UInt16} {q : List (Task × ℕ)}
    (queue : Queue (leaders k) root last knr 65536 next.toNat q) (fuel : ℕ)
    (enough : work knr 65536 next.toNat q < fuel) :
    ∃ done, Outcome (leaders k) root last knr 65536 done ∧
      (traceBfs k knr walk fuel next (q.map lower)).result = .value (done.map lower) := by
  induction fuel generalizing next q with
  | zero => omega
  | succ fuel ih =>
    by_cases go : next.toNat < q.length ∧ q.length < knr
    · obtain ⟨x, here, there, shorter⟩ := queue.visits finite go.1 go.2
      have shallow := depth_le_index (leaders k) finite there
      have place := (List.getElem?_eq_some_iff.mp there).1
      have less := queue.work_lt finite parental go.1 go.2 here
      obtain ⟨advanced, log, _, step⟩ := trace_step linked member finite queue go.1 go.2 here
        (fun i le y => visited.upto queue.next_lt shorter le) (by omega : x.2 < walk) fuel
      rw [step]
      refine ih advanced ?_
      rw [cursor_succ]
      omega
    · obtain ⟨outcome, ends⟩ := trace_stop finite queue go walk fuel
      rw [ends]
      exact ⟨q, outcome, rfl⟩

theorem queue_start (one : 1 ≤ knr) : Queue (leaders k) root last knr 65536 0 [(root, 0)] := by
  have first : Queue (leaders k) root last knr 65536 0 ((front (leaders k) root last 0).take knr) :=
    .first (by omega)
  rwa [front, List.take_of_length_le (by simpa using one)] at first

theorem trace_childless (linked : Linked k) (member : root ∈ k.tasks)
    (finite : generation (leaders k) root last = []) (visited : VisitedResolve k root last knr)
    (one : 1 ≤ knr) (walked : 0 < walk) (childless : leaders k root = []) (fuel : ℕ) :
    ∃ done, Outcome (leaders k) root last knr 65536 done ∧
      (traceBfs k knr walk (fuel + 2) 0 [lower (root, 0)]).result = .value (done.map lower) := by
  have start : Queue (leaders k) root last knr 65536 (0 : UInt16).toNat [(root, 0)] := queue_start one
  by_cases go : (0 : UInt16).toNat < [((root, 0) : Task × ℕ)].length ∧
      [((root, 0) : Task × ℕ)].length < knr
  · obtain ⟨x, here, there, shorter⟩ := start.visits finite go.1 go.2
    obtain rfl : (root, 0) = x := Option.some.inj here
    obtain ⟨advanced, log, _, step⟩ := trace_step linked member finite start go.1 go.2 here
      (fun i le y => visited.upto start.next_lt shorter le) walked (fuel + 1)
    have alone : ([(root, 0)] ++ row (leaders k) (root, 0)).take knr = [(root, 0)] := by
      rw [row, childless, List.map_nil, List.append_nil]
      exact List.take_of_length_le (by simpa using one)
    rw [alone] at advanced step
    obtain ⟨outcome, ends⟩ := trace_stop finite advanced (by simp) walk fuel
    refine ⟨_, outcome, ?_⟩
    simp only [List.map_cons, List.map_nil] at step ends ⊢
    rw [step, ends]
    rfl
  · obtain ⟨outcome, ends⟩ := trace_stop finite start go walk (fuel + 1)
    refine ⟨_, outcome, ?_⟩
    simp only [List.map_cons, List.map_nil] at ends ⊢
    rw [ends]
    rfl

theorem bfs_outcome (linked : Linked k) (member : root ∈ k.tasks)
    (finite : generation (leaders k) root last = []) (visited : VisitedResolve k root last knr)
    (one : 1 ≤ knr) :
    ∃ enough, ∀ fuel ≥ enough, ∃ done, Outcome (leaders k) root last knr 65536 done ∧
      bfs k knr fuel fuel 0 [psCopy k root 0] = .value (done.map (entry k)) := by
  refine ⟨(order (leaders k) root last).length + work knr 65536 0 [(root, 0)] + 2, fun fuel enough => ?_⟩
  have erased := traceBfs_result k knr fuel fuel 0 [lower (root, 0)]
  have traced : ∃ done, Outcome (leaders k) root last knr 65536 done ∧
      (traceBfs k knr fuel fuel 0 [lower (root, 0)]).result = .value (done.map lower) := by
    by_cases childless : leaders k root = []
    · obtain ⟨rest, rfl⟩ := Nat.exists_eq_add_of_le' (by omega : 2 ≤ fuel)
      exact trace_childless linked member finite visited one (by omega) childless rest
    · have start : Queue (leaders k) root last knr 65536 (0 : UInt16).toNat [(root, 0)] :=
        queue_start one
      have far : (order (leaders k) root last).length ≤ fuel := by omega
      refine trace_runs linked member finite visited far childless start fuel ?_
      rw [UInt16.toNat_zero]
      omega
  obtain ⟨done, outcome, ends⟩ := traced
  refine ⟨done, outcome, ?_⟩
  rw [ends, Run.bind, List.map_map] at erased
  exact erased.symm

theorem filled_zero (one : 1 ≤ knr) : filled k root last knr 0 = [psCopy k root 0] := by
  rw [filled, front, List.take_of_length_le (by simpa using one)]
  exact congrArg (fun e => [e]) (psCopy_eq_report k root (by omega : 0 < 65536)).symm

theorem bfs_filled (wf : WellFormed k) (member : root ∈ k.tasks)
    (finite : generation (leaders k) root last = []) (one : 1 ≤ knr)
    (short : min knr (order (leaders k) root last).length ≤ 65535) :
    ∃ enough, ∀ fuel ≥ enough, bfs k knr fuel fuel 0 (filled k root last knr 0) =
      .value (((order (leaders k) root last).take knr).map (report k)) := by
  obtain ⟨enough, loop⟩ := bfs_outcome wf.toLinked member finite (wf.visitedResolve member last knr) one
  refine ⟨enough, fun fuel le => ?_⟩
  obtain ⟨done, outcome, ends⟩ := loop fuel le
  have cut : done = (order (leaders k) root last).take knr := by
    refine outcome.eq_take finite (or_iff_not_imp_left.mpr fun long => ?_)
    have ahead := lt_front_length (leaders k) finite (by omega : 65535 < (order (leaders k) root last).length)
    have further : (front (leaders k) root last 65535).length ≤ (front (leaders k) root last 65536).length :=
      (front_mono (leaders k) (by omega)).length_le
    omega
  rw [filled_zero one, ends, cut]
  congr 1
  refine List.map_congr_left fun x inside => psCopy_eq_report k x.1 ?_
  obtain ⟨m, place⟩ := List.mem_iff_getElem?.mp inside
  have bound := (List.getElem?_eq_some_iff.mp place).1
  rw [List.length_take] at bound
  rw [List.getElem?_take_of_lt (by omega)] at place
  have shallow := depth_le_index (leaders k) finite place
  omega

end Loop

/-! ## The call -/

/-- Nothing outside the call fails: the pointers are valid and there is memory. -/
structure Granted (env : Env) (args : Args) : Prop where
  pointers : args.bufNull = false ∧ args.nrNull = false
  copies : env.copyFromUser = true ∧ env.copyNr = true ∧ env.copyBuf = true
  memory : env.kmalloc (prinfoSize * args.nr.toInt.toNat) = true

theorem copyOut_granted {env : Env} {args : Args} (granted : Granted env args)
    (tree : List Prinfo) : copyOut env args tree = ⟨0, Int32.ofNat tree.length, some tree⟩ := by
  by_cases same : Int32.ofNat tree.length = args.nr <;> simp [copyOut, granted.copies, same]

theorem doPtree_eq (k : Kernel Task) (env : Env) (args : Args) (granted : Granted env args)
    (positive : 1 ≤ args.nr.toInt) (root : Task) (named : getRoot k args.rootPid = some root)
    (leader : (k.task root).groupLeader = root) (fuel : ℕ) {tree : List Prinfo}
    (loop : bfs k args.nr.toInt.toNat fuel fuel 0 [psCopy k root 0] = .value tree) :
    doPtree k env fuel args = .value ⟨0, Int32.ofNat tree.length, some tree⟩ := by
  have accepted : ¬ args.nr < 1 := by
    rw [Int32.lt_iff_toInt_lt, Int32.toInt_one]
    omega
  unfold doPtree
  simp only [granted.pointers, granted.copies, granted.memory, accepted, named, leader]
  simp only [Bool.false_eq_true, or_self, if_false, not_true_eq_false, if_true, loop, Run.bind]
  rw [copyOut_granted granted]

def family : Kernel (Fin 5) where
  task
    | 0 => ⟨0, 0, 0, [1, 2], [], 0, 0⟩
    | 1 => ⟨1, 0, 1, [3, 4], [], 1, 0⟩
    | 2 => ⟨2, 0, 2, [], [], 1, 0⟩
    | 3 => ⟨7, 1, 3, [], [], 0, 1000⟩
    | 4 => ⟨8, 1, 1, [], [], 0, 1000⟩
  initTask := 0
  tasks := [0, 1, 2, 3, 4]
  vpid
    | 0 => some 0
    | 1 => some 1
    | 2 => some 2
    | 3 => some 7
    | 4 => some 8

end UnixSystems.PtreeOrder
