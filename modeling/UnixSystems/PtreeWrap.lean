import UnixSystems.PtreeOrder

/-! Whether ptree reports each process once. The cursor of the traversal has 16 bits: when the
array still has room after 65536 rows, it starts again with the children of the root. -/
namespace UnixSystems.PtreeWrap
open LevelOrder WrappedQueue PtreeModel PtreeOrder

variable {Task : Type*}

def Siblings (k : Kernel Task) : Prop := ∀ t ∈ k.tasks, (k.task t).children.Nodup

variable [DecidableEq Task]

/-- How many processes there are below and with the root; a thread is not a root. -/
def reached (k : Kernel Task) (root : Task) (last : ℕ) : ℕ :=
  if (k.task root).groupLeader = root then (order (leaders k) root last).length else 0

def ReportsOnce (k : Kernel Task) (env : Env) (args : Args) (reached : ℕ) : Prop :=
  ∃ enough, ∀ fuel ≥ enough, ∃ r tree, doPtree k env fuel args = .value r ∧ r.buf = some tree ∧
    (tree.map Prinfo.pid).Nodup ∧ r.nr.toInt = min args.nr.toInt reached

section Tree

variable {k : Kernel Task} {root : Task} {last knr : ℕ}

theorem leaders_isTree (linked : Linked k) (siblings : Siblings k) (member : root ∈ k.tasks) :
    IsTree (leaders k) root fun c => (k.task c).realParent := by
  intro d a generated
  have inside := generation_tasks linked member a generated
  refine ⟨(siblings a inside).filter _, fun c child => ?_⟩
  exact (linked.linked a inside c (List.mem_of_mem_filter child)).2

theorem outcome_tasks (linked : Linked k) (member : root ∈ k.tasks)
    (finite : generation (leaders k) root last = []) {done : List (Task × ℕ)}
    (outcome : Outcome (leaders k) root last knr 65536 done) : ∀ x ∈ done, x.1 ∈ k.tasks :=
  fun x here => order_tasks linked member
    ((front_begins (leaders k) finite 65536).subset (outcome.old x here))

omit [DecidableEq Task] in
theorem pids_nodup_iff (linked : Linked k) {done : List (Task × ℕ)}
    (inside : ∀ x ∈ done, x.1 ∈ k.tasks) :
    ((done.map (entry k)).map Prinfo.pid).Nodup ↔ (done.map Prod.fst).Nodup := by
  have pids : (done.map (entry k)).map Prinfo.pid = (done.map Prod.fst).map fun t => (k.task t).pid := by
    rw [List.map_map, List.map_map]
    rfl
  rw [pids]
  refine ⟨List.Nodup.of_map _, fun distinct => distinct.map_on fun t first u second same => ?_⟩
  obtain ⟨x, there, rfl⟩ := List.mem_map.mp first
  obtain ⟨y, here, rfl⟩ := List.mem_map.mp second
  exact linked.distinct x.1 (inside x there) y.1 (inside y here) same

end Tree

/-! ## The call -/

section Call

variable {k : Kernel Task} {env : Env} {args : Args} {root : Task} {last : ℕ}

theorem doPtree_outcome (linked : Linked k) (granted : Granted env args)
    (positive : 1 ≤ args.nr.toInt) (named : getRoot k args.rootPid = some root)
    (leader : (k.task root).groupLeader = root) (finite : generation (leaders k) root last = [])
    (visited : VisitedResolve k root last args.nr.toInt.toNat) :
    ∃ enough, ∀ fuel ≥ enough, ∃ done,
      Outcome (leaders k) root last args.nr.toInt.toNat 65536 done ∧
        doPtree k env fuel args = .value ⟨0, Int32.ofNat done.length, some (done.map (entry k))⟩ := by
  obtain ⟨enough, loop⟩ := bfs_outcome linked (getRoot_mem linked named) finite visited (by omega)
  refine ⟨enough, fun fuel le => ?_⟩
  obtain ⟨done, outcome, ends⟩ := loop fuel le
  refine ⟨done, outcome, ?_⟩
  rw [doPtree_eq k env args granted positive root named leader fuel ends, List.length_map]

theorem doPtree_iff (linked : Linked k) (granted : Granted env args) (positive : 1 ≤ args.nr.toInt)
    (named : getRoot k args.rootPid = some root) (leader : (k.task root).groupLeader = root)
    (finite : generation (leaders k) root last = [])
    (visited : VisitedResolve k root last args.nr.toInt.toNat) (P : Int32 → List Prinfo → Prop)
    {condition : Prop}
    (decides : ∀ done, Outcome (leaders k) root last args.nr.toInt.toNat 65536 done →
      (P (Int32.ofNat done.length) (done.map (entry k)) ↔ condition)) :
    (∃ enough, ∀ fuel ≥ enough, ∃ r tree, doPtree k env fuel args = .value r ∧ r.buf = some tree ∧
      P r.nr tree) ↔ condition := by
  obtain ⟨enough, loop⟩ := doPtree_outcome linked granted positive named leader finite visited
  constructor
  · intro ⟨enough', holds⟩
    obtain ⟨done, outcome, ends⟩ := loop (max enough enough') (le_max_left _ _)
    obtain ⟨r, tree, result, copied, here⟩ := holds (max enough enough') (le_max_right _ _)
    obtain rfl := Run.value.inj (ends.symm.trans result)
    obtain rfl := Option.some.inj copied
    exact (decides done outcome).mp here
  · intro met
    refine ⟨enough, fun fuel le => ?_⟩
    obtain ⟨done, outcome, ends⟩ := loop fuel le
    exact ⟨_, _, ends, rfl, (decides done outcome).mpr met⟩

theorem doPtree_thread (granted : Granted env args) (positive : 1 ≤ args.nr.toInt)
    (named : getRoot k args.rootPid = some root) (thread : (k.task root).groupLeader ≠ root)
    (fuel : ℕ) : doPtree k env (fuel + 1) args = .value ⟨0, 0, some []⟩ := by
  have accepted : ¬ args.nr < 1 := by
    rw [Int32.lt_iff_toInt_lt, Int32.toInt_one]
    omega
  have loop : bfs k args.nr.toInt.toNat (fuel + 1) (fuel + 1) 0 [] = .value [] := by simp [bfs]
  unfold doPtree
  simp only [granted.pointers, granted.copies, granted.memory, accepted, named, thread]
  simp only [Bool.false_eq_true, or_self, if_false, not_true_eq_false, loop, Run.bind]
  rw [copyOut_granted granted]
  rfl

theorem count_toInt (positive : 1 ≤ args.nr.toInt) {n : ℕ} (fits : n ≤ args.nr.toInt.toNat) :
    (Int32.ofNat n).toInt = n := by
  have bound := args.nr.toInt_lt
  exact Int32.toInt_ofNat_of_lt (by omega)

theorem once_iff (linked : Linked k) (siblings : Siblings k) (member : root ∈ k.tasks)
    (finite : generation (leaders k) root last = []) (positive : 1 ≤ args.nr.toInt)
    {done : List (Task × ℕ)}
    (outcome : Outcome (leaders k) root last args.nr.toInt.toNat 65536 done) :
    ((done.map (entry k)).map Prinfo.pid).Nodup ∧
        (Int32.ofNat done.length).toInt = min args.nr.toInt (order (leaders k) root last).length ↔
      (order (leaders k) root last).length < 65536 ∨
        args.nr.toInt ≤ (front (leaders k) root last 65536).length := by
  rw [pids_nodup_iff linked (outcome_tasks linked member finite outcome),
    count_toInt positive outcome.fits]
  constructor
  · intro ⟨distinct, _⟩
    by_contra wraps
    rw [not_or, not_lt, not_le] at wraps
    exact outcome.repeats wraps.1 (by omega) distinct
  · intro enough
    have cut := outcome.eq_take finite (enough.imp_right fun fits => by omega)
    have distinct := (leaders_isTree linked siblings member).order_nodup finite
    rw [cut, List.map_take, List.length_take]
    exact ⟨distinct.sublist (List.take_sublist _ _), by omega⟩

end Call

theorem reportsOnce_iff (k : Kernel Task) (wf : WellFormed k) (siblings : Siblings k) (env : Env)
    (args : Args) (granted : Granted env args) (positive : 1 ≤ args.nr.toInt) (root : Task)
    (named : getRoot k args.rootPid = some root) (last : ℕ)
    (finite : generation (leaders k) root last = []) :
    ReportsOnce k env args (reached k root last) ↔ (k.task root).groupLeader ≠ root ∨
      (order (leaders k) root last).length < 65536 ∨
      args.nr.toInt ≤ (front (leaders k) root last 65536).length := by
  have linked := wf.toLinked
  have member := getRoot_mem linked named
  by_cases leader : (k.task root).groupLeader = root
  · have total : reached k root last = (order (leaders k) root last).length := if_pos leader
    rw [ReportsOnce, total, or_iff_right (not_not.mpr leader)]
    exact doPtree_iff linked granted positive named leader finite (wf.visitedResolve member last _)
      (fun nr tree => (tree.map Prinfo.pid).Nodup ∧
        nr.toInt = min args.nr.toInt (order (leaders k) root last).length)
      fun done outcome => once_iff linked siblings member finite positive outcome
  · refine iff_of_true ⟨1, fun fuel le => ?_⟩ (.inl leader)
    obtain ⟨rest, rfl⟩ := Nat.exists_eq_add_of_le' le
    refine ⟨_, [], doPtree_thread granted positive named leader rest, rfl, by simp, ?_⟩
    rw [reached, if_neg leader]
    simp
    omega

theorem reportsOnce_iff_family :
    ReportsOnce family ⟨true, fun _ => true, true, true⟩ ⟨false, false, 9, 0⟩
      (reached family 0 3) := by
  have wf : WellFormed family := by constructor <;> decide
  have siblings : Siblings family := by
    intro t _
    fin_cases t <;> decide
  have granted : Granted ⟨true, fun _ => true, true, true⟩ ⟨false, false, 9, 0⟩ := by
    constructor <;> decide
  refine (reportsOnce_iff family wf siblings _ _ granted (by decide) 0 rfl 3 (by decide)).mpr ?_
  exact .inr (.inl (by decide))

/-! ## A process with 65536 children -/

def star (n : ℕ) : Kernel ℕ where
  task
    | 0 => ⟨0, 0, 0, List.range' 1 n, [], 0, 0⟩
    | t + 1 => ⟨Int32.ofNat (t + 1), 0, t + 1, [], [], 0, 0⟩
  initTask := 0
  tasks := List.range (n + 1)
  vpid t := some (Int32.ofNat t)

theorem star_pid (n t : ℕ) : ((star n).task t).pid = Int32.ofNat t := by
  cases t <;> rfl

theorem star_children (n t : ℕ) :
    ((star n).task t).children = if t = 0 then List.range' 1 n else [] := by
  cases t <;> simp [star]

theorem star_leaders (n : ℕ) : leaders (star n) = fun t => if t = 0 then List.range' 1 n else [] := by
  funext t
  have leader : ∀ c, ((star n).task c).groupLeader = c := fun c => by cases c <;> rfl
  rw [leaders, star_children]
  simp [leader]

theorem star_order (n : ℕ) :
    generation (leaders (star n)) 0 2 = [] ∧ (order (leaders (star n)) 0 2).length = n + 1 := by
  rw [star_leaders]
  constructor
  · simp [generation, below]
    intro c first
    omega
  · simp [order, generation, below, List.range_succ]

theorem star_wellFormed {n : ℕ} (small : n < 2 ^ 31) : WellFormed (star n) := by
  have inside : ∀ t, t ∈ (star n).tasks ↔ t < n + 1 := fun t => List.mem_range
  refine ⟨fun t _ c child => ?_, fun t first u second same => ?_, fun t _ => ?_, ?_, rfl⟩
  · rw [star_children] at child
    split at child
    next top =>
      rw [List.mem_range'_1] at child
      refine ⟨(inside c).mpr (by omega), ?_⟩
      obtain ⟨c, rfl⟩ := Nat.exists_eq_add_of_le' child.1
      rw [top]
      rfl
    next => exact absurd child List.not_mem_nil
  · rw [inside] at first second
    rw [star_pid, star_pid] at same
    have values := congrArg Int32.toInt same
    rw [Int32.toInt_ofNat_of_lt (by omega), Int32.toInt_ofNat_of_lt (by omega)] at values
    exact_mod_cast values
  · rw [star_pid]
    rfl
  · exact (inside 0).mpr (by omega)

/-- With room for 65538 entries, the 65537 processes are reported and the first child again. -/
theorem star_repeats :
    ∃ enough, ∀ fuel ≥ enough, ∃ r tree,
      doPtree (star 65536) ⟨true, fun _ => true, true, true⟩ fuel ⟨false, false, 65538, 0⟩ = .value r ∧
        r.buf = some tree ∧ tree.length = 65538 ∧ ¬ (tree.map Prinfo.pid).Nodup := by
  have wf : WellFormed (star 65536) := star_wellFormed (by omega)
  obtain ⟨finite, length⟩ := star_order 65536
  have granted : Granted ⟨true, fun _ => true, true, true⟩ ⟨false, false, 65538, 0⟩ := by
    constructor <;> decide
  have named : getRoot (star 65536) (Args.rootPid ⟨false, false, 65538, 0⟩) = some 0 := rfl
  have member := getRoot_mem wf.toLinked named
  obtain ⟨enough, loop⟩ := doPtree_outcome wf.toLinked granted (by decide) named rfl finite
    (wf.visitedResolve member 2 _)
  refine ⟨enough, fun fuel le => ?_⟩
  obtain ⟨done, outcome, ends⟩ := loop fuel le
  have size : (65538 : Int32).toInt.toNat = 65538 := by decide
  have full : done.length = 65538 := (outcome.long (by omega)).trans size
  refine ⟨_, _, ends, rfl, by rw [List.length_map, full], ?_⟩
  rw [pids_nodup_iff wf.toLinked (outcome_tasks wf.toLinked member finite outcome)]
  refine outcome.repeats (by omega) ?_
  have bound := (front_begins (leaders (star 65536)) finite 65536).length_le
  rw [size]
  omega

theorem star_siblings (n : ℕ) : Siblings (star n) := by
  intro t _
  rw [star_children]
  split_ifs
  · exact List.nodup_range'
  · exact List.nodup_nil

theorem star_reported_twice :
    WellFormed (star 65536) ∧ Siblings (star 65536) ∧
      ¬ ReportsOnce (star 65536) ⟨true, fun _ => true, true, true⟩ ⟨false, false, 65538, 0⟩
        (reached (star 65536) 0 2) := by
  refine ⟨star_wellFormed (by omega), star_siblings _, fun ⟨enough, once⟩ => ?_⟩
  obtain ⟨enough', twice⟩ := star_repeats
  obtain ⟨r, tree, result, copied, distinct, _⟩ := once (max enough enough') (le_max_left _ _)
  obtain ⟨r', tree', result', copied', _, repeats⟩ := twice (max enough enough') (le_max_right _ _)
  obtain rfl := Run.value.inj (result.symm.trans result')
  obtain rfl := Option.some.inj (copied.symm.trans copied')
  exact repeats distinct

end UnixSystems.PtreeWrap
