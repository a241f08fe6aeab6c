import UnixSystems.PtreeWrap

/-! Whether ptree misses a process. A process descends from the thread group one of whose threads
forked it; ptree follows the lists of children of the leaders only. -/
namespace UnixSystems.PtreeThreads
open LevelOrder WrappedQueue PtreeModel PtreeOrder PtreeWrap

variable {Task : Type*} [DecidableEq Task]

/-- Only leaders are on lists of children, each on the list of the thread that forked it. -/
structure ThreadForest (k : Kernel Task) : Prop extends WellFormed k where
  leaders_only : ∀ t ∈ k.tasks, ∀ c ∈ (k.task t).children, (k.task c).groupLeader = c
  siblings : Siblings k
  listed : k.tasks.Nodup

def offspring (k : Kernel Task) (g : Task) : List Task :=
  (k.tasks.filter fun t => (k.task t).groupLeader = g).flatMap fun t => (k.task t).children

def Descends (k : Kernel Task) : Task → Task → Prop :=
  Relation.TransGen fun g p => p ∈ offspring k g

def descendants (k : Kernel Task) (root : Task) (last : ℕ) : ℕ :=
  (order (offspring k) root last).length - 1

def LeadersFork (k : Kernel Task) (root : Task) : Prop :=
  ∀ g, g = root ∨ Descends k root g → ∀ t ∈ k.tasks, (k.task t).groupLeader = g → t ≠ g →
    (k.task t).children = []

def ReportsDescendants (k : Kernel Task) (env : Env) (args : Args) (root : Task) : Prop :=
  ∃ enough, ∀ fuel ≥ enough, ∃ r tree, doPtree k env fuel args = .value r ∧ r.buf = some tree ∧
    ∀ p, Descends k root p → (k.task p).pid ∈ tree.map Prinfo.pid

section Forest

variable {k : Kernel Task} {root : Task} {last : ℕ}

theorem mem_offspring {g p : Task} :
    p ∈ offspring k g ↔ ∃ t ∈ k.tasks, (k.task t).groupLeader = g ∧ p ∈ (k.task t).children := by
  simp [offspring, and_assoc]

theorem ThreadForest.offspring_tasks (forest : ThreadForest k) {g p : Task} (child : p ∈ offspring k g) :
    p ∈ k.tasks ∧ (k.task p).groupLeader = p := by
  obtain ⟨t, inside, _, forked⟩ := mem_offspring.mp child
  exact ⟨(forest.linked t inside p forked).1, forest.leaders_only t inside p forked⟩

theorem ThreadForest.generation_leaders (forest : ThreadForest k) (member : root ∈ k.tasks)
    (leader : (k.task root).groupLeader = root) {d : ℕ} :
    ∀ g ∈ generation (offspring k) root d, g ∈ k.tasks ∧ (k.task g).groupLeader = g := by
  cases d with
  | zero =>
    intro g here
    obtain rfl : g = root := by simpa [generation, below] using here
    exact ⟨member, leader⟩
  | succ d =>
    intro g here
    rw [generation_succ, List.mem_flatMap] at here
    obtain ⟨b, _, child⟩ := here
    exact forest.offspring_tasks child

theorem ThreadForest.leaders_eq (forest : ThreadForest k) {t : Task} (inside : t ∈ k.tasks) :
    leaders k t = (k.task t).children := by
  refine List.filter_eq_self.mpr fun c child => ?_
  simpa using forest.leaders_only t inside c child

omit [DecidableEq Task] in
theorem flatMap_eq_of_others_nil {f : Task → List Task} {a : Task} {l : List Task}
    (distinct : l.Nodup) (member : a ∈ l) (others : ∀ b ∈ l, b ≠ a → f b = []) :
    l.flatMap f = f a := by
  induction l with
  | nil => exact absurd member List.not_mem_nil
  | cons b l ih =>
    obtain ⟨fresh, distinct⟩ := List.nodup_cons.mp distinct
    rw [List.flatMap_cons]
    by_cases here : b = a
    · subst here
      have silent : l.flatMap f = [] := List.flatMap_eq_nil_iff.mpr fun c later =>
        others c (List.mem_cons_of_mem _ later) fun same => fresh (same ▸ later)
      rw [silent, List.append_nil]
    · have later := (List.mem_cons.mp member).resolve_left (Ne.symm here)
      rw [others b List.mem_cons_self here, List.nil_append]
      exact ih distinct later fun c inside => others c (List.mem_cons_of_mem _ inside)

theorem ThreadForest.offspring_eq (forest : ThreadForest k) {g : Task} (inside : g ∈ k.tasks)
    (leader : (k.task g).groupLeader = g)
    (alone : ∀ t ∈ k.tasks, (k.task t).groupLeader = g → t ≠ g → (k.task t).children = []) :
    offspring k g = leaders k g := by
  rw [forest.leaders_eq inside]
  refine flatMap_eq_of_others_nil (forest.listed.filter _) (by simp [inside, leader]) ?_
  intro t thread
  simp only [List.mem_filter, decide_eq_true_eq] at thread
  exact alone t thread.1 thread.2

theorem generation_leads (leader : (k.task root).groupLeader = root) {d : ℕ} :
    ∀ a ∈ generation (leaders k) root d, (k.task a).groupLeader = a := by
  intro a here
  cases d with
  | zero =>
    obtain rfl : a = root := by simpa [generation, below] using here
    exact leader
  | succ d =>
    rw [generation_succ, List.mem_flatMap] at here
    obtain ⟨b, _, child⟩ := here
    simpa using List.of_mem_filter child

theorem ThreadForest.finite_leaders (forest : ThreadForest k) (member : root ∈ k.tasks)
    (leader : (k.task root).groupLeader = root) (finite : generation (offspring k) root last = []) :
    generation (leaders k) root last = [] := by
  have fewer : generation (leaders k) root last ⊆ generation (offspring k) root last := by
    refine generation_subset (fun d a here c child => ?_) last
    have inside := generation_tasks forest.toLinked member a here
    exact mem_offspring.mpr ⟨a, inside, generation_leads leader a here, List.mem_of_mem_filter child⟩
  rw [finite] at fewer
  exact List.subset_nil.mp fewer

theorem reach_of_generation {d : ℕ} {g : Task} (here : g ∈ generation (offspring k) root d) :
    g = root ∨ Descends k root g := by
  cases d with
  | zero => exact .inl (by simpa [generation, below] using here)
  | succ d => exact .inr (mem_generation_succ_iff.mp ⟨d, here⟩)

theorem ThreadForest.order_eq (forest : ThreadForest k) (member : root ∈ k.tasks)
    (leader : (k.task root).groupLeader = root) (fork : LeadersFork k root) (last : ℕ) :
    order (leaders k) root last = order (offspring k) root last := by
  refine order_congr (fun d g here => ?_) last
  obtain ⟨inside, leads⟩ := forest.generation_leaders member leader g here
  exact (forest.offspring_eq inside leads (fork g (reach_of_generation here))).symm

theorem ThreadForest.not_found (forest : ThreadForest k) (member : root ∈ k.tasks)
    (leader : (k.task root).groupLeader = root) (finite : generation (offspring k) root last = [])
    {t c : Task} (inside : t ∈ k.tasks) (thread : (k.task t).groupLeader ≠ t)
    (forked : c ∈ (k.task t).children) (below_root : Descends k root c) (d : ℕ) :
    c ∉ generation (leaders k) root d := by
  have parent := (forest.linked t inside c forked).2
  intro here
  cases d with
  | zero =>
    obtain rfl : c = root := by simpa [generation, below] using here
    obtain ⟨d, again⟩ := mem_generation_succ_iff.mpr below_root
    exact root_not_mem_generation (offspring k) finite again
  | succ d =>
    rw [generation_succ, List.mem_flatMap] at here
    obtain ⟨b, upper, child⟩ := here
    have above := generation_tasks forest.toLinked member b upper
    have same : t = b := parent.symm.trans (forest.linked b above c (List.mem_of_mem_filter child)).2
    exact thread (same ▸ generation_leads leader b upper)

end Forest

/-! ## The call -/

section Call

variable {k : Kernel Task} {root : Task} {last knr : ℕ} {done : List (Task × ℕ)}

theorem ThreadForest.descends_tasks (forest : ThreadForest k) {p : Task} (below_root : Descends k root p) :
    p ∈ k.tasks := by
  obtain ⟨_, _, child⟩ := Relation.TransGen.tail'_iff.mp below_root
  exact (forest.offspring_tasks child).1

omit [DecidableEq Task] in
theorem pid_mem_iff (linked : Linked k) (inside : ∀ x ∈ done, x.1 ∈ k.tasks) {p : Task}
    (member : p ∈ k.tasks) :
    (k.task p).pid ∈ (done.map (entry k)).map Prinfo.pid ↔ p ∈ done.map Prod.fst := by
  simp only [List.mem_map, exists_exists_and_eq_and]
  constructor
  · intro ⟨x, here, same⟩
    exact ⟨x, here, linked.distinct x.1 (inside x here) p member same⟩
  · intro ⟨x, here, same⟩
    exact ⟨x, here, same ▸ rfl⟩

theorem complete_iff_descends (finite : generation (offspring k) root last = [])
    (top : root ∈ done.map Prod.fst) :
    (∀ x ∈ order (offspring k) root last, x.1 ∈ done.map Prod.fst) ↔
      ∀ p, Descends k root p → p ∈ done.map Prod.fst := by
  constructor
  · intro complete p below_root
    obtain ⟨d, here⟩ := mem_generation_succ_iff.mpr below_root
    refine complete (p, d + 1) ((mem_order _).mpr ⟨?_, here⟩)
    by_contra late
    rw [generation_of_le finite (not_lt.mp late)] at here
    exact List.not_mem_nil here
  · intro found x member
    rcases reach_of_generation ((mem_order _).mp member).2 with same | below_root
    · exact same ▸ top
    · exact found x.1 below_root

theorem ThreadForest.leadersFork_of_found (forest : ThreadForest k) (member : root ∈ k.tasks)
    (leader : (k.task root).groupLeader = root) (finite : generation (offspring k) root last = [])
    (outcome : Outcome (leaders k) root last knr 65536 done)
    (found : ∀ p, Descends k root p → p ∈ done.map Prod.fst) : LeadersFork k root := by
  have ends := forest.finite_leaders member leader finite
  intro g reach t inside group apart
  rw [List.eq_nil_iff_forall_not_mem]
  intro c forked
  have child : c ∈ offspring k g := mem_offspring.mpr ⟨t, inside, group, forked⟩
  have below_root : Descends k root c := reach.elim (fun same => .single (same ▸ child))
    fun down => .tail down child
  obtain ⟨x, here, rfl⟩ := List.mem_map.mp (found c below_root)
  have placed := (front_begins (leaders k) ends 65536).subset (outcome.old x here)
  exact forest.not_found member leader finite inside (fun leads => apart (leads.symm.trans group))
    forked below_root x.2 ((mem_order _).mp placed).2

theorem ThreadForest.found_iff (forest : ThreadForest k) (member : root ∈ k.tasks)
    (leader : (k.task root).groupLeader = root) (finite : generation (offspring k) root last = [])
    (one : 1 ≤ knr) (outcome : Outcome (leaders k) root last knr 65536 done) :
    (∀ p, Descends k root p → p ∈ done.map Prod.fst) ↔
      LeadersFork k root ∧ descendants k root last < knr ∧
        descendants k root last < (front (leaders k) root last 65536).length := by
  have linked := forest.toLinked
  have ends := forest.finite_leaders member leader finite
  have top : root ∈ done.map Prod.fst := by
    have first : (root, 0) ∈ (front (leaders k) root last 65536).take knr := by
      obtain ⟨rest, rfl⟩ := Nat.exists_eq_add_of_le' one
      rw [front, List.take_succ_cons]
      exact List.mem_cons_self
    exact List.mem_map_of_mem (outcome.begins.subset first)
  have count : 1 ≤ (order (offspring k) root last).length := by
    rw [LevelOrder.order_eq (offspring k) finite]
    simp
  have complete := fun fork => by
    have whole := outcome.complete_iff ends (leaders_isTree linked forest.siblings member)
    rw [forest.order_eq member leader fork] at whole
    exact (complete_iff_descends finite top).symm.trans whole
  constructor
  · intro found
    have fork := forest.leadersFork_of_found member leader finite outcome found
    refine ⟨fork, ?_⟩
    have fits := (complete fork).mp found
    rw [descendants]
    omega
  · intro met
    obtain ⟨fork, fits⟩ := met
    refine (complete fork).mpr ?_
    rw [descendants] at fits
    omega

end Call

theorem reportsDescendants_iff (k : Kernel Task) (forest : ThreadForest k) (env : Env) (args : Args)
    (granted : Granted env args) (positive : 1 ≤ args.nr.toInt) (root : Task)
    (named : getRoot k args.rootPid = some root) (leader : (k.task root).groupLeader = root)
    (last : ℕ) (finite : generation (offspring k) root last = []) :
    ReportsDescendants k env args root ↔ LeadersFork k root ∧
      descendants k root last < args.nr.toInt ∧
      descendants k root last < (front (leaders k) root last 65536).length := by
  have linked := forest.toLinked
  have member := getRoot_mem linked named
  have ends := forest.finite_leaders member leader finite
  refine doPtree_iff linked granted positive named leader ends (forest.visitedResolve member last _)
    (fun _ tree => ∀ p, Descends k root p → (k.task p).pid ∈ tree.map Prinfo.pid) fun done outcome => ?_
  have found := forest.found_iff member leader finite (by omega) outcome
  have size : descendants k root last < args.nr.toInt ↔
      descendants k root last < args.nr.toInt.toNat := by
    omega
  rw [size, ← found]
  exact forall₂_congr fun p down => pid_mem_iff linked (outcome_tasks linked member ends outcome)
    (forest.descends_tasks down)

/-! ## A process forked by a thread -/

/-- Process 1 and its thread 2, one of which has forked process 3. -/
def forks (parent : Fin 4) : Kernel (Fin 4) where
  task t :=
    { pid := Int32.ofNat t
      realParent := if t = 3 then parent else 0
      groupLeader := if t = 2 then 1 else t
      children := if t = 0 then [1] else if t = parent then [3] else []
      comm := []
      state := 0
      uid := 0 }
  initTask := 0
  tasks := [0, 1, 2, 3]
  vpid t := some (Int32.ofNat t)

theorem forks_forest (parent : Fin 4) (either : parent = 1 ∨ parent = 2) : ThreadForest (forks parent) := by
  rcases either with rfl | rfl <;>
    exact { linked := by decide, distinct := by decide, initial := by decide, init := by decide,
            leaders_only := by decide, siblings := by unfold Siblings; decide, listed := by decide }

theorem reportsDescendants_iff_leader :
    Descends (forks 1) 1 3 ∧
      ReportsDescendants (forks 1) ⟨true, fun _ => true, true, true⟩ ⟨false, false, 5, 1⟩ 1 := by
  have granted : Granted ⟨true, fun _ => true, true, true⟩ ⟨false, false, 5, 1⟩ := by
    constructor <;> decide
  have silent : ∀ t : Fin 4, ((forks 1).task t).groupLeader ≠ t → ((forks 1).task t).children = [] := by
    decide
  refine ⟨.single (by decide), (reportsDescendants_iff (forks 1) (forks_forest 1 (.inl rfl)) _ _ granted
    (by decide) 1 rfl rfl 2 (by decide)).mpr ⟨?_, by decide, by decide⟩⟩
  exact fun g _ t _ group apart => silent t fun leads => apart (leads.symm.trans group)

/-- Forked by the other thread, it is missed. -/
theorem thread_fork_missed :
    ThreadForest (forks 2) ∧ Descends (forks 2) 1 3 ∧ descendants (forks 2) 1 2 = 1 ∧
      ¬ ReportsDescendants (forks 2) ⟨true, fun _ => true, true, true⟩ ⟨false, false, 5, 1⟩ 1 := by
  have down : Descends (forks 2) 1 3 := .single (by decide)
  have result : ∀ fuel, doPtree (forks 2) ⟨true, fun _ => true, true, true⟩ (fuel + 2)
      ⟨false, false, 5, 1⟩ = .value ⟨0, 1, some [⟨0, 1, 0, 0, [], 0⟩]⟩ := fun _ => rfl
  refine ⟨forks_forest 2 (.inr rfl), down, by decide, fun ⟨enough, found⟩ => ?_⟩
  obtain ⟨r, tree, ends, copied, all⟩ := found (enough + 2) (by omega)
  obtain rfl := Run.value.inj ((result enough).symm.trans ends)
  obtain rfl := Option.some.inj copied
  exact absurd (all 3 down) (by decide)

end UnixSystems.PtreeThreads
