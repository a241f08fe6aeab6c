import UnixSystems.PtreeOrder

/-! Whether the pids that ptree stores resolve to the tasks they were taken from. It stores
global pids and looks them up in the pid namespace of the caller. -/
namespace UnixSystems.PtreeLookups
open LevelOrder WrappedQueue PtreeModel PtreeTrace PtreeOrder

variable {Task : Type*}

def UniqueVpids (k : Kernel Task) : Prop :=
  ∀ t ∈ k.tasks, ∀ u ∈ k.tasks, k.vpid t ≠ none → k.vpid t = k.vpid u → t = u

def SamePid (k : Kernel Task) (t : Task) : Prop :=
  t = k.initTask ∨ k.vpid t = some (k.task t).pid

theorem resolves_iff {k : Kernel Task} (linked : Linked k) (unique : UniqueVpids k) {t : Task}
    (member : t ∈ k.tasks) : Resolves k t ↔ SamePid k t := by
  unfold Resolves SamePid getRoot
  by_cases zero : (k.task t).pid = 0
  · have idle := linked.distinct t member k.initTask linked.init.1 (zero.trans linked.init.2.symm)
    rw [if_pos zero, idle]
    simp
  · have other : t ≠ k.initTask := fun same => zero (same ▸ linked.init.2)
    rw [if_neg zero, or_iff_right other]
    constructor
    · intro found
      simpa using List.find?_some found
    · intro same
      cases found : findTaskByVpid k (k.task t).pid with
      | none =>
        have absent := List.find?_eq_none.mp found t member
        simp [same] at absent
      | some u =>
        have hit : k.vpid u = some (k.task t).pid := by simpa using List.find?_some found
        rw [unique u (List.mem_of_find?_eq_some found) t member (by simp [hit]) (hit.trans same.symm)]

variable [DecidableEq Task]

def start (k : Kernel Task) (root : Task) : List (Task × UInt16) :=
  if (k.task root).groupLeader = root then [(root, 0)] else []

def LooksUpRight (k : Kernel Task) (root : Task) (knr : ℕ) : Prop :=
  ∀ fuel, ∀ l ∈ (traceBfs k knr fuel fuel 0 (start k root)).log, l.Right

section Loop

variable {k : Kernel Task} {root : Task} {last knr walk : ℕ}

omit [DecidableEq Task] in
theorem look_log (t : Task) : (look k t).log = [⟨t, getRoot k (k.task t).pid⟩] := by
  unfold look
  cases getRoot k (k.task t).pid <;> rfl

theorem trace_right (linked : Linked k) (member : root ∈ k.tasks)
    (finite : generation (leaders k) root last = []) (visited : VisitedResolve k root last knr)
    (fuel : ℕ) {next : UInt16} {q : List (Task × ℕ)}
    (queue : Queue (leaders k) root last knr 65536 next.toNat q) :
    ∀ l ∈ (traceBfs k knr walk fuel next (q.map lower)).log, l.Right := by
  induction fuel generalizing next q with
  | zero => exact fun l none => absurd none List.not_mem_nil
  | succ fuel ih =>
    by_cases go : next.toNat < q.length ∧ q.length < knr
    · obtain ⟨x, here, there, shorter⟩ := queue.visits finite go.1 go.2
      have resolved : ∀ i ≤ next.toNat, ∀ y, (order (leaders k) root last)[i]? = some y →
          Resolves k y.1 := fun i le y => visited.upto queue.next_lt shorter le
      have looked := look_of_resolves (resolved _ le_rfl x there)
      obtain ⟨right, ends⟩ := traceLevel_resolved linked member finite there resolved walk 0
      have head := Queue.head? (by omega) queue
      rw [trace_visit fuel next q go.1 go.2 here head, looked]
      refine Traced.forall_bind_log (by simp [Lookup.Right]) fun parent found => ?_
      obtain rfl := Run.value.inj found
      refine Traced.forall_bind_log right fun level counted => ?_
      -- the level is the depth, or the walk has not ended
      rw [ends] at counted
      split_ifs at counted with deep
      have exact_level := Run.value.inj counted
      rw [UInt16.zero_add] at exact_level
      rw [traceRow_lower level x exact_level.symm q queue.fits]
      refine ih ?_
      rw [cursor_succ]
      exact queue.step finite go.1 go.2 here
    · rw [(trace_stop finite queue go walk fuel).2]
      exact fun l none => absurd none List.not_mem_nil

theorem cursor_ofNat {m : ℕ} (early : m < 65536) : (UInt16.ofNat m).toNat = m := by
  rw [UInt16.toNat_ofNat']
  exact Nat.mod_eq_of_lt early

theorem trace_reaches (linked : Linked k) (member : root ∈ k.tasks)
    (finite : generation (leaders k) root last = []) {m : ℕ} (early : m < 65536)
    (inside : m < (order (leaders k) root last).length)
    (room : (front (leaders k) root last m).length < knr)
    (resolved : ∀ i < m, ∀ y, (order (leaders k) root last)[i]? = some y → Resolves k y.1)
    (far : m ≤ walk) (fuel : ℕ) :
    ∃ log, (traceBfs k knr walk (fuel + m) 0 [lower (root, 0)]).log =
      log ++ (traceBfs k knr walk fuel (UInt16.ofNat m)
        ((front (leaders k) root last m).map lower)).log := by
  induction m generalizing fuel with
  | zero => exact ⟨[], by simp [front]⟩
  | succ m ih =>
    have shorter : (front (leaders k) root last m).length ≤ (front (leaders k) root last (m + 1)).length :=
      (front_mono (leaders k) (by omega)).length_le
    obtain ⟨log, before⟩ := ih (by omega) (by omega) (by omega)
      (fun i less => resolved i (by omega)) (by omega) (fuel + 1)
    have cursor : (UInt16.ofNat m).toNat = m := cursor_ofNat (by omega)
    have queue : Queue (leaders k) root last knr 65536 (UInt16.ofNat m).toNat
        (front (leaders k) root last m) := by
      have first : Queue (leaders k) root last knr 65536 m ((front (leaders k) root last m).take knr) :=
        .first (by omega)
      rw [List.take_of_length_le (by omega)] at first
      rwa [cursor]
    have ahead : (UInt16.ofNat m).toNat < (front (leaders k) root last m).length := by
      rw [cursor]
      exact lt_front_length (leaders k) finite (by omega)
    obtain ⟨x, here, there, _⟩ := queue.visits finite ahead (by omega)
    rw [cursor] at there
    have shallow := depth_le_index (leaders k) finite there
    obtain ⟨_, right, _, step⟩ := trace_step linked member finite queue ahead (by omega) here
      (by rw [cursor]; exact fun i le => resolved i (by omega)) (by omega : x.2 < walk) fuel
    have next : UInt16.ofNat m + 1 = UInt16.ofNat (m + 1) := (UInt16.ofNat_add m 1).symm
    rw [← front_succ (leaders k) there, List.take_of_length_le room.le, next] at step
    refine ⟨log ++ right, ?_⟩
    rw [← Nat.add_assoc, Nat.add_right_comm, before, step, List.append_assoc]

theorem visited_of_right (linked : Linked k) (member : root ∈ k.tasks)
    (finite : generation (leaders k) root last = []) (leader : (k.task root).groupLeader = root)
    (right : LooksUpRight k root knr) : VisitedResolve k root last knr := by
  intro m
  induction m using Nat.strong_induction_on with
  | h m ih =>
    intro early x there room
    have inside : m < (order (leaders k) root last).length := (List.getElem?_eq_some_iff.mp there).1
    have resolved : ∀ i < m, ∀ y, (order (leaders k) root last)[i]? = some y → Resolves k y.1 :=
      fun i less y at_i => ih i less (by omega) y at_i
        ((front_mono (leaders k) less.le).length_le.trans_lt room)
    obtain ⟨log, split⟩ := trace_reaches linked member finite early inside room resolved
      (by omega : m ≤ 1 + m) 1
    have all := right (1 + m)
    rw [start, if_pos leader] at all
    change ∀ l ∈ (traceBfs k knr (1 + m) (1 + m) 0 [lower (root, 0)]).log, l.Right at all
    rw [split] at all
    have cursor := cursor_ofNat early
    have ahead := lt_front_length (leaders k) finite inside
    obtain ⟨rest, begins⟩ := front_begins (leaders k) finite m
    have here : (front (leaders k) root last m)[(UInt16.ofNat m).toNat]? = some x := by
      rw [cursor, ← there, ← begins, List.getElem?_append_left ahead]
    rw [trace_visit 0 (UInt16.ofNat m) _ (by rw [cursor]; exact ahead) room here rfl] at all
    refine all ⟨x.1, getRoot k (k.task x.1).pid⟩ (List.mem_append_right _ (Traced.mem_bind_log ?_ _))
    rw [look_log]
    exact List.mem_singleton_self _

end Loop

theorem looksUpRight_iff (k : Kernel Task) (linked : Linked k) (unique : UniqueVpids k) (root : Task)
    (member : root ∈ k.tasks) (last : ℕ) (finite : generation (leaders k) root last = [])
    (knr : ℕ) (one : 1 ≤ knr) :
    LooksUpRight k root knr ↔ ((k.task root).groupLeader = root →
      ∀ m < 65536, ∀ x, (order (leaders k) root last)[m]? = some x →
        (front (leaders k) root last m).length < knr → SamePid k x.1) := by
  have resolved : (∀ m < 65536, ∀ x, (order (leaders k) root last)[m]? = some x →
      (front (leaders k) root last m).length < knr → SamePid k x.1) ↔
      VisitedResolve k root last knr := by
    refine forall₂_congr fun m _ => forall₂_congr fun x there => ?_
    rw [resolves_iff linked unique (order_tasks linked member (List.mem_of_getElem? there))]
  rw [resolved]
  constructor
  · exact fun right leader => visited_of_right linked member finite leader right
  · intro visited fuel
    by_cases leader : (k.task root).groupLeader = root
    · have first : Queue (leaders k) root last knr 65536 (0 : UInt16).toNat [(root, 0)] :=
        queue_start one
      rw [start, if_pos leader]
      exact trace_right linked member finite (visited leader) fuel first
    · rw [start, if_neg leader]
      cases fuel with
      | zero => exact fun l none => absurd none List.not_mem_nil
      | succ fuel => simp [traceBfs, Traced.value]

theorem bfs_ne_oops {k : Kernel Task} {root : Task} {knr : ℕ} (right : LooksUpRight k root knr) (fuel : ℕ) :
    bfs k knr fuel fuel 0 (if (k.task root).groupLeader = root then [psCopy k root 0] else []) ≠ .oops := by
  have tree : (start k root).map (copied k) =
      if (k.task root).groupLeader = root then [psCopy k root 0] else [] := by
    unfold start
    split_ifs <;> rfl
  rw [← tree, ← traceBfs_result]
  intro oops
  have failed : (traceBfs k knr fuel fuel 0 (start k root)).result = .oops := by
    cases ends : (traceBfs k knr fuel fuel 0 (start k root)).result with
    | value done => rw [ends] at oops; exact nomatch oops
    | oops => rfl
    | unfinished => rw [ends] at oops; exact nomatch oops
  obtain ⟨l, member, missing⟩ := traceBfs_blames k knr fuel fuel 0 _ failed
  have found := right fuel l member
  rw [Lookup.Right, missing] at found
  exact nomatch found

theorem looksUpRight_iff_family : LooksUpRight family 0 9 := by
  have wf : WellFormed family := by constructor <;> decide
  have unique : UniqueVpids family := by
    unfold UniqueVpids
    decide
  refine (looksUpRight_iff family wf.toLinked unique 0 wf.init.1 3 (by decide) 9 (by decide)).mpr ?_
  exact fun _ m _ x there _ =>
    .inr (wf.initial x.1 (order_tasks wf.toLinked wf.init.1 (List.mem_of_getElem? there)))

/-! ## A caller in a container -/

/-- The first process of a container has pid 100, and 1 for the caller. -/
def container : Kernel (Fin 3) where
  task
    | 0 => ⟨0, 0, 0, [1], [], 0, 0⟩
    | 1 => ⟨100, 0, 1, [2], [], 0, 0⟩
    | 2 => ⟨101, 1, 2, [], [], 0, 0⟩
  initTask := 0
  tasks := [0, 1, 2]
  vpid
    | 0 => none
    | 1 => some 1
    | 2 => some 2

theorem container_lookup_fails :
    Linked container ∧ UniqueVpids container ∧ getRoot container 1 = some 1 ∧
      (∀ fuel, doPtree container ⟨true, fun _ => true, true, true⟩ (fuel + 1) ⟨false, false, 5, 1⟩ =
        .oops) ∧
      ¬ LooksUpRight container 1 5 := by
  have linked : Linked container := by constructor <;> decide
  have unique : UniqueVpids container := by
    unfold UniqueVpids
    decide
  refine ⟨linked, unique, rfl, fun _ => rfl, fun right => ?_⟩
  have failed : ⟨1, none⟩ ∈ (traceBfs container 5 1 1 0 (start container 1)).log := by decide
  exact nomatch right 1 _ failed

end UnixSystems.PtreeLookups
