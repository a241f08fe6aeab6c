import Mathlib

/-! Level order of a rooted tree that is given by the list of children of each node. The
order is the concatenation of the generations, each node with its depth. It solves the
equation of the queue algorithm, `order = root :: order.flatMap row`, so that the rows of
the first nodes are always a beginning of it. -/
namespace UnixSystems.LevelOrder

variable {Node : Type*} (kids : Node → List Node)

def below (nodes : List Node) : ℕ → List Node
  | 0 => nodes
  | k + 1 => (below nodes k).flatMap kids

theorem below_add (nodes : List Node) (m k : ℕ) :
    below kids nodes (m + k) = below kids (below kids nodes m) k := by
  induction k with
  | zero => rfl
  | succ k ih => rw [← Nat.add_assoc, below, ih, below]

theorem below_subset {nodes more : List Node} (sub : nodes ⊆ more) (k : ℕ) :
    below kids nodes k ⊆ below kids more k := by
  induction k with
  | zero => exact sub
  | succ k ih =>
    intro a member
    rw [below, List.mem_flatMap] at member ⊢
    obtain ⟨b, upper, child⟩ := member
    exact ⟨b, ih upper, child⟩

theorem below_nil (k : ℕ) : below kids [] k = [] := by
  induction k with
  | zero => rfl
  | succ k ih => rw [below, ih, List.flatMap_nil]

def generation (root : Node) (k : ℕ) : List Node := below kids [root] k

theorem generation_succ (root : Node) (k : ℕ) :
    generation kids root (k + 1) = (generation kids root k).flatMap kids := rfl

theorem root_not_mem_generation {root : Node} {last k : ℕ}
    (finite : generation kids root last = []) : root ∉ generation kids root (k + 1) := by
  intro again
  have repeats : ∀ n, root ∈ generation kids root (n * (k + 1)) := by
    intro n
    induction n with
    | zero => simp [generation, below]
    | succ n ih =>
      have deeper : below kids [root] (k + 1) ⊆ generation kids root (n * (k + 1) + (k + 1)) := by
        have start : [root] ⊆ below kids [root] (n * (k + 1)) := by simpa [generation] using ih
        have shifted := below_subset kids start (k + 1)
        rwa [← below_add] at shifted
      rw [Nat.add_mul, Nat.one_mul]
      exact deeper again
  have empty : generation kids root (last * (k + 1)) = [] := by
    have split : last * (k + 1) = last + last * k := by ring
    rw [generation, split, below_add]
    rw [generation] at finite
    rw [finite, below_nil]
  have member := repeats last
  rw [empty] at member
  exact List.not_mem_nil member

/-! ## The order -/

def order (root : Node) (depth : ℕ) : List (Node × ℕ) :=
  (List.range depth).flatMap fun k => (generation kids root k).map (·, k)

theorem mem_order {root : Node} {depth : ℕ} {x : Node × ℕ} :
    x ∈ order kids root depth ↔ x.2 < depth ∧ x.1 ∈ generation kids root x.2 := by
  obtain ⟨a, d⟩ := x
  simp [order]

def row (x : Node × ℕ) : List (Node × ℕ) := (kids x.1).map (·, x.2 + 1)

theorem order_flatMap_row (root : Node) (depth : ℕ) :
    (root, 0) :: (order kids root depth).flatMap (row kids) = order kids root (depth + 1) := by
  have next : ∀ k, ((generation kids root k).map (·, k)).flatMap (row kids) =
      (generation kids root (k + 1)).map (·, k + 1) := by
    intro k
    rw [generation_succ, List.map_flatMap, List.flatMap_map]
    rfl
  rw [order, List.flatMap_assoc, order, List.range_succ_eq_map, List.flatMap_cons,
    List.flatMap_map]
  simp only [next]
  rfl

theorem order_eq {root : Node} {depth : ℕ} (finite : generation kids root depth = []) :
    order kids root depth = (root, 0) :: (order kids root depth).flatMap (row kids) := by
  rw [order_flatMap_row, order, order, List.range_succ, List.flatMap_append]
  simp [finite]

/-! ## Its beginnings -/

section Front

variable {root : Node} {depth : ℕ}

/-- What the queue holds once the rows of the first `m` nodes have been added. -/
def front (root : Node) (depth m : ℕ) : List (Node × ℕ) :=
  (root, 0) :: ((order kids root depth).take m).flatMap (row kids)

theorem front_begins (finite : generation kids root depth = []) (m : ℕ) :
    front kids root depth m <+: order kids root depth := by
  rw [order_eq kids finite]
  have cut := List.take_append_drop m (order kids root depth)
  refine List.cons_prefix_cons.mpr ⟨rfl, ?_⟩
  nth_rewrite 2 [← cut]
  rw [List.flatMap_append]
  exact List.prefix_append _ _

theorem front_of_length_le (finite : generation kids root depth = []) {m : ℕ}
    (all : (order kids root depth).length ≤ m) : front kids root depth m = order kids root depth := by
  rw [front, List.take_of_length_le all, ← order_eq kids finite]

theorem front_succ {m : ℕ} {x : Node × ℕ} (at_m : (order kids root depth)[m]? = some x) :
    front kids root depth (m + 1) = front kids root depth m ++ row kids x := by
  rw [front, front, List.take_add_one, at_m, List.flatMap_append, List.cons_append]
  simp

theorem eq_order_of_closed (finite : generation kids root depth = []) {done : List (Node × ℕ)}
    (begins : done <+: order kids root depth)
    (closed : done = (root, 0) :: done.flatMap (row kids)) : done = order kids root depth := by
  obtain ⟨rest, split⟩ := begins
  have whole := order_eq kids finite
  have same : rest = rest.flatMap (row kids) := by
    rw [← split, List.flatMap_append, ← List.cons_append, ← closed] at whole
    exact List.append_cancel_left whole
  -- a node of least depth in the rest would be a child of another one
  have none : ∀ d, ∀ x ∈ rest, x.2 ≠ d := by
    intro d
    induction d with
    | zero =>
      intro x member
      rw [same, List.mem_flatMap] at member
      obtain ⟨y, _, child⟩ := member
      simp only [row, List.mem_map] at child
      obtain ⟨c, _, rfl⟩ := child
      simp
    | succ d ih =>
      intro x member
      rw [same, List.mem_flatMap] at member
      obtain ⟨y, upper, child⟩ := member
      have higher := ih y upper
      simp only [row, List.mem_map] at child
      obtain ⟨c, _, rfl⟩ := child
      simpa using higher
  have empty : rest = [] := by
    cases rest with
    | nil => rfl
    | cons x rest => exact absurd rfl (none x.2 x (by simp))
  rw [← split, empty, List.append_nil]

theorem lt_front_length (finite : generation kids root depth = []) {m : ℕ}
    (inside : m < (order kids root depth).length) : m < (front kids root depth m).length := by
  induction m with
  | zero => simp [front]
  | succ m ih =>
    have before := ih (by omega)
    have here : (order kids root depth)[m]? = some (order kids root depth)[m] :=
      List.getElem?_eq_getElem (by omega)
    have grown := congrArg List.length (front_succ kids here)
    rw [List.length_append] at grown
    by_contra stuck
    have length : (front kids root depth (m + 1)).length = m + 1 := by omega
    have begins := front_begins kids finite (m + 1)
    have taken : front kids root depth (m + 1) = (order kids root depth).take (m + 1) := by
      rw [List.prefix_iff_eq_take.mp begins, length]
    have closed := eq_order_of_closed kids finite begins (by
      nth_rewrite 1 [front]
      rw [taken])
    rw [closed] at length
    omega

theorem front_mono {m n : ℕ} (le : m ≤ n) :
    front kids root depth m <+: front kids root depth n := by
  refine List.cons_prefix_cons.mpr ⟨rfl, ?_⟩
  obtain ⟨rest, split⟩ := List.take_prefix_take_left (l := order kids root depth) le
  rw [← split, List.flatMap_append]
  exact List.prefix_append _ _

theorem parent_index (finite : generation kids root depth = []) {m : ℕ} {x : Node × ℕ}
    (at_m : (order kids root depth)[m]? = some x) :
    x = (root, 0) ∨ ∃ j < m, ∃ y, (order kids root depth)[j]? = some y ∧ x ∈ row kids y := by
  have inside : m < (order kids root depth).length := (List.getElem?_eq_some_iff.mp at_m).1
  have ahead := lt_front_length kids finite inside
  obtain ⟨rest, split⟩ := front_begins kids finite m
  rw [← split, List.getElem?_append_left ahead] at at_m
  have member := List.mem_of_getElem? at_m
  rw [front, List.mem_cons, List.mem_flatMap] at member
  refine member.imp_right fun ⟨y, upper, child⟩ => ?_
  obtain ⟨j, at_j⟩ := List.mem_iff_getElem?.mp upper
  have lower : j < m := by
    have bound := (List.getElem?_eq_some_iff.mp at_j).1
    rw [List.length_take] at bound
    omega
  rw [List.getElem?_take_of_lt lower] at at_j
  exact ⟨j, lower, y, at_j, child⟩

theorem depth_le_index (finite : generation kids root depth = []) {m : ℕ} {x : Node × ℕ}
    (at_m : (order kids root depth)[m]? = some x) : x.2 ≤ m := by
  induction m using Nat.strong_induction_on generalizing x with
  | h m ih =>
    rcases parent_index kids finite at_m with rfl | ⟨j, lower, y, at_j, child⟩
    · exact Nat.zero_le m
    · have shallow := ih j lower at_j
      simp only [row, List.mem_map] at child
      obtain ⟨c, _, rfl⟩ := child
      simp only
      omega

end Front

/-! ## Trees -/

section Tree

variable {kids} {root : Node} {depth : ℕ}

/-- Below the root, no node is listed twice among the children of its parent, or under another
parent. -/
def IsTree (kids : Node → List Node) (root : Node) (parent : Node → Node) : Prop :=
  ∀ d, ∀ a ∈ generation kids root d, (kids a).Nodup ∧ ∀ c ∈ kids a, parent c = a

variable {parent : Node → Node}

theorem IsTree.generation_nodup (tree : IsTree kids root parent) (d : ℕ) :
    (generation kids root d).Nodup := by
  induction d with
  | zero => simp [generation, below]
  | succ d ih =>
    rw [generation_succ, List.nodup_flatMap]
    refine ⟨fun a member => (tree d a member).1, ih.imp_of_mem fun {a b} first second apart => ?_⟩
    intro c under_a under_b
    exact apart (((tree d a first).2 c under_a).symm.trans ((tree d b second).2 c under_b))

theorem IsTree.disjoint (tree : IsTree kids root parent) (finite : generation kids root depth = [])
    {d e : ℕ} (higher : d < e) {a : Node} (above : a ∈ generation kids root d) :
    a ∉ generation kids root e := by
  induction d generalizing a e with
  | zero =>
    obtain rfl : a = root := by simpa [generation, below] using above
    obtain ⟨e, rfl⟩ := Nat.exists_eq_succ_of_ne_zero higher.ne'
    exact root_not_mem_generation kids finite
  | succ d ih =>
    intro deeper
    obtain ⟨e, rfl⟩ := Nat.exists_eq_succ_of_ne_zero (by omega : e ≠ 0)
    rw [generation_succ, List.mem_flatMap] at above deeper
    obtain ⟨b, upper, child⟩ := above
    obtain ⟨c, lower, again⟩ := deeper
    have same : b = c := ((tree d b upper).2 a child).symm.trans ((tree e c lower).2 a again)
    exact ih (Nat.lt_of_succ_lt_succ higher) upper (same ▸ lower)

theorem IsTree.order_nodup (tree : IsTree kids root parent)
    (finite : generation kids root depth = []) : ((order kids root depth).map Prod.fst).Nodup := by
  have nodes : (order kids root depth).map Prod.fst =
      (List.range depth).flatMap (generation kids root) := by
    rw [order, List.map_flatMap]
    simp [Function.comp_def]
  rw [nodes, List.nodup_flatMap]
  refine ⟨fun d _ => tree.generation_nodup d, List.pairwise_lt_range.imp fun {d e} higher => ?_⟩
  intro a above deeper
  exact tree.disjoint finite higher above deeper

theorem mem_generation_succ_iff {a : Node} :
    (∃ d, a ∈ generation kids root (d + 1)) ↔ Relation.TransGen (fun a c => c ∈ kids a) root a := by
  constructor
  · intro ⟨d, member⟩
    induction d generalizing a with
    | zero => exact .single (by simpa [generation, below] using member)
    | succ d ih =>
      rw [generation_succ, List.mem_flatMap] at member
      obtain ⟨b, upper, child⟩ := member
      exact .tail (ih upper) child
  · intro reached
    induction reached with
    | single child => exact ⟨0, by simpa [generation, below] using child⟩
    | tail _ child ih =>
      obtain ⟨d, upper⟩ := ih
      exact ⟨d + 1, List.mem_flatMap.mpr ⟨_, upper, child⟩⟩

theorem generation_of_le (finite : generation kids root depth = []) {d : ℕ} (le : depth ≤ d) :
    generation kids root d = [] := by
  obtain ⟨k, rfl⟩ := Nat.exists_eq_add_of_le le
  rw [generation, below_add]
  rw [generation] at finite
  rw [finite, below_nil]

theorem generation_subset {other : Node → List Node}
    (fewer : ∀ d, ∀ a ∈ generation other root d, other a ⊆ kids a) (d : ℕ) :
    generation other root d ⊆ generation kids root d := by
  induction d with
  | zero => exact List.Subset.refl _
  | succ d ih =>
    intro c member
    rw [generation_succ, List.mem_flatMap] at member ⊢
    obtain ⟨a, upper, child⟩ := member
    exact ⟨a, ih upper, fewer d a upper child⟩

theorem generation_congr {other : Node → List Node}
    (same : ∀ d, ∀ a ∈ generation kids root d, other a = kids a) (d : ℕ) :
    generation other root d = generation kids root d := by
  induction d with
  | zero => rfl
  | succ d ih =>
    rw [generation_succ, generation_succ, ih]
    exact List.flatMap_congr fun a member => same d a member

theorem order_congr {other : Node → List Node}
    (same : ∀ d, ∀ a ∈ generation kids root d, other a = kids a) (depth : ℕ) :
    order other root depth = order kids root depth := by
  rw [order, order]
  simp only [generation_congr same]

end Tree

end UnixSystems.LevelOrder
