import UnixSystems.LevelOrder

/-! Level order computed in an array that is its own queue, when the cursor into the array wraps
around. The loop goes on while the cursor is inside the array and the array is not full. Up to
the wrap the array is a front of the order. After it, the first entries are expanded again and
again: nothing new is found, and the loop goes on until the array is full. -/
namespace UnixSystems.WrappedQueue
open LevelOrder

variable {Node : Type*}

/-- The states of the loop: the cursor and the entries. `cap` is the size of the array and
`wrap` the number of values of the cursor. -/
inductive Queue (kids : Node → List Node) (root : Node) (depth cap wrap : ℕ) :
    ℕ → List (Node × ℕ) → Prop
  | first {m : ℕ} (early : m < wrap) :
      Queue kids root depth cap wrap m ((front kids root depth m).take cap)
  | again {next : ℕ} {entries : List (Node × ℕ)} (early : next < wrap)
      (long : wrap ≤ (order kids root depth).length)
      (begins : (front kids root depth wrap).take cap <+: entries)
      (old : ∀ x ∈ entries, x ∈ front kids root depth wrap) (fits : entries.length ≤ cap) :
      Queue kids root depth cap wrap next entries

structure Outcome (kids : Node → List Node) (root : Node) (depth cap wrap : ℕ)
    (entries : List (Node × ℕ)) : Prop where
  begins : (front kids root depth wrap).take cap <+: entries
  old : ∀ x ∈ entries, x ∈ front kids root depth wrap
  fits : entries.length ≤ cap
  short : (order kids root depth).length < wrap → entries = (order kids root depth).take cap
  long : wrap ≤ (order kids root depth).length → entries.length = cap

section Loop

variable {kids : Node → List Node} {root : Node} {depth cap wrap next : ℕ}
  {entries : List (Node × ℕ)}

theorem Queue.next_lt (queue : Queue kids root depth cap wrap next entries) : next < wrap := by
  cases queue with
  | first early => exact early
  | again early => exact early

theorem Queue.fits (queue : Queue kids root depth cap wrap next entries) : entries.length ≤ cap := by
  cases queue with
  | first => exact List.length_take_le _ _
  | again _ _ _ _ fits => exact fits

theorem front_of_room (m : ℕ) (room : ((front kids root depth m).take cap).length < cap) :
    (front kids root depth m).take cap = front kids root depth m := by
  rw [List.length_take] at room
  exact List.take_of_length_le (by omega)

theorem Queue.visits (finite : generation kids root depth = [])
    (queue : Queue kids root depth cap wrap next entries) (inside : next < entries.length)
    (room : entries.length < cap) :
    ∃ x, entries[next]? = some x ∧ (order kids root depth)[next]? = some x ∧
      (front kids root depth next).length < cap := by
  have placed : ∀ m, next < (front kids root depth m).length → ∀ l, front kids root depth m <+: l →
      ∃ x, l[next]? = some x ∧ (order kids root depth)[next]? = some x := by
    intro m ahead l begins
    obtain ⟨rest, split⟩ := front_begins kids finite m
    obtain ⟨more, grown⟩ := begins
    refine ⟨(front kids root depth m)[next], ?_, ?_⟩
    · rw [← grown, List.getElem?_append_left ahead, List.getElem?_eq_getElem]
    · rw [← split, List.getElem?_append_left ahead, List.getElem?_eq_getElem]
  cases queue with
  | first early =>
    have whole := front_of_room next room
    rw [whole] at inside room ⊢
    obtain ⟨x, here, there⟩ := placed next inside _ List.prefix_rfl
    exact ⟨x, here, there, room⟩
  | again early long begins =>
    have whole := front_of_room wrap (begins.length_le.trans_lt room)
    rw [whole] at begins
    have shorter : (front kids root depth next).length ≤ (front kids root depth wrap).length :=
      (front_mono kids early.le).length_le
    have ahead : next < (front kids root depth wrap).length :=
      (lt_front_length kids finite (by omega)).trans_le shorter
    obtain ⟨x, here, there⟩ := placed wrap ahead entries begins
    exact ⟨x, here, there, (shorter.trans begins.length_le).trans_lt room⟩

theorem Queue.step (finite : generation kids root depth = [])
    (queue : Queue kids root depth cap wrap next entries) (inside : next < entries.length)
    (room : entries.length < cap) {x : Node × ℕ} (here : entries[next]? = some x) :
    Queue kids root depth cap wrap ((next + 1) % wrap) ((entries ++ row kids x).take cap) := by
  obtain ⟨y, entry, there, _⟩ := queue.visits finite inside room
  obtain rfl : y = x := Option.some.inj (entry.symm.trans here)
  have grown := front_succ kids there
  cases queue with
  | first early =>
    rw [front_of_room next room] at inside ⊢
    rw [← grown]
    by_cases last : next + 1 = wrap
    · have bound := (front_begins kids finite next).length_le
      rw [← last, Nat.mod_self]
      refine .again (by omega) (by omega) List.prefix_rfl ?_ (List.length_take_le _ _)
      exact fun z member => List.mem_of_mem_take member
    · rw [Nat.mod_eq_of_lt (by omega)]
      exact .first (by omega)
  | again early long begins old fits =>
    refine .again (Nat.mod_lt _ (by omega)) long ?_ (fun z member => ?_) (List.length_take_le _ _)
    · have kept := (begins.trans (List.prefix_append entries (row kids y))).take cap
      rwa [List.take_take, Nat.min_self] at kept
    · rcases List.mem_append.mp (List.mem_of_mem_take member) with first | second
      · exact old z first
      · have further : front kids root depth (next + 1) <+: front kids root depth wrap :=
          front_mono kids early
        rw [grown] at further
        exact further.subset (List.mem_append_right _ second)

theorem Queue.stop (finite : generation kids root depth = [])
    (queue : Queue kids root depth cap wrap next entries)
    (stop : ¬ (next < entries.length ∧ entries.length < cap)) :
    Outcome kids root depth cap wrap entries := by
  cases queue with
  | first early =>
    have begins := front_begins kids finite next
    rw [List.length_take] at stop
    by_cases full : cap ≤ (front kids root depth next).length
    · have whole := front_begins kids finite wrap
      have cut : (front kids root depth next).take cap = (order kids root depth).take cap :=
        List.IsPrefix.eq_of_length (begins.take cap) (by simp; have := begins.length_le; omega)
      refine ⟨?_, fun x member => ?_, List.length_take_le _ _, fun _ => cut, fun _ => by simp [full]⟩
      · rw [cut]
        exact whole.take cap
      · exact (front_mono kids early.le).subset (List.mem_of_mem_take member)
    · have exhausted : (order kids root depth).length ≤ next := by
        by_contra inside
        have ahead := lt_front_length kids finite (not_le.mp inside)
        omega
      rw [front_of_length_le kids finite exhausted]
      refine ⟨?_, fun x member => ?_, List.length_take_le _ _, fun _ => rfl, fun long => by omega⟩
      · exact (front_begins kids finite wrap).take cap
      · rw [front_of_length_le kids finite (by omega)]
        exact List.mem_of_mem_take member
  | again early long begins old fits =>
    refine ⟨begins, old, fits, fun short => by omega, fun _ => ?_⟩
    have ahead := (lt_front_length kids finite (early.trans_le long)).trans_le
      (front_mono kids early.le).length_le
    have longer := begins.length_le
    rw [List.length_take] at longer
    omega

/-! ## Termination -/

/-- What is left to do: a turn of the cursor for each free entry, and the rest of this turn. -/
def work (cap wrap next : ℕ) (entries : List (Node × ℕ)) : ℕ :=
  wrap * (cap - entries.length) + (wrap - next) % wrap

theorem Queue.work_lt (finite : generation kids root depth = []) (parental : kids root ≠ [])
    (queue : Queue kids root depth cap wrap next entries) (inside : next < entries.length)
    (room : entries.length < cap) {x : Node × ℕ} (here : entries[next]? = some x) :
    work cap wrap ((next + 1) % wrap) ((entries ++ row kids x).take cap) <
      work cap wrap next entries := by
  have early := queue.next_lt
  obtain ⟨y, entry, there, _⟩ := queue.visits finite inside room
  obtain rfl : y = x := Option.some.inj (entry.symm.trans here)
  simp only [work, List.length_take, List.length_append]
  by_cases start : next = 0
  · subst start
    have top : y = (root, 0) := by
      rw [order_eq kids finite] at there
      exact (Option.some.inj there).symm
    have grows : 0 < (row kids y).length := by
      rw [top, row, List.length_map]
      exact List.length_pos_iff.mpr parental
    have fewer : cap - min cap (entries.length + (row kids y).length) + 1 ≤ cap - entries.length := by
      omega
    have turn := Nat.mul_le_mul_left wrap fewer
    have rest := Nat.mod_lt (wrap - (0 + 1) % wrap) early
    rw [Nat.mul_add, Nat.mul_one] at turn
    omega
  · have fewer : cap - min cap (entries.length + (row kids y).length) ≤ cap - entries.length := by
      omega
    have turn := Nat.mul_le_mul_left wrap fewer
    have closer : (wrap - (next + 1) % wrap) % wrap < (wrap - next) % wrap := by
      rw [Nat.mod_eq_of_lt (by omega : wrap - next < wrap)]
      by_cases last : next + 1 = wrap
      · simp [last]
        omega
      · rw [Nat.mod_eq_of_lt (by omega : next + 1 < wrap), Nat.mod_eq_of_lt (by omega)]
        omega
    omega

end Loop

/-! ## Reading the outcome -/

section Read

variable {kids : Node → List Node} {root : Node} {depth cap wrap : ℕ} {entries : List (Node × ℕ)}

/-- Unless the cursor wraps with room left in the array, it holds a beginning of the order. -/
theorem Outcome.eq_take (finite : generation kids root depth = [])
    (outcome : Outcome kids root depth cap wrap entries)
    (enough : (order kids root depth).length < wrap ∨ cap ≤ (front kids root depth wrap).length) :
    entries = (order kids root depth).take cap := by
  by_cases short : (order kids root depth).length < wrap
  · exact outcome.short short
  · have full := outcome.long (not_lt.mp short)
    have fits := enough.resolve_left short
    have begins := front_begins kids finite wrap
    have whole : (front kids root depth wrap).take cap = entries :=
      outcome.begins.eq_of_length (by rw [List.length_take, full]; omega)
    rw [← whole]
    exact (begins.take cap).eq_of_length (by simp; have := begins.length_le; omega)

theorem Outcome.nodes_subset (outcome : Outcome kids root depth cap wrap entries) :
    entries.map Prod.fst ⊆ (front kids root depth wrap).map Prod.fst := by
  intro a member
  obtain ⟨x, here, rfl⟩ := List.mem_map.mp member
  exact List.mem_map_of_mem (outcome.old x here)

theorem Outcome.repeats (outcome : Outcome kids root depth cap wrap entries)
    (long : wrap ≤ (order kids root depth).length)
    (room : (front kids root depth wrap).length < cap) : ¬ (entries.map Prod.fst).Nodup := by
  intro distinct
  have bound := (distinct.subperm outcome.nodes_subset).length_le
  rw [List.length_map, List.length_map, outcome.long long] at bound
  omega

theorem Outcome.complete_iff (finite : generation kids root depth = []) {parent : Node → Node}
    (tree : IsTree kids root parent) (outcome : Outcome kids root depth cap wrap entries) :
    (∀ x ∈ order kids root depth, x.1 ∈ entries.map Prod.fst) ↔
      (order kids root depth).length ≤ cap ∧
        (order kids root depth).length ≤ (front kids root depth wrap).length := by
  have distinct := tree.order_nodup finite
  have begins := front_begins kids finite wrap
  constructor
  · intro complete
    have all : (order kids root depth).map Prod.fst ⊆ entries.map Prod.fst := by
      intro a member
      obtain ⟨x, here, rfl⟩ := List.mem_map.mp member
      exact complete x here
    have first := (distinct.subperm all).length_le
    have second := (distinct.subperm fun a member => outcome.nodes_subset (all member)).length_le
    have fits := outcome.fits
    simp only [List.length_map] at first second
    omega
  · intro ⟨fits, covered⟩ x member
    have whole := begins.eq_of_length (le_antisymm begins.length_le covered)
    have there := outcome.begins.subset
    rw [whole, List.take_of_length_le fits] at there
    exact List.mem_map_of_mem (there member)

end Read

end UnixSystems.WrappedQueue
