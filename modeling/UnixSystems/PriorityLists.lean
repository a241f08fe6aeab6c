import Mathlib

/-! Lists kept in the order of a numeric key, smallest first, and the same order kept as one list
for each key. An entry is added behind or before those of its own key. -/
namespace UnixSystems.PriorityLists

variable {α : Type*}

/-- Behind the entries of the same key. -/
def addTail (entry : ℕ × α) (l : List (ℕ × α)) : List (ℕ × α) :=
  l.orderedInsert (fun a b => a.1 < b.1) entry

/-- Before the entries of the same key. -/
def addHead (entry : ℕ × α) (l : List (ℕ × α)) : List (ℕ × α) :=
  l.orderedInsert (fun a b => a.1 ≤ b.1) entry

def Ordered (l : List (ℕ × α)) : Prop := l.Pairwise fun a b => a.1 ≤ b.1

def top (bound : ℕ) (l : List (ℕ × α)) : ℕ := (l.head?.map Prod.fst).getD bound

def order (n : ℕ) (queue : ℕ → List α) : List (ℕ × α) :=
  (List.range n).flatMap fun i => (queue i).map (Prod.mk i)

/-! ## Adding -/

section
variable {entry : ℕ × α} {l front back : List (ℕ × α)}

theorem orderedInsert_append {r : ℕ × α → ℕ × α → Prop} [DecidableRel r]
    (before : ∀ b ∈ front, ¬ r entry b) (behind : ∀ b ∈ back, r entry b) :
    (front ++ back).orderedInsert r entry = front ++ entry :: back := by
  induction front with
  | nil =>
    cases back with
    | nil => rfl
    | cons b back => exact List.orderedInsert_cons_of_le r back (behind b List.mem_cons_self)
  | cons b front ih =>
    rw [List.cons_append, List.orderedInsert_of_not_le r _ (before b List.mem_cons_self)]
    exact congrArg _ (ih fun c member => before c (List.mem_cons_of_mem b member))

theorem addTail_append (before : ∀ b ∈ front, b.1 ≤ entry.1) (behind : ∀ b ∈ back, entry.1 < b.1) :
    addTail entry (front ++ back) = front ++ entry :: back :=
  orderedInsert_append (fun b member => (before b member).not_gt) behind

theorem addHead_append (before : ∀ b ∈ front, b.1 < entry.1) (behind : ∀ b ∈ back, entry.1 ≤ b.1) :
    addHead entry (front ++ back) = front ++ entry :: back :=
  orderedInsert_append (fun b member => (before b member).not_ge) behind

theorem perm_addTail : (addTail entry l).Perm (entry :: l) := List.perm_orderedInsert _ entry l

theorem perm_addHead : (addHead entry l).Perm (entry :: l) := List.perm_orderedInsert _ entry l

theorem mem_addTail {b : ℕ × α} : b ∈ addTail entry l ↔ b = entry ∨ b ∈ l := by
  rw [perm_addTail.mem_iff, List.mem_cons]

theorem ordered_addTail (ordered : Ordered l) : Ordered (addTail entry l) := by
  induction l with
  | nil => exact List.pairwise_singleton _ entry
  | cons b l ih =>
    obtain ⟨first, rest⟩ := List.pairwise_cons.mp ordered
    by_cases less : entry.1 < b.1
    · rw [addTail, List.orderedInsert_cons_of_le _ l less]
      refine List.pairwise_cons.mpr ⟨fun c member => ?_, ordered⟩
      rcases List.mem_cons.mp member with rfl | later
      · exact less.le
      · exact less.le.trans (first c later)
    · rw [addTail, List.orderedInsert_of_not_le _ l less]
      refine List.pairwise_cons.mpr ⟨fun c member => ?_, ih rest⟩
      rcases mem_addTail.mp member with rfl | later
      · exact not_lt.mp less
      · exact first c later

theorem top_addTail {bound : ℕ} (within : entry.1 ≤ bound) : top bound (addTail entry l) = min entry.1 (top bound l) := by
  cases l with
  | nil => exact (min_eq_left within).symm
  | cons b l =>
    by_cases less : entry.1 < b.1
    · rw [addTail, List.orderedInsert_cons_of_le _ l less]
      exact (min_eq_left less.le).symm
    · rw [addTail, List.orderedInsert_of_not_le _ l less]
      exact (min_eq_right (not_lt.mp less)).symm

theorem top_addHead {bound : ℕ} (within : entry.1 ≤ bound) : top bound (addHead entry l) = min entry.1 (top bound l) := by
  cases l with
  | nil => exact (min_eq_left within).symm
  | cons b l =>
    by_cases less : entry.1 ≤ b.1
    · rw [addHead, List.orderedInsert_cons_of_le _ l less]
      exact (min_eq_left less).symm
    · rw [addHead, List.orderedInsert_of_not_le _ l less]
      exact (min_eq_right (not_le.mp less).le).symm

theorem top_le {bound : ℕ} (ordered : Ordered l) {b : ℕ × α} (member : b ∈ l) : top bound l ≤ b.1 := by
  cases l with
  | nil => cases member
  | cons a l =>
    rcases List.mem_cons.mp member with rfl | later
    · exact le_rfl
    · exact (List.pairwise_cons.mp ordered).1 b later

theorem top_erase_of_ne [DecidableEq α] {bound : ℕ} (other : entry.1 ≠ top bound l) :
    top bound (l.erase entry) = top bound l := by
  cases l with
  | nil => rfl
  | cons a l =>
    have differs : a ≠ entry := fun same => other (same ▸ rfl)
    rw [List.erase_cons_tail (by simpa using differs)]
    rfl

end

/-! ## One list for each key -/

section
variable {n i : ℕ} {queue : ℕ → List α} {a : α}

theorem order_succ : order (n + 1) queue = order n queue ++ (queue n).map (Prod.mk n) := by
  simp [order, List.range_succ]

theorem mem_order : (i, a) ∈ order n queue ↔ i < n ∧ a ∈ queue i := by
  simp only [order, List.mem_flatMap, List.mem_range, List.mem_map, Prod.mk.injEq]
  constructor
  · rintro ⟨j, below, b, member, rfl, rfl⟩
    exact ⟨below, member⟩
  · rintro ⟨below, member⟩
    exact ⟨i, below, a, member, rfl, rfl⟩

theorem order_congr {other : ℕ → List α} (same : ∀ i < n, other i = queue i) : order n other = order n queue := by
  induction n with
  | zero => rfl
  | succ n ih => rw [order_succ, order_succ, ih fun i below => same i (Nat.lt_succ_of_lt below), same n (Nat.lt_succ_self n)]

theorem order_split (below : i < n) (queue : ℕ → List α) : ∃ front back : List (ℕ × α),
    (∀ b ∈ front, b.1 < i) ∧ (∀ b ∈ back, i < b.1) ∧
      ∀ l, order n (Function.update queue i l) = front ++ (l.map (Prod.mk i) ++ back) := by
  induction n with
  | zero => exact absurd below (Nat.not_lt_zero i)
  | succ n ih =>
    rcases Nat.lt_succ_iff_lt_or_eq.mp below with before | rfl
    · obtain ⟨front, back, less, greater, split⟩ := ih before
      refine ⟨front, back ++ (queue n).map (Prod.mk n), less, fun b member => ?_, fun l => ?_⟩
      · rcases List.mem_append.mp member with early | late
        · exact greater b early
        · obtain ⟨_, _, rfl⟩ := List.mem_map.mp late
          exact before
      · rw [order_succ, split, Function.update_of_ne before.ne']
        simp only [List.append_assoc]
    · refine ⟨order i queue, [], fun b member => ?_, fun b none => ?_, fun l => ?_⟩
      · exact (mem_order.mp (show (b.1, b.2) ∈ order i queue from member)).1
      · exact absurd none List.not_mem_nil
      · rw [order_succ, Function.update_self, List.append_nil]
        exact congrArg (· ++ _) (order_congr fun j less => Function.update_of_ne less.ne _ _)

theorem order_append (below : i < n) :
    order n (Function.update queue i (queue i ++ [a])) = addTail (i, a) (order n queue) := by
  obtain ⟨front, back, less, greater, split⟩ := order_split below queue
  have whole := split (queue i)
  rw [Function.update_eq_self] at whole
  have regroup : order n queue = (front ++ (queue i).map (Prod.mk i)) ++ back := by
    rw [whole, List.append_assoc]
  rw [split, regroup, addTail_append]
  · simp
  · intro b member
    rcases List.mem_append.mp member with early | same
    · exact (less b early).le
    · obtain ⟨_, _, rfl⟩ := List.mem_map.mp same
      exact le_rfl
  · exact greater

theorem order_cons (below : i < n) :
    order n (Function.update queue i (a :: queue i)) = addHead (i, a) (order n queue) := by
  obtain ⟨front, back, less, greater, split⟩ := order_split below queue
  have whole := split (queue i)
  rw [Function.update_eq_self] at whole
  rw [split, whole, addHead_append less]
  · rfl
  · intro b member
    rcases List.mem_append.mp member with same | late
    · obtain ⟨_, _, rfl⟩ := List.mem_map.mp same
      exact le_rfl
    · exact (greater b late).le

theorem order_erase [DecidableEq α] (below : i < n) :
    order n (Function.update queue i ((queue i).erase a)) = (order n queue).erase (i, a) := by
  obtain ⟨front, back, less, greater, split⟩ := order_split below queue
  have whole := split (queue i)
  rw [Function.update_eq_self] at whole
  have notFront : (i, a) ∉ front := fun member => (less _ member).ne rfl
  have notBack : (i, a) ∉ back := fun member => (greater _ member).ne rfl
  rw [split, whole, List.erase_append_right _ notFront, List.erase_append,
    List.map_erase (Prod.mk_right_injective i)]
  split
  · rfl
  · next absent => rw [List.erase_of_not_mem notBack, List.erase_of_not_mem absent]

theorem perm_order (below : i < n) {l : List α} (perm : l.Perm (queue i)) :
    (order n (Function.update queue i l)).Perm (order n queue) := by
  obtain ⟨front, back, _, _, split⟩ := order_split below queue
  have whole := split (queue i)
  rw [Function.update_eq_self] at whole
  rw [split, whole]
  exact ((perm.map (Prod.mk i)).append_right back).append_left front

theorem ordered_order : Ordered (order n queue) := by
  induction n with
  | zero => exact List.Pairwise.nil
  | succ n ih =>
    rw [order_succ]
    refine List.pairwise_append.mpr ⟨ih, ?_, fun b early c late => ?_⟩
    · exact List.pairwise_map.mpr (List.pairwise_of_forall fun _ _ => le_rfl)
    · obtain ⟨_, _, rfl⟩ := List.mem_map.mp late
      exact (mem_order.mp (show (b.1, b.2) ∈ order n queue from early)).1.le

theorem nodup_order (distinct : ∀ i, (queue i).Nodup) : (order n queue).Nodup := by
  induction n with
  | zero => exact List.nodup_nil
  | succ n ih =>
    rw [order_succ]
    refine List.nodup_append.mpr ⟨ih, (distinct n).map (Prod.mk_right_injective n), fun b early c late => ?_⟩
    obtain ⟨_, _, rfl⟩ := List.mem_map.mp late
    rintro rfl
    exact (mem_order.mp early).1.ne rfl

end

end UnixSystems.PriorityLists
