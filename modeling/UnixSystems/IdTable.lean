import Mathlib

/-! A table from integer ids to values, kept in increasing id order, with
allocation of the lowest unused id. The order is a field of the table: it makes
ids unique, and iteration over the entries visits them in id order. -/
namespace UnixSystems

structure IdTable (α : Type*) where
  entries : List (Int × α)
  sorted : entries.Pairwise (fun p q => p.1 < q.1)

namespace IdTable

variable {α : Type*}

def empty : IdTable α := ⟨[], List.Pairwise.nil⟩

def find (t : IdTable α) (i : Int) : Option α := t.entries.lookup i

def remove (t : IdTable α) (i : Int) : IdTable α :=
  ⟨t.entries.filter (fun p => p.1 ≠ i), t.sorted.filter _⟩

def lowestFree : Int → List (Int × α) → Int
  | k, [] => k
  | k, (i, _) :: es =>
    if i < k then lowestFree k es else if i = k then lowestFree (k + 1) es else k

def insertEntry (i : Int) (a : α) : List (Int × α) → List (Int × α)
  | [] => [(i, a)]
  | (j, b) :: es => if i < j then (i, a) :: (j, b) :: es else (j, b) :: insertEntry i a es

theorem le_lowestFree (k : Int) (es : List (Int × α)) : k ≤ lowestFree k es := by
  induction es generalizing k with
  | nil => exact le_rfl
  | cons e es ih =>
    rw [lowestFree]
    split_ifs
    · exact ih k
    · exact (Int.le_add_one le_rfl).trans (ih (k + 1))
    · exact le_rfl

theorem lowestFree_unused (k : Int) (es : List (Int × α))
    (sorted : es.Pairwise (fun p q => p.1 < q.1)) : ∀ e ∈ es, e.1 ≠ lowestFree k es := by
  induction es generalizing k with
  | nil => simp
  | cons e es ih =>
    obtain ⟨below, sorted⟩ := List.pairwise_cons.mp sorted
    intro f member
    rw [lowestFree]
    split_ifs with less equal
    · rcases List.mem_cons.mp member with rfl | member
      · exact (less.trans_le (le_lowestFree k es)).ne
      · exact ih k sorted f member
    · rcases List.mem_cons.mp member with rfl | member
      · have := le_lowestFree (k + 1) es
        omega
      · exact ih (k + 1) sorted f member
    · rcases List.mem_cons.mp member with rfl | member
      · exact equal
      · have := below f member
        omega

theorem mem_insertEntry (i : Int) (a : α) (es : List (Int × α)) (e : Int × α) :
    e ∈ insertEntry i a es ↔ e = (i, a) ∨ e ∈ es := by
  induction es with
  | nil => simp [insertEntry]
  | cons f es ih =>
    rw [insertEntry]
    split_ifs
    · simp
    · simp only [List.mem_cons, ih]
      tauto

theorem insertEntry_sorted (i : Int) (a : α) (es : List (Int × α))
    (sorted : es.Pairwise (fun p q => p.1 < q.1)) (fresh : ∀ e ∈ es, e.1 ≠ i) :
    (insertEntry i a es).Pairwise (fun p q => p.1 < q.1) := by
  induction es with
  | nil => simp [insertEntry]
  | cons f es ih =>
    obtain ⟨below, rest⟩ := List.pairwise_cons.mp sorted
    rw [insertEntry]
    split_ifs with less
    · refine List.pairwise_cons.mpr ⟨fun e member => ?_, sorted⟩
      rcases List.mem_cons.mp member with rfl | member
      · exact less
      · exact less.trans (below e member)
    · refine List.pairwise_cons.mpr ⟨fun e member => ?_, ih rest fun e m => fresh e (by simp [m])⟩
      rcases (mem_insertEntry i a es e).mp member with rfl | member
      · have := fresh f (by simp)
        dsimp only
        omega
      · exact below e member

def alloc (t : IdTable α) (start : Int) (a : α) : Int × IdTable α :=
  (lowestFree start t.entries,
    ⟨insertEntry (lowestFree start t.entries) a t.entries,
      insertEntry_sorted _ _ _ t.sorted (lowestFree_unused _ _ t.sorted)⟩)

theorem mem_entries_iff (t : IdTable α) (i : Int) (a : α) :
    (i, a) ∈ t.entries ↔ t.find i = some a := by
  obtain ⟨es, sorted⟩ := t
  change (i, a) ∈ es ↔ es.lookup i = some a
  induction es with
  | nil => simp
  | cons e es ih =>
    obtain ⟨j, b⟩ := e
    obtain ⟨below, rest⟩ := List.pairwise_cons.mp sorted
    rw [List.lookup_cons, List.mem_cons, ih rest]
    by_cases same : i = j
    · subst same
      simp only [beq_self_eq_true, Prod.mk.injEq, true_and, Option.some.injEq]
      constructor
      · rintro (rfl | found)
        · rfl
        · exact absurd rfl (below (i, a) ((ih rest).mpr found)).ne
      · rintro rfl
        exact Or.inl rfl
    · have test : (i == j) = false := beq_eq_false_iff_ne.mpr same
      simp only [test, Prod.mk.injEq, same, false_and, false_or]

theorem eq_none_of_unused (t : IdTable α) (i : Int) (unused : ∀ e ∈ t.entries, e.1 ≠ i) :
    t.find i = none := by
  by_contra present
  obtain ⟨a, found⟩ := Option.ne_none_iff_exists'.mp present
  exact unused (i, a) ((mem_entries_iff t i a).mpr found) rfl

@[simp] theorem find_empty (i : Int) : (empty : IdTable α).find i = none := rfl

@[simp] theorem find_remove (t : IdTable α) (i j : Int) :
    (t.remove i).find j = if j = i then none else t.find j := by
  apply Option.ext
  intro a
  rw [← mem_entries_iff]
  by_cases same : j = i
  · simp [remove, same]
  · simp [remove, same, mem_entries_iff]

theorem find_alloc_fresh (t : IdTable α) (start : Int) (a : α) :
    t.find (t.alloc start a).1 = none :=
  eq_none_of_unused t _ (lowestFree_unused start t.entries t.sorted)

@[simp] theorem find_alloc (t : IdTable α) (start : Int) (a : α) (j : Int) :
    (t.alloc start a).2.find j = if j = (t.alloc start a).1 then some a else t.find j := by
  have fresh := find_alloc_fresh t start a
  apply Option.ext
  intro b
  rw [← mem_entries_iff]
  change (j, b) ∈ insertEntry (t.alloc start a).1 a t.entries ↔ _
  rw [mem_insertEntry, mem_entries_iff]
  by_cases same : j = (t.alloc start a).1
  · rw [if_pos same, same, fresh]
    simp [eq_comm]
  · simp [same]

end IdTable
end UnixSystems
