import Mathlib

/-! Intrusive circular doubly linked lists: a head and its entries are nodes of one kind,
each with two links, and an operation is a handful of link assignments. `Ring m h l`
says that the nodes reached from the head `h` are exactly `l`, forward and backward. -/
namespace UnixSystems.CircularList

structure Links (Node : Type*) where
  next : Node → Node
  prev : Node → Node

namespace Links

variable {Node : Type*} [DecidableEq Node]

def setNext (m : Links Node) (n target : Node) : Links Node :=
  { m with next := Function.update m.next n target }

def setPrev (m : Links Node) (n target : Node) : Links Node :=
  { m with prev := Function.update m.prev n target }

def initListHead (m : Links Node) (list : Node) : Links Node :=
  (m.setNext list list).setPrev list list

/-- Insert between two known consecutive nodes. -/
def listInsert (m : Links Node) (new prev next : Node) : Links Node :=
  (((m.setPrev next new).setNext new next).setPrev new prev).setNext prev new

def listAdd (m : Links Node) (new head : Node) : Links Node :=
  m.listInsert new head (m.next head)

def listAddTail (m : Links Node) (new head : Node) : Links Node :=
  m.listInsert new (m.prev head) head

/-- Make two nodes point to each other, dropping what was between them. -/
def listJoin (m : Links Node) (prev next : Node) : Links Node :=
  (m.setPrev next prev).setNext prev next

def listDelEntry (m : Links Node) (entry : Node) : Links Node :=
  m.listJoin (m.prev entry) (m.next entry)

def listDelInit (m : Links Node) (entry : Node) : Links Node :=
  (m.listDelEntry entry).initListHead entry

def listMove (m : Links Node) (list head : Node) : Links Node :=
  (m.listDelEntry list).listAdd list head

def listMoveTail (m : Links Node) (list head : Node) : Links Node :=
  (m.listDelEntry list).listAddTail list head

/-! ## Reading an updated link -/

theorem listInsert_next (m : Links Node) (new p n y : Node) :
    (m.listInsert new p n).next y =
      if y = p then new else if y = new then n else m.next y := by
  simp only [listInsert, setNext, setPrev, Function.update_apply]

theorem listInsert_prev (m : Links Node) (new p n y : Node) :
    (m.listInsert new p n).prev y =
      if y = new then p else if y = n then new else m.prev y := by
  simp only [listInsert, setNext, setPrev, Function.update_apply]

theorem listJoin_next (m : Links Node) (p n y : Node) :
    (m.listJoin p n).next y = if y = p then n else m.next y := by
  simp only [listJoin, setNext, setPrev, Function.update_apply]

theorem listJoin_prev (m : Links Node) (p n y : Node) :
    (m.listJoin p n).prev y = if y = n then p else m.prev y := by
  simp only [listJoin, setNext, setPrev, Function.update_apply]

theorem initListHead_next (m : Links Node) (x y : Node) :
    (m.initListHead x).next y = if y = x then x else m.next y := by
  simp only [initListHead, setNext, setPrev, Function.update_apply]

theorem initListHead_prev (m : Links Node) (x y : Node) :
    (m.initListHead x).prev y = if y = x then x else m.prev y := by
  simp only [initListHead, setNext, setPrev, Function.update_apply]

end Links

open Links

variable {Node : Type*} [DecidableEq Node]

/-- Following the links from `a` passes through `l` and arrives at `b`. -/
def Chain (m : Links Node) : Node → List Node → Node → Prop
  | a, [], b => m.next a = b ∧ m.prev b = a
  | a, x :: l, b => (m.next a = x ∧ m.prev x = a) ∧ Chain m x l b

structure Ring (m : Links Node) (h : Node) (l : List Node) : Prop where
  chain : Chain m h l h
  distinct : (h :: l).Nodup

def SameAt (m m' : Links Node) (n : Node) : Prop := m'.next n = m.next n ∧ m'.prev n = m.prev n

section
omit [DecidableEq Node]

theorem chain_congr {m m' : Links Node} {l : List Node} {a b : Node}
    (nexts : ∀ n ∈ a :: l, m'.next n = m.next n) (prevs : ∀ n ∈ l ++ [b], m'.prev n = m.prev n)
    (h : Chain m a l b) : Chain m' a l b := by
  induction l generalizing a with
  | nil =>
    have first := nexts a (by simp)
    have last := prevs b (by simp)
    simpa only [Chain, first, last] using h
  | cons x l ih =>
    have first := nexts a (by simp)
    have back := prevs x (by simp)
    have rest := ih (fun n member => nexts n (by simp_all)) (fun n member => prevs n (by simp_all)) h.2
    simpa only [Chain, first, back] using And.intro h.1 rest

theorem chain_append_cons {m : Links Node} {l r : List Node} {a x b : Node} :
    Chain m a (l ++ x :: r) b ↔ Chain m a l x ∧ Chain m x r b := by
  induction l generalizing a with
  | nil => simp only [List.nil_append, Chain]
  | cons y l ih => simp only [List.cons_append, Chain, ih, and_assoc]

theorem chain_next {m : Links Node} {l : List Node} {a b : Node} (h : Chain m a l b) :
    m.next a = l.headD b := by
  cases l with
  | nil => simpa only [List.headD_nil] using h.1
  | cons x l => simpa only [List.headD_cons] using h.1.1

theorem chain_prev {m : Links Node} {l : List Node} {a b : Node} (h : Chain m a l b) :
    m.prev b = l.getLastD a := by
  induction l generalizing a with
  | nil => simpa only [List.getLastD_nil] using h.2
  | cons x l ih =>
    have rest := ih h.2
    simpa only [List.getLastD_cons] using rest

end

/-! ## Inserting and deleting in the middle of a chain -/

omit [DecidableEq Node] in
theorem headD_mem (r : List Node) (b : Node) : r.headD b ∈ r ++ [b] := by
  cases r <;> simp

theorem chain_insert {m : Links Node} {l r : List Node} {a b x : Node} (h : Chain m a (l ++ r) b)
    (distinct : (a :: (l ++ r)).Nodup) (outside : b ∉ l ++ r) (new : x ∉ a :: (l ++ r))
    (other : x ≠ b) :
    Chain (m.listInsert x (l.getLastD a) (r.headD b)) a (l ++ x :: r) b := by
  induction l generalizing a with
  | nil =>
    simp only [List.nil_append, List.getLastD_nil] at *
    have start : x ≠ a := by simp_all
    refine ⟨⟨by simp [listInsert_next], by simp [listInsert_prev]⟩, ?_⟩
    cases r with
    | nil => exact ⟨by simp [listInsert_next, start], by simp [listInsert_prev, other.symm]⟩
    | cons y r =>
      simp only [List.headD_cons, List.nodup_cons, List.mem_cons, not_or] at *
      refine ⟨⟨by simp [listInsert_next, start], ?_⟩, chain_congr ?_ ?_ h.2⟩
      · simp [listInsert_prev, Ne.symm new.2.1]
      · intro n member
        have awayHead : n ≠ a := by rintro rfl; simp_all
        have awayNew : n ≠ x := by rintro rfl; simp_all
        simp [listInsert_next, awayHead, awayNew]
      · intro n member
        have awayNext : n ≠ y := by rintro rfl; simp_all
        have awayNew : n ≠ x := by rintro rfl; simp_all
        simp [listInsert_prev, awayNext, awayNew]
  | cons z l ih =>
    have last : l.getLastD z ∈ z :: l := List.getLastD_mem_cons
    have first := headD_mem r b
    simp only [List.cons_append, List.getLastD_cons, List.nodup_cons, List.mem_cons, not_or] at *
    have rest := ih h.2 distinct.2 outside.2 new.2
    have awayLast : a ≠ l.getLastD z := by
      intro same
      rw [← same] at last
      simp_all
    have awayFirst : z ≠ r.headD b := by
      intro same
      rw [← same] at first
      simp_all
    refine ⟨⟨?_, ?_⟩, rest⟩
    · rw [listInsert_next, if_neg awayLast, if_neg (Ne.symm new.1)]
      exact h.1.1
    · rw [listInsert_prev, if_neg (Ne.symm new.2.1), if_neg awayFirst]
      exact h.1.2

theorem chain_join {m : Links Node} {l r : List Node} {a b x : Node}
    (h : Chain m a (l ++ x :: r) b) (distinct : (a :: (l ++ x :: r)).Nodup)
    (outside : b ∉ l ++ x :: r) :
    Chain (m.listJoin (l.getLastD a) (r.headD b)) a (l ++ r) b := by
  induction l generalizing a with
  | nil =>
    simp only [List.nil_append, List.getLastD_nil] at *
    cases r with
    | nil => exact ⟨by simp [listJoin_next], by simp [listJoin_prev]⟩
    | cons y r =>
      simp only [List.headD_cons, List.nodup_cons, List.mem_cons, not_or] at *
      refine ⟨⟨by simp [listJoin_next], by simp [listJoin_prev]⟩, chain_congr ?_ ?_ h.2.2⟩
      · intro n member
        have away : n ≠ a := by rintro rfl; simp_all
        simp [listJoin_next, away]
      · intro n member
        have away : n ≠ y := by rintro rfl; simp_all
        simp [listJoin_prev, away]
  | cons z l ih =>
    have last : l.getLastD z ∈ z :: l := List.getLastD_mem_cons
    have first := headD_mem r b
    simp only [List.cons_append, List.getLastD_cons, List.nodup_cons, List.mem_cons, not_or] at *
    have rest := ih h.2 distinct.2 outside.2
    have awayLast : a ≠ l.getLastD z := by
      intro same
      rw [← same] at last
      simp_all
    have awayFirst : z ≠ r.headD b := by
      intro same
      rw [← same] at first
      simp_all
    refine ⟨⟨?_, ?_⟩, rest⟩
    · rw [listJoin_next, if_neg awayLast]
      exact h.1.1
    · rw [listJoin_prev, if_neg awayFirst]
      exact h.1.2

/-! ## Rings -/

namespace Ring

variable {m : Links Node} {h x : Node} {l r : List Node}

section
omit [DecidableEq Node]

theorem next_head (ring : Ring m h l) : m.next h = l.headD h := chain_next ring.chain

theorem prev_head (ring : Ring m h l) : m.prev h = l.getLastD h := chain_prev ring.chain

theorem next_entry (ring : Ring m h (l ++ x :: r)) : m.next x = r.headD h :=
  chain_next (chain_append_cons.mp ring.chain).2

theorem prev_entry (ring : Ring m h (l ++ x :: r)) : m.prev x = l.getLastD h :=
  chain_prev (chain_append_cons.mp ring.chain).1

end

theorem init (m : Links Node) (h : Node) : Ring (m.initListHead h) h [] :=
  ⟨⟨by simp [initListHead_next], by simp [initListHead_prev]⟩, by simp⟩

omit [DecidableEq Node] in
theorem congr {m' : Links Node} (ring : Ring m h l) (same : ∀ n ∈ h :: l, SameAt m m' n) :
    Ring m' h l := by
  refine ⟨chain_congr (fun n member => (same n member).1) (fun n member => ?_) ring.chain,
    ring.distinct⟩
  have inside : n ∈ h :: l := by simpa [or_comm] using member
  exact (same n inside).2

theorem insert (ring : Ring m h (l ++ r)) (new : x ∉ h :: (l ++ r)) :
    Ring (m.listInsert x (l.getLastD h) (r.headD h)) h (l ++ x :: r) := by
  have distinct := ring.distinct
  have outside := (List.nodup_cons.mp distinct).1
  have other : x ≠ h := by
    rintro rfl
    simp at new
  refine ⟨chain_insert ring.chain distinct outside new other, ?_⟩
  rw [List.nodup_cons, List.nodup_middle]
  simp_all [eq_comm]

theorem listAdd (ring : Ring m h l) (new : x ∉ h :: l) : Ring (m.listAdd x h) h (x :: l) := by
  have inserted := insert (l := []) ring new
  simpa only [Links.listAdd, ring.next_head, List.getLastD_nil, List.nil_append] using inserted

theorem listAddTail (ring : Ring m h l) (new : x ∉ h :: l) :
    Ring (m.listAddTail x h) h (l ++ [x]) := by
  have split : Ring m h (l ++ []) := by simpa using ring
  have inserted := insert split (by simpa using new)
  simpa only [Links.listAddTail, ring.prev_head, List.headD_nil] using inserted

theorem delEntry (ring : Ring m h (l ++ x :: r)) : Ring (m.listDelEntry x) h (l ++ r) := by
  have distinct := ring.distinct
  have outside := (List.nodup_cons.mp distinct).1
  have joined := chain_join ring.chain distinct outside
  refine ⟨?_, distinct.sublist ?_⟩
  · simpa only [listDelEntry, ring.prev_entry, ring.next_entry] using joined
  · exact List.Sublist.cons_cons h (List.Sublist.append_left (List.sublist_cons_self x r) l)

theorem delInit (ring : Ring m h (l ++ x :: r)) : Ring (m.listDelInit x) h (l ++ r) := by
  have distinct := ring.distinct
  refine ring.delEntry.congr fun n member => ?_
  have away : n ≠ x := by
    rintro rfl
    rw [← List.cons_append, List.nodup_middle] at distinct
    simp_all
  exact ⟨by simp [listDelInit, initListHead_next, away], by simp [listDelInit, initListHead_prev, away]⟩

omit [DecidableEq Node] in
theorem unlinked (ring : Ring m h (l ++ x :: r)) : x ∉ h :: (l ++ r) := by
  have distinct := ring.distinct
  rw [← List.cons_append, List.nodup_middle] at distinct
  exact (List.nodup_cons.mp distinct).1

theorem listMove (ring : Ring m h (l ++ x :: r)) : Ring (m.listMove x h) h (x :: (l ++ r)) :=
  ring.delEntry.listAdd ring.unlinked

theorem listMoveTail (ring : Ring m h (l ++ x :: r)) :
    Ring (m.listMoveTail x h) h (l ++ r ++ [x]) :=
  ring.delEntry.listAddTail ring.unlinked

omit [DecidableEq Node] in
theorem prev_eq_next_iff (ring : Ring m h (l ++ x :: r)) :
    m.prev x = m.next x ↔ l = [] ∧ r = [] := by
  rw [ring.prev_entry, ring.next_entry]
  have distinct := ring.distinct
  constructor
  · intro same
    have first := headD_mem r h
    rw [← same] at first
    rcases List.eq_nil_or_concat' l with rfl | ⟨l, z, rfl⟩
    · cases r with
      | nil => simp
      | cons y r => simp_all
    · have last : (l ++ [z]).getLastD h = z := by simp
      rw [last] at first
      simp only [List.nodup_cons, List.nodup_append, List.mem_append, List.mem_cons] at distinct first
      grind
  · rintro ⟨rfl, rfl⟩
    rfl

omit [DecidableEq Node] in
theorem unique {q : List Node} (ring : Ring m h l) (other : Ring m h q) : l = q := by
  have go : ∀ (l q : List Node) (a : Node), h ∉ l → h ∉ q → Chain m a l h → Chain m a q h → l = q := by
    intro l
    induction l with
    | nil =>
      intro q a _ outside first second
      cases q with
      | nil => rfl
      | cons y q => simp_all [Chain]
    | cons x l ih =>
      intro q a inside outside first second
      cases q with
      | nil => simp_all [Chain]
      | cons y q =>
        have same : x = y := first.1.1.symm.trans second.1.1
        subst same
        simp only [List.mem_cons, not_or] at inside outside
        rw [ih q x inside.2 outside.2 first.2 second.2]
  have inside := (List.nodup_cons.mp ring.distinct).1
  have outside := (List.nodup_cons.mp other.distinct).1
  exact go l q h inside outside ring.chain other.chain

/-! ## Nodes an operation does not touch -/

theorem sameAt_insert {p q n : Node} (away : n ≠ x ∧ n ≠ p ∧ n ≠ q) :
    SameAt m (m.listInsert x p q) n := by
  simp [SameAt, listInsert_next, listInsert_prev, away]

theorem sameAt_listAdd (ring : Ring m h l) {n : Node} (away : n ∉ x :: h :: l) :
    SameAt m (m.listAdd x h) n := by
  have first := headD_mem l h
  rw [← ring.next_head] at first
  refine sameAt_insert ⟨?_, ?_, ?_⟩ <;> rintro rfl <;> simp_all

theorem sameAt_listAddTail (ring : Ring m h l) {n : Node} (away : n ∉ x :: h :: l) :
    SameAt m (m.listAddTail x h) n := by
  have last : l.getLastD h ∈ h :: l := List.getLastD_mem_cons
  rw [← ring.prev_head] at last
  refine sameAt_insert ⟨?_, ?_, ?_⟩ <;> rintro rfl <;> simp_all

theorem sameAt_delEntry (ring : Ring m h (l ++ x :: r)) {n : Node} (away : n ∉ h :: (l ++ x :: r)) :
    SameAt m (m.listDelEntry x) n := by
  have first := headD_mem r h
  have last : l.getLastD h ∈ h :: l := List.getLastD_mem_cons
  rw [← ring.next_entry] at first
  rw [← ring.prev_entry] at last
  have awayNext : n ≠ m.next x := by rintro rfl; simp_all
  have awayPrev : n ≠ m.prev x := by rintro rfl; simp_all
  simp [SameAt, listDelEntry, listJoin_next, listJoin_prev, awayNext, awayPrev]

theorem sameAt_delInit (ring : Ring m h (l ++ x :: r)) {n : Node} (away : n ∉ h :: (l ++ x :: r)) :
    SameAt m (m.listDelInit x) n := by
  have joined := ring.sameAt_delEntry away
  have awayEntry : n ≠ x := by rintro rfl; simp at away
  simpa [SameAt, listDelInit, initListHead_next, initListHead_prev, awayEntry] using joined

theorem sameAt_listMove (ring : Ring m h (l ++ x :: r)) {n : Node} (away : n ∉ h :: (l ++ x :: r)) :
    SameAt m (m.listMove x h) n := by
  have joined := ring.sameAt_delEntry away
  have added := ring.delEntry.sameAt_listAdd (x := x) (n := n) (by simp_all)
  exact ⟨added.1.trans joined.1, added.2.trans joined.2⟩

theorem sameAt_listMoveTail (ring : Ring m h (l ++ x :: r)) {n : Node}
    (away : n ∉ h :: (l ++ x :: r)) : SameAt m (m.listMoveTail x h) n := by
  have joined := ring.sameAt_delEntry away
  have added := ring.delEntry.sameAt_listAddTail (x := x) (n := n) (by simp_all)
  exact ⟨added.1.trans joined.1, added.2.trans joined.2⟩

end Ring

end UnixSystems.CircularList
