import UnixSystems.CoreModel
import UnixSystems.WrrConservation

/-! What the operations of the fair class do to its queue, apart from the order of the
tree. The `shape` of a state keeps the tree as a multiset and forgets all times, so that
each operation becomes an equation. -/
namespace UnixSystems.FairQueue
open WrrModel hiding State Config
open FairModel WrrConservation

@[ext] structure Shape where
  timeline : Multiset Pid
  nrRunning : UInt32
  hNrRunning : UInt32
  curr : Option Pid
  next : Option Pid
  last : Option Pid
  onRq : Pid → Bool
  puts : List (SchedClass × Option Pid)
  oops : Bool

def shape (s : State) : Shape where
  timeline := s.cfs.tasksTimeline
  nrRunning := s.cfs.nrRunning
  hNrRunning := s.cfs.hNrRunning
  curr := s.cfs.curr
  next := s.cfs.next
  last := s.cfs.last
  onRq := fun p => (s.entity p).onRq
  puts := s.puts
  oops := s.oops

theorem shape_modifyEntity (s : State) (p : Pid) (f : Entity → Entity) :
    shape (s.modifyEntity p f) =
      { shape s with onRq := Function.update (shape s).onRq p (f (s.entity p)).onRq } := by
  refine Shape.ext rfl rfl rfl rfl rfl rfl (funext fun q => ?_) rfl rfl
  by_cases same : q = p <;> simp [shape, State.modifyEntity, same]

theorem shape_modifyEntity_time (s : State) (p : Pid) (f : Entity → Entity)
    (kept : (f (s.entity p)).onRq = (s.entity p).onRq) : shape (s.modifyEntity p f) = shape s := by
  rw [shape_modifyEntity, kept]
  exact Shape.ext rfl rfl rfl rfl rfl rfl (Function.update_eq_self p (shape s).onRq) rfl rfl

theorem shape_updateMinVruntime (s : State) : shape (updateMinVruntime s) = shape s := rfl

theorem shape_updateCurr (cfg : Config) (cpu : ℕ) (s : State) :
    shape (updateCurr cfg cpu s) = shape s := by
  unfold updateCurr
  cases s.cfs.curr with
  | none => rfl
  | some curr =>
    dsimp only
    split
    · rfl
    · rw [shape_updateMinVruntime, shape_modifyEntity_time _ _ _ rfl]
      rfl

theorem shape_placeEntity (cfg : Config) (s : State) (se : Pid) :
    shape (placeEntity cfg s se) = shape s :=
  shape_modifyEntity_time s se _ rfl

theorem timelineInsert_coe (s : State) (se : Pid) (l : List Pid) :
    ((timelineInsert s se l : List Pid) : Multiset Pid) = se ::ₘ (l : Multiset Pid) := by
  induction l with
  | nil => rfl
  | cons entry rest ih =>
    unfold timelineInsert
    split
    · rfl
    · rw [← Multiset.cons_coe, ih, ← Multiset.cons_coe, Multiset.cons_swap]

theorem shape_insertEntity (s : State) (se : Pid) :
    shape (insertEntity s se) = { shape s with timeline := se ::ₘ (shape s).timeline } :=
  Shape.ext (timelineInsert_coe s se s.cfs.tasksTimeline) rfl rfl rfl rfl rfl rfl rfl rfl

theorem shape_eraseEntity (s : State) (se : Pid) :
    shape (eraseEntity s se) = { shape s with timeline := (shape s).timeline.erase se } := rfl

def exceptFor (se : Pid) (buddy : Option Pid) : Option Pid := if buddy = some se then none else buddy

theorem exceptFor_eq_some {se p : Pid} {buddy : Option Pid} :
    exceptFor se buddy = some p ↔ buddy = some p ∧ p ≠ se := by
  unfold exceptFor
  grind

theorem shape_clearBuddies (s : State) (se : Pid) :
    shape (clearBuddies s se) =
      { shape s with next := exceptFor se (shape s).next, last := exceptFor se (shape s).last } := rfl

theorem shape_enqueueEntity (cfg : Config) (cpu : ℕ) (s : State) (se : Pid) (flags : UInt32)
    (other : s.cfs.curr ≠ some se) :
    shape (enqueueEntity cfg cpu s se flags) = { shape s with
      timeline := se ::ₘ (shape s).timeline
      nrRunning := (shape s).nrRunning + 1
      onRq := Function.update (shape s).onRq se true } := by
  have renormalised : ∀ (s : State) (c : Prop) [Decidable c], shape (if c then
      s.modifyEntity se (fun e => { e with vruntime := e.vruntime + s.cfs.minVruntime })
      else s) = shape s := by
    intro s c _
    split
    · exact shape_modifyEntity_time s se _ rfl
    · rfl
  have placed : ∀ s : State, shape (if flags &&& enqueueWakeup ≠ 0 then placeEntity cfg s se
      else s) = shape s := by
    intro s
    split
    · exact shape_placeEntity cfg s se
    · rfl
  have counted : ∀ s : State, shape { s with cfs := { s.cfs with nrRunning := s.cfs.nrRunning + 1 } } =
      { shape s with nrRunning := (shape s).nrRunning + 1 } := fun _ => rfl
  unfold enqueueEntity
  simp only [other, and_false, if_false, not_false_eq_true, and_true]
  rw [shape_modifyEntity, shape_insertEntity, placed, counted, renormalised, shape_updateCurr]

theorem shape_dequeueEntity (cfg : Config) (cpu : ℕ) (s : State) (se : Pid) (flags : UInt32) :
    shape (dequeueEntity cfg cpu s se flags) = { shape s with
      timeline := if s.cfs.curr = some se then (shape s).timeline else (shape s).timeline.erase se
      nrRunning := (shape s).nrRunning - 1
      next := exceptFor se (shape s).next
      last := exceptFor se (shape s).last
      onRq := Function.update (shape s).onRq se false } := by
  have advanced : ∀ (s : State) (c : Prop) [Decidable c],
      shape (if c then updateMinVruntime s else s) = shape s := by
    intro s c _
    split <;> rfl
  have normalised : ∀ (s : State) (c : Prop) [Decidable c], shape (if c then
      s.modifyEntity se (fun e => { e with vruntime := e.vruntime - s.cfs.minVruntime })
      else s) = shape s := by
    intro s c _
    split
    · exact shape_modifyEntity_time s se _ rfl
    · rfl
  have counted : ∀ s : State, shape { s with cfs := { s.cfs with nrRunning := s.cfs.nrRunning - 1 } } =
      { shape s with nrRunning := (shape s).nrRunning - 1 } := fun _ => rfl
  have curr : (clearBuddies (updateCurr cfg cpu s) se).cfs.curr = s.cfs.curr :=
    congrArg Shape.curr (shape_updateCurr cfg cpu s)
  unfold dequeueEntity
  dsimp only
  rw [advanced, normalised, counted, shape_modifyEntity, curr]
  by_cases own : s.cfs.curr = some se
  · rw [if_neg (not_not.mpr own), if_pos own, shape_clearBuddies, shape_updateCurr]
  · rw [if_pos own, if_neg own, shape_eraseEntity, shape_clearBuddies, shape_updateCurr]

theorem shape_setNextEntity (cpu : ℕ) (s : State) (se : Pid) :
    shape (setNextEntity cpu s se) = { shape s with
      timeline := if (s.entity se).onRq then (shape s).timeline.erase se else (shape s).timeline
      curr := some se } := by
  unfold setNextEntity
  dsimp only
  rw [shape_modifyEntity_time _ _ _ rfl]
  split <;> rfl

theorem shape_putPrevEntity (cfg : Config) (cpu : ℕ) (s : State) (prev : Pid) :
    shape (putPrevEntity cfg cpu s prev) = { shape s with
      timeline := if (s.entity prev).onRq then prev ::ₘ (shape s).timeline else (shape s).timeline
      curr := none } := by
  have kept : ((updateCurr cfg cpu s).entity prev).onRq = (s.entity prev).onRq :=
    congrFun (congrArg Shape.onRq (shape_updateCurr cfg cpu s)) prev
  have cleared : ∀ s : State, shape { s with cfs := { s.cfs with curr := none } } =
      { shape s with curr := none } := fun _ => rfl
  unfold putPrevEntity
  dsimp only
  rw [cleared]
  by_cases on : (s.entity prev).onRq
  · rw [if_pos on, if_pos (kept.trans on), if_pos on, shape_insertEntity, shape_updateCurr]
  · rw [if_neg on, if_neg on, if_neg on]

/-! ## Picking an entity -/

theorem leftOf_eq_none {s : State} {curr found : Option Pid} :
    leftOf s curr found = none ↔ found = none ∧ curr = none := by
  unfold leftOf
  grind

theorem leftOf_mem {s : State} {curr found : Option Pid} {p : Pid}
    (chosen : leftOf s curr found = some p) : found = some p ∨ curr = some p := by
  unfold leftOf at chosen
  grind

theorem prefer_cases (cfg : Config) (s : State) (left : Pid) (candidate : Option Pid) (se : Pid) :
    prefer cfg s left candidate se = se ∨ candidate = some (prefer cfg s left candidate se) := by
  unfold prefer
  grind

theorem pickEntityAfter_mem {s : State} {se p : Pid} (next : pickEntityAfter s se = some p) :
    p ∈ s.cfs.tasksTimeline := by
  have member := List.mem_of_mem_head? next
  exact List.dropWhile_sublist _ |>.subset (List.mem_of_mem_tail member)

theorem pickNextEntity_eq_none {cfg : Config} {s : State} {curr : Option Pid} :
    pickNextEntity cfg s curr = none ↔ s.cfs.tasksTimeline = [] ∧ curr = none := by
  have empty : pickFirstEntity s = none ↔ s.cfs.tasksTimeline = [] := List.head?_eq_none_iff
  unfold pickNextEntity
  rw [← empty, ← leftOf_eq_none (s := s)]
  cases leftOf s curr (pickFirstEntity s) <;> simp

theorem pickNextEntity_some {cfg : Config} {s t : State} {curr : Option Pid} {p : Pid}
    (picked : pickNextEntity cfg s curr = some (t, p)) :
    t = clearBuddies s p ∧ (p ∈ s.cfs.tasksTimeline ∨ curr = some p ∨ s.cfs.last = some p ∨
      s.cfs.next = some p) := by
  unfold pickNextEntity at picked
  cases chosen : leftOf s curr (pickFirstEntity s) with
  | none => simp [chosen] at picked
  | some left =>
    simp only [chosen, Option.some.injEq, Prod.mk.injEq] at picked
    obtain ⟨rfl, rfl⟩ := picked
    refine ⟨rfl, ?_⟩
    have first : ∀ {q}, pickFirstEntity s = some q → q ∈ s.cfs.tasksTimeline := fun h =>
      List.mem_of_mem_head? h
    have found : left ∈ s.cfs.tasksTimeline ∨ curr = some left :=
      (leftOf_mem chosen).imp_left first
    set second := if s.cfs.skip = some left then
        if some left = curr then pickFirstEntity s else leftOf s curr (pickEntityAfter s left)
      else none with hsecond
    have seconds : ∀ {q}, second = some q → q ∈ s.cfs.tasksTimeline ∨ curr = some q := by
      intro q eq
      rw [hsecond] at eq
      split_ifs at eq
      · exact .inl (first eq)
      · exact (leftOf_mem eq).imp_left pickEntityAfter_mem
    rcases prefer_cases cfg s left s.cfs.next (prefer cfg s left s.cfs.last
      (prefer cfg s left second left)) with same | next
    · rw [same]
      rcases prefer_cases cfg s left s.cfs.last (prefer cfg s left second left) with same | last
      · rw [same]
        rcases prefer_cases cfg s left second left with same | chosen
        · rw [same]
          tauto
        · have := seconds chosen
          tauto
      · tauto
    · tauto

/-! ## Queues in order -/

/-- The fair queue is in order while the entity of `running` is the current one: every
other runnable task of the class is in the tree, once, and all are counted. -/
structure Good (fair : Pid → Prop) (q : Shape) (running : Option Pid) : Prop where
  curr : q.curr = running
  own : ∀ p, running = some p → fair p
  nodup : q.timeline.Nodup
  listed : ∀ p, p ∈ q.timeline ↔ fair p ∧ q.onRq p = true ∧ running ≠ some p
  count : q.nrRunning.toNat = q.timeline.card + if running.any q.onRq then 1 else 0
  hier : q.hNrRunning = q.nrRunning
  buddies : ∀ p, q.next = some p ∨ q.last = some p → fair p ∧ q.onRq p = true
  sane : q.oops = false

theorem card_lt_of_nodup {m : Multiset Pid} (nodup : m.Nodup) : m.card < 2 ^ 31 := by
  induction m using Quot.inductionOn with
  | h l => exact Pid.length_lt_of_nodup l nodup

section Good

variable {fair : Pid → Prop} {q : Shape} {running : Option Pid} {p : Pid}

theorem any_update_of_ne (onRq : Pid → Bool) (other : running ≠ some p) (on : Bool) :
    running.any (Function.update onRq p on) = running.any onRq := by
  cases running with
  | none => rfl
  | some c =>
    have away : c ≠ p := by rintro rfl; exact other rfl
    simp [away]

theorem Good.enqueue (good : Good fair q running) (own : fair p) (off : q.onRq p = false)
    (other : running ≠ some p) :
    Good fair { q with
      timeline := p ::ₘ q.timeline
      nrRunning := q.nrRunning + 1
      hNrRunning := q.hNrRunning + 1
      onRq := Function.update q.onRq p true } running := by
  have room := card_lt_of_nodup good.nodup
  have count := good.count
  have absent : p ∉ q.timeline := by simp [good.listed, off]
  have same := any_update_of_ne q.onRq other true
  refine ⟨good.curr, good.own, ?_, fun r => ?_, ?_, ?_, fun r buddy => ?_, good.sane⟩
  · exact Multiset.nodup_cons.mpr ⟨absent, good.nodup⟩
  · by_cases here : r = p
    · subst here
      simp [own, other]
    · simp [here, good.listed]
  · rw [same, UInt32.toNat_add, count, Multiset.card_cons, UInt32.toNat_one]
    split_ifs <;> omega
  · rw [good.hier]
  · have marked := good.buddies r buddy
    by_cases here : r = p
    · simp [here, own]
    · simpa [here] using marked

theorem Good.one_le_nrRunning (good : Good fair q running) (own : fair p) (on : q.onRq p = true) :
    1 ≤ q.nrRunning := by
  rw [UInt32.le_iff_toNat_le, good.count, UInt32.toNat_one]
  by_cases current : running = some p
  · simp [current, on]
  · have inside : p ∈ q.timeline := (good.listed p).mpr ⟨own, on, current⟩
    have cards := Multiset.card_erase_add_one inside
    omega

theorem Good.buddies_exceptFor (good : Good fair q running) (r : Pid)
    (buddy : exceptFor p q.next = some r ∨ exceptFor p q.last = some r) :
    fair r ∧ Function.update q.onRq p false r = true := by
  simp only [exceptFor_eq_some] at buddy
  have away : r ≠ p := by tauto
  rw [Function.update_of_ne away]
  exact good.buddies r (by tauto)

theorem Good.dequeue (good : Good fair q running) (own : fair p) (on : q.onRq p = true) :
    Good fair { q with
      timeline := if q.curr = some p then q.timeline else q.timeline.erase p
      nrRunning := q.nrRunning - 1
      hNrRunning := q.hNrRunning - 1
      next := exceptFor p q.next
      last := exceptFor p q.last
      onRq := Function.update q.onRq p false } running := by
  have count := good.count
  have one := good.one_le_nrRunning own on
  rw [good.curr]
  by_cases current : running = some p
  · subst current
    simp only [if_true]
    refine ⟨rfl, good.own, good.nodup, fun r => ?_, ?_, ?_, good.buddies_exceptFor, good.sane⟩
    · rw [good.listed]
      by_cases here : r = p
      · simp [here]
      · simp [here]
    · rw [UInt32.toNat_sub_of_le _ _ one, count]
      simp [on]
    · rw [good.hier]
  · simp only [if_neg current]
    have inside : p ∈ q.timeline := (good.listed p).mpr ⟨own, on, current⟩
    have cards := Multiset.card_erase_add_one inside
    refine ⟨rfl, good.own, good.nodup.erase p, fun r => ?_, ?_, ?_, good.buddies_exceptFor, good.sane⟩
    · rw [good.nodup.mem_erase_iff, good.listed]
      by_cases here : r = p
      · simp [here]
      · simp [here]
    · rw [any_update_of_ne q.onRq current, UInt32.toNat_sub_of_le _ _ one, count, UInt32.toNat_one]
      dsimp only
      split_ifs <;> omega
    · rw [good.hier]

theorem Good.putPrev (good : Good fair q (some p)) :
    Good fair { q with
      timeline := if q.onRq p then p ::ₘ q.timeline else q.timeline
      curr := none } none := by
  have count := good.count
  have own := good.own p rfl
  have absent : p ∉ q.timeline := by simp [good.listed]
  refine ⟨rfl, by simp, ?_, fun r => ?_, ?_, good.hier, good.buddies, good.sane⟩
  · split_ifs
    · exact Multiset.nodup_cons.mpr ⟨absent, good.nodup⟩
    · exact good.nodup
  · by_cases here : r = p
    · subst here
      cases on : q.onRq r <;> simp [own, on, good.listed]
    · have here' : p ≠ r := Ne.symm here
      cases on : q.onRq p <;> simp [here, here', good.listed]
  · cases on : q.onRq p <;> simpa [on] using count

theorem Good.setNext (good : Good fair q none) (own : fair p) (on : q.onRq p = true) :
    Good fair { q with timeline := q.timeline.erase p, curr := some p } (some p) := by
  have inside : p ∈ q.timeline := (good.listed p).mpr ⟨own, on, by simp⟩
  have cards := Multiset.card_erase_add_one inside
  refine ⟨rfl, ?_, good.nodup.erase p, fun r => ?_, ?_, good.hier, good.buddies, good.sane⟩
  · rintro r ⟨⟩
    exact own
  · rw [good.nodup.mem_erase_iff, good.listed]
    simp only [ne_eq, Option.some.injEq, eq_comm]
    tauto
  · rw [good.count]
    simp [on, ← cards]

theorem Good.clear (good : Good fair q running) (p : Pid) :
    Good fair { q with next := exceptFor p q.next, last := exceptFor p q.last } running := by
  refine ⟨good.curr, good.own, good.nodup, good.listed, good.count, good.hier, fun r buddy => ?_,
    good.sane⟩
  simp only [exceptFor_eq_some] at buddy
  exact good.buddies r (by tauto)

end Good

end UnixSystems.FairQueue
