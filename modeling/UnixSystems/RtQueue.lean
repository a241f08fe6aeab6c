import UnixSystems.RtQueueModel

/-! The laws of a single real-time run queue: its lists hold the queued tasks of the CPU, and bitmap,
counters and the highest priority are those of the lists. -/

namespace UnixSystems.RtQueue
open PriorityLists RtQueueModel

variable {Cpu Task : Type}

/-- The queued tasks in the order in which they would be picked. -/
def ready (rq : RtRq Task) : List (ℕ × Task) := order maxRtPrio rq.queue

def Heavy (rq : RtRq Task) : Prop := rq.rtNrMigratory ≠ 0 ∧ rq.rtNrTotal > 1

instance (rq : RtRq Task) : Decidable (Heavy rq) := inferInstanceAs (Decidable (_ ∧ _))

structure Listed (rq : RtRq Task) : Prop where
  distinct : ∀ i, (rq.queue i).Nodup
  bits : ∀ i < maxRtPrio, rq.bitmap i = true ↔ rq.queue i ≠ []
  delimiter : rq.bitmap maxRtPrio = true

def Members (task : Task → TaskStruct Cpu) (c : Cpu) (rq : RtRq Task) : Prop :=
  ∀ i p, p ∈ rq.queue i ↔ (task p).onRq = true ∧ (task p).cpu = c ∧ (task p).prio = i

structure Counted (task : Task → TaskStruct Cpu) (rq : RtRq Task) : Prop where
  running : rq.rtNrRunning = (ready rq).length
  total : rq.rtNrTotal = (ready rq).length
  rr : rq.rrNrRunning = (ready rq).countP fun e => (task e.2).rr
  migratory : rq.rtNrMigratory = (ready rq).countP fun e => (task e.2).migratory
  highest : rq.highestCurr = top maxRtPrio (ready rq)
  overloaded : rq.overloaded = decide (Heavy rq)

structure QueueSound (task : Task → TaskStruct Cpu) (c : Cpu) (rq : RtRq Task) : Prop where
  listed : Listed rq
  members : Members task c rq
  counted : Counted task rq

variable {task : Task → TaskStruct Cpu} {c : Cpu} {rq : RtRq Task} {p : Task} {t : TaskStruct Cpu} {prio : ℕ}

/-! ## The bitmap -/

theorem Listed.schedFindFirstBit (listed : Listed rq) : schedFindFirstBit rq.bitmap = top maxRtPrio (ready rq) := by
  have first : (List.range (maxRtPrio + 1)).find? rq.bitmap = some (top maxRtPrio (ready rq)) := by
    rw [List.find?_range_eq_some]
    cases sorted : ready rq with
    | nil =>
      have empty : ∀ i < maxRtPrio, rq.queue i = [] := by
        intro i below
        by_contra some
        obtain ⟨q, member⟩ := List.exists_mem_of_ne_nil _ some
        have listed : (i, q) ∈ ready rq := mem_order.mpr ⟨below, member⟩
        rw [sorted] at listed
        exact absurd listed List.not_mem_nil
      refine ⟨listed.delimiter, List.mem_range.mpr (Nat.lt_succ_self _), fun j below => ?_⟩
      have clear : rq.bitmap j ≠ true := fun set => (listed.bits j below).mp set (empty j below)
      simpa using clear
    | cons e rest =>
      have member : (e.1, e.2) ∈ ready rq := by
        rw [sorted]
        exact List.mem_cons_self
      obtain ⟨below, queued⟩ := mem_order.mp member
      refine ⟨(listed.bits e.1 below).mpr (List.ne_nil_of_mem queued),
        List.mem_range.mpr (Nat.lt_succ_of_lt below), fun j less => ?_⟩
      have clear : rq.bitmap j ≠ true := by
        intro set
        obtain ⟨q, earlier⟩ := List.exists_mem_of_ne_nil _ ((listed.bits j (less.trans below)).mp set)
        have bound : top maxRtPrio (ready rq) ≤ j :=
          top_le ordered_order (mem_order.mpr ⟨less.trans below, earlier⟩)
        rw [sorted] at bound
        exact absurd less (not_lt.mpr bound)
      simpa using clear
  rw [RtQueueModel.schedFindFirstBit, first]
  rfl

/-! ## Entering and leaving the lists -/

section
variable [DecidableEq Task] {head : Bool}

section
omit [DecidableEq Task]

theorem perm_ready_enlist (below : prio < maxRtPrio) :
    (ready (rq.enlist p prio head)).Perm ((prio, p) :: ready rq) := by
  unfold ready RtRq.enlist
  cases head with
  | true =>
    simp only [if_true]
    rw [order_cons below]
    exact perm_addHead
  | false =>
    simp only [Bool.false_eq_true, if_false]
    rw [order_append below]
    exact perm_addTail

theorem top_ready_enlist (below : prio < maxRtPrio) :
    top maxRtPrio (ready (rq.enlist p prio head)) = min prio (top maxRtPrio (ready rq)) := by
  unfold ready RtRq.enlist
  cases head with
  | true =>
    simp only [if_true]
    rw [order_cons below]
    exact top_addHead below.le
  | false =>
    simp only [Bool.false_eq_true, if_false]
    rw [order_append below]
    exact top_addTail below.le

theorem listed_enlist (listed : Listed rq) (below : prio < maxRtPrio) (absent : p ∉ rq.queue prio) :
    Listed (rq.enlist p prio head) where
  distinct i := by
    unfold RtRq.enlist
    dsimp only
    by_cases here : i = prio
    · subst here
      rw [Function.update_self]
      cases head with
      | true => exact List.nodup_cons.mpr ⟨absent, listed.distinct i⟩
      | false =>
        simp only [Bool.false_eq_true, if_false]
        refine List.nodup_append.mpr ⟨listed.distinct i, List.nodup_singleton p, fun q member r single => ?_⟩
        rw [List.mem_singleton] at single
        subst single
        exact fun same => absent (same ▸ member)
    · rw [Function.update_of_ne here]
      exact listed.distinct i
  bits i within := by
    unfold RtRq.enlist
    dsimp only
    by_cases here : i = prio
    · subst here
      rw [Function.update_self, Function.update_self]
      cases head <;> simp
    · rw [Function.update_of_ne here, Function.update_of_ne here]
      exact listed.bits i within
  delimiter := by
    unfold RtRq.enlist
    dsimp only
    rw [Function.update_of_ne below.ne']
    exact listed.delimiter

end

theorem ready_delist (below : prio < maxRtPrio) : ready (rq.delist p prio) = (ready rq).erase (prio, p) :=
  order_erase below

theorem listed_delist (listed : Listed rq) (below : prio < maxRtPrio) : Listed (rq.delist p prio) where
  distinct i := by
    unfold RtRq.delist
    dsimp only
    by_cases here : i = prio
    · subst here
      rw [Function.update_self]
      exact (listed.distinct i).erase p
    · rw [Function.update_of_ne here]
      exact listed.distinct i
  bits i within := by
    unfold RtRq.delist
    dsimp only
    by_cases here : i = prio
    · subst here
      rw [Function.update_self]
      split
      · next empty => simp [empty]
      · next some =>
        refine iff_of_true ((listed.bits i within).mpr fun none => some ?_) some
        rw [none]
        rfl
    · rw [Function.update_of_ne here]
      split
      · rw [Function.update_of_ne here]
        exact listed.bits i within
      · exact listed.bits i within
  delimiter := by
    unfold RtRq.delist
    dsimp only
    split
    · rw [Function.update_of_ne below.ne']
      exact listed.delimiter
    · exact listed.delimiter

/-! ## The counters -/

omit [DecidableEq Task] in
theorem incRtTasks_eq : rq.incRtTasks t =
    { rq with
      rtNrRunning := rq.rtNrRunning + 1
      rrNrRunning := rq.rrNrRunning + t.rr.toNat
      highestCurr := min t.prio rq.highestCurr
      rtNrTotal := rq.rtNrTotal + 1
      rtNrMigratory := rq.rtNrMigratory + t.migratory.toNat } := by
  unfold RtRq.incRtTasks RtRq.incRtPrio
  dsimp only
  split
  · next less => rw [min_eq_left less.le]
  · next more => rw [min_eq_right (not_lt.mp more)]

omit [DecidableEq Task] in
theorem decRtTasks_eq : rq.decRtTasks t =
    { rq with
      rtNrRunning := rq.rtNrRunning - 1
      rrNrRunning := rq.rrNrRunning - t.rr.toNat
      highestCurr :=
        if rq.rtNrRunning - 1 = 0 then maxRtPrio
        else if t.prio = rq.highestCurr then schedFindFirstBit rq.bitmap else rq.highestCurr
      rtNrTotal := rq.rtNrTotal - 1
      rtNrMigratory := rq.rtNrMigratory - t.migratory.toNat } := by
  unfold RtRq.decRtTasks RtRq.decRtPrio
  by_cases last : rq.rtNrRunning - 1 = 0
  · simp [last]
  · simp only [ne_eq, last, not_false_eq_true, if_true, if_false]
    split <;> rfl

def settle (rq : RtRq Task) : RtRq Task := { rq with overloaded := decide (Heavy rq) }

theorem countP_update {l : List (ℕ × Task)} (absent : ∀ e ∈ l, e.2 ≠ p) (f : TaskStruct Cpu → Bool) :
    l.countP (fun e => f (Function.update task p t e.2)) = l.countP fun e => f (task e.2) := by
  refine List.countP_congr fun e member => ?_
  rw [Function.update_of_ne (absent e member)]

theorem countP_added (task : Task → TaskStruct Cpu) (t : TaskStruct Cpu) {l after : List (ℕ × Task)} (perm : after.Perm ((prio, p) :: l)) (absent : ∀ e ∈ l, e.2 ≠ p)
    (f : TaskStruct Cpu → Bool) :
    after.countP (fun e => f (Function.update task p t e.2)) = l.countP (fun e => f (task e.2)) + (f t).toNat := by
  rw [perm.countP_eq, List.countP_cons, countP_update absent, Function.update_self]
  cases f t <;> rfl

theorem countP_removed (task : Task → TaskStruct Cpu) (t : TaskStruct Cpu) {l after : List (ℕ × Task)} (perm : l.Perm ((prio, p) :: after))
    (absent : ∀ e ∈ after, e.2 ≠ p) (f : TaskStruct Cpu → Bool) :
    after.countP (fun e => f (Function.update task p t e.2)) = l.countP (fun e => f (task e.2)) - (f (task p)).toNat := by
  rw [perm.countP_eq, List.countP_cons, countP_update absent]
  cases f (task p) <;> simp

theorem countP_changed (task : Task → TaskStruct Cpu) (t : TaskStruct Cpu) {l rest : List (ℕ × Task)}
    (perm : l.Perm ((prio, p) :: rest)) (absent : ∀ e ∈ rest, e.2 ≠ p) (f : TaskStruct Cpu → Bool) :
    l.countP (fun e => f (Function.update task p t e.2)) =
      l.countP (fun e => f (task e.2)) - (f (task p)).toNat + (f t).toNat := by
  rw [countP_added task t perm absent f, ← countP_removed task t perm absent f, countP_update absent]

section
omit [DecidableEq Task]

theorem Members.mem_ready (members : Members task c rq) {e : ℕ × Task} (member : e ∈ ready rq) :
    (task e.2).onRq = true ∧ (task e.2).cpu = c ∧ (task e.2).prio = e.1 :=
  (members e.1 e.2).mp (mem_order.mp (show (e.1, e.2) ∈ order maxRtPrio rq.queue from member)).2

theorem Members.absent (members : Members task c rq) (off : (task p).onRq = false) :
    ∀ e ∈ ready rq, e.2 ≠ p := by
  rintro e member rfl
  have on := (members.mem_ready member).1
  rw [off] at on
  cases on

theorem listed_settle_inc (listed : Listed rq) : Listed (settle (rq.incRtTasks t)) := by
  rw [incRtTasks_eq]
  exact ⟨listed.distinct, listed.bits, listed.delimiter⟩

theorem listed_settle_dec (listed : Listed rq) : Listed (settle (rq.decRtTasks t)) := by
  rw [decRtTasks_eq]
  exact ⟨listed.distinct, listed.bits, listed.delimiter⟩

theorem mem_enlist {i : ℕ} {q : Task} : q ∈ (rq.enlist p prio head).queue i ↔ (q = p ∧ i = prio) ∨ q ∈ rq.queue i := by
  unfold RtRq.enlist
  dsimp only
  by_cases here : i = prio
  · subst here
    rw [Function.update_self]
    cases head <;> simp [or_comm]
  · rw [Function.update_of_ne here]
    simp [here]

end

theorem mem_delist {i : ℕ} {q : Task} (distinct : (rq.queue prio).Nodup) :
    q ∈ (rq.delist p prio).queue i ↔ ¬ (q = p ∧ i = prio) ∧ q ∈ rq.queue i := by
  unfold RtRq.delist
  dsimp only
  by_cases here : i = prio
  · subst here
    rw [Function.update_self, distinct.mem_erase_iff]
    simp
  · rw [Function.update_of_ne here]
    simp [here]

theorem members_enlist (members : Members task c rq) (here : (task p).cpu = c) (off : (task p).onRq = false)
    (onList : Bool) :
    Members (Function.update task p ((task p).mark true onList)) c
      (settle ((rq.enlist p (task p).prio head).incRtTasks (task p))) := by
  rw [incRtTasks_eq]
  intro i q
  dsimp only [settle]
  rw [mem_enlist]
  by_cases self : q = p
  · subst self
    have absent : q ∉ rq.queue i := fun member => by
      have on := ((members i q).mp member).1
      rw [off] at on
      cases on
    simp [absent, here, TaskStruct.mark, eq_comm]
  · rw [Function.update_of_ne self, ← members i q]
    simp [self]

theorem members_delist (sound : Listed rq) (members : Members task c rq) (onList : Bool) :
    Members (Function.update task p ((task p).mark false onList)) c
      (settle ((rq.delist p (task p).prio).decRtTasks (task p))) := by
  rw [decRtTasks_eq]
  intro i q
  dsimp only [settle]
  rw [mem_delist (sound.distinct _)]
  by_cases self : q = p
  · subst self
    rw [Function.update_self, members i q]
    simp only [TaskStruct.mark, Bool.false_eq_true, false_and, iff_false, not_and]
    intro elsewhere on onCpu
    exact fun same => elsewhere trivial same.symm
  · rw [Function.update_of_ne self, ← members i q]
    simp [self]

/-! ## The whole queue -/

theorem queueSound_enqueue (sound : QueueSound task c rq) (here : (task p).cpu = c)
    (off : (task p).onRq = false) (below : (task p).prio < maxRtPrio) (onList : Bool) :
    QueueSound (Function.update task p ((task p).mark true onList)) c
      (settle ((rq.enlist p (task p).prio head).incRtTasks (task p))) where
  listed := by
    refine listed_settle_inc (listed_enlist sound.listed below fun member => ?_)
    have on := ((sound.members _ p).mp member).1
    rw [off] at on
    cases on
  members := members_enlist sound.members here off onList
  counted := by
    have perm : (ready (rq.enlist p (task p).prio head)).Perm (((task p).prio, p) :: ready rq) :=
      perm_ready_enlist below
    have absent := sound.members.absent off
    obtain ⟨running, total, rr, migratory, highest, _⟩ := sound.counted
    rw [incRtTasks_eq]
    refine ⟨?_, ?_, ?_, ?_, ?_, rfl⟩
    · exact (congrArg (· + 1) running).trans perm.length_eq.symm
    · exact (congrArg (· + 1) total).trans perm.length_eq.symm
    · exact (congrArg (· + _) rr).trans (countP_added task ((task p).mark true onList) perm absent TaskStruct.rr).symm
    · exact (congrArg (· + _) migratory).trans (countP_added task ((task p).mark true onList) perm absent TaskStruct.migratory).symm
    · exact (congrArg (min _ ·) highest).trans (top_ready_enlist below).symm

theorem queueSound_dequeue (sound : QueueSound task c rq) (here : (task p).cpu = c)
    (on : (task p).onRq = true) (below : (task p).prio < maxRtPrio) (onList : Bool) :
    QueueSound (Function.update task p ((task p).mark false onList)) c
      (settle ((rq.delist p (task p).prio).decRtTasks (task p))) where
  listed := listed_settle_dec (listed_delist sound.listed below)
  members := members_delist sound.listed sound.members onList
  counted := by
    have member : ((task p).prio, p) ∈ ready rq :=
      mem_order.mpr ⟨below, (sound.members _ p).mpr ⟨on, here, rfl⟩⟩
    have perm := List.perm_cons_erase member
    have distinct : (ready rq).Nodup := nodup_order sound.listed.distinct
    have absent : ∀ e ∈ (ready rq).erase ((task p).prio, p), e.2 ≠ p := by
      rintro e still rfl
      obtain ⟨differs, listed⟩ := (distinct.mem_erase_iff).mp still
      exact differs (Prod.ext (sound.members.mem_ready listed).2.2.symm rfl)
    have listed : Listed (rq.delist p (task p).prio) := listed_delist sound.listed below
    have after : ready (rq.delist p (task p).prio) = (ready rq).erase ((task p).prio, p) := ready_delist below
    obtain ⟨running, total, rr, migratory, highest, _⟩ := sound.counted
    have length := perm.length_eq
    rw [List.length_cons] at length
    rw [decRtTasks_eq]
    have shorter : rq.rtNrRunning - 1 = (ready (rq.delist p (task p).prio)).length := by
      rw [after, running]
      omega
    refine ⟨shorter, ?_, ?_, ?_, ?_, rfl⟩
    · exact ((congrArg (· - 1) (total.trans running.symm))).trans shorter
    · refine (congrArg (· - _) rr).trans ?_
      rw [← countP_removed task ((task p).mark false onList) perm absent TaskStruct.rr, ← after]
      rfl
    · refine (congrArg (· - _) migratory).trans ?_
      rw [← countP_removed task ((task p).mark false onList) perm absent TaskStruct.migratory,
        ← after]
      rfl
    · change (if rq.rtNrRunning - 1 = 0 then maxRtPrio else _) = top maxRtPrio (ready (rq.delist p (task p).prio))
      split
      · next last =>
        rw [shorter, List.length_eq_zero_iff] at last
        rw [last]
        rfl
      · next some =>
        split
        · exact listed.schedFindFirstBit
        · next lower =>
          rw [after, top_erase_of_ne (by rwa [← highest])]
          exact highest

omit [DecidableEq Task] in
theorem QueueSound.highest_le (sound : QueueSound task c rq) (here : (task p).cpu = c)
    (on : (task p).onRq = true) (below : (task p).prio < maxRtPrio) : rq.highestCurr ≤ (task p).prio := by
  have member : ((task p).prio, p) ∈ ready rq :=
    mem_order.mpr ⟨below, (sound.members _ p).mpr ⟨on, here, rfl⟩⟩
  rw [sound.counted.highest]
  exact top_le ordered_order member

theorem queueSound_stay (sound : QueueSound task c rq) (here : (task p).cpu = c) (on : (task p).onRq = true)
    (below : (task p).prio < maxRtPrio) {u : TaskStruct Cpu} (same : u.prio = (task p).prio)
    (stays : u.cpu = c) (onList : Bool) (pushable : List (ℕ × Task)) (next : ℕ) :
    QueueSound (Function.update task p (u.mark true onList)) c
      (settle ({ settle (rq.decRtTasks (task p)) with pushableTasks := pushable, highestNext := next }.incRtTasks
        u)) := by
  have member : ((task p).prio, p) ∈ ready rq :=
    mem_order.mpr ⟨below, (sound.members _ p).mpr ⟨on, here, rfl⟩⟩
  have perm := List.perm_cons_erase member
  have distinct : (ready rq).Nodup := nodup_order sound.listed.distinct
  have absent : ∀ e ∈ (ready rq).erase ((task p).prio, p), e.2 ≠ p := by
    rintro e still rfl
    obtain ⟨differs, listed⟩ := (distinct.mem_erase_iff).mp still
    exact differs (Prod.ext (sound.members.mem_ready listed).2.2.symm rfl)
  have lowest := sound.highest_le here on below
  obtain ⟨running, total, rr, migratory, highest, _⟩ := sound.counted
  have some : 0 < (ready rq).length := List.length_pos_of_mem member
  rw [incRtTasks_eq, decRtTasks_eq]
  refine ⟨⟨sound.listed.distinct, sound.listed.bits, sound.listed.delimiter⟩, fun i q => ?_, ?_, ?_, ?_, ?_, ?_, rfl⟩
  · by_cases self : q = p
    · subst self
      rw [Function.update_self]
      refine (sound.members i q).trans ?_
      simp [TaskStruct.mark, on, here, stays, same]
    · rw [Function.update_of_ne self]
      exact sound.members i q
  · change rq.rtNrRunning - 1 + 1 = (ready rq).length
    omega
  · change rq.rtNrTotal - 1 + 1 = (ready rq).length
    omega
  · refine Eq.trans ?_ (countP_changed task (u.mark true onList) perm absent TaskStruct.rr).symm
    exact congrArg (· - _ + _) rr
  · refine Eq.trans ?_ (countP_changed task (u.mark true onList) perm absent TaskStruct.migratory).symm
    exact congrArg (· - _ + _) migratory
  · change min u.prio (if rq.rtNrRunning - 1 = 0 then maxRtPrio
      else if (task p).prio = rq.highestCurr then schedFindFirstBit rq.bitmap else rq.highestCurr) =
        top maxRtPrio (ready rq)
    rw [sound.listed.schedFindFirstBit, same, ← highest]
    split
    · next last =>
      -- the only task: its priority is the highest
      have single : (ready rq).length = 1 := by omega
      obtain ⟨e, only⟩ := List.length_eq_one_iff.mp single
      rw [only, List.mem_singleton] at member
      rw [min_eq_left below.le, highest, only, ← member]
      rfl
    · split <;> exact min_eq_right lowest

omit [DecidableEq Task] in
theorem QueueSound.congr {after : Task → TaskStruct Cpu} (sound : QueueSound task c rq)
    (same : ∀ q, ((after q).onRq = true ∧ (after q).cpu = c ↔ (task q).onRq = true ∧ (task q).cpu = c))
    (attributes : ∀ q, (task q).onRq = true → (task q).cpu = c →
      (after q).prio = (task q).prio ∧ (after q).rr = (task q).rr ∧ (after q).migratory = (task q).migratory) :
    QueueSound after c rq where
  listed := sound.listed
  members i q := by
    rw [sound.members i q, ← and_assoc, ← and_assoc, same q]
    refine and_congr_right fun queued => ?_
    rw [(attributes q queued.1 queued.2).1]
  counted := by
    obtain ⟨running, total, rr, migratory, highest, overloaded⟩ := sound.counted
    refine ⟨running, total, rr.trans (List.countP_congr fun e member => ?_),
      migratory.trans (List.countP_congr fun e member => ?_), highest, overloaded⟩
    · obtain ⟨on, here, _⟩ := sound.members.mem_ready member
      rw [(attributes e.2 on here).2.1]
    · obtain ⟨on, here, _⟩ := sound.members.mem_ready member
      rw [(attributes e.2 on here).2.2]

omit [DecidableEq Task] in
theorem queueSound_requeue (sound : QueueSound task c rq) (here : (task p).cpu = c)
    (on : (task p).onRq = true) (below : (task p).prio < maxRtPrio) {l : List Task}
    (perm : l.Perm (rq.queue (task p).prio)) :
    QueueSound task c { rq with queue := Function.update rq.queue (task p).prio l } := by
  have member : p ∈ rq.queue (task p).prio := (sound.members _ p).mpr ⟨on, here, rfl⟩
  have listed : Listed { rq with queue := Function.update rq.queue (task p).prio l } := by
    refine ⟨fun i => ?_, fun i within => ?_, sound.listed.delimiter⟩
    · dsimp only
      by_cases same : i = (task p).prio
      · subst same
        rw [Function.update_self]
        exact perm.nodup_iff.mpr (sound.listed.distinct _)
      · rw [Function.update_of_ne same]
        exact sound.listed.distinct i
    · dsimp only
      by_cases same : i = (task p).prio
      · subst same
        rw [Function.update_self]
        refine iff_of_true ((sound.listed.bits _ within).mpr (List.ne_nil_of_mem member)) ?_
        exact List.ne_nil_of_mem (perm.mem_iff.mpr member)
      · rw [Function.update_of_ne same]
        exact sound.listed.bits i within
  have all : (ready { rq with queue := Function.update rq.queue (task p).prio l }).Perm (ready rq) :=
    perm_order below perm
  obtain ⟨running, total, rr, migratory, highest, overloaded⟩ := sound.counted
  refine ⟨listed, fun i q => ?_, running.trans all.length_eq.symm, total.trans all.length_eq.symm,
    rr.trans (all.countP_eq _).symm, migratory.trans (all.countP_eq _).symm, ?_, overloaded⟩
  · dsimp only
    by_cases same : i = (task p).prio
    · subst same
      rw [Function.update_self, perm.mem_iff]
      exact sound.members _ q
    · rw [Function.update_of_ne same]
      exact sound.members i q
  · rw [← listed.schedFindFirstBit]
    exact highest.trans sound.listed.schedFindFirstBit.symm

/-! ## The tasks that may be pushed -/

structure PushList (task : Task → TaskStruct Cpu) (waits : Task → Prop) (l : List (ℕ × Task)) (next : ℕ) :
    Prop where
  ordered : Ordered l
  distinct : l.Nodup
  members : ∀ e, e ∈ l ↔ waits e.2 ∧ e.1 = (task e.2).prio
  next : next = top maxRtPrio l

section
variable {waits : Task → Prop} {l : List (ℕ × Task)} {next : ℕ}

omit [DecidableEq Task] in
theorem PushList.congr {other : Task → Prop} {after : Task → TaskStruct Cpu} (list : PushList task waits l next)
    (same : ∀ q, other q ↔ waits q) (prios : ∀ q, waits q → (after q).prio = (task q).prio) :
    PushList after other l next where
  ordered := list.ordered
  distinct := list.distinct
  members e := by
    rw [list.members e, same]
    exact and_congr_right fun waiting => by rw [prios e.2 waiting]
  next := list.next

theorem plistDel_of_not (list : PushList task waits l next) (absent : ¬ waits p) : plistDel p l = l := by
  refine List.filter_eq_self.mpr fun e member => ?_
  have differs : e.2 ≠ p := fun same => absent (same ▸ ((list.members e).mp member).1)
  simpa using differs

theorem PushList.enqueue (list : PushList task waits l next) (absent : ¬ waits p) (below : (task p).prio < maxRtPrio) :
    PushList task (fun q => q = p ∨ waits q) (addTail ((task p).prio, p) (plistDel p l))
      (if (task p).prio < next then (task p).prio else next) where
  ordered := by
    rw [plistDel_of_not list absent]
    exact ordered_addTail list.ordered
  distinct := by
    rw [plistDel_of_not list absent, perm_addTail.nodup_iff, List.nodup_cons]
    exact ⟨fun member => absent ((list.members _).mp member).1, list.distinct⟩
  members e := by
    rw [plistDel_of_not list absent, mem_addTail, list.members e]
    constructor
    · rintro (rfl | ⟨waiting, prio⟩)
      · exact ⟨.inl rfl, rfl⟩
      · exact ⟨.inr waiting, prio⟩
    · rintro ⟨same | waiting, prio⟩
      · exact .inl (Prod.ext (prio.trans (by rw [same])) same)
      · exact .inr ⟨waiting, prio⟩
  next := by
    rw [plistDel_of_not list absent, top_addTail below.le, ← list.next]
    exact (min_def_lt _ _).symm

theorem PushList.dequeue (list : PushList task waits l next) (p : Task) :
    PushList task (fun q => waits q ∧ q ≠ p) (plistDel p l)
      (((plistDel p l).head?.map fun e => (task e.2).prio).getD maxRtPrio) where
  ordered := list.ordered.filter _
  distinct := list.distinct.filter _
  members e := by
    simp only [plistDel, List.mem_filter, list.members e, decide_eq_true_eq]
    constructor
    · rintro ⟨⟨waiting, prio⟩, differs⟩
      exact ⟨⟨waiting, differs⟩, prio⟩
    · rintro ⟨⟨waiting, differs⟩, prio⟩
      exact ⟨⟨waiting, prio⟩, differs⟩
  next := by
    have keys : ∀ e ∈ plistDel p l, e.1 = (task e.2).prio := fun e member =>
      ((list.members e).mp (List.mem_of_mem_filter member)).2
    cases first : plistDel p l with
    | nil => rfl
    | cons e rest =>
      rw [first] at keys
      exact (keys e List.mem_cons_self).symm

end

end

end UnixSystems.RtQueue
