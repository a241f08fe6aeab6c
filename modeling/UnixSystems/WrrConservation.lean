import UnixSystems.GuardedRuns
import UnixSystems.WrrModel

/-! Conservation on the run queues: the run lists stay well formed and disjoint, and each
of the three counters agrees with the list it summarises, whatever the class does. -/
namespace UnixSystems.WrrConservation
open GuardedRuns CircularList WrrModel

def HasQueue (s : State) (cpu : ℕ) (queue : List Pid) : Prop :=
  Ring s.links (.head cpu) (queue.map .entity)

def Queued (s : State) (cpu : ℕ) (p : Pid) : Prop := ∃ queue, HasQueue s cpu queue ∧ p ∈ queue

theorem entity_injective : Function.Injective Node.entity := fun _ _ same => by cases same; rfl

theorem HasQueue.unique {s : State} {cpu : ℕ} {queue other : List Pid} (h : HasQueue s cpu queue)
    (h' : HasQueue s cpu other) : queue = other :=
  entity_injective.list_map (Ring.unique h h')

theorem HasQueue.nodup {s : State} {cpu : ℕ} {queue : List Pid} (h : HasQueue s cpu queue) :
    queue.Nodup :=
  List.Nodup.of_map _ (List.nodup_cons.mp h.distinct).2

def weightOf (s : State) (queue : List Pid) : ℕ :=
  (queue.map fun p => (s.task p).wrr.weight.toNat).sum

/-- The law of conservation, for the given run lists. `base` is what `rq->nr_running` was
before the class touched it. -/
structure Holds (base : ℕ → UInt32) (s : State) (queue : ℕ → List Pid) : Prop where
  ring : ∀ cpu, HasQueue s cpu (queue cpu)
  apart : ∀ c d, c ≠ d → (queue c).Disjoint (queue d)
  home : ∀ cpu, ∀ p ∈ queue cpu, (s.task p).cpu = cpu
  count : ∀ cpu, (s.rq cpu).wrr.nrRunning.toNat = (queue cpu).length
  weight : ∀ cpu, (s.rq cpu).wrr.totalWeight.toNat = weightOf s (queue cpu) % 2 ^ 32
  total : ∀ cpu, (s.rq cpu).nrRunning = base cpu + (s.rq cpu).wrr.nrRunning

/-- The law without the weights. -/
structure Listed (base : ℕ → UInt32) (s : State) (queue : ℕ → List Pid) : Prop where
  ring : ∀ cpu, HasQueue s cpu (queue cpu)
  apart : ∀ c d, c ≠ d → (queue c).Disjoint (queue d)
  home : ∀ cpu, ∀ p ∈ queue cpu, (s.task p).cpu = cpu
  count : ∀ cpu, (s.rq cpu).wrr.nrRunning.toNat = (queue cpu).length
  total : ∀ cpu, (s.rq cpu).nrRunning = base cpu + (s.rq cpu).wrr.nrRunning

def Weighed (s : State) (queue : ℕ → List Pid) : Prop :=
  ∀ cpu, (s.rq cpu).wrr.totalWeight.toNat = weightOf s (queue cpu) % 2 ^ 32

theorem holds_iff {base : ℕ → UInt32} {s : State} {queue : ℕ → List Pid} :
    Holds base s queue ↔ Listed base s queue ∧ Weighed s queue :=
  ⟨fun h => ⟨⟨h.ring, h.apart, h.home, h.count, h.total⟩, h.weight⟩,
    fun ⟨h, weight⟩ => ⟨h.ring, h.apart, h.home, h.count, weight, h.total⟩⟩

theorem Holds.listed {base : ℕ → UInt32} {s : State} {queue : ℕ → List Pid}
    (h : Holds base s queue) : Listed base s queue :=
  (holds_iff.mp h).1

/-- Whether the totals were right before or not, a step keeps the lists, and it does not
put right totals wrong. -/
def Carries (base : ℕ → UInt32) (s : State) (queue : ℕ → List Pid) (t : State)
    (new : ℕ → List Pid) : Prop :=
  Listed base t new ∧ (Weighed s queue → Weighed t new)

theorem Carries.trans {base : ℕ → UInt32} {s t u : State} {queue mid new : ℕ → List Pid}
    (first : Carries base s queue t mid) (second : Carries base t mid u new) :
    Carries base s queue u new :=
  ⟨second.1, fun weighed => second.2 (first.2 weighed)⟩

theorem Holds.carry {base : ℕ → UInt32} {s t : State} {queue new : ℕ → List Pid}
    (h : Holds base s queue) (carries : Carries base s queue t new) : Holds base t new :=
  holds_iff.mpr ⟨carries.1, carries.2 (holds_iff.mp h).2⟩

structure SameQueues (s t : State) : Prop where
  links : t.links = s.links
  weight : ∀ p, (t.task p).wrr.weight = (s.task p).wrr.weight
  cpu : ∀ p, (t.task p).cpu = (s.task p).cpu
  wrr : ∀ cpu, (t.rq cpu).wrr = (s.rq cpu).wrr
  total : ∀ cpu, (t.rq cpu).nrRunning = (s.rq cpu).nrRunning

theorem SameQueues.refl (s : State) : SameQueues s s :=
  ⟨rfl, fun _ => rfl, fun _ => rfl, fun _ => rfl, fun _ => rfl⟩

theorem SameQueues.trans {s t u : State} (first : SameQueues s t) (second : SameQueues t u) :
    SameQueues s u where
  links := second.links.trans first.links
  weight := fun p => (second.weight p).trans (first.weight p)
  cpu := fun p => (second.cpu p).trans (first.cpu p)
  wrr := fun cpu => (second.wrr cpu).trans (first.wrr cpu)
  total := fun cpu => (second.total cpu).trans (first.total cpu)

theorem Listed.same {base : ℕ → UInt32} {s t : State} {queue : ℕ → List Pid}
    (h : Listed base s queue) (same : SameQueues s t) : Carries base s queue t queue := by
  refine ⟨⟨?_, h.apart, ?_, ?_, ?_⟩, fun weighed cpu => ?_⟩
  · intro cpu
    simpa only [HasQueue, same.links] using h.ring cpu
  · intro cpu p member
    rw [same.cpu]
    exact h.home cpu p member
  · intro cpu
    rw [same.wrr]
    exact h.count cpu
  · intro cpu
    rw [same.wrr, same.total]
    exact h.total cpu
  · simp only [same.wrr, weightOf, same.weight]
    exact weighed cpu

theorem Holds.same {base : ℕ → UInt32} {s t : State} {queue : ℕ → List Pid} (h : Holds base s queue)
    (same : SameQueues s t) : Holds base t queue :=
  h.carry (h.listed.same same)

/-! ## Steps that only account time -/

theorem sameQueues_modifyTask (s : State) (p : Pid) (f : Task → Task)
    (weight : (f (s.task p)).wrr.weight = (s.task p).wrr.weight)
    (cpu : (f (s.task p)).cpu = (s.task p).cpu) : SameQueues s (s.modifyTask p f) := by
  refine ⟨rfl, fun q => ?_, fun q => ?_, fun _ => rfl, fun _ => rfl⟩
  · by_cases same : q = p <;> simp [State.modifyTask, same, weight]
  · by_cases same : q = p <;> simp [State.modifyTask, same, cpu]

theorem sameQueues_modifyRq (s : State) (cpu : ℕ) (f : Rq → Rq)
    (wrr : (f (s.rq cpu)).wrr = (s.rq cpu).wrr)
    (total : (f (s.rq cpu)).nrRunning = (s.rq cpu).nrRunning) : SameQueues s (s.modifyRq cpu f) := by
  refine ⟨rfl, fun _ => rfl, fun _ => rfl, fun c => ?_, fun c => ?_⟩
  · by_cases same : c = cpu <;> simp [State.modifyRq, same, wrr]
  · by_cases same : c = cpu <;> simp [State.modifyRq, same, total]

/-- What accounting never writes to a task. -/
def unaccounted (t : Task) : Policy × SchedClass × ℕ × UInt32 × UInt32 :=
  (t.policy, t.schedClass, t.cpu, t.wrr.weight, t.wrr.timeSlice)

structure Accounted (s t : State) : Prop where
  links : t.links = s.links
  rq : t.rq = s.rq
  task : ∀ p, unaccounted (t.task p) = unaccounted (s.task p)

theorem Accounted.refl (s : State) : Accounted s s := ⟨rfl, rfl, fun _ => rfl⟩

theorem Accounted.trans {s t u : State} (first : Accounted s t) (second : Accounted t u) :
    Accounted s u :=
  ⟨second.links.trans first.links, second.rq.trans first.rq,
    fun p => (second.task p).trans (first.task p)⟩

theorem accounted_modifyTask (s : State) (p : Pid) (f : Task → Task)
    (same : unaccounted (f (s.task p)) = unaccounted (s.task p)) : Accounted s (s.modifyTask p f) := by
  refine ⟨rfl, rfl, fun q => ?_⟩
  by_cases here : q = p
  · simpa [State.modifyTask, here] using same
  · simp [State.modifyTask, here]

theorem Accounted.sameQueues {s t : State} (same : Accounted s t) : SameQueues s t where
  links := same.links
  weight := fun p => congrArg (·.2.2.2.1) (same.task p)
  cpu := fun p => congrArg (·.2.2.1) (same.task p)
  wrr := fun cpu => congrArg (fun rq => (rq cpu).wrr) same.rq
  total := fun cpu => congrArg (fun rq => (rq cpu).nrRunning) same.rq

theorem accounted_updateCurrWrr (cfg : Config) (s : State) (cpu : ℕ) :
    Accounted s (updateCurrWrr cfg s cpu) := by
  unfold updateCurrWrr
  cases (s.rq cpu).curr with
  | none => exact Accounted.refl s
  | some curr =>
    dsimp only
    split
    · exact Accounted.refl s
    · split
      · exact Accounted.refl s
      · exact accounted_modifyTask s curr _ rfl

theorem accounted_watchdog (cfg : Config) (s : State) (p : Pid) : Accounted s (watchdog cfg s p) := by
  unfold watchdog
  dsimp only
  split_ifs
  · exact (accounted_modifyTask s p _ rfl).trans (accounted_modifyTask _ p _ rfl)
  · exact accounted_modifyTask s p _ rfl
  · exact Accounted.refl s
  · exact Accounted.refl s

theorem accounted_pickNextTaskWrr (cfg : Config) (s : State) (cpu : ℕ) (prev : Option Pid) :
    Accounted s (pickNextTaskWrr cfg s cpu prev).1 := by
  have put := accounted_updateCurrWrr cfg s cpu
  unfold pickNextTaskWrr putPrevTaskWrr
  dsimp only
  split_ifs
  · exact Accounted.refl s
  · cases (updateCurrWrr cfg s cpu).links.next (.head cpu) with
    | head c => exact put
    | entity p =>
      have marked := accounted_modifyTask (updateCurrWrr cfg s cpu) p (fun t =>
        { t with se := { t.se with execStart := ((updateCurrWrr cfg s cpu).rq cpu).clockTask } }) rfl
      exact put.trans marked

theorem pickNextTaskWrr_head (cfg : Config) {s : State} {cpu : ℕ} {p : Pid} {rest : List Pid}
    (queue : HasQueue s cpu (p :: rest)) (some : (s.rq cpu).wrr.nrRunning ≠ 0) (prev : Option Pid) :
    (pickNextTaskWrr cfg s cpu prev).2 = .some p := by
  have next : (updateCurrWrr cfg s cpu).links.next (.head cpu) = .entity p := by
    rw [(accounted_updateCurrWrr cfg s cpu).links, queue.next_head, List.map_cons, List.headD_cons]
  simp only [pickNextTaskWrr, if_neg some, putPrevTaskWrr, next]

/-! ## Steps that change one run list -/

section Change

variable {base : ℕ → UInt32} {s t : State} {queue : ℕ → List Pid} {cpu : ℕ}

theorem Listed.ring_of_ne (h : Listed base s queue) {new : List Pid}
    (frame : ∀ n, (∀ p ∈ new, n ≠ .entity p) → n ∉ Node.head cpu :: (queue cpu).map .entity →
      SameAt s.links t.links n)
    {c : ℕ} (other : c ≠ cpu) (fresh : new.Disjoint (queue c)) : HasQueue t c (queue c) := by
  refine Ring.congr (h.ring c) fun n member => frame n ?_ ?_
  · rintro p listed rfl
    have shared : p ∈ queue c := by simpa using member
    exact fresh listed shared
  · intro inside
    rcases List.mem_cons.mp member with rfl | entry
    · simp [other] at inside
    · obtain ⟨p, listed, rfl⟩ := List.mem_map.mp entry
      have shared : p ∈ queue cpu := by simpa using inside
      exact h.apart c cpu other listed shared

theorem Listed.apart_update (h : Listed base s queue) {new : List Pid}
    (fresh : ∀ c, c ≠ cpu → new.Disjoint (queue c)) (c d : ℕ) (differ : c ≠ d) :
    (Function.update queue cpu new c).Disjoint (Function.update queue cpu new d) := by
  by_cases hc : c = cpu
  · subst hc
    simpa [Function.update_of_ne (Ne.symm differ)] using fresh d (Ne.symm differ)
  · by_cases hd : d = cpu
    · subst hd
      simpa [Function.update_of_ne hc] using (fresh c hc).symm
    · simpa [Function.update_of_ne hc, Function.update_of_ne hd] using h.apart c d differ

theorem Listed.change (h : Listed base s queue) (new : List Pid) (ring : HasQueue t cpu new)
    (frame : ∀ n, (∀ p ∈ new, n ≠ .entity p) → n ∉ Node.head cpu :: (queue cpu).map .entity →
      SameAt s.links t.links n)
    (task : ∀ p, (t.task p).wrr.weight = (s.task p).wrr.weight ∧ (t.task p).cpu = (s.task p).cpu)
    (rest : ∀ c, c ≠ cpu → (t.rq c).wrr = (s.rq c).wrr ∧ (t.rq c).nrRunning = (s.rq c).nrRunning)
    (fresh : ∀ c, c ≠ cpu → new.Disjoint (queue c)) (home : ∀ p ∈ new, (s.task p).cpu = cpu)
    (count : (t.rq cpu).wrr.nrRunning.toNat = new.length)
    (total : (t.rq cpu).nrRunning = base cpu + (t.rq cpu).wrr.nrRunning)
    (weight : Weighed s queue → (t.rq cpu).wrr.totalWeight.toNat = weightOf s new % 2 ^ 32) :
    Carries base s queue t (Function.update queue cpu new) := by
  have atEach : ∀ {P : ℕ → List Pid → Prop}, P cpu new → (∀ c, c ≠ cpu → P c (queue c)) →
      ∀ c, P c (Function.update queue cpu new c) := fun {P} here there =>
    (Function.forall_update_iff queue P).mpr ⟨here, there⟩
  refine ⟨⟨?_, h.apart_update fresh, ?_, ?_, fun c => ?_⟩, fun weighed => ?_⟩
  · exact atEach ring fun c other => h.ring_of_ne frame other (fresh c other)
  · have homes := @atEach (fun c l => ∀ p ∈ l, (s.task p).cpu = c) home fun c _ => h.home c
    exact fun c p member => (task p).2.trans (homes c p member)
  · exact @atEach (fun c l => (t.rq c).wrr.nrRunning.toNat = l.length) count fun c other =>
      (rest c other).1 ▸ h.count c
  · by_cases here : c = cpu
    · subst here
      exact total
    · rw [(rest c here).1, (rest c here).2]
      exact h.total c
  · have same : ∀ l, weightOf t l = weightOf s l := fun l => by
      simp only [weightOf, fun p => (task p).1]
    refine @atEach (fun c l => (t.rq c).wrr.totalWeight.toNat = weightOf t l % 2 ^ 32) ?_ fun c other => ?_
    · rw [same]
      exact weight weighed
    · rw [same, (rest c other).1]
      exact weighed c

end Change

/-- What an operation on one run queue does, as far as the law is concerned. -/
structure Effect (s t : State) (cpu : ℕ) (links : Links Node) (wrr : WrrRq) (nrRunning : UInt32) :
    Prop where
  links : t.links = links
  task : ∀ p, (t.task p).wrr.weight = (s.task p).wrr.weight ∧ (t.task p).cpu = (s.task p).cpu
  rest : ∀ c, c ≠ cpu → (t.rq c).wrr = (s.rq c).wrr ∧ (t.rq c).nrRunning = (s.rq c).nrRunning
  wrr : (t.rq cpu).wrr = wrr
  total : (t.rq cpu).nrRunning = nrRunning

theorem effect_enqueueTaskWrr (s : State) (cpu : ℕ) (p : Pid) (flags : UInt32) :
    Effect s (enqueueTaskWrr s cpu p flags) cpu
      (if flags &&& enqueueHead ≠ 0 then s.links.listAdd (.entity p) (.head cpu)
        else s.links.listAddTail (.entity p) (.head cpu))
      ⟨(s.rq cpu).wrr.nrRunning + 1, (s.rq cpu).wrr.totalWeight + (s.task p).wrr.weight⟩
      ((s.rq cpu).nrRunning + 1) := by
  have same : SameQueues s (if flags &&& enqueueWakeup ≠ 0 then
      s.modifyTask p (fun t => { t with wrr := { t.wrr with timeout := 0 } }) else s) := by
    split_ifs
    · exact sameQueues_modifyTask s p _ rfl rfl
    · exact SameQueues.refl s
  unfold enqueueTaskWrr addNrRunning
  dsimp only
  revert same
  generalize (if flags &&& enqueueWakeup ≠ 0 then
    s.modifyTask p (fun t => { t with wrr := { t.wrr with timeout := 0 } }) else s) = t
  intro same
  split_ifs <;> constructor <;>
    simp_all [State.modifyRq, same.links, same.weight, same.cpu, same.wrr, same.total]

theorem effect_dequeueTaskWrr (cfg : Config) (s : State) (cpu : ℕ) (p : Pid) (flags : UInt32)
    (some : (s.rq cpu).wrr.nrRunning ≠ 0) :
    Effect s (dequeueTaskWrr cfg s cpu p flags) cpu (s.links.listDelInit (.entity p))
      ⟨(s.rq cpu).wrr.nrRunning - 1, (s.rq cpu).wrr.totalWeight - (s.task p).wrr.weight⟩
      ((s.rq cpu).nrRunning - 1) := by
  have same := (accounted_updateCurrWrr cfg s cpu).sameQueues
  unfold dequeueTaskWrr subNrRunning
  rw [if_neg some]
  constructor <;>
    simp_all [State.modifyRq, same.links, same.weight, same.cpu, same.wrr, same.total]

theorem effect_requeueTaskWrr (s : State) (cpu : ℕ) (p : Pid) (head : Bool) :
    Effect s (requeueTaskWrr s cpu p head) cpu
      (if head then s.links.listMove (.entity p) (.head cpu)
        else s.links.listMoveTail (.entity p) (.head cpu))
      (s.rq cpu).wrr (s.rq cpu).nrRunning :=
  ⟨rfl, fun _ => ⟨rfl, rfl⟩, fun _ _ => ⟨rfl, rfl⟩, rfl, rfl⟩

section Law

variable {base : ℕ → UInt32} {s t : State} {queue : ℕ → List Pid} {cpu : ℕ} {p : Pid}

theorem weightOf_append (s : State) (l r : List Pid) :
    weightOf s (l ++ r) = weightOf s l + weightOf s r := by
  simp [weightOf]

theorem weightOf_cons (s : State) (p : Pid) (l : List Pid) :
    weightOf s (p :: l) = (s.task p).wrr.weight.toNat + weightOf s l := by
  simp [weightOf]

theorem Listed.room (h : Listed base s queue) : (queue cpu).length < 2 ^ 31 :=
  Pid.length_lt_of_nodup _ (h.ring cpu).nodup

def enqueued (flags : UInt32) (p : Pid) (queue : List Pid) : List Pid :=
  if flags &&& enqueueHead ≠ 0 then p :: queue else queue ++ [p]

theorem enqueued_perm (flags : UInt32) (p : Pid) (queue : List Pid) :
    (enqueued flags p queue).Perm (p :: queue) := by
  unfold enqueued
  split_ifs
  · exact List.Perm.refl _
  · exact List.perm_append_singleton p queue

theorem mem_enqueued (flags : UInt32) (p q : Pid) (c : ℕ) :
    q ∈ Function.update queue cpu (enqueued flags p (queue cpu)) c ↔ q ∈ queue c ∨ q = p ∧ cpu = c := by
  by_cases here : c = cpu
  · subst here
    rw [Function.update_self, (enqueued_perm flags p _).mem_iff, List.mem_cons, eq_self, and_true]
    exact or_comm
  · rw [Function.update_of_ne here]
    simp [Ne.symm here]

theorem hasQueue_enqueue (flags : UInt32) {q : List Pid} (ring : HasQueue s cpu q) (out : p ∉ q) :
    HasQueue (enqueueTaskWrr s cpu p flags) cpu (enqueued flags p q) ∧
      ∀ n, n ≠ .entity p → n ∉ Node.head cpu :: q.map .entity →
        SameAt s.links (enqueueTaskWrr s cpu p flags).links n := by
  have links := (effect_enqueueTaskWrr s cpu p flags).links
  have new : Node.entity p ∉ Node.head cpu :: q.map .entity := by simpa using out
  unfold HasQueue enqueued
  by_cases front : flags &&& enqueueHead ≠ 0
  · rw [if_pos front] at links ⊢
    rw [links]
    refine ⟨Ring.listAdd ring new, fun n away outside => Ring.sameAt_listAdd ring ?_⟩
    simp_all
  · rw [if_neg front] at links ⊢
    rw [links, List.map_append]
    refine ⟨Ring.listAddTail ring new, fun n away outside => Ring.sameAt_listAddTail ring ?_⟩
    simp_all

theorem Listed.enqueue (h : Listed base s queue) (flags : UInt32) (out : ∀ c, p ∉ queue c)
    (home : (s.task p).cpu = cpu) :
    Carries base s queue (enqueueTaskWrr s cpu p flags)
      (Function.update queue cpu (enqueued flags p (queue cpu))) := by
  have effect := effect_enqueueTaskWrr s cpu p flags
  have room : (queue cpu).length < 2 ^ 31 := h.room
  have order := enqueued_perm flags p (queue cpu)
  have sum : weightOf s (enqueued flags p (queue cpu)) = weightOf s (p :: queue cpu) :=
    (order.map _).sum_eq
  have first : p ∈ enqueued flags p (queue cpu) := order.mem_iff.mpr (by simp)
  obtain ⟨ring, frame⟩ := hasQueue_enqueue flags (h.ring cpu) (out cpu)
  refine h.change _ ring (fun n away => frame n (away p first)) effect.task effect.rest ?_ ?_ ?_ ?_ ?_
  · intro c other q listed there
    rcases List.mem_cons.mp (order.mem_iff.mp listed) with rfl | inside
    · exact out c there
    · exact h.apart cpu c (Ne.symm other) inside there
  · intro q listed
    rcases List.mem_cons.mp (order.mem_iff.mp listed) with rfl | inside
    · exact home
    · exact h.home cpu q inside
  · rw [effect.wrr, order.length_eq, UInt32.toNat_add, h.count cpu]
    simp only [List.length_cons, UInt32.toNat_one]
    omega
  · rw [effect.total, effect.wrr, h.total cpu, UInt32.add_assoc]
  · intro weighed
    rw [effect.wrr, sum, weightOf_cons, UInt32.toNat_add, weighed cpu]
    omega

theorem Holds.enqueue (h : Holds base s queue) (flags : UInt32) (out : ∀ c, p ∉ queue c)
    (home : (s.task p).cpu = cpu) :
    Holds base (enqueueTaskWrr s cpu p flags)
      (Function.update queue cpu (enqueued flags p (queue cpu))) :=
  h.carry (h.listed.enqueue flags out home)

theorem hasQueue_dequeue (cfg : Config) (flags : UInt32) {l r : List Pid}
    (ring : HasQueue s cpu (l ++ p :: r)) (some : (s.rq cpu).wrr.nrRunning ≠ 0) :
    HasQueue (dequeueTaskWrr cfg s cpu p flags) cpu (l ++ r) ∧
      ∀ n, n ∉ Node.head cpu :: (l ++ p :: r).map .entity →
        SameAt s.links (dequeueTaskWrr cfg s cpu p flags).links n := by
  have links := (effect_dequeueTaskWrr cfg s cpu p flags some).links
  rw [HasQueue, List.map_append, List.map_cons] at ring
  rw [HasQueue, links, List.map_append, List.map_append, List.map_cons]
  exact ⟨Ring.delInit ring, fun n outside => Ring.sameAt_delInit ring outside⟩

theorem Listed.dequeue (h : Listed base s queue) (cfg : Config) (flags : UInt32) {l r : List Pid}
    (split : queue cpu = l ++ p :: r) :
    Carries base s queue (dequeueTaskWrr cfg s cpu p flags) (Function.update queue cpu (l ++ r)) := by
  have count := h.count cpu
  rw [split] at count
  have some : (s.rq cpu).wrr.nrRunning ≠ 0 := by
    intro zero
    rw [zero] at count
    simp at count
  have effect := effect_dequeueTaskWrr cfg s cpu p flags some
  have one : (1 : UInt32) ≤ (s.rq cpu).wrr.nrRunning := by
    rw [UInt32.le_iff_toNat_le, count, UInt32.toNat_one, List.length_append, List.length_cons]
    omega
  have inside : l ++ r ⊆ queue cpu := by
    rw [split]
    intro q listed
    simp only [List.mem_append, List.mem_cons] at listed ⊢
    tauto
  obtain ⟨ring, frame⟩ := hasQueue_dequeue cfg flags (split ▸ h.ring cpu) some
  refine h.change (l ++ r) ring (fun n _ outside => frame n (split ▸ outside)) effect.task effect.rest
    ?_ ?_ ?_ ?_ ?_
  · intro c other q listed there
    exact h.apart cpu c (Ne.symm other) (inside listed) there
  · exact fun q listed => h.home cpu q (inside listed)
  · rw [effect.wrr, UInt32.toNat_sub_of_le _ _ one, count, UInt32.toNat_one]
    simp only [List.length_append, List.length_cons]
    omega
  · rw [effect.total, effect.wrr, h.total cpu]
    grind
  · intro weighed
    have weight := weighed cpu
    have small := (s.task p).wrr.weight.toNat_lt
    rw [split] at weight
    rw [effect.wrr, UInt32.toNat_sub, weight]
    simp only [weightOf_append, weightOf_cons]
    omega

theorem Listed.mem_dequeued (h : Listed base s queue) {l r : List Pid} (split : queue cpu = l ++ p :: r)
    (c : ℕ) (q : Pid) : q ∈ Function.update queue cpu (l ++ r) c ↔ q ∈ queue c ∧ q ≠ p := by
  have listed : p ∈ queue cpu := by simp [split]
  have nodup := (h.ring cpu).nodup
  by_cases here : c = cpu
  · rw [split, List.nodup_middle, List.nodup_cons] at nodup
    rw [here, Function.update_self, split]
    simp only [List.mem_append, List.mem_cons] at nodup ⊢
    constructor
    · intro member
      exact ⟨by tauto, fun same => nodup.1 (same ▸ member)⟩
    · tauto
  · rw [Function.update_of_ne here]
    refine ⟨fun member => ⟨member, ?_⟩, And.left⟩
    rintro rfl
    exact h.apart c cpu here member listed

theorem Holds.dequeue (h : Holds base s queue) (cfg : Config) (flags : UInt32) {l r : List Pid}
    (split : queue cpu = l ++ p :: r) :
    Holds base (dequeueTaskWrr cfg s cpu p flags) (Function.update queue cpu (l ++ r)) :=
  h.carry (h.listed.dequeue cfg flags split)

theorem requeued_perm (head : Bool) {l r : List Pid} (split : queue cpu = l ++ p :: r) (c : ℕ) :
    (Function.update queue cpu (if head then p :: (l ++ r) else l ++ r ++ [p]) c).Perm
      (queue c) := by
  by_cases here : c = cpu
  · subst here
    rw [Function.update_self, split]
    cases head with
    | true => exact List.perm_middle.symm
    | false => exact (List.perm_append_singleton p (l ++ r)).trans List.perm_middle.symm
  · rw [Function.update_of_ne here]

theorem Listed.requeue (h : Listed base s queue) (head : Bool) {l r : List Pid}
    (split : queue cpu = l ++ p :: r) :
    Carries base s queue (requeueTaskWrr s cpu p head)
      (Function.update queue cpu (if head then p :: (l ++ r) else l ++ r ++ [p])) := by
  have ring := h.ring cpu
  rw [HasQueue, split, List.map_append, List.map_cons] at ring
  have effect := effect_requeueTaskWrr s cpu p head
  have order : (if head then p :: (l ++ r) else l ++ r ++ [p]).Perm (queue cpu) := by
    simpa only [Function.update_self] using requeued_perm head split cpu
  have sum : weightOf s (if head then p :: (l ++ r) else l ++ r ++ [p]) = weightOf s (queue cpu) :=
    (order.map _).sum_eq
  refine h.change _ ?_ ?_ effect.task effect.rest ?_ ?_ ?_ ?_ ?_
  · rw [HasQueue, effect.links]
    cases head with
    | true => simpa using Ring.listMove ring
    | false => simpa using Ring.listMoveTail ring
  · intro n _ outside
    have away : n ∉ Node.head cpu :: (l.map .entity ++ .entity p :: r.map .entity) := by
      simpa [split] using outside
    rw [effect.links]
    cases head with
    | true => exact Ring.sameAt_listMove ring away
    | false => exact Ring.sameAt_listMoveTail ring away
  · intro c other q listed there
    exact h.apart cpu c (Ne.symm other) (order.mem_iff.mp listed) there
  · exact fun q listed => h.home cpu q (order.mem_iff.mp listed)
  · rw [effect.wrr, h.count cpu, order.length_eq]
  · rw [effect.total, effect.wrr, h.total cpu]
  · intro weighed
    rw [effect.wrr, sum, weighed cpu]

theorem Holds.requeue (h : Holds base s queue) (head : Bool) {l r : List Pid}
    (split : queue cpu = l ++ p :: r) :
    Holds base (requeueTaskWrr s cpu p head)
      (Function.update queue cpu (if head then p :: (l ++ r) else l ++ r ++ [p])) :=
  h.carry (h.listed.requeue head split)

theorem weightOf_other {l : List Pid} (absent : p ∉ l)
    (others : ∀ q, q ≠ p → (t.task q).wrr.weight = (s.task q).wrr.weight) :
    weightOf t l = weightOf s l := by
  induction l with
  | nil => rfl
  | cons q l ih =>
    simp only [List.mem_cons, not_or] at absent
    rw [weightOf_cons, weightOf_cons, others q (Ne.symm absent.1), ih absent.2]

/-- What a change of weight does, whether the task is queued or not: the total of its CPU
changes with the weight. -/
structure Reweighed (s t : State) (p : Pid) (weight : UInt32) : Prop where
  links : t.links = s.links
  cpu : ∀ q, (t.task q).cpu = (s.task q).cpu
  own : (t.task p).wrr.weight = weight
  others : ∀ q, q ≠ p → (t.task q).wrr.weight = (s.task q).wrr.weight
  count : ∀ c, (t.rq c).wrr.nrRunning = (s.rq c).wrr.nrRunning
  total : ∀ c, (t.rq c).nrRunning = (s.rq c).nrRunning
  changed : (t.rq (s.task p).cpu).wrr.totalWeight =
    (s.rq (s.task p).cpu).wrr.totalWeight - (s.task p).wrr.weight + weight
  kept : ∀ c, c ≠ (s.task p).cpu → (t.rq c).wrr.totalWeight = (s.rq c).wrr.totalWeight

theorem reweighed_setWrrWeightLocked (s : State) (p : Pid) (weight : Int32) (now : UInt64) :
    Reweighed s (setWrrWeightLocked s p weight now) p weight.toUInt32 := by
  constructor
  · rfl
  · intro q
    by_cases same : q = p <;> simp [setWrrWeightLocked, State.modifyTask, State.modifyRq,
      updateRqClock, same]
  · simp [setWrrWeightLocked, State.modifyTask]
  · intro q other
    simp [setWrrWeightLocked, State.modifyTask, State.modifyRq, updateRqClock, other]
  · intro c
    by_cases here : c = (s.task p).cpu <;> simp [setWrrWeightLocked, State.modifyTask,
      State.modifyRq, updateRqClock, here]
  · intro c
    by_cases here : c = (s.task p).cpu <;> simp [setWrrWeightLocked, State.modifyTask,
      State.modifyRq, updateRqClock, here]
  · simp [setWrrWeightLocked, State.modifyTask, State.modifyRq, updateRqClock]
  · intro c other
    simp [setWrrWeightLocked, State.modifyTask, State.modifyRq, updateRqClock, other]

theorem Listed.reweigh {weight : UInt32} (h : Listed base s queue) (change : Reweighed s t p weight) :
    Listed base t queue := by
  refine ⟨?_, h.apart, ?_, ?_, ?_⟩
  · intro c
    rw [HasQueue, change.links]
    exact h.ring c
  · intro c q member
    rw [change.cpu]
    exact h.home c q member
  · intro c
    rw [change.count]
    exact h.count c
  · intro c
    rw [change.count, change.total]
    exact h.total c

theorem Weighed.reweigh {weight : UInt32} (weighed : Weighed s queue) (h : Listed base s queue)
    (change : Reweighed s t p weight) (queued : p ∈ queue (s.task p).cpu) : Weighed t queue := by
  intro c
  by_cases here : c = (s.task p).cpu
  · subst here
    obtain ⟨l, r, split⟩ := List.append_of_mem queued
    have nodup := (h.ring (s.task p).cpu).nodup
    have before := weighed (s.task p).cpu
    have small := (s.task p).wrr.weight.toNat_lt
    rw [split] at nodup before
    simp only [List.nodup_middle, List.nodup_cons, List.mem_append, not_or] at nodup
    rw [change.changed, split, UInt32.toNat_add, UInt32.toNat_sub, before]
    simp only [weightOf_append, weightOf_cons, change.own, weightOf_other nodup.1.1 change.others,
      weightOf_other nodup.1.2 change.others]
    omega
  · have absent : p ∉ queue c := fun there => h.apart c _ here there queued
    rw [change.kept c here, weightOf_other absent change.others]
    exact weighed c

theorem Holds.setWeight (h : Holds base s queue) (weight : Int32) (now : UInt64)
    (queued : p ∈ queue (s.task p).cpu) : Holds base (setWrrWeightLocked s p weight now) queue :=
  have change := reweighed_setWrrWeightLocked s p weight now
  h.carry ⟨h.listed.reweigh change, fun weighed => weighed.reweigh h.listed change queued⟩

theorem taskTickWrr_cases (cfg : Config) (s : State) (cpu : ℕ) (p : Pid) :
    ∃ t, SameQueues s t ∧ (taskTickWrr cfg s cpu p = t ∨
      taskTickWrr cfg s cpu p = reschedCurr (requeueTaskWrr t cpu p false) cpu) := by
  have counted := ((accounted_updateCurrWrr cfg s cpu).trans (accounted_watchdog cfg _ p)).sameQueues
  have shortened := counted.trans (sameQueues_modifyTask _ p (fun t =>
    { t with wrr := { t.wrr with timeSlice := t.wrr.timeSlice - 1 } }) rfl rfl)
  have refilled := shortened.trans (sameQueues_modifyTask _ p (fun t =>
    { t with wrr := { t.wrr with timeSlice := t.wrr.weight * cfg.timeslice } }) rfl rfl)
  unfold taskTickWrr sliceExpired
  dsimp only
  split_ifs
  · exact ⟨_, counted, .inl rfl⟩
  · exact ⟨_, shortened, .inl rfl⟩
  · exact ⟨_, refilled, .inr rfl⟩
  · exact ⟨_, refilled, .inl rfl⟩

theorem Listed.tick (h : Listed base s queue) (cfg : Config) (queued : p ∈ queue cpu) :
    ∃ new, Carries base s queue (taskTickWrr cfg s cpu p) new ∧ ∀ c, (new c).Perm (queue c) := by
  obtain ⟨t, same, still | moves⟩ := taskTickWrr_cases cfg s cpu p
  · rw [still]
    exact ⟨queue, h.same same, fun c => List.Perm.refl _⟩
  · obtain ⟨l, r, split⟩ := List.append_of_mem queued
    have counted := h.same same
    have moved := counted.trans (counted.1.requeue false split)
    rw [moves]
    exact ⟨_, moved.trans (moved.1.same (sameQueues_modifyRq _ cpu _ rfl rfl)),
      requeued_perm false split⟩

theorem Listed.setTaskCpu (h : Listed base s queue) (cpu : ℕ) (out : ∀ c, p ∉ queue c) :
    Carries base s queue (s.modifyTask p fun t => { t with cpu := cpu }) queue := by
  refine ⟨⟨h.ring, h.apart, ?_, h.count, h.total⟩, fun weighed c => ?_⟩
  · intro c q member
    have other : q ≠ p := fun same => out c (same ▸ member)
    simpa [State.modifyTask, other] using h.home c q member
  · have same : weightOf (s.modifyTask p fun t => { t with cpu := cpu }) (queue c) =
        weightOf s (queue c) :=
      weightOf_other (out c) fun q other => by simp [State.modifyTask, other]
    rw [same]
    exact weighed c

theorem Holds.tick (h : Holds base s queue) (cfg : Config) (queued : p ∈ queue cpu) :
    ∃ new, Holds base (taskTickWrr cfg s cpu p) new ∧ ∀ c, (new c).Perm (queue c) := by
  obtain ⟨new, carries, order⟩ := h.listed.tick cfg queued
  exact ⟨new, h.carry carries, order⟩

end Law

/-! ## Runs -/

/-- A step of the class on some CPU, or of the core scheduler around it: `setTaskCpu` is
the middle of a move between CPUs, `switchTo` the context switch after a pick. -/
inductive Action where
  | enqueueTask (cpu : ℕ) (p : Pid) (flags : UInt32)
  | dequeueTask (cpu : ℕ) (p : Pid) (flags : UInt32)
  | requeueTask (cpu : ℕ) (p : Pid) (head : Bool)
  | yieldTask (cpu : ℕ)
  | taskTick (cpu : ℕ) (p : Pid)
  | pickNextTask (cpu : ℕ) (prev : Option Pid)
  | setWrrWeight (p : Pid) (weight : Int32) (now : UInt64)
  | setTaskCpu (p : Pid) (cpu : ℕ)
  | switchTo (cpu : ℕ) (next : Option Pid)
  | clock (cpu : ℕ) (now : UInt64)

def step (cfg : Config) (s : State) : Action → State
  | .enqueueTask cpu p flags => enqueueTaskWrr s cpu p flags
  | .dequeueTask cpu p flags => dequeueTaskWrr cfg s cpu p flags
  | .requeueTask cpu p head => requeueTaskWrr s cpu p head
  | .yieldTask cpu => yieldTaskWrr s cpu
  | .taskTick cpu p => taskTickWrr cfg s cpu p
  | .pickNextTask cpu prev => (pickNextTaskWrr cfg s cpu prev).1
  | .setWrrWeight p weight now => setWrrWeightLocked s p weight now
  | .setTaskCpu p cpu => s.modifyTask p fun t => { t with cpu := cpu }
  | .switchTo cpu next => s.modifyRq cpu fun rq => { rq with curr := next, needResched := false }
  | .clock cpu now => updateRqClock s cpu now

/-- How the core scheduler calls the class: a task is enqueued on its own CPU and only
when it is on no run list, and whatever else is done to a task is done while it is
queued on that CPU. -/
def Enabled (s : State) : Action → Prop
  | .enqueueTask cpu p _ => (s.task p).cpu = cpu ∧ ∀ c, ¬ Queued s c p
  | .dequeueTask cpu p _ | .requeueTask cpu p _ | .taskTick cpu p => Queued s cpu p
  | .yieldTask cpu => ∀ p ∈ (s.rq cpu).curr, Queued s cpu p
  | .setWrrWeight p _ _ => Queued s (s.task p).cpu p
  | .setTaskCpu p _ => ∀ c, ¬ Queued s c p
  | _ => True

def Conserved (base : ℕ → UInt32) (s : State) : Prop := ∃ queue, Holds base s queue

theorem Listed.queued_iff {base : ℕ → UInt32} {s : State} {queue : ℕ → List Pid}
    (h : Listed base s queue) (cpu : ℕ) (p : Pid) : Queued s cpu p ↔ p ∈ queue cpu := by
  constructor
  · rintro ⟨other, ring, member⟩
    rwa [(h.ring cpu).unique ring]
  · exact fun member => ⟨queue cpu, h.ring cpu, member⟩

theorem Holds.queued_iff {base : ℕ → UInt32} {s : State} {queue : ℕ → List Pid}
    (h : Holds base s queue) (cpu : ℕ) (p : Pid) : Queued s cpu p ↔ p ∈ queue cpu :=
  h.listed.queued_iff cpu p

def Arrives (a : Action) (cpu : ℕ) (p : Pid) : Prop := ∃ flags, a = .enqueueTask cpu p flags

theorem Listed.step {base : ℕ → UInt32} {s : State} {queue : ℕ → List Pid} (cfg : Config)
    (h : Listed base s queue) {a : Action} (enabled : Enabled s a) :
    ∃ new, Carries base s queue (step cfg s a) new ∧
      ∀ c, ∀ q ∈ new c, q ∈ queue c ∨ Arrives a c q := by
  have inside := h.queued_iff
  have unmoved : ∀ c, ∀ q ∈ queue c, q ∈ queue c ∨ Arrives a c q := fun _ _ member => .inl member
  cases a with
  | enqueueTask cpu p flags =>
    have out : ∀ c, p ∉ queue c := fun c member => enabled.2 c ((inside c p).mpr member)
    refine ⟨_, h.enqueue flags out enabled.1, fun c q member => ?_⟩
    rcases (mem_enqueued flags p q c).mp member with old | ⟨rfl, rfl⟩
    · exact .inl old
    · exact .inr ⟨flags, rfl⟩
  | dequeueTask cpu p flags =>
    obtain ⟨l, r, split⟩ := List.append_of_mem ((inside cpu p).mp enabled)
    exact ⟨_, h.dequeue cfg flags split, fun c q member => .inl ((h.mem_dequeued split c q).mp member).1⟩
  | requeueTask cpu p head =>
    obtain ⟨l, r, split⟩ := List.append_of_mem ((inside cpu p).mp enabled)
    exact ⟨_, h.requeue head split, fun c q member =>
      .inl ((requeued_perm head split c).mem_iff.mp member)⟩
  | yieldTask cpu =>
    simp only [WrrConservation.step, yieldTaskWrr]
    cases current : (s.rq cpu).curr with
    | none => exact ⟨queue, h.same (SameQueues.refl s), unmoved⟩
    | some p =>
      obtain ⟨l, r, split⟩ := List.append_of_mem ((inside cpu p).mp (enabled p current))
      exact ⟨_, h.requeue false split, fun c q member =>
        .inl ((requeued_perm false split c).mem_iff.mp member)⟩
  | taskTick cpu p =>
    obtain ⟨new, carries, order⟩ := h.tick cfg ((inside cpu p).mp enabled)
    exact ⟨new, carries, fun c q member => .inl ((order c).mem_iff.mp member)⟩
  | pickNextTask cpu prev =>
    exact ⟨queue, h.same (accounted_pickNextTaskWrr cfg s cpu prev).sameQueues, unmoved⟩
  | setWrrWeight p weight now =>
    have change := reweighed_setWrrWeightLocked s p weight now
    exact ⟨queue, ⟨h.reweigh change, fun weighed =>
      weighed.reweigh h change ((inside _ p).mp enabled)⟩, unmoved⟩
  | setTaskCpu p cpu =>
    have out : ∀ c, p ∉ queue c := fun c member => enabled c ((inside c p).mpr member)
    exact ⟨queue, h.setTaskCpu cpu out, unmoved⟩
  | switchTo cpu next =>
    have same := sameQueues_modifyRq s cpu (fun rq => { rq with curr := next, needResched := false })
      rfl rfl
    exact ⟨queue, h.same same, unmoved⟩
  | clock cpu now =>
    have same := sameQueues_modifyRq s cpu (fun rq => { rq with clockTask := now }) rfl rfl
    exact ⟨queue, h.same same, unmoved⟩

theorem conserved_step (cfg : Config) (base : ℕ → UInt32) (s : State) (a : Action)
    (enabled : Enabled s a) (conserved : Conserved base s) : Conserved base (step cfg s a) := by
  obtain ⟨queue, h⟩ := conserved
  obtain ⟨new, carries, _⟩ := h.listed.step cfg enabled
  exact ⟨new, h.carry carries⟩

theorem holds_init (s : State) (start : ∀ cpu, initWrrRq s cpu = s) :
    Holds (fun cpu => (s.rq cpu).nrRunning) s fun _ => [] := by
  have links : ∀ cpu, s.links.initListHead (.head cpu) = s.links := fun cpu =>
    congrArg State.links (start cpu)
  have wrr : ∀ cpu, (s.rq cpu).wrr = ⟨0, 0⟩ := by
    intro cpu
    have same := congrArg (fun t => (State.rq t cpu).wrr) (start cpu)
    simpa [initWrrRq, State.modifyRq] using same.symm
  constructor
  · intro cpu
    have ring := Ring.init s.links (.head cpu)
    rwa [links] at ring
  · simp
  · simp
  · simp [wrr]
  · simp [wrr, weightOf]
  · simp [wrr]

theorem always_conserved (cfg : Config) (s : State) (start : ∀ cpu, initWrrRq s cpu = s)
    (acts : List Action) (h : Along (step cfg) Enabled s acts) :
    Always (step cfg) (Conserved fun cpu => (s.rq cpu).nrRunning) s acts :=
  always_of_invariant _ (conserved_step cfg _) (fun _ conserved => conserved)
    ⟨_, holds_init s start⟩ h

def quiet : State where
  links := ⟨id, id⟩
  task := fun _ => ⟨⟨0, 0, 0⟩, ⟨10, 100, 0⟩, .wrr, .wrr, 0, rlimInfinity, 0⟩
  rq := fun _ => ⟨0, ⟨0, 0⟩, none, 0, false⟩
  overload := false

theorem initWrrRq_quiet (cpu : ℕ) : initWrrRq quiet cpu = quiet := by
  have rq : Function.update quiet.rq cpu (quiet.rq cpu) = quiet.rq := Function.update_eq_self _ _
  have next : Function.update quiet.links.next (.head cpu) (.head cpu) = quiet.links.next :=
    Function.update_eq_self _ _
  have prev : Function.update quiet.links.prev (.head cpu) (.head cpu) = quiet.links.prev :=
    Function.update_eq_self _ _
  simp only [initWrrRq, State.modifyRq, Links.initListHead, Links.setNext, Links.setPrev, next, prev]
  exact congrArg (fun rq => ({ quiet with rq := rq } : State)) rq

theorem always_conserved_weight_change :
    Along (step ⟨10, 1000, true, true⟩) Enabled quiet
        [.enqueueTask 0 (.nth 0) 1, .setWrrWeight (.nth 0) 3 7, .dequeueTask 0 (.nth 0) 0] ∧
      Always (step ⟨10, 1000, true, true⟩) (Conserved fun cpu => (quiet.rq cpu).nrRunning) quiet
        [.enqueueTask 0 (.nth 0) 1, .setWrrWeight (.nth 0) 3 7, .dequeueTask 0 (.nth 0) 0] := by
  have start := holds_init quiet initWrrRq_quiet
  have added : Holds _ (enqueueTaskWrr quiet 0 (.nth 0) 1) _ := start.enqueue 1 (by simp) rfl
  have queued : Pid.nth 0 ∈ Function.update (fun _ : ℕ => []) 0 (enqueued 1 (.nth 0) []) 0 := by
    decide
  have weighed := added.setWeight (p := .nth 0) 3 7 queued
  have enabled : Along (step ⟨10, 1000, true, true⟩) Enabled quiet
      [.enqueueTask 0 (.nth 0) 1, .setWrrWeight (.nth 0) 3 7, .dequeueTask 0 (.nth 0) 0] := by
    refine ⟨⟨rfl, fun c => ?_⟩, (added.queued_iff 0 _).mpr queued, (weighed.queued_iff 0 _).mpr queued,
      trivial⟩
    rw [start.queued_iff]
    simp
  exact ⟨enabled, always_conserved _ quiet initWrrRq_quiet _ enabled⟩

end UnixSystems.WrrConservation
