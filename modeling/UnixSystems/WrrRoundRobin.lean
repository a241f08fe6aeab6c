import UnixSystems.WrrConservation

/-! The order in which a CPU serves its run list when nothing but timer ticks happens.
A tick is `scheduler_tick` followed, when a reschedule is due, by the pick and the
context switch. The clock values are arbitrary: the order does not depend on them. -/
namespace UnixSystems.WrrRoundRobin
open GuardedRuns CircularList WrrModel WrrConservation

/-- The run list holds all the tasks of the CPU, so a failed pick would leave it idle. -/
def schedule (cfg : Config) (cpu : ℕ) (s : State) (prev : Pid) : State :=
  let (s, next) := pickNextTaskWrr cfg s cpu (some prev)
  s.modifyRq cpu fun rq => { rq with curr := next, needResched := false }

def tick (cfg : Config) (cpu : ℕ) (s : State) (now : UInt64) : State :=
  let s := updateRqClock s cpu now
  match (s.rq cpu).curr with
  | none => s
  | some curr =>
    let s := taskTickWrr cfg s cpu curr
    if (s.rq cpu).needResched then schedule cfg cpu s curr else s

def currents (cfg : Config) (cpu : ℕ) : State → List UInt64 → List (Option Pid)
  | _, [] => []
  | s, now :: nows => (s.rq cpu).curr :: currents cfg cpu (tick cfg cpu s now) nows

theorem currents_append (cfg : Config) (cpu : ℕ) (s : State) (nows later : List UInt64) :
    currents cfg cpu s (nows ++ later) =
      currents cfg cpu s nows ++ currents cfg cpu (run (tick cfg cpu) s nows) later := by
  induction nows generalizing s with
  | nil => rfl
  | cons now nows ih => simp only [List.cons_append, currents, ih, run_cons]

theorem exists_split {n : ℕ} {nows : List UInt64} (le : n ≤ nows.length) :
    ∃ front back, nows = front ++ back ∧ front.length = n :=
  ⟨nows.take n, nows.drop n, (List.take_append_drop n nows).symm, List.length_take_of_le le⟩

theorem currents_length (cfg : Config) (cpu : ℕ) (s : State) (nows : List UInt64) :
    (currents cfg cpu s nows).length = nows.length := by
  induction nows generalizing s with
  | nil => rfl
  | cons now nows ih => simp only [currents, List.length_cons, ih]

/-! ## Steps that leave turns alone -/

/-- The run lists, and what decides how long a task on them runs, are the same. -/
structure SameTurns (s t : State) : Prop where
  links : t.links = s.links
  policy : ∀ p, (t.task p).policy = (s.task p).policy
  weight : ∀ p, (t.task p).wrr.weight = (s.task p).wrr.weight
  slice : ∀ p, (t.task p).wrr.timeSlice = (s.task p).wrr.timeSlice
  wrr : ∀ cpu, (t.rq cpu).wrr = (s.rq cpu).wrr

theorem SameTurns.trans {s t u : State} (first : SameTurns s t) (second : SameTurns t u) :
    SameTurns s u where
  links := second.links.trans first.links
  policy := fun p => (second.policy p).trans (first.policy p)
  weight := fun p => (second.weight p).trans (first.weight p)
  slice := fun p => (second.slice p).trans (first.slice p)
  wrr := fun cpu => (second.wrr cpu).trans (first.wrr cpu)

theorem sameTurns_modifyRq (s : State) (cpu : ℕ) (f : Rq → Rq)
    (wrr : (f (s.rq cpu)).wrr = (s.rq cpu).wrr) : SameTurns s (s.modifyRq cpu f) := by
  refine ⟨rfl, fun _ => rfl, fun _ => rfl, fun _ => rfl, fun c => ?_⟩
  by_cases same : c = cpu <;> simp [State.modifyRq, same, wrr]

theorem sameTurns_of_accounted {s t : State} (same : Accounted s t) : SameTurns s t where
  links := same.links
  policy := fun p => congrArg (·.1) (same.task p)
  weight := same.sameQueues.weight
  slice := fun p => congrArg (·.2.2.2.2) (same.task p)
  wrr := same.sameQueues.wrr

/-! ## Run lists being served -/

def sliceOf (s : State) (p : Pid) : ℕ := (s.task p).wrr.timeSlice.toNat

def setSlice (s : State) (p : Pid) (slice : UInt32) : State :=
  s.modifyTask p fun t => { t with wrr := { t.wrr with timeSlice := slice } }

theorem sliceOf_setSlice (s : State) (p q : Pid) (slice : UInt32) :
    sliceOf (setSlice s p slice) q = Function.update (sliceOf s) p slice.toNat q := by
  by_cases same : q = p <;> simp [sliceOf, setSlice, State.modifyTask, same]

theorem weight_setSlice (s : State) (p q : Pid) (slice : UInt32) :
    ((setSlice s p slice).task q).wrr.weight = (s.task q).wrr.weight := by
  by_cases same : q = p <;> simp [setSlice, State.modifyTask, same]

theorem sliceExpired_setSlice (cfg : Config) (s : State) (cpu : ℕ) (p : Pid) (slice : UInt32) :
    sliceExpired cfg (setSlice s p slice) cpu p =
      if s.links.prev (.entity p) ≠ s.links.next (.entity p) then
        reschedCurr (requeueTaskWrr (setSlice s p ((s.task p).wrr.weight * cfg.timeslice)) cpu p
          false) cpu
      else setSlice s p ((s.task p).wrr.weight * cfg.timeslice) := by
  simp [sliceExpired, setSlice, State.modifyTask]

def quantum (cfg : Config) (s : State) (p : Pid) : ℕ :=
  (s.task p).wrr.weight.toNat * cfg.timeslice.toNat

/-- The run list of the CPU. Every task on it has time left, and will have time after a
refill, which does not wrap. -/
structure Loaded (cfg : Config) (cpu : ℕ) (s : State) (ts : List Pid) : Prop where
  queue : HasQueue s cpu ts
  count : (s.rq cpu).wrr.nrRunning.toNat = ts.length
  policy : ∀ p ∈ ts, (s.task p).policy = .wrr
  slice : ∀ p ∈ ts, 1 ≤ sliceOf s p
  weight : ∀ p ∈ ts, 1 ≤ (s.task p).wrr.weight.toNat
  timeslice : 1 ≤ cfg.timeslice.toNat
  fits : ∀ p ∈ ts, quantum cfg s p < 2 ^ 32

structure Serving (cfg : Config) (cpu : ℕ) (s : State) (ts : List Pid) : Prop
    extends Loaded cfg cpu s ts where
  curr : (s.rq cpu).curr = ts.head?

section Load

variable {cfg : Config} {cpu : ℕ} {s t : State} {ts rest : List Pid} {p : Pid}

theorem SameTurns.sliceOf_eq (same : SameTurns s t) (p : Pid) : sliceOf t p = sliceOf s p := by
  rw [sliceOf, sliceOf, same.slice]

theorem SameTurns.quantum_eq (same : SameTurns s t) (cfg : Config) (p : Pid) :
    quantum cfg t p = quantum cfg s p := by
  rw [quantum, quantum, same.weight]

theorem Loaded.quantum_pos (loaded : Loaded cfg cpu s ts) (member : p ∈ ts) : 1 ≤ quantum cfg s p :=
  Nat.mul_pos (loaded.weight p member) loaded.timeslice

theorem Loaded.toNat_refill (loaded : Loaded cfg cpu s ts) (member : p ∈ ts) :
    ((s.task p).wrr.weight * cfg.timeslice).toNat = quantum cfg s p := by
  rw [UInt32.toNat_mul]
  exact Nat.mod_eq_of_lt (loaded.fits p member)

theorem Loaded.same (loaded : Loaded cfg cpu s ts) (same : SameTurns s t) :
    Loaded cfg cpu t ts := by
  constructor
  · simpa only [HasQueue, same.links] using loaded.queue
  · simpa only [same.wrr] using loaded.count
  · simpa only [same.policy] using loaded.policy
  · simpa only [same.sliceOf_eq] using loaded.slice
  · simpa only [same.weight] using loaded.weight
  · exact loaded.timeslice
  · simpa only [same.quantum_eq] using loaded.fits

theorem Loaded.refill (loaded : Loaded cfg cpu s ts) (slice : UInt32) (pos : 1 ≤ slice.toNat) :
    Loaded cfg cpu (setSlice s p slice) ts := by
  constructor
  · exact loaded.queue
  · exact loaded.count
  · intro q member
    have policy := loaded.policy q member
    by_cases same : q = p <;> simp_all [setSlice, State.modifyTask]
  · intro q member
    have left := loaded.slice q member
    rw [sliceOf_setSlice]
    by_cases same : q = p <;> simp_all
  · intro q member
    rw [weight_setSlice]
    exact loaded.weight q member
  · exact loaded.timeslice
  · intro q member
    rw [quantum, weight_setSlice]
    exact loaded.fits q member

theorem Loaded.rotate (loaded : Loaded cfg cpu s (p :: rest)) :
    Loaded cfg cpu (requeueTaskWrr s cpu p false) (rest ++ [p]) := by
  have order : ∀ q, q ∈ rest ++ [p] ↔ q ∈ p :: rest := by
    intro q
    simp [or_comm]
  have ring : Ring s.links (.head cpu) ([] ++ .entity p :: rest.map .entity) := loaded.queue
  constructor
  · simpa [HasQueue, requeueTaskWrr] using ring.listMoveTail
  · simpa [requeueTaskWrr] using loaded.count
  · intro q member
    exact loaded.policy q ((order q).mp member)
  · intro q member
    exact loaded.slice q ((order q).mp member)
  · intro q member
    exact loaded.weight q ((order q).mp member)
  · exact loaded.timeslice
  · intro q member
    exact loaded.fits q ((order q).mp member)

theorem Loaded.pick (loaded : Loaded cfg cpu s ts) (nonempty : ts ≠ []) (prev : Pid) :
    SameTurns s (schedule cfg cpu s prev) ∧ ((schedule cfg cpu s prev).rq cpu).curr = ts.head? := by
  cases ts with
  | nil => exact absurd rfl nonempty
  | cons first rest =>
    have some : (s.rq cpu).wrr.nrRunning ≠ 0 := by
      intro zero
      have count := loaded.count
      simp [zero] at count
    have picked := pickNextTaskWrr_head cfg loaded.queue some (.some prev)
    have same := sameTurns_of_accounted (accounted_pickNextTaskWrr cfg s cpu (.some prev))
    constructor
    · exact same.trans (sameTurns_modifyRq _ cpu (fun rq => { rq with
        curr := (pickNextTaskWrr cfg s cpu (.some prev)).2, needResched := false }) rfl)
    · simp [schedule, picked, State.modifyRq]

end Load

/-! ## Ticks -/

/-- The run list is served from `t` on with these slices; no weight has changed since `s`. -/
structure Becomes (cfg : Config) (cpu : ℕ) (s t : State) (ts : List Pid) (slice : Pid → ℕ) :
    Prop where
  serving : Serving cfg cpu t ts
  slice : ∀ p, sliceOf t p = slice p
  weight : ∀ p, (t.task p).wrr.weight = (s.task p).wrr.weight

section Tick

variable {cfg : Config} {cpu : ℕ} {s : State} {rest : List Pid} {p : Pid}

theorem exists_taskTickWrr_eq (cfg : Config) (cpu : ℕ) (s : State) (p : Pid) :
    ∃ t, Accounted s t ∧ taskTickWrr cfg s cpu p =
      if (s.task p).policy ≠ .wrr then t
      else if (s.task p).wrr.timeSlice - 1 ≠ 0 then setSlice t p ((s.task p).wrr.timeSlice - 1)
      else sliceExpired cfg (setSlice t p ((s.task p).wrr.timeSlice - 1)) cpu p := by
  have accounted := (accounted_updateCurrWrr cfg s cpu).trans (accounted_watchdog cfg _ p)
  have same := sameTurns_of_accounted accounted
  refine ⟨_, accounted, ?_⟩
  have policy := same.policy p
  have slice := same.slice p
  simp [taskTickWrr, setSlice, State.modifyTask, policy, slice]

theorem taskTickWrr_eq (cfg : Config) (cpu : ℕ) (s : State) (p : Pid)
    (policy : (s.task p).policy = .wrr) :
    ∃ t, SameTurns s t ∧ t.rq = s.rq ∧ taskTickWrr cfg s cpu p =
      if (s.task p).wrr.timeSlice - 1 ≠ 0 then setSlice t p ((s.task p).wrr.timeSlice - 1)
      else sliceExpired cfg (setSlice t p ((s.task p).wrr.timeSlice - 1)) cpu p := by
  obtain ⟨t, accounted, ticked⟩ := exists_taskTickWrr_eq cfg cpu s p
  rw [if_neg (not_not.mpr policy)] at ticked
  exact ⟨t, sameTurns_of_accounted accounted, accounted.rq, ticked⟩

theorem Loaded.finish {t : State} {ts : List Pid} (loaded : Loaded cfg cpu t ts) (nonempty : ts ≠ [])
    (prev : Pid) (curr : (t.rq cpu).needResched = false → (t.rq cpu).curr = ts.head?) :
    Becomes cfg cpu t (if (t.rq cpu).needResched then schedule cfg cpu t prev else t) ts
      (sliceOf t) := by
  cases due : (t.rq cpu).needResched with
  | false => exact ⟨⟨loaded, curr due⟩, fun _ => rfl, fun _ => rfl⟩
  | true =>
    obtain ⟨same, head⟩ := loaded.pick nonempty prev
    exact ⟨⟨loaded.same same, head⟩, same.sliceOf_eq, same.weight⟩

theorem Serving.tick_eq (serving : Serving cfg cpu s (p :: rest)) (now : UInt64) :
    ∃ t, SameTurns s t ∧ t.rq = (updateRqClock s cpu now).rq ∧ tick cfg cpu s now =
      let u := if (s.task p).wrr.timeSlice - 1 ≠ 0 then setSlice t p ((s.task p).wrr.timeSlice - 1)
        else sliceExpired cfg (setSlice t p ((s.task p).wrr.timeSlice - 1)) cpu p
      if (u.rq cpu).needResched then schedule cfg cpu u p else u := by
  have clock := sameTurns_modifyRq s cpu (fun rq => { rq with clockTask := now }) rfl
  have policy : ((updateRqClock s cpu now).task p).policy = .wrr := serving.policy p (by simp)
  obtain ⟨t, same, rq, ticked⟩ := taskTickWrr_eq cfg cpu (updateRqClock s cpu now) p policy
  refine ⟨t, clock.trans same, rq, ?_⟩
  have curr : ((updateRqClock s cpu now).rq cpu).curr = some p := by
    simpa [updateRqClock, State.modifyRq] using serving.curr
  unfold tick
  simp only [curr, ticked]
  rfl

theorem Serving.tick_running (serving : Serving cfg cpu s (p :: rest)) (now : UInt64)
    (more : 2 ≤ sliceOf s p) :
    Becomes cfg cpu s (tick cfg cpu s now) (p :: rest)
      (Function.update (sliceOf s) p (sliceOf s p - 1)) := by
  obtain ⟨t, same, rq, ticked⟩ := serving.tick_eq now
  have left : ((s.task p).wrr.timeSlice - 1).toNat = sliceOf s p - 1 := by
    refine UInt32.toNat_sub_of_le _ _ ?_
    rw [UInt32.le_iff_toNat_le, UInt32.toNat_one]
    exact le_trans one_le_two more
  have some : (s.task p).wrr.timeSlice - 1 ≠ 0 := by
    intro zero
    rw [zero, UInt32.toNat_zero] at left
    omega
  simp only [if_pos some] at ticked
  have loaded : Loaded cfg cpu (setSlice t p ((s.task p).wrr.timeSlice - 1)) (p :: rest) :=
    (serving.toLoaded.same same).refill _ (by omega)
  have curr : ((setSlice t p ((s.task p).wrr.timeSlice - 1)).rq cpu).curr = (p :: rest).head? := by
    simpa [setSlice, State.modifyTask, rq, updateRqClock, State.modifyRq] using serving.curr
  have done := loaded.finish (by simp) p fun _ => curr
  rw [ticked]
  refine ⟨done.serving, fun q => ?_, fun q => ?_⟩
  · rw [done.slice, sliceOf_setSlice, left, funext same.sliceOf_eq]
  · rw [done.weight, weight_setSlice, same.weight]

theorem Serving.tick_expires (serving : Serving cfg cpu s (p :: rest)) (now : UInt64)
    (last : sliceOf s p = 1) :
    Becomes cfg cpu s (tick cfg cpu s now) (rest ++ [p])
      (Function.update (sliceOf s) p (quantum cfg s p)) := by
  obtain ⟨t, same, rq, ticked⟩ := serving.tick_eq now
  have zero : (s.task p).wrr.timeSlice - 1 = 0 := by
    have one : (s.task p).wrr.timeSlice = 1 := UInt32.toNat_inj.mp last
    rw [one]
    rfl
  have member : p ∈ p :: rest := by simp
  have refill := serving.toNat_refill member
  simp only [zero, ne_eq, not_true_eq_false, if_false] at ticked
  have loaded : Loaded cfg cpu (setSlice t p ((s.task p).wrr.weight * cfg.timeslice)) (p :: rest) :=
    (serving.toLoaded.same same).refill _ (by rw [refill]; exact serving.quantum_pos member)
  have ring : Ring t.links (.head cpu) ([] ++ .entity p :: rest.map .entity) := by
    rw [same.links]
    exact serving.queue
  have alone := ring.prev_eq_next_iff
  simp only [List.map_eq_nil_iff, true_and] at alone
  suffices done : Becomes cfg cpu (setSlice t p ((s.task p).wrr.weight * cfg.timeslice))
      (tick cfg cpu s now) (rest ++ [p])
      (sliceOf (setSlice t p ((s.task p).wrr.weight * cfg.timeslice))) by
    refine ⟨done.serving, fun q => ?_, fun q => ?_⟩
    · rw [done.slice, sliceOf_setSlice, refill, funext same.sliceOf_eq]
    · rw [done.weight, weight_setSlice, same.weight]
  rw [ticked, sliceExpired_setSlice, same.weight]
  cases rest with
  | nil =>
    have curr : ((setSlice t p ((s.task p).wrr.weight * cfg.timeslice)).rq cpu).curr = some p := by
      simpa [setSlice, State.modifyTask, rq, updateRqClock, State.modifyRq] using serving.curr
    simp only [alone, not_true_eq_false, if_false, ne_eq, List.nil_append]
    exact loaded.finish (by simp) p fun _ => curr
  | cons q rest =>
    have several : t.links.prev (.entity p) ≠ t.links.next (.entity p) := by simp [alone]
    rw [if_pos several]
    have rotated := loaded.rotate.same (sameTurns_modifyRq _ cpu
      (fun rq => { rq with needResched := true }) rfl)
    have done := rotated.finish (by simp) p fun due => by simp [State.modifyRq] at due
    exact ⟨done.serving, done.slice, done.weight⟩

/-! ## Turns and rounds -/

theorem Serving.turn (serving : Serving cfg cpu s (p :: rest)) (nows : List UInt64)
    (length : nows.length = sliceOf s p) :
    currents cfg cpu s nows = List.replicate (sliceOf s p) (some p) ∧
      Becomes cfg cpu s (run (tick cfg cpu) s nows) (rest ++ [p])
        (Function.update (sliceOf s) p (quantum cfg s p)) := by
  have left := serving.slice p (by simp)
  induction nows generalizing s with
  | nil =>
    rw [← length, List.length_nil] at left
    omega
  | cons now nows ih =>
    have curr : (s.rq cpu).curr = some p := serving.curr
    rw [List.length_cons] at length
    rw [← length, currents, curr, run_cons, List.replicate_succ]
    by_cases last : sliceOf s p = 1
    · have none : nows = [] := by
        rw [← List.length_eq_zero_iff]
        omega
      subst none
      exact ⟨rfl, serving.tick_expires now last⟩
    · have step := serving.tick_running now (by omega)
      have slice : sliceOf (tick cfg cpu s now) p = nows.length := by
        rw [step.slice, Function.update_self]
        omega
      obtain ⟨turns, done⟩ := ih step.serving slice.symm (step.serving.slice p (by simp))
      rw [slice] at turns
      rw [turns]
      refine ⟨rfl, done.serving, fun q => ?_, fun q => ?_⟩
      · rw [done.slice, funext step.slice, Function.update_idem, quantum, step.weight, quantum]
      · rw [done.weight, step.weight]

/-- A run of turns, each as long as the slice of its task. -/
def turns (slice : Pid → ℕ) (ts : List Pid) : List (Option Pid) :=
  ts.flatMap fun p => List.replicate (slice p) (some p)

theorem turns_cons (slice : Pid → ℕ) (p : Pid) (ts : List Pid) :
    turns slice (p :: ts) = List.replicate (slice p) (some p) ++ turns slice ts := by
  simp [turns]

theorem turns_congr {slice other : Pid → ℕ} {ts : List Pid} (same : ∀ p ∈ ts, slice p = other p) :
    turns slice ts = turns other ts := by
  induction ts with
  | nil => rfl
  | cons p ts ih =>
    rw [turns_cons, turns_cons, same p (by simp), ih fun q member => same q (by simp [member])]

theorem Serving.segment (todo done : List Pid) (serving : Serving cfg cpu s (todo ++ done))
    (nows : List UInt64) (length : nows.length = (todo.map (sliceOf s)).sum) :
    currents cfg cpu s nows = turns (sliceOf s) todo ∧
      Becomes cfg cpu s (run (tick cfg cpu) s nows) (done ++ todo)
        (fun p => if p ∈ todo then quantum cfg s p else sliceOf s p) := by
  induction todo generalizing s done nows with
  | nil =>
    have none : nows = [] := by simpa using length
    subst none
    simp only [List.nil_append] at serving
    simpa [currents, turns] using Becomes.mk serving (fun p => rfl) (fun p => rfl)
  | cons p todo ih =>
    have nodup := serving.queue.nodup
    simp only [List.cons_append, List.nodup_cons, List.mem_append, not_or] at nodup
    have absent : ∀ q ∈ todo, q ≠ p := by
      rintro q member rfl
      exact nodup.1.1 member
    rw [List.map_cons, List.sum_cons] at length
    obtain ⟨front, back, rfl, frontLength⟩ := exists_split (by omega : sliceOf s p ≤ nows.length)
    obtain ⟨turn, first⟩ := serving.turn front frontLength
    set t := run (tick cfg cpu) s front
    have slices : ∀ q ∈ todo, sliceOf t q = sliceOf s q := by
      intro q member
      rw [first.slice, Function.update_of_ne (absent q member)]
    have serving' : Serving cfg cpu t (todo ++ (done ++ [p])) := by
      rw [← List.append_assoc]
      exact first.serving
    have backLength : back.length = (todo.map (sliceOf t)).sum := by
      rw [List.map_congr_left slices]
      rw [List.length_append] at length
      omega
    obtain ⟨later, done'⟩ := ih (done ++ [p]) serving' back backLength
    rw [currents_append, run_append, turn, later, turns_cons, turns_congr slices]
    refine ⟨rfl, by simpa using done'.serving, fun q => ?_, fun q => ?_⟩
    · have quanta : quantum cfg t q = quantum cfg s q := by
        rw [quantum, quantum, first.weight]
      rw [done'.slice, quanta, first.slice]
      by_cases same : q = p
      · simp [same, nodup.1.1]
      · simp [same]
    · rw [done'.weight, first.weight]

theorem Serving.round {ts : List Pid} (serving : Serving cfg cpu s ts) (nows : List UInt64)
    (length : nows.length = (ts.map (sliceOf s)).sum) :
    currents cfg cpu s nows = turns (sliceOf s) ts ∧
      Serving cfg cpu (run (tick cfg cpu) s nows) ts ∧
      (∀ p ∈ ts, sliceOf (run (tick cfg cpu) s nows) p = quantum cfg s p) ∧
      ∀ p, quantum cfg (run (tick cfg cpu) s nows) p = quantum cfg s p := by
  have all : Serving cfg cpu s (ts ++ []) := by simpa using serving
  obtain ⟨order, done⟩ := Serving.segment ts [] all nows length
  refine ⟨order, by simpa using done.serving, fun p member => ?_, fun p => ?_⟩
  · rw [done.slice, if_pos member]
  · rw [quantum, quantum, done.weight]

theorem Serving.rounds {ts : List Pid} (serving : Serving cfg cpu s ts) (n : ℕ) (nows : List UInt64)
    (length : nows.length = (ts.map (sliceOf s)).sum + n * (ts.map (quantum cfg s)).sum) :
    currents cfg cpu s nows = turns (sliceOf s) ts ++
        (List.replicate n (turns (quantum cfg s) ts)).flatten ∧
      Serving cfg cpu (run (tick cfg cpu) s nows) ts ∧
      ∀ p ∈ ts, sliceOf (run (tick cfg cpu) s nows) p = quantum cfg s p := by
  induction n generalizing s nows with
  | zero =>
    obtain ⟨order, serving', refilled, _⟩ := serving.round nows (by simpa using length)
    exact ⟨by simpa using order, serving', refilled⟩
  | succ n ih =>
    obtain ⟨front, back, rfl, frontLength⟩ :=
      exists_split (by omega : (ts.map (sliceOf s)).sum ≤ nows.length)
    obtain ⟨order, serving', refilled, quanta⟩ := serving.round front frontLength
    set t := run (tick cfg cpu) s front
    have backLength : back.length = (ts.map (sliceOf t)).sum + n * (ts.map (quantum cfg t)).sum := by
      rw [List.map_congr_left refilled, funext quanta]
      rw [List.length_append, Nat.add_mul, Nat.one_mul] at length
      omega
    obtain ⟨later, serving'', slices⟩ := ih serving' back backLength
    rw [turns_congr refilled, funext quanta] at later
    rw [currents_append, run_append, order, later, List.replicate_succ, List.flatten_cons]
    refine ⟨rfl, serving'', fun p member => ?_⟩
    rw [slices p member, quanta]

end Tick

/-- The tasks run in the order of the run list: one round with the slices they have, then
rounds in which each runs for its weight times the time slice. After a whole number of
such rounds the run list and all slices are back where they were. -/
theorem serves_in_turn (cfg : Config) (cpu : ℕ) (s : State) (ts : List Pid)
    (serving : Serving cfg cpu s ts) (n : ℕ) (nows : List UInt64) :
    (nows.length ≤ (ts.map (sliceOf s)).sum + n * (weightOf s ts * cfg.timeslice.toNat) →
      currents cfg cpu s nows = (turns (sliceOf s) ts ++
        (List.replicate n (turns (quantum cfg s) ts)).flatten).take nows.length) ∧
    (nows.length = (ts.map (sliceOf s)).sum + n * (weightOf s ts * cfg.timeslice.toNat) →
      HasQueue (run (tick cfg cpu) s nows) cpu ts ∧
        ((run (tick cfg cpu) s nows).rq cpu).curr = ts.head? ∧
        ∀ p ∈ ts, sliceOf (run (tick cfg cpu) s nows) p = quantum cfg s p) := by
  have cycle : weightOf s ts * cfg.timeslice.toNat = (ts.map (quantum cfg s)).sum := by
    rw [weightOf, ← List.sum_map_mul_right]
    rfl
  rw [cycle]
  constructor
  · -- a shorter run is the beginning of one that ends with a round
    intro short
    set total := (ts.map (sliceOf s)).sum + n * (ts.map (quantum cfg s)).sum with htotal
    have length : (nows ++ List.replicate (total - nows.length) 0).length = total := by
      rw [List.length_append, List.length_replicate]
      omega
    have order := (serving.rounds n _ length).1
    rw [currents_append] at order
    rw [← order]
    exact (List.take_left' (currents_length cfg cpu s nows)).symm
  · intro length
    obtain ⟨_, serving', slices⟩ := serving.rounds n nows length
    exact ⟨serving'.queue, serving'.curr, slices⟩

def two : State :=
  let task : Pid → Task := fun p =>
    ⟨⟨0, 0, 0⟩, ⟨if p = .nth 0 then 1 else 2, 1, 0⟩, .wrr, .wrr, 0, rlimInfinity, 0⟩
  let s := enqueueTaskWrr { quiet with task := task } 0 (.nth 0) 0
  let s := enqueueTaskWrr s 0 (.nth 1) 0
  s.modifyRq 0 fun rq => { rq with curr := some (.nth 0) }

theorem two_serving : Serving ⟨1, 1000, true, true⟩ 0 two [.nth 0, .nth 1] := by
  have start : HasQueue { quiet with task := two.task } 0 [] := ⟨⟨rfl, rfl⟩, by simp⟩
  have first := (hasQueue_enqueue (p := .nth 0) 0 start (by simp)).1
  have second := (hasQueue_enqueue (p := .nth 1) 0 first (by decide)).1
  refine ⟨⟨second, rfl, ?_, ?_, ?_, ?_, ?_⟩, rfl⟩ <;> decide

theorem serves_in_turn_two :
    Serving ⟨1, 1000, true, true⟩ 0 two [.nth 0, .nth 1] ∧
      currents ⟨1, 1000, true, true⟩ 0 two [5, 6, 7, 8, 9] =
        [some (.nth 0), some (.nth 1), some (.nth 0), some (.nth 1), some (.nth 1)] :=
  ⟨two_serving, (serves_in_turn _ 0 two _ two_serving 1 [5, 6, 7, 8, 9]).1 (by decide)⟩

end UnixSystems.WrrRoundRobin
