import UnixSystems.WrrConservation
import UnixSystems.WrrPlacement

/-! Whether `findLowestWeightCpu` is right about the load: `totalWeight` is the sum of the
weights on a run list modulo 2^32, and the greatest total is taken for "none found yet". -/
namespace UnixSystems.WrrLoad
open GuardedRuns WrrModel WrrConservation FirstMinimum WrrPlacement

def FindsLeastLoaded (online : Cpumask) (s : State) : Prop :=
  ∃ queue : ℕ → List Pid, (∀ c, HasQueue s c (queue c)) ∧
    ∃ cpu ∈ online.cpus, findLowestWeightCpu s online = cpu ∧
      ∀ c ∈ online.cpus, weightOf s (queue cpu) ≤ weightOf s (queue c)

def Fits (s : State) : Action → Prop
  | .enqueueTask cpu p _ => ∀ queue, HasQueue s cpu queue →
      (s.task p).wrr.weight.toNat + weightOf s queue < greatestWeight
  | .setWrrWeight p weight _ => ∀ queue, HasQueue s (s.task p).cpu queue →
      weight.toUInt32.toNat + weightOf s (queue.erase p) < greatestWeight
  | _ => True

structure Exact (base : ℕ → UInt32) (s : State) (queue : ℕ → List Pid) : Prop
    extends Holds base s queue where
  fits : ∀ c, weightOf s (queue c) < greatestWeight

section Step

variable {base : ℕ → UInt32} {s t : State} {queue : ℕ → List Pid}

theorem Exact.weightOn_eq (h : Exact base s queue) (cpu : ℕ) :
    weightOn s cpu = weightOf s (queue cpu) := by
  have fits := h.fits cpu
  simp only [greatestWeight] at fits
  rw [weightOn, h.weight cpu]
  omega

theorem Exact.findsLeastLoaded (h : Exact base s queue) (online : Cpumask)
    (some_online : online.cpus ≠ []) : FindsLeastLoaded online s := by
  refine ⟨queue, h.ring, ?_⟩
  rcases findLowestWeightCpu_cases s online with ⟨cpu, found, lightest⟩ | ⟨_, heavy⟩
  · refine ⟨cpu, lightest.mem, found, fun c member => ?_⟩
    rw [← h.weightOn_eq, ← h.weightOn_eq]
    exact lightest.least c member
  · obtain ⟨c, member⟩ := List.exists_mem_of_ne_nil _ some_online
    have fits := h.fits c
    rw [← h.weightOn_eq, heavy c member] at fits
    exact absurd fits (lt_irrefl _)

theorem weightOf_le_of_subset {l r : List Pid} (distinct : l.Nodup) (sub : l ⊆ r) :
    weightOf s l ≤ weightOf s r := by
  obtain ⟨mid, order, part⟩ := List.subperm_of_subset distinct sub
  have same : weightOf s mid = weightOf s l := (order.map _).sum_eq
  rw [← same]
  exact (part.map _).sum_le_sum fun _ _ => Nat.zero_le _

theorem weightOf_congr (weight : ∀ q, (t.task q).wrr.weight = (s.task q).wrr.weight) (l : List Pid) :
    weightOf t l = weightOf s l := by
  simp only [weightOf, weight]

theorem weight_step (cfg : Config) (s : State) (a : Action)
    (other : ∀ p weight now, a ≠ .setWrrWeight p weight now) (q : Pid) :
    ((step cfg s a).task q).wrr.weight = (s.task q).wrr.weight := by
  cases a with
  | enqueueTask cpu p flags => exact ((effect_enqueueTaskWrr s cpu p flags).task q).1
  | dequeueTask cpu p flags =>
    by_cases empty : (s.rq cpu).wrr.nrRunning = 0
    · simp only [step, dequeueTaskWrr, if_pos empty]
    · exact ((effect_dequeueTaskWrr cfg s cpu p flags empty).task q).1
  | requeueTask cpu p head => rfl
  | yieldTask cpu =>
    simp only [step, yieldTaskWrr]
    cases (s.rq cpu).curr <;> rfl
  | taskTick cpu p =>
    obtain ⟨t, same, still | moves⟩ := taskTickWrr_cases cfg s cpu p
    · rw [step, still]
      exact same.weight q
    · rw [step, moves]
      exact same.weight q
  | pickNextTask cpu prev => exact (accounted_pickNextTaskWrr cfg s cpu prev).sameQueues.weight q
  | setWrrWeight p weight now => exact absurd rfl (other p weight now)
  | setTaskCpu p cpu => by_cases here : q = p <;> simp [step, State.modifyTask, here]
  | switchTo cpu next => rfl
  | clock cpu now => rfl

theorem Exact.move (cfg : Config) (h : Exact base s queue) {a : Action} (enabled : Enabled s a)
    (fits : Fits s a) (other : ∀ p weight now, a ≠ .setWrrWeight p weight now) :
    ∃ new, Exact base (step cfg s a) new := by
  obtain ⟨new, carries, arrive⟩ := h.listed.step cfg enabled
  refine ⟨new, h.carry carries, fun c => ?_⟩
  have distinct : (new c).Nodup := (carries.1.ring c).nodup
  rw [weightOf_congr (weight_step cfg s a other)]
  by_cases enters : ∃ p flags, a = .enqueueTask c p flags
  · obtain ⟨p, flags, rfl⟩ := enters
    have sub : new c ⊆ p :: queue c := by
      intro q member
      rcases arrive c q member with old | ⟨_, same⟩
      · exact List.mem_cons_of_mem p old
      · cases same
        exact List.mem_cons_self
    have bound := weightOf_le_of_subset (s := s) distinct sub
    rw [weightOf_cons] at bound
    exact bound.trans_lt (fits (queue c) (h.ring c))
  · have sub : new c ⊆ queue c := by
      intro q member
      rcases arrive c q member with old | ⟨flags, same⟩
      · exact old
      · exact absurd ⟨q, flags, same⟩ enters
    exact (weightOf_le_of_subset distinct sub).trans_lt (h.fits c)

theorem Exact.reweigh (h : Exact base s queue) {p : Pid} {weight : Int32} {now : UInt64}
    (enabled : Enabled s (.setWrrWeight p weight now)) (fits : Fits s (.setWrrWeight p weight now)) :
    Exact base (setWrrWeightLocked s p weight now) queue := by
  have queued : p ∈ queue (s.task p).cpu := (h.queued_iff _ p).mp enabled
  have change := reweighed_setWrrWeightLocked s p weight now
  refine ⟨h.setWeight weight now queued, fun c => ?_⟩
  by_cases here : c = (s.task p).cpu
  · subst here
    have order := List.perm_cons_erase queued
    have out : p ∉ (queue (s.task p).cpu).erase p := (h.ring (s.task p).cpu).nodup.not_mem_erase
    have sum : weightOf (setWrrWeightLocked s p weight now) (queue (s.task p).cpu) =
        weightOf (setWrrWeightLocked s p weight now) (p :: (queue (s.task p).cpu).erase p) :=
      (order.map _).sum_eq
    rw [sum, weightOf_cons, change.own, weightOf_other out change.others]
    exact fits _ (h.ring _)
  · have absent : p ∉ queue c := fun there => h.apart c _ here there queued
    rw [weightOf_other absent change.others]
    exact h.fits c

end Step

theorem exact_step (cfg : Config) (base : ℕ → UInt32) (s : State) (a : Action)
    (guard : Enabled s a ∧ Fits s a) (exact : ∃ queue, Exact base s queue) :
    ∃ queue, Exact base (step cfg s a) queue := by
  obtain ⟨queue, h⟩ := exact
  by_cases reweighs : ∃ p weight now, a = .setWrrWeight p weight now
  · obtain ⟨p, weight, now, rfl⟩ := reweighs
    exact ⟨queue, h.reweigh guard.1 guard.2⟩
  · exact h.move cfg guard.1 guard.2 fun p weight now same => reweighs ⟨p, weight, now, same⟩

theorem always_findsLeastLoaded (cfg : Config) (s : State) (start : ∀ cpu, initWrrRq s cpu = s)
    (acts : List Action) (enabled : Along (step cfg) Enabled s acts)
    (fits : Along (step cfg) Fits s acts) (online : Cpumask) (some_online : online.cpus ≠ []) :
    Always (step cfg) (FindsLeastLoaded online) s acts := by
  have init : Exact (fun cpu => (s.rq cpu).nrRunning) s fun _ => [] :=
    ⟨holds_init s start, fun c => by simp [weightOf, greatestWeight]⟩
  refine always_of_invariant _ (exact_step cfg _) (fun t held => ?_) ⟨_, init⟩ (enabled.and fits)
  obtain ⟨_, known⟩ := held
  exact known.findsLeastLoaded online some_online

def enter (p : Pid) (weight : Int32) : List Action := [.enqueueTask 0 p 0, .setWrrWeight p weight 0]

theorem enter_holds {base : ℕ → UInt32} {s : State} {queue : ℕ → List Pid} {p : Pid} (cfg : Config)
    (weight : Int32) (h : Holds base s queue) (home : (s.task p).cpu = 0) (out : ∀ c, p ∉ queue c) :
    Along (step cfg) Enabled s (enter p weight) ∧
      Holds base (run (step cfg) s (enter p weight)) (Function.update queue 0 (queue 0 ++ [p])) := by
  have added := h.enqueue 0 out home
  have order : enqueued 0 p (queue 0) = queue 0 ++ [p] := if_neg (by decide)
  rw [order] at added
  have there : ((enqueueTaskWrr s 0 p 0).task p).cpu = 0 :=
    ((effect_enqueueTaskWrr s 0 p 0).task p).2.trans home
  have queued : p ∈ Function.update queue 0 (queue 0 ++ [p])
      ((enqueueTaskWrr s 0 p 0).task p).cpu := by
    rw [there, Function.update_self]
    simp
  refine ⟨⟨⟨home, fun c => ?_⟩, (added.queued_iff _ p).mpr queued, trivial⟩,
    added.setWeight weight 0 queued⟩
  rw [h.queued_iff]
  exact out c

theorem always_findsLeastLoaded_one :
    Along (step ⟨10, 1000, true, true⟩) Fits quiet (enter (.nth 0) 3) ∧
      Always (step ⟨10, 1000, true, true⟩) (FindsLeastLoaded (.interval 0 2)) quiet
        (enter (.nth 0) 3) := by
  have start := holds_init quiet initWrrRq_quiet
  obtain ⟨enabled, _⟩ := enter_holds (p := .nth 0) ⟨10, 1000, true, true⟩ 3 start rfl (by simp)
  have added : Holds _ (enqueueTaskWrr quiet 0 (.nth 0) 0) _ := start.enqueue 0 (by simp) rfl
  have fits : Along (step ⟨10, 1000, true, true⟩) Fits quiet (enter (.nth 0) 3) := by
    refine ⟨fun queue ring => ?_, fun queue ring => ?_, trivial⟩
    · rw [ring.unique (start.ring 0)]
      decide
    · rw [ring.unique (added.ring 0)]
      decide
  exact ⟨fits, always_findsLeastLoaded _ quiet initWrrRq_quiet _ enabled fits _ (by decide)⟩

/-- Three tasks whose weights add up to 2^32. -/
def heavyThree : List Action :=
  enter (.nth 0) 0x7FFFFFFF ++ enter (.nth 1) 0x7FFFFFFF ++ enter (.nth 2) 2

/-- The total of CPU 0 wraps to 0, and it is found before the idle CPU 1. -/
theorem heavyThree_misjudged :
    Along (step ⟨10, 1000, true, true⟩) Enabled quiet heavyThree ∧
      findLowestWeightCpu (run (step ⟨10, 1000, true, true⟩) quiet heavyThree) (.interval 0 2) = 0 ∧
      ¬ Always (step ⟨10, 1000, true, true⟩) (FindsLeastLoaded (.interval 0 2)) quiet heavyThree := by
  have start := holds_init quiet initWrrRq_quiet
  obtain ⟨first, one⟩ := enter_holds (p := .nth 0) ⟨10, 1000, true, true⟩ 0x7FFFFFFF start rfl (by simp)
  obtain ⟨second, two⟩ := enter_holds (p := .nth 1) ⟨10, 1000, true, true⟩ 0x7FFFFFFF one rfl (by
    intro c
    by_cases here : c = 0 <;> simp [here, Pid.nth])
  obtain ⟨third, three⟩ := enter_holds (p := .nth 2) ⟨10, 1000, true, true⟩ 2 two rfl (by
    intro c
    by_cases here : c = 0 <;> simp [here, Pid.nth])
  have enabled : Along (step ⟨10, 1000, true, true⟩) Enabled quiet heavyThree := by
    refine along_append.mpr ⟨along_append.mpr ⟨first, second⟩, ?_⟩
    rw [run_append]
    exact third
  have found : findLowestWeightCpu (run (step ⟨10, 1000, true, true⟩) quiet heavyThree)
      (.interval 0 2) = 0 := by decide
  refine ⟨enabled, found, fun always => ?_⟩
  obtain ⟨queue, ring, cpu, _, chosen, least⟩ := always heavyThree (List.prefix_refl _)
  rw [found] at chosen
  obtain rfl : 0 = cpu := by exact_mod_cast chosen
  have lists : ∀ c, queue c = _ := fun c => (ring c).unique (three.ring c)
  have lighter := least 1 (by decide)
  rw [lists 0, lists 1] at lighter
  exact absurd lighter (by decide)

end UnixSystems.WrrLoad
