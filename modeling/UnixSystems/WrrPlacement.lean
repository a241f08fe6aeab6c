import UnixSystems.FirstMinimum
import UnixSystems.WrrModel

/-! Where a woken or forked task goes: `findLowestWeightCpu` and `selectTaskRqWrr` of wrr.c,
and around them `select_task_rq` and `select_fallback_rq` of core.c. The class looks at the
weights but not at the affinity of the task, the fallback at the affinity but not at the
weights. -/
namespace UnixSystems.WrrPlacement
open WrrModel FirstMinimum

/-! ## The choice of the class -/

/-- The locals `res` and `minWeight`. -/
structure Lowest where
  res : ℤ
  minWeight : UInt32

def lowestStep (s : State) (best : Lowest) (i : ℕ) : Lowest :=
  let rq := (s.rq i).wrr
  if rq.totalWeight < best.minWeight then ⟨i, rq.totalWeight⟩ else best

def findLowestWeightCpu (s : State) (online : Cpumask) : ℤ :=
  (online.cpus.foldl (lowestStep s) ⟨-1, 0xFFFFFFFF⟩).res

inductive SdFlag where
  | balanceExec
  | balanceFork
  | balanceWake
deriving DecidableEq

def selectTaskRqWrr (s : State) (online : Cpumask) (cpu : ℤ) (sdFlag : SdFlag) : ℤ :=
  if sdFlag ≠ .balanceWake ∧ sdFlag ≠ .balanceFork then cpu else findLowestWeightCpu s online

/-! ## The core around it -/

/-- The CPUs of the machine and how they are grouped into nodes; a CPU whose node has been
taken offline has none. `cpusetMask` is what `cpuset_cpus_allowed_fallback` allows. -/
structure Machine where
  nrCpuIds : ℕ
  online : Cpumask
  active : Cpumask
  possible : Cpumask
  cpuToNode : ℕ → Option ℕ
  cpumaskOfNode : ℕ → Cpumask
  cpusets : Bool
  cpusetMask : Cpumask
  active_online : ∀ cpu ∈ active.cpus, cpu ∈ online.cpus

structure Affinity where
  cpusAllowed : Cpumask
  nrCpusAllowed : ℕ
  kthread : Bool
  counted : nrCpusAllowed = cpusAllowed.weight

def setCpusAllowedCommon (a : Affinity) (newMask : Cpumask) : Affinity where
  cpusAllowed := newMask
  nrCpusAllowed := newMask.weight
  kthread := a.kthread
  counted := rfl

def isPerCpuKthread (a : Affinity) : Bool := a.kthread && a.nrCpusAllowed = 1

def isCpuAllowed (m : Machine) (a : Affinity) (cpu : ℤ) : Bool :=
  a.cpusAllowed.test cpu && if isPerCpuKthread a then m.online.test cpu else m.active.test cpu

/-- The CPU chosen and the affinity the task has then. -/
inductive Placed where
  | cpu (cpu : ℤ) (a : Affinity)
  | bug

def anyAllowed (m : Machine) (a : Affinity) : Option ℕ :=
  a.cpusAllowed.cpus.find? fun cpu : ℕ => isCpuAllowed m a cpu

/-- The `for (;;)` in the state `fail`. -/
def fallbackFail (m : Machine) (a : Affinity) : Placed :=
  match anyAllowed m a with
  | some cpu => .cpu cpu a
  | none => .bug

/-- A task that is being placed is neither queued nor running, so that `do_set_cpus_allowed`
only sets the mask. -/
def fallbackPossible (m : Machine) (a : Affinity) : Placed :=
  match anyAllowed m a with
  | some cpu => .cpu cpu a
  | none => fallbackFail m (setCpusAllowedCommon a m.possible)

def fallbackCpuset (m : Machine) (a : Affinity) : Placed :=
  match anyAllowed m a with
  | some cpu => .cpu cpu a
  | none =>
    if m.cpusets then fallbackPossible m (setCpusAllowedCommon a m.cpusetMask)
    else fallbackFail m (setCpusAllowedCommon a m.possible)

def nodeCpus (m : Machine) (cpu : ℕ) : List ℕ :=
  match m.cpuToNode cpu with
  | none => []
  | some nid => (m.cpumaskOfNode nid).cpus

def selectFallbackRq (m : Machine) (cpu : ℕ) (a : Affinity) : Placed :=
  match (nodeCpus m cpu).find? fun dest : ℕ => m.active.test dest && a.cpusAllowed.test dest with
  | some dest => .cpu dest a
  | none => fallbackCpuset m a

/-- For a task of the wrr class that was last on `taskCpu`. -/
def selectTaskRq (m : Machine) (s : State) (a : Affinity) (taskCpu : ℕ) (cpu : ℤ)
    (sdFlag : SdFlag) : Placed :=
  let cpu := if 1 < a.nrCpusAllowed then selectTaskRqWrr s m.online cpu sdFlag
    else a.cpusAllowed.any m.nrCpuIds
  if isCpuAllowed m a cpu then .cpu cpu a else selectFallbackRq m taskCpu a

/-! ## What is chosen -/

def weightOn (s : State) (cpu : ℕ) : ℕ := (s.rq cpu).wrr.totalWeight.toNat

/-- The initial value of `minWeight`, which is also the greatest total. -/
def greatestWeight : ℕ := 0xFFFFFFFF

/-- The first of the online CPUs with the least total, unless every total is the greatest. -/
def Lightest (s : State) (online : Cpumask) (cpu : ℕ) : Prop :=
  FirstLeast (weightOn s) greatestWeight online.cpus cpu

def Lowest.of (best : Option ℕ × ℕ) : Lowest :=
  ⟨(best.1.map Nat.cast).getD (-1), UInt32.ofNat best.2⟩

theorem lowestStep_of (s : State) (best : Option ℕ × ℕ) (small : best.2 < 2 ^ 32) (i : ℕ) :
    lowestStep s (.of best) i = .of (better (weightOn s) best i) := by
  have value : (Lowest.of best).minWeight.toNat = best.2 := UInt32.toNat_ofNat_of_lt' small
  have compare : (s.rq i).wrr.totalWeight < (Lowest.of best).minWeight ↔ weightOn s i < best.2 := by
    rw [UInt32.lt_iff_toNat_lt, value, weightOn]
  simp only [lowestStep, better]
  by_cases lower : weightOn s i < best.2
  · rw [if_pos (compare.mpr lower), if_pos lower]
    simp [Lowest.of, weightOn]
  · rw [if_neg (mt compare.mp lower), if_neg lower]

theorem findLowestWeightCpu_eq (s : State) (online : Cpumask) :
    findLowestWeightCpu s online = (Lowest.of (scan (weightOn s) greatestWeight online.cpus)).res := by
  have loop : ∀ (cpus : List ℕ) (best : Option ℕ × ℕ), best.2 < 2 ^ 32 →
      cpus.foldl (lowestStep s) (.of best) = .of (cpus.foldl (better (weightOn s)) best) := by
    intro cpus
    induction cpus with
    | nil => exact fun best _ => rfl
    | cons i cpus ih =>
      intro best small
      rw [List.foldl_cons, List.foldl_cons, lowestStep_of s best small]
      refine ih _ ?_
      have total : weightOn s i < 2 ^ 32 := (s.rq i).wrr.totalWeight.toNat_lt
      unfold better
      split_ifs
      · exact total
      · exact small
  exact congrArg Lowest.res (loop online.cpus (none, greatestWeight) (by decide))

/-- Either the lightest CPU is found, or all totals coincide with the initial `minWeight`. -/
theorem findLowestWeightCpu_cases (s : State) (online : Cpumask) :
    (∃ cpu : ℕ, findLowestWeightCpu s online = cpu ∧ Lightest s online cpu) ∨
      (findLowestWeightCpu s online = -1 ∧ ∀ cpu ∈ online.cpus, weightOn s cpu = greatestWeight) := by
  rw [findLowestWeightCpu_eq]
  cases scanned : (scan (weightOn s) greatestWeight online.cpus).1 with
  | some cpu => exact .inl ⟨cpu, by simp [Lowest.of, scanned], scan_eq_some_iff.mp scanned⟩
  | none =>
    refine .inr ⟨by simp [Lowest.of, scanned], fun cpu member => ?_⟩
    have above := scan_eq_none_iff.mp scanned cpu member
    have bound : weightOn s cpu < 2 ^ 32 := (s.rq cpu).wrr.totalWeight.toNat_lt
    simp only [greatestWeight] at above ⊢
    omega

def Usable (m : Machine) (a : Affinity) (cpu : ℕ) : Prop :=
  cpu ∈ m.active.cpus ∧ cpu ∈ a.cpusAllowed.cpus

/-- What the affinity fallback settles on: the first usable CPU of the node of `taskCpu`, or
of the machine if that node has none. -/
structure FallsBackTo (m : Machine) (a : Affinity) (taskCpu cpu : ℕ) : Prop where
  usable : Usable m a cpu
  first : (cpu ∈ nodeCpus m taskCpu ∧ ∀ d ∈ nodeCpus m taskCpu, Usable m a d → cpu ≤ d) ∨
    ((∀ d ∈ nodeCpus m taskCpu, ¬ Usable m a d) ∧ ∀ d, Usable m a d → cpu ≤ d)

def LeastUsable (m : Machine) (s : State) (a : Affinity) (cpu : ℕ) : Prop :=
  Usable m a cpu ∧ ∀ d, Usable m a d → weightOn s cpu ≤ weightOn s d

def PlacesLightest (m : Machine) (s : State) (a : Affinity) : Placed → Prop
  | .cpu cpu _ => ∃ c : ℕ, cpu = c ∧ LeastUsable m s a c
  | .bug => False

theorem find_le {mask : Cpumask} {P : ℕ → Bool} {cpu : ℕ}
    (found : mask.cpus.find? P = some cpu) : ∀ d ∈ mask.cpus, P d → cpu ≤ d := by
  intro d member holds
  obtain ⟨_, front, back, split, none⟩ := List.find?_eq_some_iff_append.mp found
  have sorted := mask.increasing
  rw [split] at member sorted
  rcases List.mem_append.mp member with early | late
  · have absent := none d early
    simp [holds] at absent
  · rcases List.mem_cons.mp late with rfl | after
    · exact le_refl d
    · have later := (List.pairwise_append.mp sorted).2.1
      exact (List.pairwise_cons.mp later).1 d after |>.le

section Placing

variable {m : Machine} {s : State} {a : Affinity} {taskCpu : ℕ}

theorem nodeCpus_find_le {P : ℕ → Bool} {cpu : ℕ} (found : (nodeCpus m taskCpu).find? P = some cpu) :
    ∀ d ∈ nodeCpus m taskCpu, P d → cpu ≤ d := by
  unfold nodeCpus at found ⊢
  cases node : m.cpuToNode taskCpu with
  | none => simp
  | some nid =>
    rw [node] at found
    exact find_le found

theorem isCpuAllowed_iff (several : 1 < a.nrCpusAllowed) (cpu : ℕ) :
    isCpuAllowed m a cpu ↔ Usable m a cpu := by
  have loose : isPerCpuKthread a = false := by
    have other : a.nrCpusAllowed ≠ 1 := by omega
    simp [isPerCpuKthread, other]
  simp [isCpuAllowed, loose, Usable, and_comm]

theorem selectFallbackRq_eq (taskCpu : ℕ) (several : 1 < a.nrCpusAllowed)
    (some_usable : ∃ cpu, Usable m a cpu) :
    ∃ cpu : ℕ, selectFallbackRq m taskCpu a = .cpu cpu a ∧ FallsBackTo m a taskCpu cpu := by
  have usable_iff : ∀ d : ℕ, (m.active.test d && a.cpusAllowed.test d) = true ↔ Usable m a d := by
    intro d
    simp [Usable]
  unfold selectFallbackRq
  cases found : (nodeCpus m taskCpu).find? fun dest : ℕ => m.active.test dest && a.cpusAllowed.test dest with
  | some cpu =>
    have usable := (usable_iff cpu).mp (by simpa using List.find?_some found)
    refine ⟨cpu, rfl, usable, .inl ⟨List.mem_of_find?_eq_some found, fun d member other => ?_⟩⟩
    exact nodeCpus_find_le found d member ((usable_iff d).mpr other)
  | none =>
    have empty : ∀ d ∈ nodeCpus m taskCpu, ¬ Usable m a d := fun d member usable =>
      List.find?_eq_none.mp found d member ((usable_iff d).mpr usable)
    unfold fallbackCpuset
    cases any : anyAllowed m a with
    | some cpu =>
      have usable := (isCpuAllowed_iff several cpu).mp (by simpa using List.find?_some any)
      refine ⟨cpu, rfl, usable, .inr ⟨empty, fun d other => ?_⟩⟩
      exact find_le any d other.2 ((isCpuAllowed_iff several d).mpr other)
    | none =>
      obtain ⟨d, usable⟩ := some_usable
      exact absurd ((isCpuAllowed_iff several d).mpr usable) (List.find?_eq_none.mp any d usable.2)

theorem FallsBackTo.unique {c d : ℕ} (h : FallsBackTo m a taskCpu c) (h' : FallsBackTo m a taskCpu d) :
    c = d := by
  rcases h.first with ⟨inNode, first⟩ | ⟨empty, first⟩
  · rcases h'.first with ⟨inNode', first'⟩ | ⟨empty', _⟩
    · exact le_antisymm (first d inNode' h'.usable) (first' c inNode h.usable)
    · exact absurd h.usable (empty' c inNode)
  · rcases h'.first with ⟨inNode', _⟩ | ⟨_, first'⟩
    · exact absurd h'.usable (empty d inNode')
    · exact le_antisymm (first d h'.usable) (first' c h.usable)

theorem Lightest.leastUsable {cpu : ℕ} (lightest : Lightest s m.online cpu) (usable : Usable m a cpu) :
    LeastUsable m s a cpu :=
  ⟨usable, fun d other => lightest.least d (m.active_online d other.1)⟩

/-- All online CPUs have the greatest total, and the bits behind the masks let -1 pass. -/
def PassesMinusOne (m : Machine) (s : State) (a : Affinity) : Prop :=
  (∀ cpu ∈ m.online.cpus, weightOn s cpu = greatestWeight) ∧ a.cpusAllowed.beyond 0 ∧ m.active.beyond 0

/-- The two layers agree: the lightest of all online CPUs is one that the task may use, or the
CPU of the fallback happens to be a lightest one among those. -/
def LayersAgree (m : Machine) (s : State) (a : Affinity) (taskCpu : ℕ) : Prop :=
  (∃ cpu, Lightest s m.online cpu ∧ Usable m a cpu) ∨
    (¬ PassesMinusOne m s a ∧ ∃ cpu, FallsBackTo m a taskCpu cpu ∧ LeastUsable m s a cpu)

theorem Lightest.not_passesMinusOne {cpu : ℕ} (lightest : Lightest s m.online cpu) :
    ¬ PassesMinusOne m s a := by
  intro passes
  have below := lightest.below
  rw [passes.1 cpu lightest.mem] at below
  exact absurd below (lt_irrefl _)

theorem isCpuAllowed_minusOne (several : 1 < a.nrCpusAllowed)
    (heavy : ∀ cpu ∈ m.online.cpus, weightOn s cpu = greatestWeight) :
    isCpuAllowed m a (-1) ↔ PassesMinusOne m s a := by
  have loose : isPerCpuKthread a = false := by
    have other : a.nrCpusAllowed ≠ 1 := by omega
    simp [isPerCpuKthread, other]
  have bits : ∀ mask : Cpumask, mask.test (-1) = mask.beyond 0 := fun mask => rfl
  have all : (∀ cpu ∈ m.online.cpus, weightOn s cpu = greatestWeight) ↔ True := iff_true_intro heavy
  simp [isCpuAllowed, loose, PassesMinusOne, all, bits]

theorem placesLightest_fallback (several : 1 < a.nrCpusAllowed)
    (some_usable : ∃ cpu, Usable m a cpu) :
    PlacesLightest m s a (selectFallbackRq m taskCpu a) ↔
      ∃ cpu, FallsBackTo m a taskCpu cpu ∧ LeastUsable m s a cpu := by
  obtain ⟨cpu, placed, falls⟩ := selectFallbackRq_eq taskCpu several some_usable
  rw [placed]
  constructor
  · rintro ⟨c, same, least⟩
    obtain rfl : cpu = c := by exact_mod_cast same
    exact ⟨cpu, falls, least⟩
  · rintro ⟨c, falls', least⟩
    obtain rfl := falls.unique falls'
    exact ⟨cpu, rfl, least⟩

theorem placesLightest_iff (m : Machine) (s : State) (a : Affinity) (taskCpu : ℕ) (cpu : ℤ)
    (sdFlag : SdFlag) (several : 1 < a.nrCpusAllowed) (some_usable : ∃ cpu, Usable m a cpu)
    (flag : sdFlag = .balanceWake ∨ sdFlag = .balanceFork) :
    PlacesLightest m s a (selectTaskRq m s a taskCpu cpu sdFlag) ↔ LayersAgree m s a taskCpu := by
  have chosen : selectTaskRqWrr s m.online cpu sdFlag = findLowestWeightCpu s m.online := by
    rcases flag with rfl | rfl <;> simp [selectTaskRqWrr]
  simp only [selectTaskRq, if_pos several, chosen]
  rcases findLowestWeightCpu_cases s m.online with ⟨c, found, lightest⟩ | ⟨found, heavy⟩
  · rw [found]
    by_cases allowed : isCpuAllowed m a c
    · have usable := (isCpuAllowed_iff several c).mp allowed
      rw [if_pos allowed]
      exact ⟨fun _ => .inl ⟨c, lightest, usable⟩, fun _ => ⟨c, rfl, lightest.leastUsable usable⟩⟩
    · rw [if_neg allowed, placesLightest_fallback several some_usable]
      constructor
      · exact fun falls => .inr ⟨lightest.not_passesMinusOne, falls⟩
      · rintro (⟨d, other, usable⟩ | ⟨_, falls⟩)
        · rw [lightest.unique other] at allowed
          exact absurd ((isCpuAllowed_iff several d).mpr usable) allowed
        · exact falls
  · rw [found]
    by_cases allowed : isCpuAllowed m a (-1)
    · have passes := (isCpuAllowed_minusOne several heavy).mp allowed
      rw [if_pos allowed]
      constructor
      · rintro ⟨c, same, _⟩
        omega
      · rintro (⟨d, lightest, _⟩ | ⟨blocked, _⟩)
        · exact absurd passes lightest.not_passesMinusOne
        · exact absurd passes blocked
    · have blocked : ¬ PassesMinusOne m s a := fun passes =>
        allowed ((isCpuAllowed_minusOne several heavy).mpr passes)
      rw [if_neg allowed, placesLightest_fallback several some_usable]
      constructor
      · exact fun falls => .inr ⟨blocked, falls⟩
      · rintro (⟨d, lightest, _⟩ | ⟨_, falls⟩)
        · have below := lightest.below
          rw [heavy d lightest.mem] at below
          exact absurd below (lt_irrefl _)
        · exact falls

end Placing

def threeCpus : Machine where
  nrCpuIds := 3
  online := .interval 0 3
  active := .interval 0 3
  possible := .interval 0 3
  cpuToNode := fun _ => some 0
  cpumaskOfNode := fun _ => .interval 0 3
  cpusets := true
  cpusetMask := .interval 0 3
  active_online := fun _ member => member

def allowedOn (mask : Cpumask) : Affinity := ⟨mask, mask.weight, false, rfl⟩

def loaded : State where
  links := ⟨id, id⟩
  task := fun _ => ⟨⟨0, 0, 0⟩, ⟨10, 100, 0⟩, .wrr, .wrr, 0, rlimInfinity, 0⟩
  rq
    | 1 => ⟨2, ⟨2, 20⟩, none, 0, false⟩
    | 2 => ⟨1, ⟨1, 5⟩, none, 0, false⟩
    | _ => ⟨0, ⟨0, 0⟩, none, 0, false⟩
  overload := false

theorem placesLightest_iff_unbound :
    PlacesLightest threeCpus loaded (allowedOn (.interval 0 3))
      (selectTaskRq threeCpus loaded (allowedOn (.interval 0 3)) 1 1 .balanceWake) := by
  have lightest : Lightest loaded threeCpus.online 0 :=
    ⟨⟨[], [1, 2], rfl, by simp⟩, by decide, by decide⟩
  have usable : Usable threeCpus (allowedOn (.interval 0 3)) 0 := ⟨by decide, by decide⟩
  exact (placesLightest_iff threeCpus loaded _ 1 1 .balanceWake (by decide) ⟨0, usable⟩ (.inl rfl)).mpr
    (.inl ⟨0, lightest, usable⟩)

/-- The idle CPU 0 is not allowed, and of CPUs 1 and 2 the heavier one is taken. -/
theorem bound_task_misplaced :
    selectTaskRq threeCpus loaded (allowedOn (.interval 1 2)) 1 1 .balanceWake =
        .cpu 1 (allowedOn (.interval 1 2)) ∧
      Usable threeCpus (allowedOn (.interval 1 2)) 2 ∧ weightOn loaded 2 < weightOn loaded 1 ∧
      ¬ PlacesLightest threeCpus loaded (allowedOn (.interval 1 2))
        (selectTaskRq threeCpus loaded (allowedOn (.interval 1 2)) 1 1 .balanceWake) := by
  have placed : selectTaskRq threeCpus loaded (allowedOn (.interval 1 2)) 1 1 .balanceWake =
      .cpu 1 (allowedOn (.interval 1 2)) := by rfl
  have usable : Usable threeCpus (allowedOn (.interval 1 2)) 2 := ⟨by decide, by decide⟩
  have lighter : weightOn loaded 2 < weightOn loaded 1 := by decide
  refine ⟨placed, usable, lighter, ?_⟩
  rw [placed]
  rintro ⟨c, same, _, least⟩
  obtain rfl : 1 = c := by exact_mod_cast same
  exact absurd lighter (not_lt.mpr (least 2 usable))

end UnixSystems.WrrPlacement
