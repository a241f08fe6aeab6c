import UnixSystems.WrrModel

/-! The load balancing of wrr.c: `pullTaskWrr`, which an idle CPU calls on each tick to take
a task from the most loaded CPU. -/
namespace UnixSystems.WrrBalance
open WrrModel

/-- The locals `maxWeight` and `targetCpu` of the selection loop; the second is not
initialised. -/
structure Selection where
  maxWeight : Int32
  targetCpu : Option ℕ
deriving DecidableEq

/-- One round of `for_each_online_cpu`. The weight is unsigned, so that `maxWeight` is
converted to `unsigned int` for the comparison, and back to `int` by the assignment. -/
def selectStep (s : State) (thisCpu : ℕ) (best : Selection) (i : ℕ) : Selection :=
  let tmp := (s.rq i).wrr
  if i ≠ thisCpu ∧ 2 ≤ tmp.nrRunning ∧ best.maxWeight.toUInt32 < tmp.totalWeight then
    ⟨tmp.totalWeight.toInt32, some i⟩
  else best

def selectTarget (s : State) (thisCpu : ℕ) (online : List ℕ) : Selection :=
  online.foldl (selectStep s thisCpu) ⟨-1, none⟩

/-- How far `pullTaskWrr` gets: it returns before or after the selection, or goes on to lock
the run queue of the selected CPU. -/
inductive Pull where
  | inactive
  | early
  | target (targetCpu : Option ℕ)
deriving DecidableEq

def pullTarget (s : State) (cpuActive : ℕ → Bool) (online : List ℕ) (thisCpu : ℕ) : Pull :=
  if cpuActive thisCpu then
    let best := selectTarget s thisCpu online
    if best.maxWeight = -1 then .early else .target best.targetCpu
  else .inactive

def Busy (s : State) (online : List ℕ) (thisCpu i : ℕ) : Prop :=
  i ∈ online ∧ i ≠ thisCpu ∧ 2 ≤ (s.rq i).wrr.nrRunning

structure PullsMostLoaded (s : State) (cpuActive : ℕ → Bool) (online : List ℕ) (thisCpu : ℕ) :
    Prop where
  some_busy : (∃ i, Busy s online thisCpu i) →
    ∃ i, pullTarget s cpuActive online thisCpu = .target (some i) ∧ Busy s online thisCpu i ∧
      ∀ j, Busy s online thisCpu j → (s.rq j).wrr.totalWeight ≤ (s.rq i).wrr.totalWeight
  none_busy : (¬ ∃ i, Busy s online thisCpu i) → pullTarget s cpuActive online thisCpu = .early

/-- As an `unsigned int` the initial -1 is the greatest weight of all. -/
theorem selectStep_initial (s : State) (thisCpu i : ℕ) :
    selectStep s thisCpu ⟨-1, none⟩ i = ⟨-1, none⟩ := by
  have greatest : ¬ (-1 : Int32).toUInt32 < (s.rq i).wrr.totalWeight := by
    have bound := (s.rq i).wrr.totalWeight.toNat_lt
    have value : (-1 : Int32).toUInt32.toNat = 2 ^ 32 - 1 := by decide
    rw [UInt32.lt_iff_toNat_lt, value]
    omega
  exact if_neg fun taken => greatest taken.2.2

theorem selectTarget_eq (s : State) (thisCpu : ℕ) (online : List ℕ) :
    selectTarget s thisCpu online = ⟨-1, none⟩ := by
  unfold selectTarget
  induction online with
  | nil => rfl
  | cons i online ih => rw [List.foldl_cons, selectStep_initial, ih]

theorem pullTarget_early (s : State) (cpuActive : ℕ → Bool) (online : List ℕ) (thisCpu : ℕ)
    (active : cpuActive thisCpu = true) : pullTarget s cpuActive online thisCpu = .early := by
  simp [pullTarget, active, selectTarget_eq]

theorem pullsMostLoaded_iff (s : State) (cpuActive : ℕ → Bool) (online : List ℕ) (thisCpu : ℕ)
    (active : cpuActive thisCpu = true) :
    PullsMostLoaded s cpuActive online thisCpu ↔
      ∀ i ∈ online, i ≠ thisCpu → (s.rq i).wrr.nrRunning < 2 := by
  have early := pullTarget_early s cpuActive online thisCpu active
  constructor
  · intro pulls i member other
    by_contra loaded
    have busy : Busy s online thisCpu i := ⟨member, other, UInt32.not_lt.mp loaded⟩
    obtain ⟨j, selected, _⟩ := pulls.some_busy ⟨i, busy⟩
    rw [early] at selected
    cases selected
  · intro idle
    refine ⟨?_, fun _ => early⟩
    rintro ⟨i, member, other, loaded⟩
    exact absurd (idle i member other) (UInt32.not_lt.mpr loaded)

def uneven : State where
  links := ⟨id, id⟩
  task := fun _ => ⟨⟨0, 0, 0⟩, ⟨10, 100, 0⟩, .wrr, .wrr, 0, rlimInfinity, 0⟩
  rq := fun cpu => if cpu = 1 then ⟨2, ⟨2, 20⟩, none, 0, false⟩ else ⟨0, ⟨0, 0⟩, none, 0, false⟩
  overload := false

theorem pullsMostLoaded_iff_alone :
    PullsMostLoaded uneven (fun _ => true) [0, 2] 0 :=
  (pullsMostLoaded_iff uneven (fun _ => true) [0, 2] 0 rfl).mpr (by decide)

theorem uneven_not_pulled :
    Busy uneven [0, 1] 0 1 ∧ pullTarget uneven (fun _ => true) [0, 1] 0 = .early ∧
      ¬ PullsMostLoaded uneven (fun _ => true) [0, 1] 0 := by
  have busy : Busy uneven [0, 1] 0 1 := ⟨by decide, by decide, by decide⟩
  have early : pullTarget uneven (fun _ => true) [0, 1] 0 = .early := by decide
  refine ⟨busy, early, fun pulls => ?_⟩
  obtain ⟨i, selected, _⟩ := pulls.some_busy ⟨1, busy⟩
  rw [early] at selected
  cases selected

end UnixSystems.WrrBalance
