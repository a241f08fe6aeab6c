import UnixSystems.RtBandwidth
import UnixSystems.Tallies

/-! The runtime that the CPUs lend each other is neither created nor lost. What the queues have
more than their share adds up to zero, so that a CPU that goes offline finds what it lent; the
runs that keep this law are determined. -/

namespace UnixSystems.RtRuntime
open GuardedRuns RtBandwidth Tallies

variable {Cpu : Type}

/-- What the queue has more than its share. One that takes no part has its share. -/
def surplus (share : ℤ) (rq : RtRq) : ℤ := rq.rtRuntime.getD share - share

/-- The runtime each queue starts from: a write reaches the queues before `def_rt_bandwidth`. -/
def reference (s : State Cpu) : Option ℕ :=
  if s.stage = .spread then s.globalRtRuntime else s.runtime

/-- With a limit the surpluses add up to zero; without one no queue has a limit. -/
def Even [Fintype Cpu] : Option ℕ → (Cpu → RtRq) → Prop
  | none, rt => ∀ c, (rt c).rtRuntime = none
  | some share, rt => ∑ c, surplus share (rt c) = 0

/-- No runtime has been lost, and no CPU that went offline was left wanting. -/
def Balanced [Fintype Cpu] (s : State Cpu) : Prop := s.leaked = false ∧ Even (reference s) s.rt

/-- The runtimes fit the unsigned type of the source. -/
def NonNegative (rt : Cpu → RtRq) : Prop := ∀ c, ∀ runtime ∈ (rt c).rtRuntime, 0 ≤ runtime

variable {s : State Cpu} {cpus : List Cpu} {rt : Cpu → RtRq} {c i : Cpu} {share : ℤ} {weight period : ℕ}
  {seen : Cpu → ℕ}

/-! ## What leaves the runtimes alone -/

@[simp] theorem schedRtRqEnqueue_rtRuntime (rq : RtRq) : rq.schedRtRqEnqueue.rtRuntime = rq.rtRuntime := by
  unfold RtRq.schedRtRqEnqueue RtRq.enqueueTopRtRq
  split_ifs <;> rfl

@[simp] theorem dequeueTopRtRq_rtRuntime (rq : RtRq) : rq.dequeueTopRtRq.rtRuntime = rq.rtRuntime := by
  unfold RtRq.dequeueTopRtRq
  split <;> rfl

@[simp] theorem enqueueTopRtRq_rtRuntime (rq : RtRq) : rq.enqueueTopRtRq.rtRuntime = rq.rtRuntime := by
  unfold RtRq.enqueueTopRtRq
  split <;> rfl

@[simp] theorem enqueueRtEntity_rtRuntime (rq : RtRq) : rq.enqueueRtEntity.rtRuntime = rq.rtRuntime := by
  simp [RtRq.enqueueRtEntity]

@[simp] theorem dequeueRtEntity_rtRuntime (rq : RtRq) : rq.dequeueRtEntity.rtRuntime = rq.rtRuntime := by
  simp [RtRq.dequeueRtEntity]

@[simp] theorem other_rtRuntime (rq : RtRq) (joins : Bool) : (rq.other joins).rtRuntime = rq.rtRuntime := by
  unfold RtRq.other
  split_ifs <;> rfl

@[simp] theorem refill_rtRuntime (rq : RtRq) (overrun : ℕ) : (rq.refill overrun).rtRuntime = rq.rtRuntime := by
  unfold RtRq.refill
  dsimp only
  split <;> simp

@[simp] theorem throttle_rtRuntime (rq : RtRq) (assigned : Option ℕ) :
    (rq.throttle assigned).rtRuntime = rq.rtRuntime := by
  unfold RtRq.throttle
  split_ifs <;> simp

theorem startRtBandwidth_frame :
    s.startRtBandwidth.leaked = s.leaked ∧ reference s.startRtBandwidth = reference s := by
  unfold State.startRtBandwidth
  split <;> exact ⟨rfl, rfl⟩

theorem signed_allowance_eq_iff {share : ℕ} : signed s.allowance = share ↔ s.runtime = some share := by
  unfold State.allowance
  cases s.runtime with
  | none => simp [signed]
  | some runtime => simp [signed]

theorem nonNegative_allowance (s : State Cpu) : ∀ runtime ∈ s.allowance, 0 ≤ runtime := by
  intro runtime is
  obtain ⟨assigned, _, rfl⟩ := Option.mem_map.mp is
  exact Int.natCast_nonneg assigned

theorem nonNegative_of_start {s : State Cpu} (start : Start s) : NonNegative s.rt := by
  intro c
  rw [start.runtime c]
  exact nonNegative_allowance s

section Runtimes
variable [DecidableEq Cpu]

theorem rtRuntime_update {rq : RtRq} (same : rq.rtRuntime = (rt c).rtRuntime) (j : Cpu) :
    (Function.update rt c rq j).rtRuntime = (rt j).rtRuntime := by
  by_cases here : j = c
  · subst here
    rw [Function.update_self, same]
  · rw [Function.update_of_ne here]

theorem updateCurrRt_frame {delta : ℕ} : (s.updateCurrRt cpus c delta seen).leaked = s.leaked ∧
    reference (s.updateCurrRt cpus c delta seen) = reference s := by
  unfold State.updateCurrRt State.schedRtRuntimeExceeded
  split_ifs <;> exact ⟨rfl, rfl⟩

structure Kept (cpus : List Cpu) (P : (Cpu → RtRq) → Prop) : Prop where
  congr : ∀ {rt after : Cpu → RtRq}, (∀ j, (after j).rtRuntime = (rt j).rtRuntime) → P rt → P after
  lend : ∀ {rt : Cpu → RtRq} (weight period : ℕ) (seen : Cpu → ℕ) (c : Cpu),
    P rt → P (doBalanceRuntime weight period seen c cpus rt)

section
variable {P : (Cpu → RtRq) → Prop}

theorem Kept.update (kept : Kept cpus P) {rq : RtRq} (same : rq.rtRuntime = (rt c).rtRuntime) (law : P rt) :
    P (Function.update rt c rq) :=
  kept.congr (rtRuntime_update same) law

theorem Kept.balanceRuntime (kept : Kept cpus P) (law : P s.rt) : P (s.balanceRuntime cpus c seen) := by
  unfold State.balanceRuntime
  split
  · exact kept.lend _ _ _ _ law
  · exact law

theorem Kept.schedRtRuntimeExceeded (kept : Kept cpus P) (law : P s.rt) :
    P (s.schedRtRuntimeExceeded cpus c seen).rt := by
  unfold State.schedRtRuntimeExceeded
  split_ifs
  · exact law
  · exact law
  · exact kept.update (throttle_rtRuntime _ _) (kept.balanceRuntime law)

theorem Kept.updateCurrRt (kept : Kept cpus P) (law : P s.rt) {delta : ℕ} :
    P (s.updateCurrRt cpus c delta seen).rt := by
  unfold State.updateCurrRt
  split
  · exact kept.schedRtRuntimeExceeded (kept.update rfl law)
  · exact law

theorem Kept.visited (kept : Kept cpus P) (law : P s.rt) {overrun : ℕ} :
    P (s.visited cpus c overrun seen) := by
  unfold State.visited
  split_ifs
  · exact kept.update (refill_rtRuntime _ _) (kept.balanceRuntime law)
  · exact kept.update (refill_rtRuntime _ _) law
  · exact law
  · exact kept.update (schedRtRqEnqueue_rtRuntime _) law

end

/-! ## No runtime becomes negative -/

theorem nonNegative_update (fits : NonNegative rt) {rq : RtRq}
    (own : ∀ runtime ∈ rq.rtRuntime, 0 ≤ runtime) : NonNegative (Function.update rt i rq) := by
  intro j
  by_cases here : j = i
  · subst here
    rw [Function.update_self]
    exact own
  · rw [Function.update_of_ne here]
    exact fits j

theorem nonNegative_setRuntime (fits : NonNegative rt) {runtime : ℤ} (nonneg : 0 ≤ runtime) :
    NonNegative (setRuntime rt i (some runtime)) := by
  refine nonNegative_update fits fun own is => ?_
  rw [Option.mem_some_iff] at is
  exact is ▸ nonneg

theorem nonNegative_doBalanceRuntime (cpus : List Cpu) (fits : NonNegative rt) :
    NonNegative (doBalanceRuntime weight period seen c cpus rt) := by
  refine doBalanceRuntime_induction NonNegative
    (fun rt fits i other own runtime diff ownIs theirsIs ends enough => ?_) cpus fits
  exact nonNegative_setRuntime (nonNegative_setRuntime fits (sub_nonneg.mpr enough)) (ends (fits c own ownIs))

theorem nonNegative_reclaim {want : ℤ} (cpus : List Cpu) (fits : NonNegative rt) :
    NonNegative (reclaim c cpus want rt).2 := by
  refine reclaim_induction (fun _ => NonNegative) (fun still rt fits i other runtime theirs => ?_) cpus fits
  have holds := fits i runtime theirs
  refine nonNegative_setRuntime fits ?_
  unfold taken
  split <;> omega

theorem kept_nonNegative (cpus : List Cpu) : Kept cpus NonNegative where
  congr same fits j := by
    rw [same j]
    exact fits j
  lend _ _ _ _ := nonNegative_doBalanceRuntime cpus

theorem nonNegative_timer (fits : NonNegative s.rt) {overrun : ℕ} :
    NonNegative (s.timerStep cpus overrun seen).rt := by
  unfold State.timerStep
  split
  · exact fits
  · exact fits
  · split_ifs <;> exact fits
  · exact fits
  · next i _ _ _ _ =>
    have reset : NonNegative (s.unshared i).rt := by
      unfold State.unshared
      split
      · exact nonNegative_update fits (nonNegative_allowance s)
      · exact fits
    dsimp only
    split_ifs <;> exact reset
  · exact (kept_nonNegative cpus).visited fits

theorem nonNegative_offline (fits : NonNegative s.rt) : NonNegative (s.disableRuntime cpus c).rt := by
  refine nonNegative_update ?_ fun runtime is => ?_
  · unfold State.settle
    dsimp only
    split
    · exact fits
    · exact nonNegative_reclaim cpus fits
  · rw [schedRtRqEnqueue_rtRuntime] at is
    cases is

theorem nonNegative_step (fits : NonNegative s.rt) (a : Action Cpu) : NonNegative (step cpus s a).rt := by
  have kept := kept_nonNegative cpus
  cases a with
  | enqueue c =>
    rw [step, State.enqueue, startRtBandwidth_rt]
    exact kept.update (enqueueRtEntity_rtRuntime _) fits
  | dequeue c => exact kept.update (dequeueRtEntity_rtRuntime _) fits
  | account c delta seen => exact kept.updateCurrRt fits
  | other c joins => exact kept.update (other_rtRuntime _ _) fits
  | timer overrun seen => exact nonNegative_timer fits
  | offline c => exact nonNegative_offline fits
  | online c => exact nonNegative_update fits (nonNegative_allowance s)
  | write runtime period =>
    simp only [step]
    split <;> exact fits
  | spread =>
    simp only [step]
    split
    · intro c runtime is
      obtain ⟨assigned, _, rfl⟩ := Option.mem_map.mp is
      exact Int.natCast_nonneg assigned
    · exact fits
  | commit =>
    simp only [step]
    split <;> exact fits
  | feature share => exact fits

/-! ## Reclaiming -/

def Spent (want : ℤ) (rq : RtRq) : Prop := rq.rtRuntime = none ∨ 0 < want ∧ rq.rtRuntime = some 0

theorem Spent.of_pos {want still : ℤ} {rq : RtRq} (spent : Spent want rq) (positive : 0 < still) :
    Spent still rq :=
  spent.imp id fun emptied => ⟨positive, emptied.2⟩

theorem taken_of_left {want runtime : ℤ} (left : want - taken want runtime ≠ 0) :
    0 < want ∧ 0 < want - taken want runtime ∧ taken want runtime = runtime := by
  unfold taken at left ⊢
  split at left
  · next more =>
    rw [if_pos more]
    omega
  · exact absurd (sub_self want) left

theorem spent_of_reclaim {want : ℤ} {cpus : List Cpu} (left : (reclaim c cpus want rt).1 ≠ 0)
    (other : i ≠ c) (passed : i ∈ cpus ∨ Spent want (rt i)) :
    Spent want ((reclaim c cpus want rt).2 i) := by
  induction cpus generalizing want rt with
  | nil => exact passed.resolve_left List.not_mem_nil
  | cons j rest ih =>
    rw [reclaim] at left ⊢
    rw [List.mem_cons] at passed
    by_cases self : j = c
    · rw [if_pos self] at left ⊢
      exact ih left (passed.imp_left (Or.resolve_left · fun same => other (same.trans self)))
    rw [if_neg self] at left ⊢
    cases theirs : (rt j).rtRuntime with
    | none =>
      rw [theirs] at left
      refine ih left ?_
      rcases passed with (rfl | later) | spent
      · exact .inr (.inl theirs)
      · exact .inl later
      · exact .inr spent
    | some runtime =>
      rw [theirs] at left
      dsimp only at left ⊢
      split at left
      · exact absurd rfl left
      · next unsatisfied =>
        obtain ⟨more, still, all⟩ := taken_of_left unsatisfied
        rw [if_neg unsatisfied]
        refine (ih left ?_).of_pos more
        by_cases here : i = j
        · subst here
          refine .inr (.inr ⟨still, ?_⟩)
          rw [setRuntime_self, all, sub_self]
        · rw [setRuntime_of_ne here]
          rcases passed with (same | later) | spent
          · exact absurd same here
          · exact .inl later
          · exact .inr (spent.of_pos still)

theorem surplus_nonpos (share : ℕ) {want : ℤ} {rq : RtRq} (spent : Spent want rq) :
    surplus share rq ≤ 0 := by
  rcases spent with absent | ⟨_, emptied⟩
  · simp [surplus, absent]
  · simp [surplus, emptied]

theorem reclaim_nonneg {want : ℤ} (nonneg : 0 ≤ want) : 0 ≤ (reclaim c cpus want rt).1 := by
  refine reclaim_induction (fun still _ => 0 ≤ still) (fun still _ nonneg _ _ runtime _ => ?_) cpus nonneg
  unfold taken
  split <;> omega

theorem disableRuntime_of_settled
    (settled : (s.rt c).rtRuntime = none ∨ (s.rt c).rtRuntime = s.allowance) :
    s.disableRuntime cpus c =
      s.setRq c { s.rt c with rtRuntime := none, rtThrottled := false }.schedRtRqEnqueue := by
  simp [State.disableRuntime, State.settle, State.setRq, if_pos settled]

end Runtimes

/-! ## The law of the queues -/

variable [Fintype Cpu]

theorem even_congr {ref : Option ℕ} {after : Cpu → RtRq}
    (same : ∀ c, (after c).rtRuntime = (rt c).rtRuntime) : Even ref after ↔ Even ref rt := by
  cases ref with
  | none => simp only [Even, same]
  | some share => simp only [Even, surplus, same]

theorem even_spread (ref : Option ℕ) :
    Even ref fun c => { s.rt c with rtRuntime := ref.map Nat.cast } := by
  cases ref with
  | none => exact fun _ => rfl
  | some share => simp [Even, surplus]

theorem balanced_of_same {after : State Cpu} (now : Balanced s) (leaked : after.leaked = s.leaked)
    (ref : reference after = reference s) (same : ∀ c, (after.rt c).rtRuntime = (s.rt c).rtRuntime) :
    Balanced after := by
  refine ⟨leaked.trans now.1, ?_⟩
  rw [ref]
  exact (even_congr same).mpr now.2

theorem balanced_of_start {s : State Cpu} (start : Start s) : Balanced s := by
  refine ⟨start.leaked, ?_⟩
  have ref : reference s = s.runtime := by simp [reference, start.stage]
  rw [ref]
  refine (even_congr fun c => ?_).mpr (even_spread (s := s) s.runtime)
  exact start.runtime c

def Bounded (s : State Cpu) : Prop :=
  ∀ share ∈ reference s, ∀ c, ∀ runtime ∈ (s.rt c).rtRuntime,
    0 ≤ runtime ∧ runtime ≤ Fintype.card Cpu * share

theorem bounded_of_balanced {s : State Cpu} (balanced : Balanced s) (fits : NonNegative s.rt) : Bounded s := by
  intro share ref c runtime is
  refine ⟨fits c runtime is, ?_⟩
  have even := balanced.2
  rw [ref, Even] at even
  simp only [surplus, Finset.sum_sub_distrib, sub_eq_zero, Finset.sum_const, Finset.card_univ,
    nsmul_eq_mul] at even
  have parts : ∀ j, 0 ≤ (s.rt j).rtRuntime.getD (share : ℤ) := by
    intro j
    cases theirs : (s.rt j).rtRuntime with
    | none => exact Int.natCast_nonneg share
    | some r => exact fits j r theirs
  calc runtime = (s.rt c).rtRuntime.getD (share : ℤ) := by rw [is]; rfl
    _ ≤ ∑ j, (s.rt j).rtRuntime.getD (share : ℤ) :=
      Finset.single_le_sum (fun j _ => parts j) (Finset.mem_univ c)
    _ = Fintype.card Cpu * share := even

variable [DecidableEq Cpu]

theorem surplus_update {rq : RtRq} :
    ∑ j, surplus share (Function.update rt i rq j) =
      ∑ j, surplus share (rt j) + (rq.rtRuntime.getD share - (rt i).rtRuntime.getD share) := by
  have moved := sum_comp_update (fun _ => surplus share) rt i rq
  simp only [surplus] at moved ⊢
  linarith

theorem surplus_setRuntime {runtime : Option ℤ} :
    ∑ j, surplus share (setRuntime rt i runtime j) =
      ∑ j, surplus share (rt j) + (runtime.getD share - (rt i).rtRuntime.getD share) :=
  surplus_update

theorem even_doBalanceRuntime {ref : Option ℕ} (cpus : List Cpu) (even : Even ref rt) :
    Even ref (doBalanceRuntime weight period seen c cpus rt) := by
  refine doBalanceRuntime_induction (Even ref) (fun rt even i other own runtime diff ownIs theirsIs _ _ => ?_)
    cpus even
  cases ref with
  | none => cases ownIs.symm.trans (even c)
  | some share =>
    simp only [Even] at even ⊢
    rw [surplus_setRuntime, surplus_setRuntime, setRuntime_of_ne other.symm, ownIs, theirsIs, even]
    simp only [Option.getD_some]
    ring

theorem kept_even (cpus : List Cpu) (ref : Option ℕ) : Kept cpus (Even ref) where
  congr same := (even_congr same).mpr
  lend _ _ _ _ := even_doBalanceRuntime cpus

/-! ## A CPU goes offline -/

theorem surplus_reclaim {want : ℤ} (cpus : List Cpu) :
    ∑ j, surplus share ((reclaim c cpus want rt).2 j) - (reclaim c cpus want rt).1 =
      ∑ j, surplus share (rt j) - want := by
  refine reclaim_induction
    (fun still after => ∑ j, surplus share (after j) - still = ∑ j, surplus share (rt j) - want)
    (fun still between same i other runtime theirs => ?_) cpus rfl
  rw [surplus_setRuntime, theirs, ← same]
  simp only [Option.getD_some]
  ring

theorem surplus_leave {share want own : ℤ} {rq : RtRq} (ownIs : (rt c).rtRuntime = some own)
    (gone : rq.rtRuntime = none) :
    ∑ j, surplus share (Function.update (reclaim c cpus want rt).2 c rq j) =
      ∑ j, surplus share (rt j) - want + (reclaim c cpus want rt).1 + (share - own) := by
  have moved : ∑ j, surplus share ((reclaim c cpus want rt).2 j) - (reclaim c cpus want rt).1 =
      ∑ j, surplus share (rt j) - want := surplus_reclaim cpus
  rw [surplus_update, reclaim_self, ownIs, gone]
  simp only [Option.getD_none, Option.getD_some]
  linarith

/-- With nothing lost before, a CPU gets back all it lent. What it did not get would be a surplus
of the others, who have none: they have been emptied. -/
theorem reclaim_all (complete : ∀ c, c ∈ cpus) {share : ℕ} {own : ℤ}
    (even : ∑ j, surplus share (rt j) = 0) (ownIs : (rt c).rtRuntime = some own) :
    (reclaim c cpus (share - own) rt).1 = 0 := by
  by_contra left
  have total : ∑ j, surplus share (setRuntime (reclaim c cpus (share - own) rt).2 c none j) =
      (reclaim c cpus (share - own) rt).1 := by
    rw [setRuntime, surplus_leave ownIs rfl, even]
    ring
  have spent : ∀ j, Spent (share - own) (setRuntime (reclaim c cpus (share - own) rt).2 c none j) := by
    intro j
    by_cases here : j = c
    · subst here
      exact .inl (by rw [setRuntime_self])
    · rw [setRuntime_of_ne here]
      exact spent_of_reclaim left here (.inl (complete j))
  rcases lt_or_ge 0 (share - own) with lent | borrowed
  · have most := Finset.sum_nonpos fun j (_ : j ∈ Finset.univ) => surplus_nonpos share (spent j)
    have least : 0 ≤ (reclaim c cpus (share - own) rt).1 := reclaim_nonneg lent.le
    omega
  · have none : ∀ j, surplus share (setRuntime (reclaim c cpus (share - own) rt).2 c none j) = 0 := by
      intro j
      have absent := (spent j).resolve_right fun emptied => absurd emptied.1 borrowed.not_gt
      simp [surplus, absent]
    rw [Finset.sum_eq_zero fun j _ => none j] at total
    exact left total.symm

/-! ## The steps that keep the law -/

def Resets (s : State Cpu) (c : Cpu) : Prop :=
  match reference s with
  | none => s.runtime = none
  | some share => s.allowance.getD share = (s.rt c).rtRuntime.getD share

/-- Every reset leaves the runtime that the queue counts for as it was: the queue has no loans, and
the reset does not come between the two halves of a write that changes the runtime. Nor does a CPU
that takes part go offline between them. -/
def Orderly (s : State Cpu) : Action Cpu → Prop
  | .offline c => (s.rt c).rtRuntime = none ∨ s.runtime = reference s
  | .online c => Resets s c
  | .timer _ _ =>
    match s.timer with
    | .looks _ (i :: _) _ _ => s.share = true ∨ (s.rt i).rtRuntime = none ∨ Resets s i
    | _ => True
  | _ => True

theorem even_reset_iff (even : Even (reference s) s.rt) {rq : RtRq} (reset : rq.rtRuntime = s.allowance) :
    Even (reference s) (Function.update s.rt c rq) ↔ Resets s c := by
  unfold Resets
  cases ref : reference s with
  | none =>
    rw [ref] at even
    simp only [Even] at even ⊢
    constructor
    · intro all
      have here := all c
      rw [Function.update_self, reset] at here
      exact Option.map_eq_none_iff.mp here
    · intro unlimited j
      by_cases here : j = c
      · subst here
        rw [Function.update_self, reset, State.allowance, unlimited]
        rfl
      · rw [Function.update_of_ne here]
        exact even j
  | some share =>
    rw [ref] at even
    simp only [Even] at even ⊢
    rw [surplus_update, even, reset, zero_add, sub_eq_zero]

theorem balanced_leave_iff {share : ℕ} {own : ℤ} (now : Balanced s) (ref : reference s = some share)
    (ownIs : (s.rt c).rtRuntime = some own) (differs : (s.rt c).rtRuntime ≠ s.allowance) :
    Balanced (s.disableRuntime cpus c) ↔
      (reclaim c cpus (signed s.allowance - own) s.rt).1 = 0 ∧ signed s.allowance = share := by
  have even := now.2
  rw [ref, Even] at even
  have nothing : ¬ ((s.rt c).rtRuntime = none ∨ (s.rt c).rtRuntime = s.allowance) :=
    not_or.mpr ⟨by rw [ownIs]; exact Option.some_ne_none own, differs⟩
  have after : reference (s.disableRuntime cpus c) = some share := ref
  unfold Balanced
  rw [after, Even, State.disableRuntime, State.settle]
  simp only [if_neg nothing, now.1, Bool.false_or, bne_eq_false_iff_eq]
  rw [ownIs, signed]
  refine and_congr_right fun gotAll => ?_
  rw [surplus_leave ownIs (schedRtRqEnqueue_rtRuntime _), even, gotAll]
  constructor <;> intro h <;> omega

theorem balanced_offline_iff (complete : ∀ c, c ∈ cpus) (now : Balanced s) :
    Balanced (s.disableRuntime cpus c) ↔ (s.rt c).rtRuntime = none ∨ s.runtime = reference s := by
  cases own : (s.rt c).rtRuntime with
  | none =>
    rw [disableRuntime_of_settled (.inl own)]
    exact iff_of_true (balanced_of_same now rfl rfl
      (rtRuntime_update ((schedRtRqEnqueue_rtRuntime _).trans own.symm))) (.inl rfl)
  | some o =>
    have even := now.2
    cases ref : reference s with
    | none =>
      rw [ref] at even
      cases own.symm.trans (even c)
    | some share =>
      rw [ref, Even] at even
      rw [← signed_allowance_eq_iff, or_iff_right (Option.some_ne_none o)]
      by_cases settled : (s.rt c).rtRuntime = s.allowance
      · have after : reference (s.disableRuntime cpus c) = some share := ref
        rw [Balanced, after, Even, disableRuntime_of_settled (.inr settled), State.setRq, surplus_update, even,
          ← settled, own, signed]
        simp only [now.1, true_and, schedRtRqEnqueue_rtRuntime, Option.getD_none, Option.getD_some]
        omega
      · rw [balanced_leave_iff now ref own settled, and_iff_right_iff_imp]
        intro same
        rw [same]
        exact reclaim_all complete even own

theorem balanced_unshared_iff (now : Balanced s) :
    Balanced (s.unshared i) ↔ s.share = true ∨ (s.rt i).rtRuntime = none ∨ Resets s i := by
  unfold State.unshared
  split
  · next resets =>
    have after : reference (s.setRq i { s.rt i with rtRuntime := s.allowance }) = reference s := rfl
    rw [Balanced, after, State.setRq, even_reset_iff now.2 rfl]
    simp [now.1, resets.1, resets.2]
  · next keeps =>
    refine iff_of_true now ?_
    rw [not_and_or, Bool.not_eq_false, not_not] at keeps
    exact keeps.imp id .inl

theorem balanced_timer_iff (now : Balanced s) {overrun : ℕ} :
    Balanced (s.timerStep cpus overrun seen) ↔ Orderly s (.timer overrun seen) := by
  unfold State.timerStep Orderly
  cases at' : s.timer with
  | off => exact iff_of_true now trivial
  | armed => exact iff_of_true now trivial
  | forwards idle =>
    refine iff_of_true ?_ trivial
    dsimp only
    split_ifs <;> exact now
  | visits n i rest idle throttled => exact iff_of_true ⟨now.1, (kept_even cpus _).visited now.2⟩ trivial
  | looks n todo idle throttled =>
    cases todo with
    | nil => exact iff_of_true now trivial
    | cons i rest =>
      refine Iff.trans ?_ (balanced_unshared_iff now)
      dsimp only
      split_ifs <;> exact Iff.rfl

theorem balanced_step_iff (complete : ∀ c, c ∈ cpus) (now : Balanced s) (a : Action Cpu) :
    Balanced (step cpus s a) ↔ Orderly s a := by
  cases a with
  | enqueue c =>
    obtain ⟨leaked, ref⟩ := startRtBandwidth_frame (s := s.setRq c (s.rt c).enqueueRtEntity)
    refine iff_of_true (balanced_of_same now leaked ref fun j => ?_) trivial
    rw [step, State.enqueue, startRtBandwidth_rt]
    exact rtRuntime_update (enqueueRtEntity_rtRuntime _) j
  | dequeue c =>
    exact iff_of_true (balanced_of_same now rfl rfl (rtRuntime_update (dequeueRtEntity_rtRuntime _))) trivial
  | account c delta seen =>
    refine iff_of_true ⟨updateCurrRt_frame.1.trans now.1, ?_⟩ trivial
    rw [step, updateCurrRt_frame.2]
    exact (kept_even cpus _).updateCurrRt now.2
  | other c joins =>
    exact iff_of_true (balanced_of_same now rfl rfl (rtRuntime_update (other_rtRuntime _ _))) trivial
  | timer overrun seen => exact balanced_timer_iff now
  | offline c => exact balanced_offline_iff complete now
  | online c =>
    have after : reference (s.enableRuntime c) = reference s := rfl
    rw [step, Orderly, Balanced, after, State.enableRuntime, State.setRq, even_reset_iff now.2 rfl]
    simp [now.1]
  | write runtime period =>
    refine iff_of_true ?_ trivial
    simp only [step]
    split
    · next admitted =>
      refine balanced_of_same now rfl ?_ fun _ => rfl
      simp [reference, admitted.1]
    · exact now
  | spread =>
    refine iff_of_true ?_ trivial
    simp only [step]
    split
    · refine ⟨now.1, ?_⟩
      simp only [reference, if_true]
      exact even_spread _
    · exact now
  | commit =>
    refine iff_of_true ?_ trivial
    simp only [step]
    split
    · next spread =>
      refine balanced_of_same now rfl ?_ fun _ => rfl
      simp [reference, spread]
    · exact now
  | feature share => exact iff_of_true now trivial

/-! ## Whole runs -/

theorem neverLeaks_iff_orderly {s : State Cpu} {cpus : List Cpu} {acts : List (Action Cpu)}
    (complete : ∀ c, c ∈ cpus) (start : Start s) :
    Always (step cpus) (fun s => Balanced s ∧ Bounded s) s acts ↔ Along (step cpus) Orderly s acts := by
  have iff_step : ∀ s a, True → NonNegative s.rt → Balanced s ∧ Bounded s →
      (Balanced (step cpus s a) ∧ Bounded (step cpus s a) ↔ Orderly s a) := by
    intro s a _ fits now
    rw [← balanced_step_iff complete now.1]
    exact and_iff_left_of_imp fun after => bounded_of_balanced after (nonNegative_step fits a)
  have fits := nonNegative_of_start start
  have now := balanced_of_start start
  exact always_iff_along (fun s => NonNegative s.rt) (fun s => Balanced s ∧ Bounded s)
    (fun s a _ fits => nonNegative_step fits a) iff_step fits ⟨now, bounded_of_balanced now fits⟩
    (along_of_forall (fun _ _ => trivial) s acts)

/-- Two idle CPUs that may each run real-time tasks for 950 of 1000 microseconds. -/
def twoIdle : State Bool where
  rt _ :=
    { rtRuntime := some 950000, rtTime := 0, rtThrottled := false, rtNrRunning := 0, rtQueued := false,
      nrRunning := 0, nrOther := 0, bug := false }
  sysctlRuntime := some 950
  sysctlPeriod := 1000
  stage := .idle
  runtime := some 950000
  period := 1000000
  periodActive := false
  timer := .off
  share := true
  leaked := false

theorem start_twoIdle : Start twoIdle := by
  constructor <;> intros <;> rfl

def lendsAndLeaves : List (Action Bool) :=
  [.enqueue false, .account false 960000 fun _ => 0, .offline true, .online true]

theorem neverLeaks_iff_orderly_lends :
    Always (step [false, true]) (fun s => Balanced s ∧ Bounded s) twoIdle lendsAndLeaves := by
  refine (neverLeaks_iff_orderly (by decide) start_twoIdle).mpr ⟨trivial, trivial, .inr ?_, ?_, trivial⟩
  · decide
  · exact rfl

/-- A CPU that goes offline after a write has lowered the runtimes of the queues, and before it has
reached `def_rt_bandwidth`, wants more than there is. -/
example : (run (step [false, true]) twoIdle [.write (some 100) 1000, .spread, .offline true]).leaked = true := by
  decide

end UnixSystems.RtRuntime
