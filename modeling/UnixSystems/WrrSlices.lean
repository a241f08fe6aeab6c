import UnixSystems.WrrRoundRobin

/-! The slices that tasks of the policy are given. `taskTickWrr` refills a slice with the product
of the weight and `WRR_TIMESLICE`, and `getRrIntervalWrr` returns the same product. Whatever the
type of the constant, the product is kept modulo 2^32, and `set_wrr_weight` bounds a weight only
from below.

Ticks of any task on any run queue and system calls of any task follow each other in any order.
A call that is refused changes nothing, so runs with refused calls are covered as well. -/
namespace UnixSystems.WrrSlices
open GuardedRuns WrrModel WrrRoundRobin
open WrrConservation hiding Action step Enabled

inductive Action where
  | taskTick (cpu : ℕ) (p : Pid)
  | setWrrWeight (current : Pid) (weight : Int32) (now : UInt64)
  | clock (cpu : ℕ) (now : UInt64)

def step (cfg : Config) (s : State) : Action → State
  | .taskTick cpu p => taskTickWrr cfg s cpu p
  | .setWrrWeight current weight now => (setWrrWeight s current weight now).1
  | .clock cpu now => updateRqClock s cpu now

/-- In the course of a run, a task of the policy that has this weight is given this slice: either
its interval is asked for, or a tick uses up its slice and refills it. -/
inductive Gives (cfg : Config) (s : State) (acts : List Action) : UInt32 → UInt32 → Prop where
  | interval {t : State} (cpu : ℕ) (p : Pid) : Visits (step cfg) s acts t →
      (t.task p).policy = .wrr →
      Gives cfg s acts (t.task p).wrr.weight (getRrIntervalWrr cfg t cpu p)
  | refill {t : State} (cpu : ℕ) (p : Pid) : Takes (step cfg) s acts t (.taskTick cpu p) →
      (t.task p).policy = .wrr → (t.task p).wrr.timeSlice - 1 = 0 →
      Gives cfg s acts (t.task p).wrr.weight ((taskTickWrr cfg t cpu p).task p).wrr.timeSlice

/-- No slice wraps during the run, for a `WRR_TIMESLICE` of `T`. -/
structure NeverWraps (T : ℕ) (cfg : Config) (s : State) (acts : List Action) : Prop where
  product : ∀ weight slice, Gives cfg s acts weight slice → slice.toNat = weight.toNat * T
  left : Always (step cfg) (fun t => ∀ p, (t.task p).wrr.timeSlice ≠ 0) s acts
  decrement : ∀ t cpu p, Takes (step cfg) s acts t (.taskTick cpu p) → (t.task p).policy = .wrr →
    ((t.task p).wrr.timeSlice - 1).toNat + 1 = (t.task p).wrr.timeSlice.toNat
  ordered : ∀ weight slice heavier longer, Gives cfg s acts weight slice →
    Gives cfg s acts heavier longer → weight ≤ heavier → slice ≤ longer

def CallFits (T : ℕ) (s : State) : Action → Prop
  | .setWrrWeight p weight now => (setWrrWeight s p weight now).2 = 0 → (s.task p).policy = .wrr →
      weight.toInt * T < 2 ^ 32
  | _ => True

/-- All the weights that tasks of the policy have at the start or set during the run fit. -/
structure ProductsFit (T : ℕ) (s : State) (acts : List Action) : Prop where
  start : ∀ p, (s.task p).policy = .wrr → (s.task p).wrr.weight.toNat * T < 2 ^ 32
  calls : ∀ a ∈ acts, CallFits T s a

/-! ## What a step makes of weights and slices -/

structure SameKinds (s t : State) : Prop where
  policy : ∀ p, (t.task p).policy = (s.task p).policy
  schedClass : ∀ p, (t.task p).schedClass = (s.task p).schedClass

def weights (s : State) (p : Pid) : UInt32 := (s.task p).wrr.weight

def slices (s : State) (p : Pid) : UInt32 := (s.task p).wrr.timeSlice

/-- These are the weights and the slices in `t`; policies and classes are those of `s`. -/
structure Shares (s t : State) (weight slice : Pid → UInt32) : Prop extends SameKinds s t where
  weight : ∀ p, (t.task p).wrr.weight = weight p
  slice : ∀ p, (t.task p).wrr.timeSlice = slice p

def ticked (cfg : Config) (s : State) (p : Pid) : UInt32 :=
  if (s.task p).wrr.timeSlice - 1 = 0 then (s.task p).wrr.weight * cfg.timeslice
  else (s.task p).wrr.timeSlice - 1

section Steps

variable {s t u : State} {weight slice : Pid → UInt32} {p : Pid}

theorem SameKinds.refl (s : State) : SameKinds s s := ⟨fun _ => rfl, fun _ => rfl⟩

theorem SameKinds.trans (first : SameKinds s t) (second : SameKinds t u) : SameKinds s u :=
  ⟨fun p => (second.policy p).trans (first.policy p),
    fun p => (second.schedClass p).trans (first.schedClass p)⟩

theorem Shares.refl (s : State) : Shares s s (weights s) (slices s) :=
  ⟨SameKinds.refl s, fun _ => rfl, fun _ => rfl⟩

theorem shares_of_accounted (same : Accounted s t) : Shares s t (weights s) (slices s) where
  policy := fun p => congrArg (·.1) (same.task p)
  schedClass := fun p => congrArg (·.2.1) (same.task p)
  weight := same.sameQueues.weight
  slice := fun p => congrArg (·.2.2.2.2) (same.task p)

theorem Shares.congr (shares : Shares s t weight slice) (same : u.task = t.task) :
    Shares s u weight slice where
  policy := fun p => by rw [same, shares.policy]
  schedClass := fun p => by rw [same, shares.schedClass]
  weight := fun p => by rw [same, shares.weight]
  slice := fun p => by rw [same, shares.slice]

theorem Shares.modifyTask (shares : Shares s t weight slice) (p : Pid) (f : Task → Task)
    (policy : (f (t.task p)).policy = (t.task p).policy)
    (schedClass : (f (t.task p)).schedClass = (t.task p).schedClass) :
    Shares s (t.modifyTask p f) (Function.update weight p (f (t.task p)).wrr.weight)
      (Function.update slice p (f (t.task p)).wrr.timeSlice) := by
  refine ⟨⟨fun q => ?_, fun q => ?_⟩, fun q => ?_, fun q => ?_⟩ <;> by_cases own : q = p <;>
    simp [State.modifyTask, own, policy, schedClass, shares.policy, shares.schedClass, shares.weight,
      shares.slice]

theorem Shares.setSlice (shares : Shares s t weight slice) (p : Pid) (new : UInt32) :
    Shares s (setSlice t p new) weight (Function.update slice p new) := by
  have changed := shares.modifyTask p
    (fun task => { task with wrr := { task.wrr with timeSlice := new } }) rfl rfl
  rwa [shares.weight, Function.update_eq_self] at changed

theorem Shares.sliceExpired (shares : Shares s t weight slice) (cfg : Config) (cpu : ℕ) (p : Pid) :
    Shares s (sliceExpired cfg t cpu p) weight (Function.update slice p (weight p * cfg.timeslice)) := by
  rw [← shares.weight]
  have refilled := shares.setSlice p ((t.task p).wrr.weight * cfg.timeslice)
  unfold WrrModel.sliceExpired
  dsimp only
  split_ifs
  · exact refilled.congr rfl
  · exact refilled

theorem shares_taskTickWrr (cfg : Config) (s : State) (cpu : ℕ) (p : Pid) :
    Shares s (taskTickWrr cfg s cpu p) (weights s)
      (if (s.task p).policy = .wrr then Function.update (slices s) p (ticked cfg s p) else slices s) := by
  obtain ⟨t, same, tick⟩ := exists_taskTickWrr_eq cfg cpu s p
  have accounted := shares_of_accounted same
  have counted := accounted.setSlice p ((s.task p).wrr.timeSlice - 1)
  rw [tick, ticked]
  by_cases policy : (s.task p).policy = .wrr
  · rw [if_neg (not_not.mpr policy), if_pos policy]
    by_cases spent : (s.task p).wrr.timeSlice - 1 = 0
    · rw [if_neg (not_not.mpr spent), if_pos spent]
      have refilled := counted.sliceExpired cfg cpu p
      rwa [Function.update_idem] at refilled
    · rw [if_pos spent, if_neg spent]
      exact counted
  · rw [if_pos policy, if_neg policy]
    exact accounted

theorem shares_setWrrWeightLocked (s : State) (p : Pid) (weight : Int32) (now : UInt64) :
    Shares s (setWrrWeightLocked s p weight now)
      (Function.update (weights s) p weight.toUInt32) (slices s) := by
  -- the run queue is written first, which no task notices
  have queue := (Shares.refl s).congr (u := (updateRqClock s (s.task p).cpu now).modifyRq
    (s.task p).cpu fun rq => { rq with wrr := { rq.wrr with
      totalWeight := rq.wrr.totalWeight - (s.task p).wrr.weight + weight.toUInt32 } }) rfl
  have stored := queue.modifyTask p
    (fun t => { t with wrr := { t.wrr with weight := weight.toUInt32 } }) rfl rfl
  have kept : Function.update (slices s) p (s.task p).wrr.timeSlice = slices s :=
    Function.update_eq_self p (slices s)
  exact kept ▸ stored

theorem setWrrWeight_accepts_iff (s : State) (p : Pid) (weight : Int32) (now : UInt64) :
    (setWrrWeight s p weight now).2 = 0 ↔ 1 ≤ weight.toInt ∧ (s.task p).schedClass = .wrr := by
  have least : weight < 1 ↔ ¬ 1 ≤ weight.toInt := by
    rw [Int32.lt_iff_toInt_lt, Int32.toInt_one, not_le]
  unfold setWrrWeight
  split_ifs with negative other
  · simp [least.mp negative, Errno.einval]
  · simp [other, Errno.eacces]
  · simp [not_not.mp (mt least.mpr negative), not_not.mp other]

theorem setWrrWeight_fst (s : State) (p : Pid) (weight : Int32) (now : UInt64) :
    (setWrrWeight s p weight now).1 =
      if (setWrrWeight s p weight now).2 = 0 then setWrrWeightLocked s p weight now else s := by
  unfold setWrrWeight
  by_cases negative : weight < 1
  · simp [negative, Errno.einval]
  · by_cases wrr : (s.task p).schedClass = .wrr <;> simp [negative, wrr, Errno.eacces]

theorem shares_setWrrWeight (s : State) (p : Pid) (weight : Int32) (now : UInt64) :
    Shares s (setWrrWeight s p weight now).1
      (if (setWrrWeight s p weight now).2 = 0 then Function.update (weights s) p weight.toUInt32
        else weights s) (slices s) := by
  rw [setWrrWeight_fst]
  split_ifs
  · exact shares_setWrrWeightLocked s p weight now
  · exact Shares.refl s

theorem setWrrWeight_forall_weight {P : Pid → UInt32 → Prop} {weight : Int32} {now : UInt64}
    (before : ∀ q, P q (s.task q).wrr.weight)
    (chosen : (setWrrWeight s p weight now).2 = 0 → P p weight.toUInt32) (q : Pid) :
    P q ((setWrrWeight s p weight now).1.task q).wrr.weight := by
  rw [(shares_setWrrWeight s p weight now).weight]
  split_ifs with accepts
  · exact (Function.forall_update_iff (weights s) P).mpr ⟨chosen accepts, fun q _ => before q⟩ q
  · exact before q

theorem taskTickWrr_forall_slice {P : Pid → UInt32 → Prop} {cfg : Config} {cpu : ℕ}
    (before : ∀ q, P q (s.task q).wrr.timeSlice)
    (counts : (s.task p).policy = .wrr → P p (ticked cfg s p)) (q : Pid) :
    P q ((taskTickWrr cfg s cpu p).task q).wrr.timeSlice := by
  rw [(shares_taskTickWrr cfg s cpu p).slice]
  split_ifs with policy
  · exact (Function.forall_update_iff (slices s) P).mpr ⟨counts policy, fun q _ => before q⟩ q
  · exact before q

theorem shares_updateRqClock (s : State) (cpu : ℕ) (now : UInt64) :
    Shares s (updateRqClock s cpu now) (weights s) (slices s) :=
  (Shares.refl s).congr rfl

theorem sameKinds_step (cfg : Config) (s : State) (a : Action) : SameKinds s (step cfg s a) := by
  cases a with
  | taskTick cpu p => exact (shares_taskTickWrr cfg s cpu p).toSameKinds
  | setWrrWeight p weight now => exact (shares_setWrrWeight s p weight now).toSameKinds
  | clock cpu now => exact (shares_updateRqClock s cpu now).toSameKinds

theorem sameKinds_of_visits {cfg : Config} {acts : List Action}
    (visits : Visits (step cfg) s acts t) : SameKinds s t := by
  have always : Always (step cfg) (SameKinds s) s acts :=
    always_of_invariant (SameKinds s) (fun t a _ same => same.trans (sameKinds_step cfg t a))
      (fun _ same => same) (SameKinds.refl s) (along_of_forall (fun _ _ => trivial) s acts)
  exact always.of_visits visits

end Steps

/-! ## Runs whose products fit -/

/-- The state `t` has the kinds of tasks that `s` has, with time left, and no refill wraps. -/
structure Sound (T : ℕ) (s t : State) : Prop extends SameKinds s t where
  weight : ∀ p, 1 ≤ (t.task p).wrr.weight.toNat
  slice : ∀ p, (t.task p).wrr.timeSlice ≠ 0
  fits : ∀ p, (s.task p).policy = .wrr → (t.task p).wrr.weight.toNat * T < 2 ^ 32

section Sound

variable {T : ℕ} {cfg : Config} {s t : State} {acts : List Action}

theorem getRrIntervalWrr_of_policy {p : Pid} (policy : (t.task p).policy = .wrr) (cpu : ℕ) :
    getRrIntervalWrr cfg t cpu p = (t.task p).wrr.weight * cfg.timeslice :=
  if_pos policy

theorem Sound.product (sound : Sound T s t) (timeslice : cfg.timeslice = UInt32.ofNat T) {p : Pid}
    (policy : (t.task p).policy = .wrr) :
    ((t.task p).wrr.weight * cfg.timeslice).toNat = (t.task p).wrr.weight.toNat * T := by
  rw [timeslice]
  exact (UInt32.toNat_mul_ofNat_eq_iff _ T).mpr (sound.fits p (sound.policy p ▸ policy))

theorem Sound.ticked_ne_zero (sound : Sound T s t) (timeslice : cfg.timeslice = UInt32.ofNat T)
    (pos : 1 ≤ T) {p : Pid} (policy : (t.task p).policy = .wrr) : ticked cfg t p ≠ 0 := by
  unfold ticked
  split_ifs with spent
  · intro zero
    have product := sound.product timeslice policy
    have some_left := Nat.mul_pos (sound.weight p) pos
    rw [zero, UInt32.toNat_zero] at product
    omega
  · exact spent

theorem Sound.taskTickWrr (sound : Sound T s t) (timeslice : cfg.timeslice = UInt32.ofNat T)
    (pos : 1 ≤ T) (cpu : ℕ) (p : Pid) : Sound T s (taskTickWrr cfg t cpu p) := by
  have shares := shares_taskTickWrr cfg t cpu p
  refine ⟨sound.toSameKinds.trans shares.toSameKinds, fun q => ?_, ?_, fun q policy => ?_⟩
  · rw [shares.weight]
    exact sound.weight q
  · exact @taskTickWrr_forall_slice t p (fun _ slice => slice ≠ 0) cfg cpu sound.slice fun policy =>
      sound.ticked_ne_zero timeslice pos policy
  · rw [shares.weight]
    exact sound.fits q policy

theorem toNat_toUInt32_mul (weight : Int32) (least : 1 ≤ weight.toInt) (T : ℕ) :
    ((weight.toUInt32.toNat * T : ℕ) : Int) = weight.toInt * T := by
  rw [Nat.cast_mul, Int32.toNat_toUInt32_of_nonneg (by omega)]

theorem Sound.setWrrWeight (sound : Sound T s t) {p : Pid} {weight : Int32} {now : UInt64}
    (fits : CallFits T s (.setWrrWeight p weight now)) : Sound T s (setWrrWeight t p weight now).1 := by
  have shares := shares_setWrrWeight t p weight now
  refine ⟨sound.toSameKinds.trans shares.toSameKinds, ?_, fun q => ?_, ?_⟩
  · refine @setWrrWeight_forall_weight t p (fun _ w => 1 ≤ w.toNat) weight now sound.weight fun accepts => ?_
    obtain ⟨least, _⟩ := (setWrrWeight_accepts_iff t p weight now).mp accepts
    have exact := Int32.toNat_toUInt32_of_nonneg (x := weight) (by omega)
    omega
  · rw [shares.slice]
    exact sound.slice q
  · refine @setWrrWeight_forall_weight t p (fun q w => (s.task q).policy = .wrr → w.toNat * T < 2 ^ 32)
      weight now sound.fits fun accepts policy => ?_
    obtain ⟨least, wrr⟩ := (setWrrWeight_accepts_iff t p weight now).mp accepts
    -- the caller has had its class from the start
    have accepted := (setWrrWeight_accepts_iff s p weight now).mpr ⟨least, sound.schedClass p ▸ wrr⟩
    have bound := fits accepted policy
    rw [← toNat_toUInt32_mul weight least T] at bound
    exact_mod_cast bound

theorem Sound.step (sound : Sound T s t) (timeslice : cfg.timeslice = UInt32.ofNat T) (pos : 1 ≤ T)
    {a : Action} (fits : CallFits T s a) : Sound T s (step cfg t a) := by
  cases a with
  | taskTick cpu p => exact sound.taskTickWrr timeslice pos cpu p
  | setWrrWeight p weight now => exact sound.setWrrWeight fits
  | clock cpu now =>
    have shares := shares_updateRqClock t cpu now
    exact ⟨sound.toSameKinds.trans shares.toSameKinds, sound.weight, sound.slice, sound.fits⟩

theorem always_sound (timeslice : cfg.timeslice = UInt32.ofNat T) (pos : 1 ≤ T) (sound : Sound T s s)
    (fits : ∀ a ∈ acts, CallFits T s a) : Always (WrrSlices.step cfg) (Sound T s) s acts := by
  have admitted : Along (WrrSlices.step cfg) (fun _ a => CallFits T s a) s acts :=
    along_of_forall_mem s fun a member _ => fits a member
  exact always_of_invariant (Sound T s) (fun t a fits sound => sound.step timeslice pos fits)
    (fun _ sound => sound) sound admitted

theorem Gives.product {weight slice : UInt32} (gives : Gives cfg s acts weight slice)
    (timeslice : cfg.timeslice = UInt32.ofNat T) (always : Always (WrrSlices.step cfg) (Sound T s) s acts) :
    slice.toNat = weight.toNat * T := by
  cases gives with
  | @interval t cpu p visits policy =>
    rw [getRrIntervalWrr_of_policy policy]
    exact (always.of_visits visits).product timeslice policy
  | @refill t cpu p takes policy spent =>
    have refilled := (shares_taskTickWrr cfg t cpu p).slice p
    rw [if_pos policy, Function.update_self, ticked, if_pos spent] at refilled
    rw [refilled]
    exact (always.of_visits takes.visits).product timeslice policy

theorem neverWraps_of_sound (timeslice : cfg.timeslice = UInt32.ofNat T)
    (always : Always (WrrSlices.step cfg) (Sound T s) s acts) : NeverWraps T cfg s acts where
  product := fun _ _ gives => gives.product timeslice always
  left := fun front begins => (always front begins).slice
  decrement := fun t cpu p takes _ => UInt32.toNat_sub_one_add_one ((always.of_visits takes.visits).slice p)
  ordered := fun weight slice heavier longer first second le => by
    rw [UInt32.le_iff_toNat_le, first.product timeslice always, second.product timeslice always]
    exact Nat.mul_le_mul_right T (UInt32.le_iff_toNat_le.mp le)

theorem ProductsFit.neverWraps (fits : ProductsFit T s acts)
    (timeslice : cfg.timeslice = UInt32.ofNat T) (pos : 1 ≤ T)
    (weight : ∀ p, 1 ≤ (s.task p).wrr.weight) (slice : ∀ p, 1 ≤ (s.task p).wrr.timeSlice) :
    NeverWraps T cfg s acts := by
  have sound : Sound T s s := by
    refine ⟨SameKinds.refl s, fun p => UInt32.le_iff_toNat_le.mp (weight p), fun p zero => ?_, fits.start⟩
    have some_left := slice p
    rw [zero] at some_left
    exact absurd some_left (by decide)
  exact neverWraps_of_sound timeslice (always_sound timeslice pos sound fits.calls)

end Sound

/-! ## Runs whose products do not fit -/

section Wraps

variable {T : ℕ} {cfg : Config} {s t : State} {acts : List Action}

theorem NeverWraps.fits (never : NeverWraps T cfg s acts) (timeslice : cfg.timeslice = UInt32.ofNat T)
    (visits : Visits (step cfg) s acts t) {p : Pid} (policy : (t.task p).policy = .wrr) :
    (t.task p).wrr.weight.toNat * T < 2 ^ 32 := by
  have told := never.product _ _ (.interval 0 p visits policy)
  rw [getRrIntervalWrr_of_policy policy, timeslice] at told
  exact (UInt32.toNat_mul_ofNat_eq_iff _ T).mp told

theorem NeverWraps.callFits (never : NeverWraps T cfg s acts)
    (timeslice : cfg.timeslice = UInt32.ofNat T) {a : Action} (member : a ∈ acts) : CallFits T s a := by
  cases a with
  | taskTick cpu p => trivial
  | clock cpu now => trivial
  | setWrrWeight p weight now =>
    intro accepts policy
    obtain ⟨least, wrr⟩ := (setWrrWeight_accepts_iff s p weight now).mp accepts
    obtain ⟨t, takes⟩ := exists_takes_of_mem (step cfg) s member
    have kinds := sameKinds_of_visits takes.visits
    have accepted : (setWrrWeight t p weight now).2 = 0 :=
      (setWrrWeight_accepts_iff t p weight now).mpr ⟨least, (kinds.schedClass p).trans wrr⟩
    have shares := shares_setWrrWeight t p weight now
    rw [if_pos accepted] at shares
    have fits := never.fits timeslice takes.visits_step
      ((sameKinds_of_visits takes.visits_step).policy p |>.trans policy)
    rw [step, shares.weight, Function.update_self] at fits
    rw [← toNat_toUInt32_mul weight least T]
    exact_mod_cast fits

theorem NeverWraps.productsFit (never : NeverWraps T cfg s acts)
    (timeslice : cfg.timeslice = UInt32.ofNat T) : ProductsFit T s acts where
  start := fun _ policy => never.fits timeslice (visits_start (step cfg) s acts) policy
  calls := fun _ member => never.callFits timeslice member

end Wraps

theorem neverWraps_iff_productsFit (T : ℕ) (pos : 1 ≤ T) (cfg : Config)
    (timeslice : cfg.timeslice = UInt32.ofNat T) (s : State)
    (weight : ∀ p, 1 ≤ (s.task p).wrr.weight) (slice : ∀ p, 1 ≤ (s.task p).wrr.timeSlice)
    (acts : List Action) : NeverWraps T cfg s acts ↔ ProductsFit T s acts :=
  ⟨fun never => never.productsFit timeslice, fun fits => fits.neverWraps timeslice pos weight slice⟩

def fourTicks : Config := ⟨4, 1000, true, true⟩

def light : State :=
  let idle := { quiet with task := fun _ => ⟨⟨0, 0, 0⟩, ⟨1, 4, 0⟩, .wrr, .wrr, 0, rlimInfinity, 0⟩ }
  (enqueueTaskWrr idle 0 (.nth 0) 0).modifyRq 0 fun rq => { rq with curr := some (.nth 0) }

theorem light_start :
    (∀ p, 1 ≤ (light.task p).wrr.weight) ∧ ∀ p, 1 ≤ (light.task p).wrr.timeSlice :=
  ⟨fun _ => UInt32.le_refl 1, fun _ => (by decide : (1 : UInt32) ≤ 4)⟩

def reweigh (weight : Int32) (ticks : ℕ) : List Action :=
  .setWrrWeight (.nth 0) weight 0 :: List.replicate ticks (.taskTick 0 (.nth 0))

theorem callFits_reweigh {weight : Int32} {T : ℕ} (fits : weight.toInt * T < 2 ^ 32) (ticks : ℕ)
    (s : State) : ∀ a ∈ reweigh weight ticks, CallFits T s a := by
  intro a member
  rcases List.mem_cons.mp member with rfl | tick
  · exact fun _ _ => fits
  · rw [List.eq_of_mem_replicate tick]
    trivial

theorem neverWraps_iff_productsFit_light :
    NeverWraps 4 fourTicks light (reweigh 3 4) ∧
      ((run (step fourTicks) light (reweigh 3 4)).task (.nth 0)).wrr.timeSlice = 12 := by
  have fits : ProductsFit 4 light (reweigh 3 4) :=
    ⟨fun _ _ => (by decide : 1 * 4 < 2 ^ 32), callFits_reweigh (by decide) 4 light⟩
  have never := (neverWraps_iff_productsFit 4 (by decide) fourTicks rfl light light_start.1
    light_start.2 (reweigh 3 4)).mpr fits
  exact ⟨never, by decide⟩

/-- Four times 2^30 is 0 in an `unsigned int`: the interval is shorter than that of weight 1, the
refill leaves no time, and the next tick takes the slice below 0. -/
theorem heavy_slice_wraps :
    (∀ p, 1 ≤ (light.task p).wrr.weight) ∧ (∀ p, 1 ≤ (light.task p).wrr.timeSlice) ∧
      (setWrrWeight light (.nth 0) 0x40000000 0).2 = 0 ∧
      getRrIntervalWrr fourTicks light 0 (.nth 0) = 4 ∧
      getRrIntervalWrr fourTicks (run (step fourTicks) light (reweigh 0x40000000 0)) 0 (.nth 0) = 0 ∧
      ((run (step fourTicks) light (reweigh 0x40000000 4)).task (.nth 0)).wrr.timeSlice = 0 ∧
      ((run (step fourTicks) light (reweigh 0x40000000 5)).task (.nth 0)).wrr.timeSlice = 0xFFFFFFFF ∧
      ¬ NeverWraps 4 fourTicks light (reweigh 0x40000000 4) := by
  have empty : ((run (step fourTicks) light (reweigh 0x40000000 4)).task (.nth 0)).wrr.timeSlice = 0 := by
    decide
  refine ⟨light_start.1, light_start.2, by decide, by decide, by decide, empty, by decide,
    fun never => ?_⟩
  exact never.left _ (List.prefix_refl _) (.nth 0) empty

/-- The system call accepts weights up to 2^31 - 1, so a `WRR_TIMESLICE` of at most 2 is safe in
every run, and no other is. -/
theorem forall_neverWraps_iff {T : ℕ} (pos : 1 ≤ T) {cfg : Config}
    (timeslice : cfg.timeslice = UInt32.ofNat T) {s : State} (weight : ∀ p, 1 ≤ (s.task p).wrr.weight)
    (bound : ∀ p, (s.task p).wrr.weight.toNat < 2 ^ 31) (slice : ∀ p, 1 ≤ (s.task p).wrr.timeSlice)
    {p : Pid} (policy : (s.task p).policy = .wrr) (schedClass : (s.task p).schedClass = .wrr) :
    (∀ acts, NeverWraps T cfg s acts) ↔ T ≤ 2 := by
  constructor
  · intro never
    have fits := (never [.setWrrWeight p 0x7FFFFFFF 0]).callFits timeslice (List.mem_singleton_self _)
    have accepts := (setWrrWeight_accepts_iff s p 0x7FFFFFFF 0).mpr ⟨by decide, schedClass⟩
    have product : (2 ^ 31 - 1 : Int) * T < 2 ^ 32 := fits accepts policy
    omega
  · intro small acts
    refine ProductsFit.neverWraps ⟨fun q _ => ?_, fun a _ => ?_⟩ timeslice pos weight slice
    · have := bound q
      nlinarith
    · cases a with
      | taskTick cpu q => trivial
      | clock cpu now => trivial
      | setWrrWeight q chosen now =>
        intro accepts _
        have high := chosen.toInt_lt
        have least := ((setWrrWeight_accepts_iff s q chosen now).mp accepts).1
        nlinarith

end UnixSystems.WrrSlices
