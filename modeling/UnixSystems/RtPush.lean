import UnixSystems.RtPushModel
import UnixSystems.Tallies

/-! Two laws of the push protocol. The irq work is in one place at a time, so that queueing it never
fails and the root domain is held exactly as long as needed. And a request is lost in one situation
only: another requester holds `rto_loop_start` although it has already decided that nothing needs
to be started, and the irq work, which it relied on, has come to its end since. -/

namespace UnixSystems.RtPush
open GuardedRuns RtPushModel Tallies

variable {Cpu : Type} [LinearOrder Cpu]

/-! ## Where the irq work is -/

def plain : Activity Cpu → Bool
  | .idle | .tryStart | .acquire true | .test | .release _ none | .startUnlock none | .putRd => true
  | _ => false

def target (t : Cpu) : Activity Cpu → Option Cpu
  | .release _ next => next
  | .startUnlock next => next
  | .getRd next => some next
  | .queue next => some next
  | .push => some t
  | _ => none

inductive Place (Cpu : Type) where
  | nowhere
  /-- Pending on the CPU. -/
  | pending (k : Cpu)
  /-- In the hands of one CPU, to be queued on another, or to be run at once. -/
  | carried (t k : Cpu)
  /-- The CPU has pushed its tasks. -/
  | arrived (t : Cpu)
  /-- The CPU is looking for the next one. -/
  | sweeping (t : Cpu) (tells : Bool)
  | checking (t : Cpu) (tells : Bool)

def Place.holder : Place Cpu → Option Cpu
  | .nowhere | .pending _ => none
  | .carried t _ | .arrived t | .sweeping t _ | .checking t _ => some t

def Place.work : Place Cpu → Option Cpu
  | .pending k => some k
  | _ => none

/-- What `rto_cpu` is. While the mask is swept it is the CPU reached so far. -/
def Place.Aim (cpu : Option Cpu) : Place Cpu → Prop
  | .nowhere | .checking _ _ => cpu = none
  | .pending k | .carried _ k => cpu = some k
  | .arrived t => cpu = some t
  | .sweeping _ _ => True

def Place.Doing (a : Activity Cpu) : Place Cpu → Prop
  | .nowhere | .pending _ => True
  | .carried t k => target t a = some k
  | .arrived _ => a = .acquire false
  | .sweeping _ tells => a = .scan tells
  | .checking _ tells => a = .check tells

/-- The irq work is in this place, and no other CPU has a part in it. -/
structure At (work cpu : Option Cpu) (act : Cpu → Activity Cpu) (place : Place Cpu) : Prop where
  work : work = place.work
  aim : place.Aim cpu
  doing : ∀ t, place.holder = some t → place.Doing (act t)
  others : ∀ u, place.holder ≠ some u → plain (act u) = true

def Place.Ahead (cpu : Option Cpu) (c : Cpu) : Place Cpu → Prop
  | .nowhere | .checking _ _ => False
  | .pending k | .carried _ k => k ≤ c
  | .arrived t => t < c
  | .sweeping _ _ => After cpu c

def inside : Activity Cpu → Bool
  | .test | .scan _ | .check _ | .release _ _ => true
  | _ => false

def refs : Activity Cpu → ℕ
  | .queue _ | .push | .acquire false | .scan false | .check false | .release false _ | .putRd => 1
  | _ => 0

def pending (work : Option Cpu) : ℕ := if work = none then 0 else 1

/-- `tracks` says that the two counters have never become equal by an overflow. -/
structure Inv [Fintype Cpu] (tracks : Prop) (s : State Cpu) (place : Place Cpu) : Prop where
  locked : ∀ t, s.rtoLock = some t ↔ inside (s.act t) = true
  owed : s.owed ⊆ s.rtoMask
  notDropped : s.dropped = false
  references : s.refcount = pending s.work + ∑ t, refs (s.act t)
  at' : At s.work s.rtoCpu s.act place
  /-- A CPU that is not reached in this round will be reached in another. -/
  pass : tracks → place ≠ .nowhere → ∀ c ∈ s.owed, place.Ahead s.rtoCpu c ∨ s.rtoLoop ≠ s.rtoLoopNext

variable {tracks : Prop} {s : State Cpu} {place : Place Cpu} {t u k c : Cpu} {a b : Activity Cpu}

omit [LinearOrder Cpu] in
theorem not_plain_of_doing (holds : place.holder = some t) (doing : place.Doing a) : plain a = false := by
  cases place with
  | nowhere => cases holds
  | pending k => cases holds
  | carried t k => cases a <;> simp_all [Place.Doing, target, plain]
  | arrived t => subst doing; rfl
  | sweeping t tells => subst doing; rfl
  | checking t tells => subst doing; rfl

section
variable {work cpu : Option Cpu} {act : Cpu → Activity Cpu}

omit [LinearOrder Cpu] in
theorem At.holder_ne (at' : At work cpu act place) (was : plain (act u) = true) : place.holder ≠ some u := by
  intro holds
  have not := not_plain_of_doing holds (at'.doing u holds)
  rw [was] at not
  cases not

theorem At.plain_step (at' : At work cpu act place) (was : plain (act u) = true) (now : plain b = true) :
    At work cpu (Function.update act u b) place := by
  refine ⟨at'.work, at'.aim, fun t holds => ?_, fun v free => ?_⟩
  · have apart : t ≠ u := fun same => at'.holder_ne was (same ▸ holds)
    rw [Function.update_of_ne apart]
    exact at'.doing t holds
  · by_cases here : v = u
    · subst here
      rw [Function.update_self, now]
    · rw [Function.update_of_ne here]
      exact at'.others v free

theorem At.move {work' cpu' : Option Cpu} {place' : Place Cpu} (at' : At work cpu act place)
    (was : ∀ u, place.holder = some u → u = t) (holds : place'.holder = some t) (idle : work' = place'.work)
    (aim : place'.Aim cpu') (doing : place'.Doing b) : At work' cpu' (Function.update act t b) place' := by
  refine ⟨idle, aim, fun u now => ?_, fun u free => ?_⟩
  · rw [holds, Option.some_inj] at now
    subst now
    rw [Function.update_self]
    exact doing
  · have apart : u ≠ t := fun same => free (same ▸ holds)
    rw [Function.update_of_ne apart]
    exact at'.others u fun before => apart (was u before)

theorem At.leave {work' cpu' : Option Cpu} {place' : Place Cpu} (at' : At work cpu act place)
    (was : place.holder = some t) (free : place'.holder = none) (works : work' = place'.work)
    (aim : place'.Aim cpu') (now : plain b = true) : At work' cpu' (Function.update act t b) place' := by
  refine ⟨works, aim, fun u holds => ?_, fun u _ => ?_⟩
  · rw [free] at holds
    cases holds
  · by_cases here : u = t
    · subst here
      rw [Function.update_self, now]
    · rw [Function.update_of_ne here]
      refine at'.others u fun holds => here ?_
      rw [was, Option.some_inj] at holds
      exact holds.symm

end

/-! ## Locks and references -/

theorem locked_same {owner : Option Cpu} {act : Cpu → Activity Cpu}
    (locked : ∀ t, owner = some t ↔ inside (act t) = true) (same : inside b = inside (act u)) (t : Cpu) :
    owner = some t ↔ inside (Function.update act u b t) = true := by
  by_cases here : t = u
  · subst here
    rw [Function.update_self, same]
    exact locked t
  · rw [Function.update_of_ne here]
    exact locked t

theorem locked_acquire {owner : Option Cpu} {act : Cpu → Activity Cpu}
    (locked : ∀ t, owner = some t ↔ inside (act t) = true) (free : owner = none) (enters : inside b = true)
    (t : Cpu) : some u = some t ↔ inside (Function.update act u b t) = true := by
  by_cases here : t = u
  · subst here
    rw [Function.update_self]
    exact iff_of_true rfl enters
  · rw [Function.update_of_ne here, ← locked t, free]
    simp [Ne.symm here]

theorem locked_release {owner : Option Cpu} {act : Cpu → Activity Cpu}
    (locked : ∀ t, owner = some t ↔ inside (act t) = true) (held : inside (act u) = true)
    (leaves : inside b = false) (t : Cpu) : none = some t ↔ inside (Function.update act u b t) = true := by
  by_cases here : t = u
  · subst here
    rw [Function.update_self, leaves]
    simp
  · rw [Function.update_of_ne here, ← locked t, (locked u).mpr held]
    simp [Ne.symm here]

section
variable [Fintype Cpu]

theorem sum_refs (act : Cpu → Activity Cpu) (u : Cpu) (b : Activity Cpu) :
    ∑ t, refs (Function.update act u b t) + refs (act u) = ∑ t, refs (act t) + refs b :=
  sum_comp_update (fun _ => refs) act u b

theorem references_same {act : Cpu → Activity Cpu} {count : ℕ} {work : Option Cpu}
    (before : count = pending work + ∑ t, refs (act t)) (same : refs b = refs (act u)) :
    count = pending work + ∑ t, refs (Function.update act u b t) := by
  have total := sum_refs act u b
  omega

/-! ## The CPUs that have no part in the irq work -/

theorem inv_plain (inv : Inv tracks s place) {owner : Option Cpu} {start : Bool} {count : ℕ}
    (was : plain (s.act u) = true) (now : plain b = true)
    (locked : ∀ t, owner = some t ↔ inside (Function.update s.act u b t) = true)
    (counted : count + refs (s.act u) = s.refcount + refs b) :
    Inv tracks ({ s with rtoLock := owner, rtoLoopStart := start, refcount := count }.goto u b) place where
  locked := locked
  owed := inv.owed
  notDropped := inv.notDropped
  references := by
    have total := sum_refs s.act u b
    have before := inv.references
    simp only [State.goto]
    omega
  at' := inv.at'.plain_step was now
  pass := inv.pass

theorem inv_goto_plain (inv : Inv tracks s place) (was : plain (s.act u) = true) (now : plain b = true)
    (same : inside b = inside (s.act u)) (counted : refs b = refs (s.act u)) {start : Bool} :
    Inv tracks ({ s with rtoLoopStart := start }.goto u b) place :=
  inv_plain inv was now (locked_same inv.locked same) (by rw [counted])

theorem inv_advance_plain (inv : Inv tracks s place) (was : plain (s.act u) = true)
    (stays : s.act u = .test → s.rtoCpu ≠ none) : Inv tracks (advance s u) place := by
  unfold advance
  cases doing : s.act u with
  | idle => exact inv
  | tryStart =>
    dsimp only
    split
    · exact inv_goto_plain inv was rfl (by rw [doing]; rfl) (by rw [doing]; rfl)
    · exact inv_goto_plain inv was rfl (by rw [doing]; rfl) (by rw [doing]; rfl)
  | acquire tells =>
    cases tells with
    | false => rw [doing] at was; cases was
    | true =>
      dsimp only
      split
      · next free => exact inv_plain inv was rfl (locked_acquire inv.locked free rfl) (by rw [doing]; rfl)
      · exact inv
  | test =>
    dsimp only
    rw [if_neg (stays doing)]
    exact inv_plain inv was rfl (locked_same inv.locked (by rw [doing]; rfl)) (by rw [doing]; rfl)
  | release tells next =>
    have held : inside (s.act u) = true := by rw [doing]; rfl
    cases next with
    | some k => rw [doing] at was; cases was
    | none =>
      cases tells with
      | true => exact inv_plain inv was rfl (locked_release inv.locked held rfl) (by rw [doing]; rfl)
      | false => exact inv_plain inv was rfl (locked_release inv.locked held rfl) (by rw [doing]; rfl)
  | startUnlock next =>
    cases next with
    | some k => rw [doing] at was; cases was
    | none => exact inv_goto_plain inv was rfl (by rw [doing]; rfl) (by rw [doing]; rfl)
  | putRd =>
    have counts : refs (s.act u) = 1 := by rw [doing]; rfl
    have counted : refs (s.act u) ≤ ∑ t, refs (s.act t) :=
      Finset.single_le_sum (f := fun t => refs (s.act t)) (fun _ _ => Nat.zero_le _) (Finset.mem_univ u)
    have total := inv.references
    refine inv_plain inv was rfl (locked_same inv.locked (by rw [doing]; rfl)) ?_
    have after : refs (.idle : Activity Cpu) = 0 := rfl
    omega
  | scan tells => rw [doing] at was; cases was
  | check tells => rw [doing] at was; cases was
  | getRd next => rw [doing] at was; cases was
  | queue next => rw [doing] at was; cases was
  | push => rw [doing] at was; cases was

/-! ## The CPU that has the irq work in its hands -/

theorem inv_carries (inv : Inv tracks s (.carried t k)) {owner : Option Cpu} {start : Bool} {count : ℕ}
    (aims : target t b = some k) (locked : ∀ u, owner = some u ↔ inside (Function.update s.act t b u) = true)
    (counted : count + refs (s.act t) = s.refcount + refs b) :
    Inv tracks ({ s with rtoLock := owner, rtoLoopStart := start, refcount := count }.goto t b) (.carried t k) where
  locked := locked
  owed := inv.owed
  notDropped := inv.notDropped
  references := by
    have total := sum_refs s.act t b
    have before := inv.references
    simp only [State.goto]
    omega
  at' := inv.at'.move (fun u holds => (Option.some_inj.mp holds).symm) rfl inv.at'.work inv.at'.aim aims
  pass := inv.pass

theorem inv_queue (inv : Inv tracks s (.carried t k)) (doing : s.act t = .queue k) :
    Inv tracks ({ s with work := some k }.goto t .idle) (.pending k) where
  locked := locked_same inv.locked (by rw [doing]; rfl)
  owed := inv.owed
  notDropped := inv.notDropped
  references := by
    have counts : refs (s.act t) = 1 := by rw [doing]; rfl
    have none : refs (.idle : Activity Cpu) = 0 := rfl
    have total := sum_refs s.act t .idle
    have before := inv.references
    rw [inv.at'.work] at before
    simp only [State.goto, pending, Place.work, if_true, reduceCtorEq, if_false] at before ⊢
    omega
  at' := inv.at'.leave rfl rfl rfl inv.at'.aim rfl
  pass tracked _ := inv.pass tracked (by simp)

theorem inv_push (inv : Inv tracks s (.carried t t)) (doing : s.act t = .push) :
    Inv tracks ({ s with owed := s.owed.erase t }.goto t (.acquire false)) (.arrived t) where
  locked := locked_same inv.locked (by rw [doing]; rfl)
  owed := (Finset.erase_subset t s.owed).trans inv.owed
  notDropped := inv.notDropped
  references := references_same inv.references (by rw [doing]; rfl)
  at' := inv.at'.move (fun u holds => (Option.some_inj.mp holds).symm) rfl inv.at'.work inv.at'.aim rfl
  pass tracked _ c member := by
    obtain ⟨other, owed⟩ := Finset.mem_erase.mp member
    exact (inv.pass tracked (by simp) c owed).imp_left fun ahead => lt_of_le_of_ne ahead (Ne.symm other)

theorem inv_advance_carried (inv : Inv tracks s (.carried t k)) :
    ∃ place', Inv tracks (advance s t) place' ∧ place' ≠ .nowhere := by
  have aims : target t (s.act t) = some k := inv.at'.doing t rfl
  unfold advance
  cases doing : s.act t with
  | release tells next =>
    have held : inside (s.act t) = true := by rw [doing]; rfl
    rw [doing] at aims
    cases aims
    cases tells with
    | true => exact ⟨_, inv_carries inv rfl (locked_release inv.locked held rfl) (by rw [doing]; rfl), by simp⟩
    | false => exact ⟨_, inv_carries inv rfl (locked_release inv.locked held rfl) (by rw [doing]; rfl), by simp⟩
  | startUnlock next =>
    rw [doing] at aims
    cases aims
    exact ⟨_, inv_carries inv rfl (locked_same inv.locked (by rw [doing]; rfl)) (by rw [doing]; rfl), by simp⟩
  | getRd next =>
    rw [doing] at aims
    cases aims
    exact ⟨_, inv_carries inv rfl (locked_same inv.locked (by rw [doing]; rfl)) (by rw [doing]; rfl), by simp⟩
  | queue next =>
    rw [doing] at aims
    cases aims
    have free : s.work = none := inv.at'.work
    dsimp only
    rw [if_pos free]
    exact ⟨_, inv_queue inv doing, by simp⟩
  | push =>
    rw [doing] at aims
    cases aims
    exact ⟨_, inv_push inv doing, by simp⟩
  | _ => rw [doing] at aims; cases aims

/-! ## The CPU that looks for the next one -/

theorem inv_sweep (inv : Inv tracks s (.arrived t)) (free : s.rtoLock = none) :
    Inv tracks ({ s with rtoLock := some t }.goto t (.scan false)) (.sweeping t false) where
  locked := locked_acquire inv.locked free rfl
  owed := inv.owed
  notDropped := inv.notDropped
  references := by
    have doing : s.act t = .acquire false := inv.at'.doing t rfl
    exact references_same inv.references (by rw [doing]; rfl)
  at' := inv.at'.move (fun u holds => (Option.some_inj.mp holds).symm) rfl inv.at'.work trivial rfl
  pass tracked _ c member := by
    refine (inv.pass tracked (by simp) c member).imp_left fun ahead => ?_
    have here : s.rtoCpu = some t := inv.at'.aim
    simp only [State.goto, here]
    exact ahead

theorem inv_found {tells : Bool} (inv : Inv tracks s (.sweeping t tells)) (found : cpumaskNext s.rtoCpu s.rtoMask = some k) :
    Inv tracks ({ s with rtoCpu := some k }.goto t (.release tells (some k))) (.carried t k) where
  locked := by
    have doing : s.act t = .scan tells := inv.at'.doing t rfl
    exact locked_same inv.locked (by rw [doing]; rfl)
  owed := inv.owed
  notDropped := inv.notDropped
  references := by
    have doing : s.act t = .scan tells := inv.at'.doing t rfl
    exact references_same inv.references (by rw [doing]; cases tells <;> rfl)
  at' := inv.at'.move (fun u holds => (Option.some_inj.mp holds).symm) rfl inv.at'.work rfl rfl
  pass tracked _ c member :=
    (inv.pass tracked (by simp) c member).imp_left fun ahead => cpumaskNext_le found (inv.owed member) ahead

theorem inv_exhausted {tells : Bool} (inv : Inv tracks s (.sweeping t tells))
    (exhausted : cpumaskNext s.rtoCpu s.rtoMask = none) :
    Inv tracks ({ s with rtoCpu := none }.goto t (.check tells)) (.checking t tells) where
  locked := by
    have doing : s.act t = .scan tells := inv.at'.doing t rfl
    exact locked_same inv.locked (by rw [doing]; rfl)
  owed := inv.owed
  notDropped := inv.notDropped
  references := by
    have doing : s.act t = .scan tells := inv.at'.doing t rfl
    exact references_same inv.references (by rw [doing]; cases tells <;> rfl)
  at' := inv.at'.move (fun u holds => (Option.some_inj.mp holds).symm) rfl inv.at'.work rfl rfl
  pass tracked _ c member :=
    .inr ((inv.pass tracked (by simp) c member).resolve_left (not_after_of_cpumaskNext exhausted (inv.owed member)))

theorem inv_again {tells : Bool} (inv : Inv tracks s (.checking t tells)) :
    Inv tracks ({ s with rtoLoop := s.rtoLoopNext }.goto t (.scan tells)) (.sweeping t tells) where
  locked := by
    have doing : s.act t = .check tells := inv.at'.doing t rfl
    exact locked_same inv.locked (by rw [doing]; rfl)
  owed := inv.owed
  notDropped := inv.notDropped
  references := by
    have doing : s.act t = .check tells := inv.at'.doing t rfl
    exact references_same inv.references (by rw [doing]; cases tells <;> rfl)
  at' := inv.at'.move (fun u holds => (Option.some_inj.mp holds).symm) rfl inv.at'.work trivial rfl
  pass _ _ c _ := by
    have vacant : s.rtoCpu = none := inv.at'.aim
    refine .inl ?_
    simp only [State.goto, Place.Ahead, vacant]
    trivial

theorem inv_done {tells : Bool} (inv : Inv tracks s (.checking t tells)) :
    Inv tracks (s.goto t (.release tells none)) .nowhere where
  locked := by
    have doing : s.act t = .check tells := inv.at'.doing t rfl
    exact locked_same inv.locked (by rw [doing]; rfl)
  owed := inv.owed
  notDropped := inv.notDropped
  references := by
    have doing : s.act t = .check tells := inv.at'.doing t rfl
    exact references_same inv.references (by rw [doing]; cases tells <;> rfl)
  at' := inv.at'.leave rfl rfl inv.at'.work inv.at'.aim (by cases tells <;> rfl)
  pass _ somewhere := absurd rfl somewhere

theorem inv_start (inv : Inv tracks s .nowhere) (doing : s.act t = .test) :
    Inv tracks (s.goto t (.scan true)) (.sweeping t true) where
  locked := locked_same inv.locked (by rw [doing]; rfl)
  owed := inv.owed
  notDropped := inv.notDropped
  references := references_same inv.references (by rw [doing]; rfl)
  at' := inv.at'.move (fun u holds => by cases holds) rfl inv.at'.work trivial rfl
  pass _ _ c _ := by
    have vacant : s.rtoCpu = none := inv.at'.aim
    refine .inl ?_
    simp only [State.goto, Place.Ahead, vacant]
    trivial

/-! ## What each step does to the irq work -/

/-- A requester that has yet to find out whether the irq work is under way. -/
def undecided : Activity Cpu → Bool
  | .tryStart | .acquire true | .test => true
  | _ => false

def Fails (s : State Cpu) (t : Cpu) : Prop := s.act t = .tryStart ∧ s.rtoLoopStart = true

/-- The irq work stops only when no CPU is owed a push, and a requester that does not give up
finds it under way. -/
structure Continues (tracks : Prop) (s after : State Cpu) (t : Cpu) (place place' : Place Cpu) : Prop where
  inv : Inv tracks after place'
  goesOn : tracks → place ≠ .nowhere → place' ≠ .nowhere ∨ after.owed = ∅
  decides : undecided (s.act t) = true → ¬ Fails s t → undecided (after.act t) = true ∨ place' ≠ .nowhere
  fewer : after.owed ⊆ s.owed
  others : ∀ u, u ≠ t → after.act u = s.act u

omit [Fintype Cpu] in
theorem advance_others (other : u ≠ t) : (advance s t).act u = s.act u := by
  unfold advance
  cases s.act t <;> dsimp only [State.goto] <;> (repeat' split) <;>
    first | rfl | exact Function.update_of_ne other _ _

omit [Fintype Cpu] in
theorem advance_owed : (advance s t).owed ⊆ s.owed := by
  unfold advance
  cases s.act t <;> dsimp only [State.goto] <;> (repeat' split) <;>
    first | exact Finset.Subset.rfl | exact Finset.erase_subset _ _

omit [LinearOrder Cpu] [Fintype Cpu] in
theorem plain_of_undecided (yet : undecided a = true) : plain a = true := by
  cases a with
  | tryStart => rfl
  | acquire tells =>
    cases tells with
    | true => rfl
    | false => cases yet
  | test => rfl
  | _ => cases yet

theorem owed_empty {tells : Bool} (inv : Inv tracks s (.checking t tells)) (tracked : tracks)
    (same : s.rtoLoop = s.rtoLoopNext) :
    s.owed = ∅ := by
  refine Finset.eq_empty_of_forall_notMem fun c member => ?_
  exact (inv.pass tracked (by simp) c member).elim id (absurd same)

theorem inv_advance_holder (inv : Inv tracks s place) (holds : place.holder = some t) :
    ∃ place', Inv tracks (advance s t) place' ∧ (tracks → place' ≠ .nowhere ∨ (advance s t).owed = ∅) := by
  have doing := inv.at'.doing t holds
  cases place with
  | nowhere => cases holds
  | pending k => cases holds
  | carried t k =>
    cases holds
    obtain ⟨place', after, somewhere⟩ := inv_advance_carried inv
    exact ⟨place', after, fun _ => .inl somewhere⟩
  | arrived t =>
    cases holds
    have acquires : s.act t = .acquire false := doing
    simp only [advance, acquires]
    split
    · next free => exact ⟨_, inv_sweep inv free, fun _ => .inl (by simp)⟩
    · exact ⟨_, inv, fun _ => .inl (by simp)⟩
  | sweeping t tells =>
    cases holds
    have scans : s.act t = .scan tells := doing
    simp only [advance, scans]
    split
    · next k found => exact ⟨_, inv_found inv found, fun _ => .inl (by simp)⟩
    · next exhausted => exact ⟨_, inv_exhausted inv exhausted, fun _ => .inl (by simp)⟩
  | checking t tells =>
    cases holds
    have checks : s.act t = .check tells := doing
    simp only [advance, checks]
    split
    · next same =>
      have nothing : tracks → s.owed = ∅ := fun tracked => owed_empty inv tracked same
      exact ⟨_, inv_done inv, fun tracked => .inr (nothing tracked)⟩
    · exact ⟨_, inv_again inv, fun _ => .inl (by simp)⟩

theorem undecided_advance (inv : Inv tracks s place) (yet : undecided (s.act t) = true) (tries : ¬ Fails s t)
    (found : s.act t = .test → s.rtoCpu ≠ none) :
    undecided ((advance s t).act t) = true ∨ place ≠ .nowhere := by
  cases doing : s.act t with
  | tryStart =>
    have free : s.rtoLoopStart ≠ true := fun held => tries ⟨doing, held⟩
    simp [advance, doing, free, State.goto, undecided]
  | acquire tells =>
    cases tells with
    | false => rw [doing] at yet; cases yet
    | true =>
      refine .inl ?_
      simp only [advance, doing]
      split
      · simp [State.goto, undecided]
      · rw [doing]
        rfl
  | test =>
    refine .inr fun nowhere => found doing ?_
    subst nowhere
    exact inv.at'.aim
  | _ => rw [doing] at yet; cases yet

theorem Inv.exclusive (inv : Inv tracks s place) (first : inside (s.act t) = true) (second : inside (s.act u) = true) :
    t = u := by
  have owner := (inv.locked t).mpr first
  rw [(inv.locked u).mpr second] at owner
  exact (Option.some_inj.mp owner).symm

theorem nowhere_of_test (inv : Inv tracks s place) (tests : s.act t = .test) (vacant : s.rtoCpu = none) :
    place = .nowhere := by
  have inT : inside (s.act t) = true := by rw [tests]; rfl
  cases place with
  | nowhere => rfl
  | pending k => cases inv.at'.aim.symm.trans vacant
  | carried u k => cases inv.at'.aim.symm.trans vacant
  | arrived u => cases inv.at'.aim.symm.trans vacant
  | sweeping u tells =>
    have scans : s.act u = .scan tells := inv.at'.doing u rfl
    have same : t = u := inv.exclusive inT (by rw [scans]; rfl)
    subst same
    cases tests.symm.trans scans
  | checking u tells =>
    have checks : s.act u = .check tells := inv.at'.doing u rfl
    have same : t = u := inv.exclusive inT (by rw [checks]; rfl)
    subst same
    cases tests.symm.trans checks

theorem continues_advance (inv : Inv tracks s place) (t : Cpu) : ∃ place', Continues tracks s (advance s t) t place place' := by
  by_cases holds : place.holder = some t
  · obtain ⟨place', after, goesOn⟩ := inv_advance_holder inv holds
    refine ⟨place', after, fun tracked _ => goesOn tracked, fun yet => ?_, advance_owed, fun _ => advance_others⟩
    exact absurd holds (inv.at'.holder_ne (plain_of_undecided yet))
  · have was := inv.at'.others t holds
    by_cases starts : s.act t = .test ∧ s.rtoCpu = none
    · obtain ⟨tests, vacant⟩ := starts
      have nowhere := nowhere_of_test inv tests vacant
      subst nowhere
      have starting : advance s t = s.goto t (.scan true) := by
        simp only [advance, tests, if_pos vacant]
      refine ⟨.sweeping t true, ?_, fun _ _ => .inl (by simp), fun _ _ => .inr (by simp), advance_owed,
        fun _ => advance_others⟩
      rw [starting]
      exact inv_start inv tests
    · have found : s.act t = .test → s.rtoCpu ≠ none := fun tests vacant => starts ⟨tests, vacant⟩
      exact ⟨place, inv_advance_plain inv was found, fun _ => .inl, fun yet tries => undecided_advance inv yet tries found,
        advance_owed, fun _ => advance_others⟩

/-! ## The other steps -/

theorem inv_request (inv : Inv tracks s place) (idle : s.act t = .idle)
    (apart : tracks → s.rtoLoopNext + 1 ≠ s.rtoLoop) :
    Inv tracks ({ s with rtoLoopNext := s.rtoLoopNext + 1, owed := s.owed ∪ s.rtoMask }.goto t .tryStart) place where
  locked := locked_same inv.locked (by rw [idle]; rfl)
  owed := Finset.union_subset inv.owed Finset.Subset.rfl
  notDropped := inv.notDropped
  references := references_same inv.references (by rw [idle]; rfl)
  at' := inv.at'.plain_step (by rw [idle]; rfl) rfl
  pass tracked _ _ _ := .inr (Ne.symm (apart tracked))

theorem inv_interrupt (inv : Inv tracks s (.pending c)) (idle : s.act c = .idle) :
    Inv tracks ({ s with work := none }.goto c .push) (.carried c c) where
  locked := locked_same inv.locked (by rw [idle]; rfl)
  owed := inv.owed
  notDropped := inv.notDropped
  references := by
    have none : refs (s.act c) = 0 := by rw [idle]; rfl
    have one : refs (.push : Activity Cpu) = 1 := rfl
    have total := sum_refs s.act c .push
    have before := inv.references
    rw [inv.at'.work] at before
    simp only [State.goto, pending, Place.work, if_true, reduceCtorEq, if_false] at before ⊢
    omega
  at' := inv.at'.move (fun u holds => by cases holds) rfl rfl inv.at'.aim rfl
  pass tracked _ := inv.pass tracked (by simp)

theorem inv_setOverload (inv : Inv tracks s place) : Inv tracks { s with rtoMask := insert c s.rtoMask } place where
  locked := inv.locked
  owed := inv.owed.trans (Finset.subset_insert c s.rtoMask)
  notDropped := inv.notDropped
  references := inv.references
  at' := inv.at'
  pass := inv.pass

theorem inv_clearOverload (inv : Inv tracks s place) :
    Inv tracks { s with rtoMask := s.rtoMask.erase c, owed := s.owed.erase c } place where
  locked := inv.locked
  owed := Finset.erase_subset_erase c inv.owed
  notDropped := inv.notDropped
  references := inv.references
  at' := inv.at'
  pass tracked somewhere d member := inv.pass tracked somewhere d (Finset.mem_of_mem_erase member)

theorem place_of_work (inv : Inv tracks s place) (is : s.work = some c) : place = .pending c := by
  have works := inv.at'.work
  rw [is] at works
  cases place with
  | pending k => cases works; rfl
  | _ => cases works

/-- The increment of `rto_loop_next` does not take it to the value that `rto_loop` has, which it
could only reach by an overflow. -/
def Unwrapped (s : State Cpu) : Action Cpu → Prop
  | .request t => s.act t = .idle → s.rtoLoopNext + 1 ≠ s.rtoLoop
  | _ => True

theorem exists_inv_step (inv : Inv tracks s place) (a : Action Cpu) (apart : tracks → Unwrapped s a) :
    ∃ place', Inv tracks (step s a) place' := by
  cases a with
  | request t =>
    simp only [step]
    split
    · next idle => exact ⟨place, inv_request inv idle fun tracked => apart tracked idle⟩
    · exact ⟨place, inv⟩
  | advance t =>
    obtain ⟨place', continues⟩ := continues_advance inv t
    exact ⟨place', continues.inv⟩
  | interrupt =>
    simp only [step]
    split
    · exact ⟨place, inv⟩
    · next c is =>
      have here := place_of_work inv is
      subst here
      split
      · next idle => exact ⟨_, inv_interrupt inv idle⟩
      · exact ⟨_, inv⟩
  | setOverload c => exact ⟨place, inv_setOverload inv⟩
  | clearOverload c => exact ⟨place, inv_clearOverload inv⟩

theorem inv_of_start (start : Start s) : Inv tracks s .nowhere where
  locked t := by simp [start.unlocked, start.idle t, inside]
  owed := by simp [start.owed]
  notDropped := start.dropped
  references := by simp [start.refcount, start.work, start.idle, pending, refs]
  at' := by
    refine ⟨start.work, start.cpu, fun t holds => ?_, fun u _ => ?_⟩
    · cases holds
    · rw [start.idle u]
      rfl
  pass _ somewhere := absurd rfl somewhere

/-! ## One irq work -/

/-- The irq work is in one place, queueing it has never failed, and the root domain is held exactly
by those who have yet to hand it on or to put it. -/
def Single (s : State Cpu) : Prop :=
  (∃ place, At s.work s.rtoCpu s.act place) ∧ s.dropped = false ∧
    s.refcount = pending s.work + ∑ t, refs (s.act t)

theorem always_single {acts : List (Action Cpu)} (start : Start s) : Always step Single s acts := by
  have free : Along step (fun _ _ => True) s acts := along_of_forall (fun _ _ => trivial) s acts
  refine always_of_invariant (fun s => ∃ place, Inv False s place) ?_ ?_ ⟨_, inv_of_start start⟩ free
  · rintro s a _ ⟨place, inv⟩
    exact exists_inv_step inv a False.elim
  · rintro s ⟨place, inv⟩
    exact ⟨⟨place, inv.at'⟩, inv.notDropped, inv.references⟩

/-! ## No request is lost -/

def Coming (s : State Cpu) (c : Cpu) : Prop :=
  ∃ place, At s.work s.rtoCpu s.act place ∧ place ≠ .nowhere ∧
    (place.Ahead s.rtoCpu c ∨ s.rtoLoop ≠ s.rtoLoopNext)

/-- Every CPU that was overloaded when a request was made, and has neither pushed nor ceased to be
overloaded, will get the irq work, or there is a requester that has yet to see to it. -/
def Kept (s : State Cpu) : Prop := ∀ c ∈ s.owed, Coming s c ∨ ∃ t, undecided (s.act t) = true

def UnderWay (s : State Cpu) : Prop :=
  s.rtoCpu ≠ none ∨ ∃ t tells, s.act t = .scan tells ∨ s.act t = .check tells

/-- A requester gives up only when nobody is owed a push, or the irq work is under way, or there is
another one that has not decided yet. -/
def NotLost (s : State Cpu) : Action Cpu → Prop
  | .advance t => Fails s t → s.owed = ∅ ∨ UnderWay s ∨ ∃ u, u ≠ t ∧ undecided (s.act u) = true
  | _ => True

theorem underWay_iff (inv : Inv tracks s place) : UnderWay s ↔ place ≠ .nowhere := by
  cases place with
  | nowhere =>
    refine iff_of_false ?_ (by simp)
    rintro (valid | ⟨t, tells, scans | checks⟩)
    · exact valid inv.at'.aim
    · have none := inv.at'.others t (by simp [Place.holder])
      rw [scans] at none
      cases none
    · have none := inv.at'.others t (by simp [Place.holder])
      rw [checks] at none
      cases none
  | sweeping t tells => exact iff_of_true (.inr ⟨t, tells, .inl (inv.at'.doing t rfl)⟩) (by simp)
  | checking t tells => exact iff_of_true (.inr ⟨t, tells, .inr (inv.at'.doing t rfl)⟩) (by simp)
  | pending k =>
    have aim : s.rtoCpu = some k := inv.at'.aim
    exact iff_of_true (.inl (by simp [aim])) (by simp)
  | carried t k =>
    have aim : s.rtoCpu = some k := inv.at'.aim
    exact iff_of_true (.inl (by simp [aim])) (by simp)
  | arrived t =>
    have aim : s.rtoCpu = some t := inv.at'.aim
    exact iff_of_true (.inl (by simp [aim])) (by simp)

theorem not_coming (inv : Inv tracks s .nowhere) : ¬ Coming s c := by
  rintro ⟨place, at', somewhere, _⟩
  cases place with
  | nowhere => exact somewhere rfl
  | pending k => cases at'.work.symm.trans inv.at'.work
  | _ =>
    have not := not_plain_of_doing rfl (at'.doing _ rfl)
    rw [inv.at'.others _ (by simp [Place.holder])] at not
    cases not

theorem kept_iff (inv : Inv True s place) :
    Kept s ↔ s.owed = ∅ ∨ place ≠ .nowhere ∨ ∃ t, undecided (s.act t) = true := by
  constructor
  · intro kept
    rcases s.owed.eq_empty_or_nonempty with none | ⟨c, member⟩
    · exact .inl none
    · refine .inr ((kept c member).imp_left fun coming nowhere => ?_)
      subst nowhere
      exact not_coming inv coming
  · rintro (none | somewhere | yet) c member
    · rw [none] at member
      exact absurd member (Finset.notMem_empty c)
    · exact .inl ⟨place, inv.at', somewhere, inv.pass trivial somewhere c member⟩
    · exact .inr yet

theorem kept_fails_iff (inv : Inv True s place) (fails : Fails s t) :
    Kept (advance s t) ↔ s.owed = ∅ ∨ UnderWay s ∨ ∃ u, u ≠ t ∧ undecided (s.act u) = true := by
  have givesUp : advance s t = s.goto t .idle := by simp only [advance, fails.1, if_pos fails.2]
  have after : Inv True (advance s t) place :=
    inv_advance_plain inv (by rw [fails.1]; rfl) fun tests => by cases fails.1.symm.trans tests
  have rest : (∃ u, undecided ((advance s t).act u) = true) ↔ ∃ u, u ≠ t ∧ undecided (s.act u) = true := by
    refine exists_congr fun u => ?_
    by_cases here : u = t
    · subst here
      simp [givesUp, State.goto, undecided]
    · rw [advance_others here]
      simp [here]
  rw [kept_iff after, rest, underWay_iff inv, givesUp]
  exact Iff.rfl

theorem kept_advance_iff (inv : Inv True s place) (kept : Kept s) :
    Kept (advance s t) ↔ NotLost s (.advance t) := by
  by_cases fails : Fails s t
  · rw [kept_fails_iff inv fails]
    exact ⟨fun kept _ => kept, fun notLost => notLost fails⟩
  · refine iff_of_true ?_ fun gaveUp => absurd gaveUp fails
    obtain ⟨place', after, goesOn, decides, fewer, others⟩ := continues_advance inv t
    rw [kept_iff after]
    rcases (kept_iff inv).mp kept with none | somewhere | ⟨u, yet⟩
    · exact .inl (Finset.subset_empty.mp (none ▸ fewer))
    · exact (goesOn trivial somewhere).elim (fun still => .inr (.inl still)) .inl
    · by_cases here : u = t
      · subst here
        exact .inr ((decides yet fails).elim (fun still => .inr ⟨u, still⟩) .inl)
      · refine .inr (.inr ⟨u, ?_⟩)
        rwa [others u here]

theorem kept_step_iff (inv : Inv True s place) (kept : Kept s) (a : Action Cpu) (apart : Unwrapped s a) :
    Kept (step s a) ↔ NotLost s a := by
  cases a with
  | request t =>
    refine iff_of_true ?_ trivial
    simp only [step]
    split
    · next idle =>
      refine (kept_iff (inv_request inv idle fun _ => apart idle)).mpr (.inr (.inr ⟨t, ?_⟩))
      simp [State.goto, undecided]
    · exact kept
  | advance t => exact kept_advance_iff inv kept
  | interrupt =>
    refine iff_of_true ?_ trivial
    simp only [step]
    split
    · exact kept
    · next c is =>
      have here := place_of_work inv is
      subst here
      split
      · next idle => exact (kept_iff (inv_interrupt inv idle)).mpr (.inr (.inl (by simp)))
      · exact kept
  | setOverload c =>
    exact iff_of_true ((kept_iff (inv_setOverload inv)).mpr ((kept_iff inv).mp kept)) trivial
  | clearOverload c =>
    refine iff_of_true ((kept_iff (inv_clearOverload inv)).mpr (((kept_iff inv).mp kept).imp_left ?_)) trivial
    intro none
    simp [none]

/-- No CPU is forgotten exactly if no requester gives up while another, that holds
`rto_loop_start`, has already decided and the irq work has come to its end. -/
theorem alwaysKept_iff_notLost {acts : List (Action Cpu)} (start : Start s)
    (unwrapped : Along step Unwrapped s acts) : Always step Kept s acts ↔ Along step NotLost s acts := by
  have now : Kept s := by
    intro c member
    rw [start.owed] at member
    exact absurd member (Finset.notMem_empty c)
  refine always_iff_along (fun s => ∃ place, Inv True s place) Kept ?_ ?_ ⟨_, inv_of_start start⟩ now
    unwrapped
  · rintro s a apart ⟨place, inv⟩
    exact exists_inv_step inv a fun _ => apart
  · rintro s a apart ⟨place, inv⟩ kept
    exact kept_step_iff inv kept a apart

end

/-! ## Examples -/

instance (s : State Cpu) (t : Cpu) : Decidable (Fails s t) := inferInstanceAs (Decidable (_ ∧ _))

instance [Fintype Cpu] (s : State Cpu) : Decidable (UnderWay s) := inferInstanceAs (Decidable (_ ∨ _))

instance [Fintype Cpu] (s : State Cpu) : ∀ a, Decidable (NotLost s a)
  | .advance t =>
    inferInstanceAs (Decidable (Fails s t → s.owed = ∅ ∨ UnderWay s ∨ ∃ u, u ≠ t ∧ undecided (s.act u) = true))
  | .request _ | .interrupt | .setOverload _ | .clearOverload _ => isTrue trivial

instance (s : State Cpu) : ∀ a, Decidable (Unwrapped s a)
  | .request t => inferInstanceAs (Decidable (s.act t = .idle → s.rtoLoopNext + 1 ≠ s.rtoLoop))
  | .advance _ | .interrupt | .setOverload _ | .clearOverload _ => isTrue trivial

def quiet (Cpu : Type) : State Cpu where
  rtoMask := ∅
  rtoLoop := 0
  rtoLoopNext := 0
  rtoLoopStart := false
  rtoLock := none
  rtoCpu := none
  work := none
  refcount := 0
  dropped := false
  act _ := .idle
  owed := ∅

theorem start_quiet : Start (quiet Bool) := by
  constructor <;> intros <;> rfl

def asks : List (Action Bool) :=
  [.setOverload true, .request false] ++ List.replicate 8 (.advance false)

theorem always_single_asks : Always step Single (quiet Bool) asks := always_single start_quiet

theorem alwaysKept_iff_notLost_asks :
    Along step Unwrapped (quiet Bool) asks ∧ Always step Kept (quiet Bool) asks ∧
      (run step (quiet Bool) asks).work = some true :=
  have unwrapped : Along step Unwrapped (quiet Bool) asks := by decide
  ⟨unwrapped, (alwaysKept_iff_notLost start_quiet unwrapped).mpr (by decide), by decide⟩

/-- A requester that found the irq work under way has released `rto_lock` but not `rto_loop_start`
when the irq work ends; the next request is then lost, and the overloaded CPU is not asked. -/
example :
    let acts : List (Action (Fin 3)) := List.flatten
      [[.setOverload 1, .request 0], List.replicate 8 (.advance 0), [.interrupt, .advance 1, .request 2],
        List.replicate 4 (.advance 2), List.replicate 6 (.advance 1), [.interrupt],
        List.replicate 6 (.advance 1), [.request 0, .advance 0, .advance 2]]
    let s := run step (quiet (Fin 3)) acts
    s.owed = {1} ∧ s.work = none ∧ s.rtoCpu = none ∧ ∀ t, s.act t = .idle := by
  decide

end UnixSystems.RtPush
