import UnixSystems.WakeLoad

/-! What a CPU spins for: a lock, the end of a migration, or the end of a switch. As long as some CPU
has something to finish, one of them does not spin. -/

namespace UnixSystems.WakeSpins
open WakeModel WakePlaces WakeFrame WakeMoves WakeStates

variable {Cpu Task : Type} {s : State Cpu Task} {w : Cpu} {p : Task}

inductive Need (Cpu Task : Type) where
  | pi (p : Task)
  | rq (c : Cpu)
  | settled (p : Task)
  | offCpu (p : Task)

def Need.isRq : Need Cpu Task → Bool
  | .rq _ => true
  | _ => false

def Met (s : State Cpu Task) : Need Cpu Task → Prop
  | .pi p => s.piLock p = none
  | .rq c => (s.rq c).lock = none
  | .settled p => (s.task p).onRq ≠ .migrating
  | .offCpu p => (s.task p).onCpu = false

def need (w : Cpu) : Activity Cpu Task → Option (Need Cpu Task)
  | .ttwu p _ .lockPi | .move p .lockPi | .special p _ .lockPi => some (.pi p)
  | .ttwu _ _ (.lockRq rq) | .ttwu _ _ (.lockDest rq) | .move _ (.lockRq rq) | .move _ (.lockDest rq) => some (.rq rq)
  | .schedule _ _ .lock | .schedule _ _ .dropped | .pending _ .lock => some (.rq w)
  | .balance _ src _ .lockSrc => some (.rq src)
  | .balance _ _ dst .lockDst => some (.rq dst)
  | .ttwu p _ .relax | .move p .relax => some (.settled p)
  | .ttwu p _ .waitOnCpu => some (.offCpu p)
  | _ => none

def Free (s : State Cpu Task) (w : Cpu) : Prop :=
  ∀ n, need w (s.act w) = some n → Met s n

theorem need_of_rqLock {a : Activity Cpu Task} {c : Cpu} (held : rqLock w a = some c) :
    need w a = none ∧ a.isRun = false := by
  cases a with
  | run => cases held
  | special => cases held
  | ttwu p mask pc => cases pc <;> first | exact ⟨rfl, rfl⟩ | cases held
  | schedule preempt prev pc => cases pc <;> first | exact ⟨rfl, rfl⟩ | cases held
  | pending tasks pc => cases pc <;> first | exact ⟨rfl, rfl⟩ | cases held
  | move p pc => cases pc <;> first | exact ⟨rfl, rfl⟩ | cases held
  | balance tasks src dst pc => cases pc <;> first | exact ⟨rfl, rfl⟩ | cases held

def SomeoneFree (s : State Cpu Task) : Prop :=
  ∃ w, (s.act w).isRun = false ∧ Free s w

theorem someoneFree_of_rqLock {c : Cpu} (held : rqLock w (s.act w) = some c) : SomeoneFree s := by
  obtain ⟨none, busy⟩ := need_of_rqLock held
  refine ⟨w, busy, fun n spins => ?_⟩
  rw [none] at spins
  cases spins

theorem act_of_offCpu {a : Activity Cpu Task} (needs : need w a = some (.offCpu p)) :
    ∃ mask, a = .ttwu p mask .waitOnCpu := by
  cases a with
  | ttwu q mask pc => cases pc <;> cases needs; exact ⟨mask, rfl⟩
  | run => cases needs
  | schedule preempt prev pc | pending tasks pc | move q pc | balance tasks src dst pc | special q value pc =>
    cases pc <;> cases needs

theorem piLock_of_pi {a : Activity Cpu Task} (needs : need w a = some (.pi p)) : piLock a = none := by
  cases a with
  | run => cases needs
  | ttwu q mask pc => cases pc <;> cases needs; rfl
  | move q pc => cases pc <;> cases needs; rfl
  | special q value pc => cases pc <;> cases needs; rfl
  | schedule preempt prev pc | pending tasks pc | balance tasks src dst pc => cases pc <;> cases needs

variable [DecidableEq Task]

theorem need_of_carries {a : Activity Cpu Task} {d : Cpu} (plays : role w a p = some (.carries d)) :
    a.isRun = false ∧ ∀ n, need w a = some n → n.isRq := by
  cases a with
  | run | special => simp [role] at plays
  | ttwu q mask pc =>
    have own : ttwuRole pc = some (.carries d) := (by simpa [role] using plays : _ ∧ _).2
    cases pc
    case unlockRemote rq woken => cases woken <;> cases own
    all_goals cases own
  | schedule preempt prev pc =>
    have own : scheduleRole pc = some (.carries d) := (by simpa [role] using plays : _ ∧ _).2
    cases pc <;> cases own
  | pending tasks pc =>
    simp only [role] at plays
    split at plays
    · cases plays
    · cases pc <;> simp at plays
  | move q pc =>
    have own : moveRole pc = some (.carries d) := (by simpa [role] using plays : _ ∧ _).2
    refine ⟨rfl, fun n needs => ?_⟩
    cases pc <;> cases own <;> cases needs
    rfl
  | balance tasks src dst pc =>
    refine ⟨rfl, fun n needs => ?_⟩
    cases pc <;> cases needs <;> rfl

variable [DecidableEq Cpu]

theorem someoneFree_of_locked (inv : Inv s) {c : Cpu} (locked : (s.rq c).lock ≠ none) : SomeoneFree s := by
  obtain ⟨h, owner⟩ := Option.ne_none_iff_exists'.mp locked
  exact someoneFree_of_rqLock ((inv.locks.rq c h).mp owner)

theorem someoneFree_of_rq (inv : Inv s) (busy : (s.act w).isRun = false)
    (needs : ∀ n, need w (s.act w) = some n → n.isRq) : SomeoneFree s := by
  by_cases free : Free s w
  · exact ⟨w, busy, free⟩
  · obtain ⟨n, spins, unmet⟩ : ∃ n, need w (s.act w) = some n ∧ ¬ Met s n := by
      simpa [Free] using free
    cases n with
    | rq c => exact someoneFree_of_locked inv unmet
    | _ => cases needs _ spins

theorem someoneFree_of_migrating (inv : Inv s) (moves : (s.task p).onRq = .migrating) : SomeoneFree s := by
  obtain ⟨place, fit⟩ := inv.placed p
  have onRq : place.onRq = .migrating := fit.fits.onRq.symm.trans moves
  obtain ⟨v, d, rfl⟩ : ∃ v d, place = .migrating v d := by
    cases place <;> first | exact ⟨_, _, rfl⟩ | cases onRq
  have plays : Role.Allows v (.migrating v d) (role v (s.act v) p) := fit.roles v
  have carries : role v (s.act v) p = some (.carries d) := by
    cases r : role v (s.act v) p with
    | none => simp [r, Role.Allows, Place.owner] at plays
    | some r' => cases r' <;> simp_all [Role.Allows, Place.owner]
  obtain ⟨busy, needs⟩ := need_of_carries carries
  exact someoneFree_of_rq inv busy needs

theorem someoneFree_of_onCpu (inv : Inv s) {place : Place Cpu} (fit : Fit (view s p) place) (off : place.off)
    (onCpu : (s.task p).onCpu = true) : SomeoneFree s := by
  have onCpu : place.onCpu = true := fit.fits.onCpu.symm.trans onCpu
  obtain ⟨v, switching⟩ : ∃ v, place = .descheduling v ∨ place = .switchedOff v := by
    cases place <;> first | exact ⟨_, .inl rfl⟩ | exact ⟨_, .inr rfl⟩ | (cases onCpu; done) | cases off
  have plays : Role.Allows v place (role v (s.act v) p) := fit.roles v
  obtain ⟨r, own, last⟩ : ∃ r, role v (s.act v) p = some r ∧ (r = .chooses ∨ r = .finishes) := by
    cases r : role v (s.act v) p with
    | none => rcases switching with rfl | rfl <;> simp [r, Role.Allows, Place.owner] at plays
    | some r' => rcases switching with rfl | rfl <;> cases r' <;> simp_all [Role.Allows, Place.owner]
  obtain ⟨preempt, pc, here, -⟩ := act_of_scheduleRole own last
  refine someoneFree_of_rq (w := v) inv (by rw [here]; rfl) fun n needs => ?_
  rw [here] at needs
  cases pc <;> cases needs <;> rfl

/-- The holder of a `pi_lock` waits for a run queue lock, a migration or a switch. -/
theorem someoneFree_of_piLock (inv : Inv s) (held : piLock (s.act w) = some p) : SomeoneFree s := by
  obtain ⟨place, fit⟩ := inv.placed p
  by_cases free : Free s w
  · refine ⟨w, ?_, free⟩
    cases here : s.act w with
    | run => rw [here] at held; cases held
    | _ => rfl
  · obtain ⟨n, spins, unmet⟩ : ∃ n, need w (s.act w) = some n ∧ ¬ Met s n := by
      simpa [Free] using free
    cases n with
    | rq c => exact someoneFree_of_locked inv unmet
    | settled q => exact someoneFree_of_migrating inv (not_not.mp unmet)
    | offCpu q =>
      obtain ⟨mask, here⟩ := act_of_offCpu spins
      obtain rfl : q = p := by
        rw [here] at held
        exact Option.some.inj held
      have plays : Role.Allows w place (role w (s.act w) q) := fit.roles w
      rw [here] at plays
      have off : place.off := (by simpa [role, ttwuRole, Role.Allows] using plays : _ ∧ _).2
      exact someoneFree_of_onCpu inv fit off (by simpa [Met] using unmet)
    | pi q =>
      rw [piLock_of_pi spins] at held
      cases held

theorem someoneFree_of_busy (inv : Inv s) (busy : (s.act w).isRun = false) : SomeoneFree s := by
  by_cases free : Free s w
  · exact ⟨w, busy, free⟩
  · obtain ⟨n, spins, unmet⟩ : ∃ n, need w (s.act w) = some n ∧ ¬ Met s n := by
      simpa [Free] using free
    cases n with
    | rq c => exact someoneFree_of_locked inv unmet
    | settled q => exact someoneFree_of_migrating inv (not_not.mp unmet)
    | offCpu q =>
      obtain ⟨mask, here⟩ := act_of_offCpu spins
      exact someoneFree_of_piLock (w := w) (p := q) inv (by rw [here]; rfl)
    | pi q =>
      obtain ⟨h, owner⟩ := Option.ne_none_iff_exists'.mp unmet
      exact someoneFree_of_piLock inv ((inv.locks.pi q h).mp owner)

end UnixSystems.WakeSpins
