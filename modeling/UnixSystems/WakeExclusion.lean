import UnixSystems.WakeMoves

/-! Nothing that sleeps, wakes or migrates tasks ever makes a task run on two CPUs or stand in
two lists, in whatever order the CPUs go on. -/
namespace UnixSystems.WakeExclusion
open GuardedRuns WakeModel WakePlaces WakeFrame WakeMoves Holders

variable {Cpu Task : Type} [DecidableEq Cpu] [DecidableEq Task] {s : State Cpu Task} {p : Task}
  {place : Place Cpu}

/-- Every CPU is idle, and every task is asleep or waits on the queue of its CPU. -/
structure Start (s : State Cpu Task) : Prop where
  act : ∀ c, s.act c = .run
  pi : ∀ p, s.piLock p = none
  rq : ∀ c, (s.rq c).lock = none ∧ (s.rq c).curr = none ∧ (s.rq c).wakeList = []
  queue : ∀ c p, (s.rq c).queue.count p =
    if (s.task p).onRq = .queued ∧ (s.task p).cpu = c then 1 else 0
  task : ∀ p, (s.task p).onCpu = false ∧ (s.task p).onRq ≠ .migrating ∧ (s.task p).state ≠ taskWaking
  asleep : ∀ p, (s.task p).onRq = .no → (s.task p).state ≠ taskRunning

theorem inv_of_start (start : Start s) : Inv s := by
  refine ⟨⟨fun c w => ?_, fun q w => ?_, fun c => ?_⟩, fun q => ?_⟩
  · simp [start.act, start.rq, rqLock]
  · simp [start.act, start.pi, piLock]
  · simp [start.act, Local]
  · have roles : ∀ w, (view s q).role w = none := fun w => by simp [view, start.act, role]
    have fields := start.task q
    have lists : (view s q).wakeList = once none ∧ (∀ c, (view s q).batch c ≤ 1) ∧
        (view s q).curr = fun _ => False := by
      refine ⟨funext fun c => ?_, fun c => ?_, funext fun c => ?_⟩
      · simp [view, start.rq, once]
      · simp [view, start.act, batch]
      · simp [view, start.rq]
    by_cases queued : (s.task q).onRq = .queued
    · refine ⟨.ready (s.task q).cpu, funext fun c => ?_, lists.1, lists.2.1, ?_, ?_, fun w => ?_⟩
      · simp [view, start.queue, queued, once, Place.queue]
      · simpa [Place.current] using lists.2.2
      · exact ⟨queued, fields.1, by simp [Place.home, view], by simpa [Place.woken, view] using fields.2.2,
          by simp [Place.off]⟩
      · simp [roles, Role.Allows, Place.owner]
    · have off : (s.task q).onRq = .no := by
        cases e : (s.task q).onRq with
        | no => rfl
        | queued => exact absurd e queued
        | migrating => exact absurd e fields.2.1
      refine ⟨.blocked, funext fun c => ?_, lists.1, lists.2.1, ?_, ?_, fun w => ?_⟩
      · simp [view, start.queue, queued, once, Place.queue]
      · simpa [Place.current] using lists.2.2
      · exact ⟨off, fields.1, by simp [Place.home], by simpa [Place.woken, view] using fields.2.2,
          fun _ => start.asleep q off⟩
      · simp [roles, Role.Allows, Place.owner]

/-! ## The property -/

/-- A task is current on one CPU at most, and not while another CPU still uses its stack; a
current or enqueued task belongs to that CPU; and over all run queues, wake lists and local
lists it has one entry at most. -/
structure Exclusive [Fintype Cpu] (s : State Cpu Task) : Prop where
  runsOnce : ∀ p c d, (s.rq c).curr = some p → (s.rq d).curr = some p → c = d
  stack : ∀ p d preempt, s.act d = .schedule preempt (some p) .finish → ∀ c, (s.rq c).curr ≠ some p
  home : ∀ p c, (s.rq c).curr = some p → (s.task p).cpu = c
  enqueued : ∀ p c, p ∈ (s.rq c).queue → (s.task p).cpu = c ∧ (s.task p).onRq = .queued
  entries : ∀ p, ∑ c, ((s.rq c).queue.count p + (s.rq c).wakeList.count p + (batch (s.act c)).count p) ≤ 1

def held : Place Cpu → Option Cpu
  | .taken w | .migrating w _ => some w
  | _ => none

theorem count_batch_le (fit : Fit (view s p) place) (c : Cpu) :
    (batch (s.act c)).count p ≤ once (held place) c := by
  have single : (batch (s.act c)).count p ≤ 1 := fit.batch c
  have plays : Role.Allows c place (role c (s.act c) p) := fit.roles c
  by_cases member : p ∈ batch (s.act c)
  · have here : held place = some c := by
      cases e : s.act c with
      | pending tasks pc =>
        rw [e] at member plays
        have taken : place = .taken c := by simpa [role, show p ∈ tasks from member, Role.Allows] using plays
        rw [taken]
        rfl
      | balance tasks src dst pc =>
        rw [e] at member plays
        have carried : place = .migrating c dst := by
          simpa [role, show p ∈ tasks from member, Role.Allows] using plays
        rw [carried]
        rfl
      | _ => simp [e, batch] at member
    simpa [once, here] using single
  · simp [List.count_eq_zero.mpr member]

theorem sum_once [Fintype Cpu] (o : Option Cpu) : ∑ c, once o c = if o.isSome then 1 else 0 := by
  cases o with
  | none => simp [once]
  | some c => simp [once]

theorem current_eq (fit : Fit (view s p) place) {c : Cpu} (curr : (s.rq c).curr = some p) :
    place.current = some c := by
  have at_c := congrFun fit.curr c
  simpa [view, curr] using at_c

theorem exclusive_of_inv [Fintype Cpu] (inv : Inv s) : Exclusive s := by
  refine ⟨fun p c d here there => ?_, fun p d preempt finish c curr => ?_, fun p c curr => ?_,
    fun p c queued => ?_, fun p => ?_⟩ <;> obtain ⟨place, fit⟩ := inv.placed p
  · have first := current_eq fit here
    rw [current_eq fit there] at first
    exact (Option.some.inj first).symm
  · have current := current_eq fit curr
    have plays : place = .switchedOut d ∨ place = .switchedOff d := by
      simpa [view, finish, role, scheduleRole, Role.Allows] using fit.roles d
    rcases plays with rfl | rfl <;> simp [Place.current] at current
  · have current := current_eq fit curr
    refine fit.fits.home c ?_
    cases place <;> simp_all [Place.current, Place.home]
  · have queue := queue_of_mem fit queued
    have settled : place.home = some c ∧ place.onRq = .queued := by
      cases place <;> simp_all [Place.queue, Place.home, Place.onRq]
    exact ⟨fit.fits.home c settled.1, fit.fits.onRq.trans settled.2⟩
  · have lists : ∀ c, (s.rq c).queue.count p + (s.rq c).wakeList.count p + (batch (s.act c)).count p ≤
        once place.queue c + once place.wakeList c + once (held place) c := fun c => by
      have queue : (s.rq c).queue.count p = once place.queue c := congrFun fit.queue c
      have wakeList : (s.rq c).wakeList.count p = once place.wakeList c := congrFun fit.wakeList c
      have := count_batch_le fit c
      omega
    refine (Finset.sum_le_sum fun c _ => lists c).trans ?_
    rw [Finset.sum_add_distrib, Finset.sum_add_distrib, sum_once, sum_once, sum_once]
    cases place <;> simp [Place.queue, Place.wakeList, held]

/-! ## Whole runs -/

theorem always_exclusive [Fintype Cpu] {acts : List (Action Cpu Task)} (start : Start s)
    (legal : Along step Legal s acts) : Always step Exclusive s acts :=
  always_of_invariant Inv (fun _ act legal inv => inv_step inv act legal) (fun _ => exclusive_of_inv)
    (inv_of_start start) legal

def cpu0 : Fin 2 := 0
def cpu1 : Fin 2 := 1
def init : Fin 1 := 0

def oneReady : State (Fin 2) (Fin 1) where
  task _ := ⟨taskRunning, .queued, false, cpu0, false, false, false⟩
  rq c := ⟨none, if c = cpu0 then [init] else [], [], none, 0, 0, false⟩
  piLock _ := none
  act _ := .run

/-- `__schedule` on an idle CPU, with the only task as the one it wants. -/
def scheduleOn (c : Fin 2) : List (WakeModel.Action (Fin 2) (Fin 1)) :=
  .schedule c false :: List.replicate 5 (.advance c ⟨c, some init, false⟩)

theorem start_oneReady : Start oneReady := by
  refine ⟨fun _ => rfl, fun _ => rfl, fun _ => ⟨rfl, rfl, rfl⟩, fun c p => ?_, fun _ => ?_, fun _ off => ?_⟩
  · fin_cases c <;> fin_cases p <;> rfl
  · exact ⟨rfl, OnRq.noConfusion, (by decide : taskRunning ≠ taskWaking)⟩
  · cases off

/-- The first CPU runs the task, and the second, which wants it too, does not get it. -/
theorem always_exclusive_scheduleOn :
    Always step Exclusive oneReady (scheduleOn cpu0 ++ scheduleOn cpu1) ∧
      ((run step oneReady (scheduleOn cpu0 ++ scheduleOn cpu1)).rq cpu0).curr = some init :=
  ⟨always_exclusive start_oneReady (by simp [scheduleOn, Along, Legal]), by decide⟩

end UnixSystems.WakeExclusion
