import UnixSystems.WakePlaces
import UnixSystems.GuardedRuns

/-! What steps of the CPUs have in common: a step takes or releases a lock, changes the role of
an activity for the task it works on, or lets that task hop. Each of these keeps the invariant
of the places, and is proved here once. -/

namespace UnixSystems.WakeFrame
open WakeModel WakePlaces Holders

variable {Cpu Task : Type} [DecidableEq Cpu] [DecidableEq Task] {s s₁ : State Cpu Task}
  {a : Activity Cpu Task} {c w : Cpu} {p : Task}

/-! ## Locks -/

section Locks

omit [DecidableEq Cpu] in
theorem locks_setTask (locks : Locks s) (p : Task) (t : TaskStruct Cpu) : Locks (s.setTask p t) :=
  ⟨locks.rq, locks.pi, locks.own⟩

section
omit [DecidableEq Task]

theorem locks_setRq (locks : Locks s) {rq : Rq Cpu Task} (lock : rq.lock = (s.rq c).lock)
    (curr : rq.curr = (s.rq c).curr) : Locks (s.setRq c rq) := by
  have same : (fun d => ((s.setRq c rq).rq d).lock) = fun d => (s.rq d).lock := by
    funext d
    by_cases here : d = c <;> simp [State.setRq, here, lock]
  refine ⟨?_, locks.pi, fun d => ?_⟩
  · rw [same]
    exact locks.rq
  · by_cases here : d = c
    · subst here
      simpa [State.setRq, curr] using locks.own d
    · simpa [State.setRq, here] using locks.own d

theorem locks_of_update (a : Activity Cpu Task)
    (rq : Agree (fun c => (s₁.rq c).lock) (Function.update (fun d => rqLock d (s₁.act d)) w (rqLock w a)))
    (pi : Agree s₁.piLock (Function.update (fun d => piLock (s₁.act d)) w (piLock a)))
    (own : ∀ d, d ≠ w → Local (s₁.rq d).curr (s₁.act d)) (here : Local (s₁.rq w).curr a) :
    Locks (s₁.goto w a) := by
  have rqs : (fun d => rqLock d ((s₁.goto w a).act d)) =
      Function.update (fun d => rqLock d (s₁.act d)) w (rqLock w a) := by
    funext d
    by_cases same : d = w <;> simp [State.goto, same]
  have pis : (fun d => piLock ((s₁.goto w a).act d)) =
      Function.update (fun d => piLock (s₁.act d)) w (piLock a) := by
    funext d
    by_cases same : d = w <;> simp [State.goto, same]
  refine ⟨?_, ?_, fun d => ?_⟩
  · rw [rqs]
    exact rq
  · rw [pis]
    exact pi
  · by_cases same : d = w
    · simpa [State.goto, same] using here
    · simpa [State.goto, same] using own d same

theorem locks_goto (locks : Locks s) (rq : rqLock w a = rqLock w (s.act w))
    (pi : piLock a = piLock (s.act w)) (own : Local (s.rq w).curr a) : Locks (s.goto w a) := by
  refine locks_of_update a ?_ ?_ (fun d _ => locks.own d) own
  · rw [rq, Function.update_eq_self w fun d => rqLock d (s.act d)]
    exact locks.rq
  · rw [pi, Function.update_eq_self w fun d => piLock (s.act d)]
    exact locks.pi

theorem locks_setLock (locks : Locks s) {holder : Option Cpu}
    (rq : Agree (Function.update (fun d => (s.rq d).lock) c holder)
      (Function.update (fun d => rqLock d (s.act d)) w (rqLock w a)))
    (pi : piLock a = piLock (s.act w)) (own : Local (s.rq w).curr a) :
    Locks ((s.setRq c { s.rq c with lock := holder }).goto w a) := by
  have rqs : (fun d => ((s.setRq c { s.rq c with lock := holder }).rq d).lock) =
      Function.update (fun d => (s.rq d).lock) c holder := by
    funext d
    by_cases same : d = c <;> simp [State.setRq, same]
  have curr : ∀ d, ((s.setRq c { s.rq c with lock := holder }).rq d).curr = (s.rq d).curr := by
    intro d
    by_cases same : d = c <;> simp [State.setRq, same]
  refine locks_of_update a ?_ ?_ (fun d _ => ?_) ?_
  · rw [rqs]
    exact rq
  · show Agree s.piLock (Function.update (fun d => piLock (s.act d)) w (piLock a))
    rw [pi, Function.update_eq_self w fun d => piLock (s.act d)]
    exact locks.pi
  · rw [curr]
    exact locks.own d
  · rw [curr]
    exact own

theorem locks_lockRq (locks : Locks s) (free : (s.rq c).lock = none)
    (empty : rqLock w (s.act w) = none) (rq : rqLock w a = some c) (pi : piLock a = piLock (s.act w))
    (own : Local (s.rq w).curr a) : Locks ((s.lockRq c w).goto w a) :=
  locks_setLock locks (rq ▸ locks.rq.acquire free empty) pi own

theorem locks_unlockRq (locks : Locks s) (held : rqLock w (s.act w) = some c)
    (rq : rqLock w a = none) (pi : piLock a = piLock (s.act w)) (own : Local (s.rq w).curr a) :
    Locks ((s.unlockRq c).goto w a) :=
  locks_setLock locks (rq ▸ locks.rq.release held) pi own

end

theorem locks_setPi (locks : Locks s) {holder : Option Cpu}
    (pi : Agree (Function.update s.piLock p holder)
      (Function.update (fun d => piLock (s.act d)) w (piLock a)))
    (rq : rqLock w a = rqLock w (s.act w)) (own : Local (s.rq w).curr a) :
    Locks ((s.setPi p holder).goto w a) := by
  refine locks_of_update a ?_ pi (fun d _ => locks.own d) own
  show Agree (fun c => (s.rq c).lock) (Function.update (fun d => rqLock d (s.act d)) w (rqLock w a))
  rw [rq, Function.update_eq_self w fun d => rqLock d (s.act d)]
  exact locks.rq

theorem locks_lockPi (locks : Locks s) (free : s.piLock p = none) (empty : piLock (s.act w) = none)
    (pi : piLock a = some p) (rq : rqLock w a = rqLock w (s.act w)) (own : Local (s.rq w).curr a) :
    Locks ((s.setPi p (some w)).goto w a) :=
  locks_setPi locks (pi ▸ locks.pi.acquire free empty) rq own

theorem locks_unlockPi (locks : Locks s) (held : piLock (s.act w) = some p) (pi : piLock a = none)
    (rq : rqLock w a = rqLock w (s.act w)) (own : Local (s.rq w).curr a) :
    Locks ((s.setPi p none).goto w a) :=
  locks_setPi locks (pi ▸ locks.pi.release held) rq own

omit [DecidableEq Cpu] in
theorem needsPi_eq_false (locks : Locks s) (held : piLock (s.act w) = some p) {d : Cpu}
    (other : d ≠ w) {r : Role Cpu} (plays : (view s p).role d = some r) : r.needsPi = false := by
  by_contra needs
  exact other (locks.pi.exclusive (piLock_of_role plays (by simpa using needs)) held)

omit [DecidableEq Cpu] in
theorem needsRq_ne (locks : Locks s) (held : rqLock w (s.act w) = some c) {d : Cpu} (other : d ≠ w)
    {r : Role Cpu} (plays : (view s p).role d = some r) : r.needsRq ≠ some c := by
  intro needs
  exact other (locks.rq.exclusive (rqLock_of_role plays needs) held)

end Locks

/-! ## Roles and hops -/

section Placed

theorem placed_goto (placed : ∀ p, ∃ place, Fit (view s p) place) (same : ∀ q, view s₁ q = view s q)
    (batch : ∀ q, (batch a).count q ≤ 1)
    (allows : ∀ q place, Fit (view s q) place → Role.Allows w place (role w a q)) :
    ∀ q, ∃ place, Fit (view (s₁.goto w a) q) place := by
  intro q
  obtain ⟨place, fit⟩ := placed q
  refine ⟨place, ?_⟩
  rw [view_goto, same]
  refine ⟨fit.queue, fit.wakeList, fun d => ?_, fit.curr, fit.fits, fun d => ?_⟩
  · by_cases here : d = w
    · simpa [here] using batch q
    · simpa [here] using fit.batch d
  · by_cases here : d = w
    · subst here
      simpa using allows q place fit
    · simpa [here] using fit.roles d

theorem fit_hop (locks : Locks s) {place place' : Place Cpu} (fit : Fit (view s p) place)
    (hop : Hop w place place') (pi : place.home = none → piLock (s.act w) = some p)
    (lock : ∀ c, place = .ready c → rqLock w (s.act w) = some c) {v : View Cpu}
    (queue : v.queue = once place'.queue) (wakeList : v.wakeList = once place'.wakeList)
    (batch : ∀ c, v.batch c ≤ 1) (curr : v.curr = fun c => place'.current = some c)
    (fits : place'.Fits v.task) (own : Role.Allows w place' (v.role w))
    (roles : ∀ d, d ≠ w → v.role d = (view s p).role d) : Fit v place' := by
  refine ⟨queue, wakeList, batch, curr, fits, fun d => ?_⟩
  by_cases here : d = w
  · subst here
    exact own
  · rw [roles d here]
    refine (fit.roles d).hop hop here (fun none r plays => ?_) fun c ready r plays => ?_
    · exact needsPi_eq_false locks (pi none) here plays
    · exact needsRq_ne locks (lock c ready) here plays

theorem placed_hop (inv : Inv s) (act : s₁.act = s.act)
    (others : ∀ q, q ≠ p → view s₁ q = view s q)
    (quiet : ∀ q, q ≠ p → (batch a).count q = (batch (s.act w)).count q ∧ role w a q = role w (s.act w) q)
    {place place' : Place Cpu} (fit : Fit (view s p) place) (hop : Hop w place place')
    (pi : place.home = none → piLock (s.act w) = some p)
    (lock : ∀ c, place = .ready c → rqLock w (s.act w) = some c)
    (queue : (view s₁ p).queue = once place'.queue)
    (wakeList : (view s₁ p).wakeList = once place'.wakeList)
    (curr : (view s₁ p).curr = fun c => place'.current = some c)
    (fits : place'.Fits (s₁.task p)) (batch : (batch a).count p ≤ 1)
    (own : Role.Allows w place' (role w a p)) :
    ∀ q, ∃ place, Fit (view (s₁.goto w a) q) place := by
  intro q
  by_cases here : q = p
  · subst here
    refine ⟨place', ?_⟩
    rw [view_goto]
    refine fit_hop inv.locks fit hop pi lock queue wakeList (fun d => ?_) curr fits ?_ fun d away => ?_
    · by_cases here : d = w
      · simpa [here] using batch
      · have before : (view s₁ q).batch d = (view s q).batch d := by simp only [view, act]
        simpa [here, before] using fit.batch d
    · simpa using own
    · simp [away, view, act]
  · obtain ⟨place, fit⟩ := inv.placed q
    refine ⟨place, ?_⟩
    have quiet := quiet q here
    rw [← act] at quiet
    rw [view_goto_of_same s₁ q w quiet.1 quiet.2, others q here]
    exact fit

theorem inv_setTask (inv : Inv s) {t : TaskStruct Cpu}
    (fits : ∀ place, Fit (view s p) place → place.Fits t) : Inv (s.setTask p t) := by
  refine ⟨locks_setTask inv.locks p t, fun q => ?_⟩
  obtain ⟨place, fit⟩ := inv.placed q
  by_cases here : q = p
  · subst here
    refine ⟨place, ?_⟩
    rw [view_setTask_self]
    exact ⟨fit.queue, fit.wakeList, fit.batch, fit.curr, fits place fit, fit.roles⟩
  · exact ⟨place, view_setTask_of_ne s here t ▸ fit⟩

theorem inv_setRq (inv : Inv s) {rq : Rq Cpu Task} (lock : rq.lock = (s.rq c).lock)
    (queue : rq.queue = (s.rq c).queue) (wakeList : rq.wakeList = (s.rq c).wakeList)
    (curr : rq.curr = (s.rq c).curr) : Inv (s.setRq c rq) := by
  refine ⟨locks_setRq inv.locks lock curr, fun q => ?_⟩
  obtain ⟨place, fit⟩ := inv.placed q
  exact ⟨place, view_setRq_of_same s q c (by rw [queue]) wakeList curr ▸ fit⟩

theorem placed_same (inv : Inv s) (same : ∀ q, view s₁ q = view s q)
    (batch : ∀ q, (batch a).count q = (batch (s.act w)).count q)
    (roles : ∀ q, role w a q = role w (s.act w) q) :
    ∀ q, ∃ place, Fit (view (s₁.goto w a) q) place := by
  refine placed_goto inv.placed same (fun q => ?_) fun q place fit => ?_
  · obtain ⟨place, fit⟩ := inv.placed q
    rw [batch]
    exact fit.batch w
  · rw [roles]
    exact fit.roles w

theorem eq_running {place : Place Cpu} (fit : Fit (view s p) place) (curr : (s.rq w).curr = some p)
    (idle : role w (s.act w) p = none) : place = .running w := by
  have current : place.current = some w := by
    have at_w := congrFun fit.curr w
    simpa [view, curr] using at_w
  have free : place.owner ≠ some w := by
    simpa [view, idle, Role.Allows] using fit.roles w
  cases place <;> simp_all [Place.current, Place.owner]

theorem eq_ready {place : Place Cpu} (inv : Inv s) (fit : Fit (view s p) place)
    (queued : p ∈ (s.rq c).queue) (still : place ≠ .running c ∧ place ≠ .switchedOut c)
    (held : rqLock w (s.act w) = some c) (free : place.owner ≠ some w) : place = .ready c := by
  have here := queue_of_mem fit queued
  cases place with
  | activated d v =>
    obtain rfl : d = c := Option.some.inj here
    -- the CPU that activates it holds the lock of the queue as well
    have lock := rqLock_of_role (role_of_activated fit) rfl
    exact absurd (congrArg some (inv.locks.rq.exclusive lock held)) free
  | _ => simp_all [Place.queue]

section
omit [DecidableEq Cpu]

theorem off_of_onRq {place : Place Cpu} (off : place.onRq = .no) (sleeps : place.woken = false) :
    place.off := by
  cases place <;> simp_all [Place.onRq, Place.woken, Place.off]

theorem eq_blocked {place : Place Cpu} (off : place.off) (idle : place.onCpu = false) :
    place = .blocked := by
  cases place <;> simp_all [Place.off, Place.onCpu]

theorem fits_running {place : Place Cpu} {t : TaskStruct Cpu} (fits : place.Fits t)
    (queued : place.onRq = .queued) (sleeps : place.woken = false) :
    place.Fits { t with state := taskRunning } := by
  refine ⟨fits.onRq, fits.onCpu, fits.home, ?_, fun off => ?_⟩
  · rw [sleeps]
    exact ⟨fun eq => absurd eq (by decide : taskRunning ≠ taskWaking), fun h => absurd h (by decide)⟩
  · cases place <;> simp_all [Place.onRq, Place.off]

end

theorem view_ttwuActivate_of_ne {q : Task} (other : q ≠ p) : view (ttwuActivate s c p) q = view s q := by
  rw [ttwuActivate, view_setTask_of_ne _ other]
  exact view_enqueue_of_ne other rfl rfl rfl

theorem view_ttwuActivate {place : Place Cpu} (fit : Fit (view s p) place) (absent : place.queue = none) :
    view (ttwuActivate s c p) p =
      { view s p with queue := once (some c), task := { s.task p with onRq := .queued } } := by
  rw [ttwuActivate, view_setTask_self, queue_enqueue fit absent] <;> rfl

theorem locks_ttwuActivate (locks : Locks s) (c : Cpu) (p : Task) : Locks (ttwuActivate s c p) := by
  rw [ttwuActivate]
  refine locks_setTask (locks_setRq locks ?_ ?_) p _ <;> rfl

end Placed

end UnixSystems.WakeFrame
