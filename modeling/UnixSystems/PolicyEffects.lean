import UnixSystems.PolicyModel

/-! What `sched_fork`, `__sched_setscheduler` and `rt_mutex_setprio` do to the policies,
classes and priorities of the tasks: each changes one task at most. The methods that they
call on the way change none of this. -/
namespace UnixSystems.PolicyModel
open WrrModel hiding State
open WrrConservation hiding Action step Enabled

structure Same (s t : State) : Prop where
  prio : t.prio = s.prio
  task : ∀ p, unaccounted (t.core.task p) = unaccounted (s.core.task p)

theorem Same.refl (s : State) : Same s s := ⟨rfl, fun _ => rfl⟩

theorem Same.trans {s t u : State} (first : Same s t) (second : Same t u) : Same s u :=
  ⟨second.prio.trans first.prio, fun p => (second.task p).trans (first.task p)⟩

theorem Same.policy {s t : State} (same : Same s t) (p : Pid) : t.policy p = s.policy p :=
  congrArg (·.1) (same.task p)

theorem Same.schedClass {s t : State} (same : Same s t) (p : Pid) : t.schedClass p = s.schedClass p :=
  congrArg (·.2.1) (same.task p)

theorem Same.cpu {s t : State} (same : Same s t) (p : Pid) :
    (t.core.task p).cpu = (s.core.task p).cpu :=
  congrArg (·.2.2.1) (same.task p)

theorem Same.effectivePrio {s t : State} (same : Same s t) (piTask : Option Pid) (prio : Int) :
    effectivePrio t piTask prio = effectivePrio s piTask prio := by
  unfold PolicyModel.effectivePrio
  rw [same.prio]

/-! ## Methods -/

theorem unaccounted_modifyTask (s : WrrModel.State) (p q : Pid) (f : Task → Task)
    (same : unaccounted (f (s.task p)) = unaccounted (s.task p)) :
    unaccounted ((s.modifyTask p f).task q) = unaccounted (s.task q) :=
  (accounted_modifyTask s p f same).task q

theorem unaccounted_enqueueTaskWrr (s : WrrModel.State) (cpu : ℕ) (p q : Pid) (flags : UInt32) :
    unaccounted ((enqueueTaskWrr s cpu p flags).task q) = unaccounted (s.task q) := by
  unfold enqueueTaskWrr addNrRunning
  by_cases wakeup : flags &&& enqueueWakeup ≠ 0
  · simp only [if_pos wakeup]
    have same := unaccounted_modifyTask s p q
      (fun t => { t with wrr := { t.wrr with timeout := 0 } }) rfl
    split_ifs <;> exact same
  · simp only [if_neg wakeup]
    split_ifs <;> rfl

theorem unaccounted_dequeueTaskWrr (cfg : Config) (s : WrrModel.State) (cpu : ℕ) (p q : Pid)
    (flags : UInt32) :
    unaccounted ((dequeueTaskWrr cfg s cpu p flags).task q) = unaccounted (s.task q) := by
  unfold dequeueTaskWrr subNrRunning
  split_ifs
  · rfl
  · exact (accounted_updateCurrWrr cfg s cpu).task q

theorem accounted_setCurrTaskWrr (s : WrrModel.State) (cpu : ℕ) : Accounted s (setCurrTaskWrr s cpu) := by
  unfold setCurrTaskWrr
  cases (s.rq cpu).curr with
  | none => exact Accounted.refl s
  | some p => exact accounted_modifyTask s p _ rfl

theorem switchedToWrr_eq (s : WrrModel.State) (cpu : ℕ) (p : Pid) (queued : Bool) :
    switchedToWrr s cpu p queued = s ∨ switchedToWrr s cpu p queued = reschedCurr s cpu := by
  unfold switchedToWrr checkPreemptCurr
  split_ifs
  · exact .inr rfl
  · split
    · exact .inr rfl
    · exact .inr rfl
    · exact .inr rfl
    · exact .inl rfl
  · exact .inl rfl

theorem unaccounted_wrrMethod (cfg : Config) (m : Method) (s : WrrModel.State) (cpu : ℕ) (p q : Pid)
    (queued : Bool) :
    unaccounted ((wrrMethod cfg m s cpu p queued).task q) = unaccounted (s.task q) := by
  cases m with
  | enqueueTask flags => exact unaccounted_enqueueTaskWrr s cpu p q flags
  | dequeueTask flags => exact unaccounted_dequeueTaskWrr cfg s cpu p q flags
  | putPrevTask => exact (accounted_updateCurrWrr cfg s cpu).task q
  | setCurrTask => exact (accounted_setCurrTaskWrr s cpu).task q
  | switchedFrom => rfl
  | switchedTo =>
    rcases switchedToWrr_eq s cpu p queued with same | same
    · rw [wrrMethod, same]
    · rw [wrrMethod, same]
      rfl
  | prioChanged oldprio => rfl

section Methods

variable (cfg : Config) (K : OtherClasses)

theorem same_callMethod (schedClass : SchedClass) (m : Method) (p : Pid) (s : State) :
    Same s (callMethod cfg K schedClass m p s) := by
  refine ⟨rfl, fun q => ?_⟩
  simp only [callMethod, State.modifyCore]
  split_ifs
  · exact unaccounted_wrrMethod cfg m s.core _ p q _
  · exact (K.foreign schedClass m s.core _ p).task q

theorem same_callOwn (m : Method) (p : Pid) (s : State) : Same s (callOwn cfg K m p s) :=
  same_callMethod cfg K _ m p s

theorem same_ite_callOwn (needed : Bool) (m : Method) (p : Pid) (s : State) :
    Same s (if needed then callOwn cfg K m p s else s) := by
  cases needed with
  | true => exact same_callOwn cfg K m p s
  | false => exact Same.refl s

theorem same_takeOff (queued running : Bool) (flags : UInt32) (p : Pid) (s : State) :
    Same s (takeOff cfg K queued running flags p s) :=
  (same_ite_callOwn cfg K queued _ p s).trans (same_ite_callOwn cfg K running _ p _)

theorem same_putBack (queued running : Bool) (flags : UInt32) (p : Pid) (s : State) :
    Same s (putBack cfg K queued running flags p s) :=
  (same_ite_callOwn cfg K queued _ p s).trans (same_ite_callOwn cfg K running _ p _)

theorem same_checkClassChanged (s : State) (p : Pid) (prevClass : SchedClass) (oldprio : Int) :
    Same s (checkClassChanged cfg K s p prevClass oldprio) := by
  unfold checkClassChanged
  split_ifs
  · exact (same_callMethod cfg K _ _ p s).trans (same_callOwn cfg K _ p _)
  · exact same_callOwn cfg K _ p s
  · exact Same.refl s

end Methods

/-! ## Assignments -/

structure Assigned (s t : State) (p : Pid) (policy : Policy) (schedClass : SchedClass) (a : Prio) :
    Prop where
  policy : t.policy p = policy
  schedClass : t.schedClass p = schedClass
  prio : t.prio p = a
  others : ∀ q, q ≠ p → t.policy q = s.policy q ∧ t.schedClass q = s.schedClass q ∧
    t.prio q = s.prio q

theorem Assigned.refl (s : State) (p : Pid) : Assigned s s p (s.policy p) (s.schedClass p) (s.prio p) :=
  ⟨rfl, rfl, rfl, fun _ _ => ⟨rfl, rfl, rfl⟩⟩

section Assign

variable {s t u : State} {p : Pid} {policy : Policy} {schedClass : SchedClass} {a : Prio}

theorem Same.assigned (same : Same s u) (assigned : Assigned u t p policy schedClass a) :
    Assigned s t p policy schedClass a := by
  refine ⟨assigned.policy, assigned.schedClass, assigned.prio, fun q other => ?_⟩
  obtain ⟨policy, schedClass, prio⟩ := assigned.others q other
  exact ⟨policy.trans (same.policy q), schedClass.trans (same.schedClass q),
    prio.trans (congrFun same.prio q)⟩

theorem Assigned.same (assigned : Assigned s t p policy schedClass a) (same : Same t u) :
    Assigned s u p policy schedClass a := by
  refine ⟨(same.policy p).trans assigned.policy, (same.schedClass p).trans assigned.schedClass,
    (congrFun same.prio p).trans assigned.prio, fun q other => ?_⟩
  obtain ⟨policy, schedClass, prio⟩ := assigned.others q other
  exact ⟨(same.policy q).trans policy, (same.schedClass q).trans schedClass,
    (congrFun same.prio q).trans prio⟩

theorem Assigned.trans {policy' : Policy} {schedClass' : SchedClass} {a' : Prio}
    (first : Assigned s t p policy schedClass a) (second : Assigned t u p policy' schedClass' a') :
    Assigned s u p policy' schedClass' a' := by
  refine ⟨second.policy, second.schedClass, second.prio, fun q other => ?_⟩
  obtain ⟨policy, schedClass, prio⟩ := first.others q other
  obtain ⟨policy', schedClass', prio'⟩ := second.others q other
  exact ⟨policy'.trans policy, schedClass'.trans schedClass, prio'.trans prio⟩

theorem Assigned.prio_eq {α : Type*} (assigned : Assigned s t p policy schedClass a) (f : Prio → α)
    (kept : f a = f (s.prio p)) (q : Pid) : f (t.prio q) = f (s.prio q) := by
  by_cases own : q = p
  · rw [own, assigned.prio, kept]
  · rw [(assigned.others q own).2.2]

theorem assigned_modifyPrio (s : State) (p : Pid) (f : Prio → Prio) :
    Assigned s (s.modifyPrio p f) p (s.policy p) (s.schedClass p) (f (s.prio p)) := by
  refine ⟨rfl, rfl, ?_, fun q other => ⟨rfl, rfl, ?_⟩⟩
  · simp [State.modifyPrio]
  · simp [State.modifyPrio, other]

theorem assigned_modifyTask (s : State) (p : Pid) (f : Task → Task) :
    Assigned s (s.modifyCore fun core => core.modifyTask p f) p (f (s.core.task p)).policy
      (f (s.core.task p)).schedClass (s.prio p) := by
  refine ⟨?_, ?_, rfl, fun q other => ⟨?_, ?_, rfl⟩⟩
  · simp [State.policy, State.modifyCore, WrrModel.State.modifyTask]
  · simp [State.schedClass, State.modifyCore, WrrModel.State.modifyTask]
  · simp [State.policy, State.modifyCore, WrrModel.State.modifyTask, other]
  · simp [State.schedClass, State.modifyCore, WrrModel.State.modifyTask, other]

theorem same_updateRqClock (s : State) (p : Pid) (now : UInt64) :
    Same s (s.modifyCore fun core => updateRqClock core (core.task p).cpu now) :=
  ⟨rfl, fun _ => rfl⟩

theorem requeueAround_assigned (cfg : Config) (K : OtherClasses) (flags : UInt32)
    {change : State → State} (flags' : State → UInt32)
    (assigned : ∀ u, Same s u → Assigned u (change u) p policy schedClass a) :
    Assigned s (requeueAround cfg K s p flags change flags') p policy schedClass a := by
  have before := same_takeOff cfg K (s.prio p).onRq
    ((s.core.rq (s.core.task p).cpu).curr = some p) flags p s
  have changed := before.assigned (assigned _ before)
  exact (changed.same (same_putBack cfg K _ _ _ p _)).same (same_checkClassChanged cfg K _ p _ _)

/-! ## The three functions -/

theorem setprio_assigned (cfg : Config) (K : OtherClasses) (s : State) (p : Pid)
    (piTask : Option Pid) (prio : Int) :
    Assigned s (setprio cfg K s p piTask prio) p (s.policy p) (setprioClass prio)
      { s.prio p with prio := prio } := by
  unfold setprio
  refine requeueAround_assigned cfg K _ _ fun u same => ?_
  have classed : Assigned u (u.setSchedClass p (setprioClass prio)) p (u.policy p)
      (setprioClass prio) (u.prio p) := assigned_modifyTask u p _
  have changed := classed.trans (assigned_modifyPrio _ p fun a => { a with prio := prio })
  rw [classed.policy, classed.schedClass, classed.prio] at changed
  rw [← same.prio, ← same.policy p]
  exact changed

def inherited (s : State) (p : Pid) (piTask : Option Pid) : Int :=
  effectivePrio s piTask (s.prio p).normalPrio

/-- The state in which `rt_mutex_setprio` has stored the donor. -/
def withDonor (s : State) (p : Pid) (piTask : Option Pid) (now : UInt64) : State :=
  (s.modifyCore fun core => updateRqClock core (core.task p).cpu now).modifyPrio p fun a =>
    { a with piTopTask := piTask }

theorem rtMutexSetprio_eq (cfg : Config) (K : OtherClasses) (s : State) (p : Pid)
    (piTask : Option Pid) (now : UInt64) :
    rtMutexSetprio cfg K s p piTask now =
      if (s.prio p).piTopTask = piTask ∧ inherited s p piTask = (s.prio p).prio ∧
          ¬ dlPrio (inherited s p piTask) then s
      else if inherited s p piTask = ((withDonor s p piTask now).prio p).prio ∧
          ¬ dlPrio (inherited s p piTask) then withDonor s p piTask now
      else setprio cfg K (withDonor s p piTask now) p piTask (inherited s p piTask) :=
  rfl

theorem rtMutexSetprio_assigned (cfg : Config) (K : OtherClasses) (s : State) (p : Pid)
    (piTask : Option Pid) (now : UInt64) :
    Assigned s (rtMutexSetprio cfg K s p piTask now) p (s.policy p)
      (if inherited s p piTask = (s.prio p).prio ∧ ¬ dlPrio (inherited s p piTask) then s.schedClass p
        else setprioClass (inherited s p piTask))
      { s.prio p with piTopTask := piTask, prio := inherited s p piTask } := by
  have donor : Assigned s (withDonor s p piTask now) p (s.policy p) (s.schedClass p)
      { s.prio p with piTopTask := piTask } :=
    (same_updateRqClock s p now).assigned (assigned_modifyPrio _ p _)
  have moved := donor.trans (setprio_assigned cfg K _ p piTask (inherited s p piTask))
  rw [donor.prio, donor.policy] at moved
  rw [rtMutexSetprio_eq, donor.prio]
  by_cases quiet : inherited s p piTask = (s.prio p).prio ∧ ¬ dlPrio (inherited s p piTask)
  · simp only [if_pos quiet]
    -- the early return and the jump to `out_unlock` differ only in the donor they leave
    split_ifs with nothing
    · have same : ({ s.prio p with piTopTask := piTask, prio := inherited s p piTask } : Prio) =
          s.prio p := by
        rw [quiet.1, ← nothing.1]
      rw [same]
      exact Assigned.refl s p
    · rw [quiet.1]
      exact donor
  · rw [if_neg quiet, if_neg quiet, if_neg fun nothing => quiet nothing.2]
    exact moved

def chosenPrio (s : State) (p : Pid) (attr : Attr) (keepBoost : Bool) : Int :=
  let prio := (newParams (newPolicy s p attr) attr (s.prio p)).normalPrio
  if keepBoost then effectivePrio s (s.prio p).piTopTask prio else prio

theorem newParams_frame (policy : Policy) (attr : Attr) (a : Prio) :
    (newParams policy attr a).prio = a.prio ∧ (newParams policy attr a).piTopTask = a.piTopTask ∧
      (newParams policy attr a).onRq = a.onRq := by
  unfold newParams
  dsimp only
  split_ifs
  · exact ⟨rfl, rfl, rfl⟩
  · exact ⟨rfl, rfl, rfl⟩

theorem normalPrio_newParams (policy : Policy) (attr : Attr) (a : Prio) :
    normalPrio policy (newParams policy attr a) = (newParams policy attr a).normalPrio :=
  rfl

theorem effectivePrio_congr (piTask : Option Pid) (prio : Int)
    (same : ∀ q, (t.prio q).prio = (s.prio q).prio) :
    effectivePrio t piTask prio = effectivePrio s piTask prio := by
  cases piTask with
  | none => rfl
  | some donor => rw [effectivePrio, effectivePrio, same]

theorem setscheduler_assigned (s : State) (p : Pid) (attr : Attr) (keepBoost : Bool) :
    Assigned s (setscheduler s p attr keepBoost) p (newPolicy s p attr)
      (setschedulerClass (chosenPrio s p attr keepBoost))
      { newParams (newPolicy s p attr) attr (s.prio p) with prio := chosenPrio s p attr keepBoost } := by
  have first := assigned_modifyTask s p fun t => { t with policy := newPolicy s p attr }
  have params : Assigned s (setschedulerParams s p attr) p (newPolicy s p attr) (s.schedClass p)
      (newParams (newPolicy s p attr) attr (s.prio p)) := by
    have both := first.trans (assigned_modifyPrio _ p (newParams (newPolicy s p attr) attr))
    rw [first.policy, first.schedClass, first.prio] at both
    exact both
  have donors : ∀ q, ((setschedulerParams s p attr).prio q).prio = (s.prio q).prio :=
    params.prio_eq Prio.prio (newParams_frame _ attr _).1
  have prio : (if keepBoost then rtEffectivePrio (setschedulerParams s p attr) p
        (normalPrio ((setschedulerParams s p attr).policy p) ((setschedulerParams s p attr).prio p))
      else normalPrio ((setschedulerParams s p attr).policy p) ((setschedulerParams s p attr).prio p)) =
      chosenPrio s p attr keepBoost := by
    rw [params.policy, params.prio, normalPrio_newParams, rtEffectivePrio, params.prio,
      (newParams_frame _ attr _).2.1, effectivePrio_congr _ _ donors]
    rfl
  have last := params.trans (assigned_modifyPrio _ p fun a =>
    { a with prio := chosenPrio s p attr keepBoost })
  rw [params.policy, params.schedClass, params.prio] at last
  have whole := last.trans (assigned_modifyTask _ p fun t =>
    { t with schedClass := setschedulerClass (chosenPrio s p attr keepBoost) })
  unfold setscheduler
  simp only [prio]
  have kept := last.policy
  rw [State.policy] at kept
  rw [kept, last.prio] at whole
  exact whole

/-- The call gets past every check and has something to change. -/
structure Accepted (s : State) (p : Pid) (attr : Attr) (call : Call) (policy : Policy)
    (reset : Bool) : Prop where
  requested : requested s p attr = some (policy, reset)
  valid : ¬ invalidParams (s.prio p) policy attr call
  permitted : ¬ (call.user ∧ ¬ call.capable ∧
    notPermitted (s.prio p) (s.policy p) policy reset attr call)
  secure : ¬ (call.user ∧ call.security ≠ 0)
  notStop : ¬ call.stopTask
  change : ¬ nothingToChange (s.prio p) (s.policy p) policy attr call
  bandwidth : ¬ (call.user ∧ (rtPolicy policy ∧ call.rtBarred ∨ dlPolicy policy ∧ call.dlBarred))
  room : ¬ ((dlPolicy policy ∨ dlPrio (s.prio p).prio) ∧ call.dlOverflow)

theorem newPolicy_of_requested {attr : Attr} {reset : Bool}
    (h : requested s p attr = some (policy, reset)) : newPolicy s p attr = policy := by
  unfold requested at h
  unfold newPolicy
  cases kind : attr.policy with
  | setparam =>
    rw [kind] at h
    simp only [Option.some.injEq, Prod.mk.injEq] at h
    exact h.1
  | named wanted =>
    rw [kind] at h
    simp only [Option.some.injEq, Prod.mk.injEq] at h
    exact h.1
  | invalid => simp [kind] at h

theorem Same.newPolicy (same : Same s u) (p : Pid) (attr : Attr) :
    newPolicy u p attr = newPolicy s p attr := by
  unfold PolicyModel.newPolicy
  rw [same.policy p]

theorem Same.chosenPrio (same : Same s u) (p : Pid) (attr : Attr) (keepBoost : Bool) :
    chosenPrio u p attr keepBoost = chosenPrio s p attr keepBoost := by
  simp only [PolicyModel.chosenPrio, same.newPolicy, same.effectivePrio, same.prio]

theorem setscheduler_assigned_of_same (same : Same s u) (p : Pid) (attr : Attr) (keepBoost : Bool) :
    Assigned u (setscheduler u p attr keepBoost) p (newPolicy s p attr)
      (setschedulerClass (chosenPrio s p attr keepBoost))
      { newParams (newPolicy s p attr) attr (s.prio p) with prio := chosenPrio s p attr keepBoost } := by
  have chosen := setscheduler_assigned u p attr keepBoost
  rwa [same.newPolicy, same.chosenPrio, same.prio] at chosen

theorem chosenPrio_reset (s : State) (p : Pid) (attr : Attr) (keepBoost reset : Bool) :
    chosenPrio (s.modifyPrio p fun a => { a with schedResetOnFork := reset }) p attr keepBoost =
      chosenPrio s p attr keepBoost := by
  have stored := assigned_modifyPrio s p fun a => { a with schedResetOnFork := reset }
  have donors := stored.prio_eq Prio.prio rfl
  have normal : ∀ policy, (newParams policy attr { s.prio p with schedResetOnFork := reset }).normalPrio =
      (newParams policy attr (s.prio p)).normalPrio := by
    intro policy
    unfold newParams
    dsimp only
    split_ifs <;> rfl
  simp only [chosenPrio, stored.prio, effectivePrio_congr _ _ donors]
  rw [normal]
  rfl

theorem changeScheduler_assigned (cfg : Config) (K : OtherClasses) (s : State) (p : Pid) (attr : Attr)
    (pi reset : Bool) :
    Assigned s (changeScheduler cfg K s p attr pi reset) p (newPolicy s p attr)
      (setschedulerClass (chosenPrio s p attr pi))
      { newParams (newPolicy s p attr) attr { s.prio p with schedResetOnFork := reset } with
        prio := chosenPrio s p attr pi } := by
  have stored := assigned_modifyPrio s p fun a => { a with schedResetOnFork := reset }
  have policy : newPolicy (s.modifyPrio p fun a => { a with schedResetOnFork := reset }) p attr =
      newPolicy s p attr := rfl
  unfold changeScheduler
  refine stored.trans (requeueAround_assigned cfg K _ _ fun u same => ?_)
  have chosen := setscheduler_assigned_of_same same p attr pi
  rwa [stored.prio, chosenPrio_reset, policy] at chosen

def locked (s : State) (p : Pid) (now : UInt64) : State :=
  s.modifyCore fun core => updateRqClock core (core.task p).cpu now

theorem schedSetscheduler_cases (cfg : Config) (K : OtherClasses) (s : State) (p : Pid)
    (attr : Attr) (call : Call) (now : UInt64) :
    (∃ policy reset, Accepted s p attr call policy reset ∧
      (schedSetscheduler cfg K s p attr call now).1 =
        changeScheduler cfg K (locked s p now) p attr call.pi reset) ∨
    ((∀ policy reset, ¬ Accepted s p attr call policy reset) ∧
      ((schedSetscheduler cfg K s p attr call now).1 = s ∨
        (schedSetscheduler cfg K s p attr call now).1 = locked s p now ∨
        ∃ reset, (schedSetscheduler cfg K s p attr call now).1 =
          (locked s p now).modifyPrio p fun a => { a with schedResetOnFork := reset })) := by
  generalize result : (schedSetscheduler cfg K s p attr call now).1 = t
  unfold schedSetscheduler at result
  cases wanted : requested s p attr with
  | none =>
    rw [wanted] at result
    refine .inr ⟨fun policy reset accepted => ?_, .inl result.symm⟩
    rw [accepted.requested] at wanted
    cases wanted
  | some request =>
    obtain ⟨policy, reset⟩ := request
    have only : (∀ policy' reset', ¬ Accepted s p attr call policy' reset') ↔
        ¬ Accepted s p attr call policy reset := by
      refine ⟨fun none => none policy reset, fun no policy' reset' accepted => ?_⟩
      have same := accepted.requested.symm.trans wanted
      simp only [Option.some.injEq, Prod.mk.injEq] at same
      exact no (same.1 ▸ same.2 ▸ accepted)
    rw [only]
    rw [wanted] at result
    dsimp only at result
    -- the checks in the order of the source; each one is a field of `Accepted`
    split_ifs at result with invalid barred insecure stop idle poor full
    · exact .inr ⟨fun accepted => accepted.valid invalid, .inl result.symm⟩
    · exact .inr ⟨fun accepted => accepted.permitted barred, .inl result.symm⟩
    · exact .inr ⟨fun accepted => accepted.secure insecure, .inl result.symm⟩
    · exact .inr ⟨fun accepted => accepted.notStop stop, .inr (.inl result.symm)⟩
    · exact .inr ⟨fun accepted => accepted.change idle, .inr (.inr ⟨reset, result.symm⟩)⟩
    · exact .inr ⟨fun accepted => accepted.bandwidth poor, .inr (.inl result.symm)⟩
    · exact .inr ⟨fun accepted => accepted.room full, .inr (.inl result.symm)⟩
    · exact .inl ⟨policy, reset, ⟨wanted, invalid, barred, insecure, stop, idle, poor, full⟩, result.symm⟩

theorem schedSetscheduler_assigned (cfg : Config) (K : OtherClasses) (s : State) (p : Pid)
    (attr : Attr) (call : Call) (now : UInt64) :
    (∃ policy reset, Accepted s p attr call policy reset ∧
      Assigned s (schedSetscheduler cfg K s p attr call now).1 p policy
        (setschedulerClass (chosenPrio s p attr call.pi))
        { newParams policy attr { s.prio p with schedResetOnFork := reset } with
          prio := chosenPrio s p attr call.pi }) ∨
    ((∀ policy reset, ¬ Accepted s p attr call policy reset) ∧
      ∃ reset, Assigned s (schedSetscheduler cfg K s p attr call now).1 p (s.policy p) (s.schedClass p)
        { s.prio p with schedResetOnFork := reset }) := by
  have clock : Same s (locked s p now) := same_updateRqClock s p now
  rcases schedSetscheduler_cases cfg K s p attr call now with
    ⟨policy, reset, accepted, changes⟩ | ⟨refused, same | ticked | ⟨reset, stored⟩⟩
  · refine .inl ⟨policy, reset, accepted, ?_⟩
    have changed := clock.assigned (changeScheduler_assigned cfg K _ p attr call.pi reset)
    rw [clock.newPolicy, clock.chosenPrio, newPolicy_of_requested accepted.requested] at changed
    rw [changes]
    exact changed
  · exact .inr ⟨refused, (s.prio p).schedResetOnFork, same.symm ▸ Assigned.refl s p⟩
  · exact .inr ⟨refused, (s.prio p).schedResetOnFork, ticked.symm ▸ (Assigned.refl s p).same clock⟩
  · exact .inr ⟨refused, reset, stored.symm ▸ clock.assigned
      (assigned_modifyPrio _ p fun a => { a with schedResetOnFork := reset })⟩

theorem schedFork_assigned (s : State) (current child : Pid)
    (live : ¬ dlPrio (childOf s current).2.prio) :
    Assigned s (schedFork s current child).1 child (childOf s current).1
      (if rtPrio (childOf s current).2.prio then .rt else .wrr) (childOf s current).2 := by
  have copied := assigned_modifyTask s child fun _ => { s.core.task current with
    se := ⟨0, 0, 0⟩
    policy := (childOf s current).1
    schedClass := if rtPrio (childOf s current).2.prio then .rt else .wrr }
  have whole := copied.trans (assigned_modifyPrio _ child fun _ => (childOf s current).2)
  rw [copied.policy, copied.schedClass] at whole
  simp only [schedFork, if_neg live]
  exact whole

theorem schedFork_of_dlPrio (s : State) (current child : Pid)
    (dead : dlPrio (childOf s current).2.prio) : (schedFork s current child).1 = s := by
  simp only [schedFork, if_pos dead]

end Assign

end UnixSystems.PolicyModel
