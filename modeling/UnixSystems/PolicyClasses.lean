import UnixSystems.PolicyEffects
import UnixSystems.WrrRoundRobin

/-! Class, policy and priority of the tasks over whole runs of `sched_fork`,
`__sched_setscheduler` and `rt_mutex_setprio`, in any order and on any tasks. -/
namespace UnixSystems.PolicyClasses
open GuardedRuns PolicyModel
open WrrModel hiding State
open WrrConservation hiding Action step Enabled

inductive Action where
  | schedFork (current child : Pid)
  | schedSetscheduler (p : Pid) (attr : Attr) (call : Call) (now : UInt64)
  | rtMutexSetprio (p : Pid) (piTask : Option Pid) (now : UInt64)

def step (cfg : Config) (K : OtherClasses) (s : State) : Action → State
  | .schedFork current child => (schedFork s current child).1
  | .schedSetscheduler p attr call now => (schedSetscheduler cfg K s p attr call now).1
  | .rtMutexSetprio p piTask now => rtMutexSetprio cfg K s p piTask now

theorem rtPrio_of_dlPrio {prio : Int} (dl : dlPrio prio) : rtPrio prio := by
  have low : prio < 0 := of_decide_eq_true dl
  exact decide_eq_true (low.trans (by decide))

theorem rtPrio_effectivePrio_iff (s : State) (piTask : Option Pid) (prio : Int) :
    rtPrio (effectivePrio s piTask prio) ↔
      rtPrio prio ∨ ∃ donor ∈ piTask, rtPrio (s.prio donor).prio := by
  cases piTask with
  | none => simp [effectivePrio]
  | some donor => simp [effectivePrio, rtPrio]

/-! ## The class goes with the priority -/

/-- A task without a deadline or real-time priority is in the class that `__setscheduler`
chooses for such a priority. -/
def Agrees (p : Pid) (s : State) : Prop :=
  ¬ dlPrio (s.prio p).prio → ¬ rtPrio (s.prio p).prio → s.schedClass p = .wrr

/-- The change of priority is a boost by a deadline or real-time task, or none: the task
keeps the lower of its own priority and its donor's. -/
def Boosts (p : Pid) (s : State) : Action → Prop
  | .rtMutexSetprio q piTask _ => q = p →
    (∃ donor ∈ piTask, rtPrio (s.prio donor).prio) ∨ rtPrio (s.prio p).normalPrio ∨
      effectivePrio s piTask (s.prio p).normalPrio = (s.prio p).prio
  | _ => True

section Agreement

variable {s t : State} {p q : Pid} {policy : Policy} {schedClass : SchedClass} {a : Prio}

theorem agrees_own_iff (assigned : Assigned s t p policy schedClass a) :
    Agrees p t ↔ (¬ dlPrio a.prio → ¬ rtPrio a.prio → schedClass = .wrr) := by
  rw [Agrees, assigned.prio, assigned.schedClass]

theorem agrees_other_iff (assigned : Assigned s t q policy schedClass a) (other : p ≠ q) :
    Agrees p t ↔ Agrees p s := by
  obtain ⟨-, same, prio⟩ := assigned.others p other
  rw [Agrees, Agrees, same, prio]

theorem setschedulerClass_eq_wrr_iff (prio : Int) : setschedulerClass prio = .wrr ↔ ¬ rtPrio prio := by
  unfold setschedulerClass
  by_cases dl : dlPrio prio
  · simp [dl, rtPrio_of_dlPrio dl]
  · by_cases rt : rtPrio prio <;> simp [dl, rt]

theorem setprioClass_ne_wrr (prio : Int) : setprioClass prio ≠ .wrr := by
  unfold setprioClass
  split_ifs <;> simp

theorem agrees_schedFork (s : State) (current child : Pid) (agrees : Agrees p s) :
    Agrees p (schedFork s current child).1 := by
  by_cases dead : dlPrio (childOf s current).2.prio
  · rwa [schedFork_of_dlPrio s current child dead]
  · have assigned := schedFork_assigned s current child dead
    by_cases own : p = child
    · subst own
      rw [agrees_own_iff assigned]
      intro _ normal
      rw [if_neg normal]
    · exact (agrees_other_iff assigned own).mpr agrees

theorem agrees_schedSetscheduler (cfg : Config) (K : OtherClasses) (s : State) (q : Pid) (attr : Attr)
    (call : Call) (now : UInt64) (agrees : Agrees p s) :
    Agrees p (schedSetscheduler cfg K s q attr call now).1 := by
  rcases schedSetscheduler_assigned cfg K s q attr call now with
    ⟨policy, reset, -, assigned⟩ | ⟨-, reset, assigned⟩
  · by_cases own : p = q
    · subst own
      rw [agrees_own_iff assigned]
      exact fun _ normal => (setschedulerClass_eq_wrr_iff _).mpr normal
    · exact (agrees_other_iff assigned own).mpr agrees
  · by_cases own : p = q
    · subst own
      rw [agrees_own_iff assigned]
      exact agrees
    · exact (agrees_other_iff assigned own).mpr agrees

/-- The third choice is the one that differs: a task that falls back to a priority of its
own becomes a fair task. -/
theorem agrees_rtMutexSetprio_iff (cfg : Config) (K : OtherClasses) (s : State) (q : Pid)
    (piTask : Option Pid) (now : UInt64) (agrees : Agrees p s) :
    Agrees p (rtMutexSetprio cfg K s q piTask now) ↔ Boosts p s (.rtMutexSetprio q piTask now) := by
  have assigned := rtMutexSetprio_assigned cfg K s q piTask now
  by_cases own : q = p
  · subst own
    rw [agrees_own_iff assigned, Boosts, ← inherited.eq_def, ← or_assoc, or_comm (a := ∃ _, _),
      ← rtPrio_effectivePrio_iff, ← inherited.eq_def]
    by_cases rt : rtPrio (inherited s q piTask)
    · simp [rt]
    · have ordinary : ¬ dlPrio (inherited s q piTask) := fun dl => rt (rtPrio_of_dlPrio dl)
      -- with an ordinary priority the class survives only if nothing is to be done
      by_cases same : inherited s q piTask = (s.prio q).prio
      · rw [if_pos ⟨same, ordinary⟩]
        exact iff_of_true (fun _ _ => agrees (same ▸ ordinary) (same ▸ rt)) fun _ => .inr same
      · simp [rt, ordinary, same, setprioClass_ne_wrr]
  · have stays := (agrees_other_iff assigned (Ne.symm own)).mpr agrees
    exact iff_of_true stays fun same => absurd same own

theorem boosted_falls_back (cfg : Config) (K : OtherClasses) (s : State) (p donor : Pid)
    (now later : UInt64) (own : ¬ rtPrio (s.prio p).normalPrio) (rt : rtPrio (s.prio donor).prio) :
    (rtMutexSetprio cfg K (rtMutexSetprio cfg K s p (some donor) now) p none later).schedClass p =
      .fair := by
  have boost := rtMutexSetprio_assigned cfg K s p (some donor) now
  have back := rtMutexSetprio_assigned cfg K (rtMutexSetprio cfg K s p (some donor) now) p none later
  have raised : rtPrio (inherited s p (some donor)) :=
    (rtPrio_effectivePrio_iff s _ _).mpr (.inr ⟨donor, rfl, rt⟩)
  have lowered : inherited (rtMutexSetprio cfg K s p (some donor) now) p none =
      (s.prio p).normalPrio := by
    rw [inherited, boost.prio]
    rfl
  have apart : (s.prio p).normalPrio ≠ inherited s p (some donor) := fun same => own (same ▸ raised)
  have ordinary : ¬ dlPrio (s.prio p).normalPrio := fun dl => own (rtPrio_of_dlPrio dl)
  rw [back.schedClass, lowered, boost.prio, if_neg fun same => apart same.1]
  simp [setprioClass, own, ordinary]

end Agreement

theorem agrees_iff_boosts (cfg : Config) (K : OtherClasses) (s : State) (p : Pid)
    (placed : s.schedClass p = .wrr) (acts : List Action) :
    (Always (step cfg K) (Agrees p) s acts ↔ Along (step cfg K) (Boosts p) s acts) ∧
    ∀ donor now later, ¬ rtPrio (s.prio p).normalPrio → rtPrio (s.prio donor).prio →
      (run (step cfg K) s [.rtMutexSetprio p (some donor) now, .rtMutexSetprio p none later]).schedClass
        p = .fair := by
  constructor
  · have free : Along (step cfg K) (fun _ _ => True) s acts := along_of_forall (fun _ _ => trivial) s acts
    refine always_iff_along (fun _ => True) (Agrees p) (fun _ _ _ _ => trivial) ?_ trivial
      (fun _ _ => placed) free
    intro s a _ _ agrees
    cases a with
    | schedFork current child => exact iff_of_true (agrees_schedFork s current child agrees) trivial
    | schedSetscheduler q attr call now =>
      exact iff_of_true (agrees_schedSetscheduler cfg K s q attr call now agrees) trivial
    | rtMutexSetprio q piTask now => exact agrees_rtMutexSetprio_iff cfg K s q piTask now agrees
  · intro donor now later own rt
    exact boosted_falls_back cfg K s p donor now later own rt

def sleepers : State where
  core := quiet.modifyTask (.nth 1) fun t => { t with policy := .fifo, schedClass := .rt }
  prio := fun p => if p = .nth 1 then ⟨120, 50, 50, 49, false, none, false, true⟩
    else ⟨120, 120, 120, 0, false, none, false, true⟩

theorem agrees_iff_boosts_twice :
    Always (step ⟨10, 1000, true, true⟩ idleClasses) (Agrees (.nth 0)) sleepers
      [.rtMutexSetprio (.nth 0) (some (.nth 1)) 1, .rtMutexSetprio (.nth 0) (some (.nth 1)) 2] :=
  (agrees_iff_boosts _ idleClasses sleepers (.nth 0) rfl _).1.mpr
    ⟨fun _ => .inl ⟨.nth 1, rfl, rfl⟩, fun _ => .inl ⟨.nth 1, rfl, by decide⟩, trivial⟩

theorem deboost_leaves_wrr :
    sleepers.schedClass (.nth 0) = .wrr ∧
      ¬ Always (step ⟨10, 1000, true, true⟩ idleClasses) (Agrees (.nth 0)) sleepers
        [.rtMutexSetprio (.nth 0) (some (.nth 1)) 1, .rtMutexSetprio (.nth 0) none 2] := by
  refine ⟨rfl, fun always => ?_⟩
  have agrees := always _ (List.prefix_refl _) (by decide) (by decide)
  revert agrees
  decide

/-! ## The policy goes with the class -/

def WrrPolicies (s : State) : Prop := ∀ p, s.schedClass p = .wrr → s.policy p = .wrr

def Ordinary (policy : Policy) : Prop := policy = .normal ∨ policy = .batch ∨ policy = .idle

instance : DecidablePred Ordinary := fun policy =>
  inferInstanceAs (Decidable (policy = .normal ∨ policy = .batch ∨ policy = .idle))

structure Sound (policy : Policy) (a : Prio) : Prop where
  static : 100 ≤ a.staticPrio
  normal : a.normalPrio = normalPrio policy a
  rt : rtPolicy policy → 1 ≤ a.rtPriority

def Coherent (s : State) : Prop := ∀ p, Sound (s.policy p) (s.prio p)

/-- No task gets one of the fair policies without being boosted out of their way: they are
not asked for, or left as they are, in an accepted call that has something to change, and
they are not inherited. -/
def Proper (s : State) : Action → Prop
  | .schedFork current _ => ¬ Ordinary (s.policy current)
  | .schedSetscheduler p attr call _ => ∀ policy reset, Accepted s p attr call policy reset →
    Ordinary policy → call.pi ∧ ∃ donor ∈ (s.prio p).piTopTask, rtPrio (s.prio donor).prio
  | .rtMutexSetprio _ _ _ => True

theorem policy_cases (policy : Policy) :
    rtPolicy policy ∨ dlPolicy policy ∨ policy = .wrr ∨ Ordinary policy := by
  cases policy <;> simp [rtPolicy, dlPolicy, Ordinary]

theorem Ordinary.not_rtPolicy {policy : Policy} (h : Ordinary policy) :
    ¬ rtPolicy policy ∧ ¬ dlPolicy policy ∧ policy ≠ .wrr := by
  rcases h with rfl | rfl | rfl <;> decide

section Coherence

variable {s t : State} {p : Pid} {policy : Policy} {schedClass : SchedClass} {a : Prio}

theorem Sound.rtPrio_iff (h : Sound policy a) :
    rtPrio a.normalPrio ↔ rtPolicy policy ∨ dlPolicy policy := by
  have static := h.static
  rw [h.normal, normalPrio]
  by_cases dl : dlPolicy policy
  · simp [dl, rtPrio, maxRtPrio]
  · by_cases rt : rtPolicy policy
    · have low := h.rt rt
      simp only [dl, rt, rtPrio, maxRtPrio]
      simp
      omega
    · simp [dl, rt, rtPrio, maxRtPrio, static]

theorem Sound.of_eq {b : Prio} (h : Sound policy a) (static : b.staticPrio = a.staticPrio)
    (normal : b.normalPrio = a.normalPrio) (rt : b.rtPriority = a.rtPriority) : Sound policy b := by
  refine ⟨static ▸ h.static, ?_, fun real => rt ▸ h.rt real⟩
  rw [normal, h.normal, normalPrio, normalPrio, rt, static]

theorem childOf_sound {current : Pid} (h : Sound (s.policy current) (s.prio current)) :
    Sound (childOf s current).1 (childOf s current).2 ∧
      (childOf s current).2.prio = (childOf s current).2.normalPrio ∧
      (Ordinary (childOf s current).1 ↔ Ordinary (s.policy current)) := by
  have static := h.static
  unfold childOf
  dsimp only
  split_ifs
  · unfold resetOnFork
    dsimp only
    by_cases privileged : dlPolicy (s.policy current) ∨ rtPolicy (s.policy current)
    · have plain : ¬ Ordinary (s.policy current) := by
        intro ordinary
        obtain ⟨rt, dl, -⟩ := ordinary.not_rtPolicy
        exact privileged.elim dl rt
      simp only [privileged, true_or, if_true]
      have nice : (100 : Int) ≤ niceToPrio 0 := by decide
      exact ⟨⟨nice, rfl, fun real => by cases real⟩, trivial, iff_of_false (by simp [Ordinary]) plain⟩
    · simp only [privileged, false_or, if_false]
      obtain ⟨dl, rt⟩ := not_or.mp privileged
      refine ⟨⟨?_, ?_, fun real => absurd real rt⟩, trivial, trivial⟩
      · dsimp only
        split_ifs
        · decide
        · exact static
      · rw [normalPrio, if_neg dl, if_neg rt]
  · exact ⟨h.of_eq rfl rfl rfl, rfl, Iff.rfl⟩

theorem newParams_sound {attr : Attr} {call : Call} (h : Sound (s.policy p) (s.prio p)) (reset : Bool)
    (valid : ¬ invalidParams (s.prio p) policy attr call) :
    Sound policy (newParams policy attr { s.prio p with schedResetOnFork := reset }) := by
  have low := attr.low
  have static := h.static
  refine ⟨?_, rfl, fun real => ?_⟩
  · unfold newParams
    dsimp only
    split_ifs
    · simp only [niceToPrio]
      omega
    · exact static
  · have given : attr.priority ≠ 0 := by
      intro zero
      refine valid (.inr (.inr (.inr (.inr ?_))))
      simp [real, zero]
    have stored : (newParams policy attr { s.prio p with schedResetOnFork := reset }).rtPriority =
        attr.priority := rfl
    rw [stored]
    omega

theorem wrrPolicies_iff (assigned : Assigned s t p policy schedClass a) (before : WrrPolicies s) :
    WrrPolicies t ↔ (schedClass = .wrr → policy = .wrr) := by
  constructor
  · intro after
    have own := after p
    rwa [assigned.policy, assigned.schedClass] at own
  · intro own q
    by_cases same : q = p
    · rw [same, assigned.policy, assigned.schedClass]
      exact own
    · obtain ⟨policy, schedClass, -⟩ := assigned.others q same
      rw [policy, schedClass]
      exact before q

theorem coherent_of_assigned (assigned : Assigned s t p policy schedClass a) (before : Coherent s)
    (sound : Sound policy a) : Coherent t := by
  intro q
  by_cases same : q = p
  · rw [same, assigned.policy, assigned.prio]
    exact sound
  · obtain ⟨policy, -, prio⟩ := assigned.others q same
    rw [policy, prio]
    exact before q

theorem rtPrio_chosenPrio_iff (attr : Attr) (keepBoost : Bool) :
    rtPrio (chosenPrio s p attr keepBoost) ↔
      rtPrio (newParams (newPolicy s p attr) attr (s.prio p)).normalPrio ∨
        keepBoost ∧ ∃ donor ∈ (s.prio p).piTopTask, rtPrio (s.prio donor).prio := by
  unfold chosenPrio
  cases keepBoost with
  | true =>
    simp only [if_true, true_and]
    exact rtPrio_effectivePrio_iff s _ _
  | false => simp

theorem coherent_step (cfg : Config) (K : OtherClasses) (s : State) (act : Action)
    (coherent : Coherent s) : Coherent (step cfg K s act) := by
  cases act with
  | schedFork current child =>
    by_cases dead : dlPrio (childOf s current).2.prio
    · rwa [step, schedFork_of_dlPrio s current child dead]
    · exact coherent_of_assigned (schedFork_assigned s current child dead) coherent
        (childOf_sound (coherent current)).1
  | schedSetscheduler p attr call now =>
    rcases schedSetscheduler_assigned cfg K s p attr call now with
      ⟨policy, reset, accepted, assigned⟩ | ⟨-, reset, assigned⟩
    · exact coherent_of_assigned assigned coherent
        ((newParams_sound (coherent p) reset accepted.valid).of_eq rfl rfl rfl)
    · exact coherent_of_assigned assigned coherent ((coherent p).of_eq rfl rfl rfl)
  | rtMutexSetprio p piTask now =>
    exact coherent_of_assigned (rtMutexSetprio_assigned cfg K s p piTask now) coherent
      ((coherent p).of_eq rfl rfl rfl)

theorem wrrPolicies_schedFork_iff (s : State) (current child : Pid) (coherent : Coherent s)
    (before : WrrPolicies s) :
    WrrPolicies (schedFork s current child).1 ↔ ¬ Ordinary (s.policy current) := by
  obtain ⟨sound, prio, ordinary⟩ := childOf_sound (coherent current)
  have class_iff := sound.rtPrio_iff
  rw [← prio] at class_iff
  rw [← ordinary]
  by_cases dead : dlPrio (childOf s current).2.prio
  · rw [schedFork_of_dlPrio s current child dead]
    refine iff_of_true before fun plain => ?_
    obtain ⟨rt, dl, -⟩ := plain.not_rtPolicy
    exact (class_iff.mp (rtPrio_of_dlPrio dead)).elim rt dl
  · -- the class of the child follows its priority, and that its policy
    rw [wrrPolicies_iff (schedFork_assigned s current child dead) before]
    rcases policy_cases (childOf s current).1 with rt | dl | wrr | plain
    · refine iff_of_true (fun wrong => ?_) fun plain => plain.not_rtPolicy.1 rt
      simp [class_iff.mpr (.inl rt)] at wrong
    · refine iff_of_true (fun wrong => ?_) fun plain => plain.not_rtPolicy.2.1 dl
      simp [class_iff.mpr (.inr dl)] at wrong
    · exact iff_of_true (fun _ => wrr) fun plain => plain.not_rtPolicy.2.2 wrr
    · obtain ⟨rt, dl, wrr⟩ := plain.not_rtPolicy
      have normal : ¬ rtPrio (childOf s current).2.prio := fun low => (class_iff.mp low).elim rt dl
      exact iff_of_false (fun own => wrr (own (if_neg normal))) fun no => no plain

theorem wrrPolicies_schedSetscheduler_iff (cfg : Config) (K : OtherClasses) (s : State) (p : Pid)
    (attr : Attr) (call : Call) (now : UInt64) (coherent : Coherent s) (before : WrrPolicies s) :
    WrrPolicies (schedSetscheduler cfg K s p attr call now).1 ↔
      Proper s (.schedSetscheduler p attr call now) := by
  rcases schedSetscheduler_assigned cfg K s p attr call now with
    ⟨policy, reset, accepted, assigned⟩ | ⟨refused, reset, assigned⟩
  · have only : ∀ policy' reset', Accepted s p attr call policy' reset' → policy' = policy := by
      intro policy' reset' accepted'
      have same := accepted'.requested.symm.trans accepted.requested
      simp only [Option.some.injEq, Prod.mk.injEq] at same
      exact same.1
    have sound : Sound policy (newParams policy attr (s.prio p)) :=
      newParams_sound (coherent p) (s.prio p).schedResetOnFork accepted.valid
    have class_iff := rtPrio_chosenPrio_iff (s := s) (p := p) attr call.pi
    rw [newPolicy_of_requested accepted.requested, sound.rtPrio_iff] at class_iff
    have proper : Proper s (.schedSetscheduler p attr call now) ↔
        (Ordinary policy → call.pi ∧ ∃ donor ∈ (s.prio p).piTopTask, rtPrio (s.prio donor).prio) := by
      refine ⟨fun h => h policy reset accepted, fun h policy' reset' accepted' => ?_⟩
      rw [only policy' reset' accepted']
      exact h
    rw [wrrPolicies_iff assigned before, setschedulerClass_eq_wrr_iff, class_iff, proper]
    rcases policy_cases policy with rt | dl | wrr | plain
    · exact iff_of_true (fun no => absurd (.inl (.inl rt)) no) fun plain =>
        absurd rt plain.not_rtPolicy.1
    · exact iff_of_true (fun no => absurd (.inl (.inr dl)) no) fun plain =>
        absurd dl plain.not_rtPolicy.2.1
    · exact iff_of_true (fun _ => wrr) fun plain => absurd wrr plain.not_rtPolicy.2.2
    · -- a fair policy: only a boost keeps the task out of the wrr class
      obtain ⟨rt, dl, wrr⟩ := plain.not_rtPolicy
      simp [plain, rt, dl, wrr]
  · have stays := (wrrPolicies_iff assigned before).mpr (before p)
    exact iff_of_true stays fun policy reset accepted => absurd accepted (refused policy reset)

theorem wrrPolicies_rtMutexSetprio (cfg : Config) (K : OtherClasses) (s : State) (p : Pid)
    (piTask : Option Pid) (now : UInt64) (before : WrrPolicies s) :
    WrrPolicies (rtMutexSetprio cfg K s p piTask now) := by
  refine (wrrPolicies_iff (rtMutexSetprio_assigned cfg K s p piTask now) before).mpr fun wrr => ?_
  split_ifs at wrr
  · exact before p wrr
  · exact absurd wrr (setprioClass_ne_wrr _)

end Coherence

/-- A tick counts the slice down and, when it has run out while others wait, sends the task
to the tail of the run list and asks for a reschedule. -/
def Rotates (cfg : Config) (s : State) (p : Pid) : Prop :=
  ∀ cpu front back, HasQueue s.core cpu (front ++ p :: back) →
    let slice := (s.core.task p).wrr.timeSlice
    let t := taskTickWrr cfg s.core cpu p
    (slice - 1 ≠ 0 → (t.task p).wrr.timeSlice = slice - 1) ∧
      (slice - 1 = 0 → front ++ back ≠ [] →
        HasQueue t cpu (front ++ back ++ [p]) ∧ (t.rq cpu).needResched)

theorem rotates_of_policy (cfg : Config) (s : State) (p : Pid) (policy : s.policy p = .wrr) :
    Rotates cfg s p := by
  intro cpu front back queue
  obtain ⟨t, same, -, ticked⟩ := WrrRoundRobin.taskTickWrr_eq cfg cpu s.core p policy
  dsimp only
  rw [ticked]
  refine ⟨fun more => ?_, fun spent waiting => ?_⟩
  · rw [if_pos more]
    simp [WrrRoundRobin.setSlice, WrrModel.State.modifyTask]
  · rw [HasQueue, List.map_append, List.map_cons] at queue
    rw [← same.links] at queue
    have several : t.links.prev (.entity p) ≠ t.links.next (.entity p) := by
      intro alone
      obtain ⟨first, last⟩ := queue.prev_eq_next_iff.mp alone
      simp_all
    rw [if_neg (not_not.mpr spent), WrrRoundRobin.sliceExpired_setSlice, if_pos several]
    refine ⟨?_, by simp [reschedCurr, WrrModel.State.modifyRq]⟩
    rw [HasQueue, List.map_append, List.map_append]
    exact queue.listMoveTail

theorem wrrPolicies_iff_proper (cfg : Config) (K : OtherClasses) (s : State) (coherent : Coherent s)
    (agree : WrrPolicies s) (acts : List Action) :
    (Always (step cfg K) WrrPolicies s acts ↔ Along (step cfg K) Proper s acts) ∧
    ∀ t p, WrrPolicies t → t.schedClass p = .wrr → Rotates cfg t p := by
  constructor
  · have free : Along (step cfg K) (fun _ _ => True) s acts := along_of_forall (fun _ _ => trivial) s acts
    refine always_iff_along Coherent WrrPolicies (fun s a _ => coherent_step cfg K s a) ?_ coherent
      agree free
    intro s a _ coherent before
    cases a with
    | schedFork current child => exact wrrPolicies_schedFork_iff s current child coherent before
    | schedSetscheduler p attr call now =>
      exact wrrPolicies_schedSetscheduler_iff cfg K s p attr call now coherent before
    | rtMutexSetprio p piTask now =>
      exact iff_of_true (wrrPolicies_rtMutexSetprio cfg K s p piTask now before) trivial
  · intro t p policies wrr
    exact rotates_of_policy cfg t p (policies p wrr)

theorem coherent_sleepers : Coherent sleepers ∧ WrrPolicies sleepers := by
  have others : ∀ p, p ≠ .nth 1 → sleepers.policy p = .wrr ∧
      sleepers.prio p = ⟨120, 120, 120, 0, false, none, false, true⟩ := by
    intro p other
    refine ⟨?_, if_neg other⟩
    simp [sleepers, State.policy, WrrModel.State.modifyTask, other, quiet]
  refine ⟨fun p => ?_, fun p => ?_⟩
  · by_cases rt : p = .nth 1
    · subst rt
      exact ⟨by decide, by decide, fun _ => by decide⟩
    · obtain ⟨policy, prio⟩ := others p rt
      rw [policy, prio]
      exact ⟨by decide, rfl, fun no => by cases no⟩
  · by_cases rt : p = .nth 1
    · subst rt
      decide
    · exact fun _ => (others p rt).1

theorem wrrPolicies_iff_proper_fork :
    Coherent sleepers ∧ WrrPolicies sleepers ∧
      Always (step ⟨10, 1000, true, true⟩ idleClasses) WrrPolicies sleepers
        [.schedFork (.nth 0) (.nth 2), .schedFork (.nth 1) (.nth 3)] := by
  obtain ⟨coherent, agree⟩ := coherent_sleepers
  have first : ¬ Ordinary (sleepers.policy (.nth 0)) := by decide
  have second : ¬ Ordinary ((step ⟨10, 1000, true, true⟩ idleClasses sleepers
      (.schedFork (.nth 0) (.nth 2))).policy (.nth 1)) := by decide
  exact ⟨coherent, agree, (wrrPolicies_iff_proper _ idleClasses sleepers coherent agree _).1.mpr
    ⟨first, second, trivial⟩⟩

/-- A wrr task is given `SCHED_NORMAL`: it stays in the wrr class, where its ticks no longer
count. -/
theorem normal_in_wrr :
    Coherent sleepers ∧ WrrPolicies sleepers ∧
      ¬ Always (step ⟨10, 1000, true, true⟩ idleClasses) WrrPolicies sleepers
        [.schedSetscheduler (.nth 0) (plainAttr .normal 0) privileged 1] ∧
      ((taskTickWrr ⟨10, 1000, true, true⟩ (step ⟨10, 1000, true, true⟩ idleClasses sleepers
        (.schedSetscheduler (.nth 0) (plainAttr .normal 0) privileged 1)).core 0 (.nth 0)).task
          (.nth 0)).wrr.timeSlice = (sleepers.core.task (.nth 0)).wrr.timeSlice := by
  obtain ⟨coherent, agree⟩ := coherent_sleepers
  refine ⟨coherent, agree, fun always => ?_, by decide⟩
  have policies := always _ (List.prefix_refl _) (.nth 0) (by decide)
  revert policies
  decide

end UnixSystems.PolicyClasses
