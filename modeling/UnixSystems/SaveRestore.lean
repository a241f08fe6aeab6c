import UnixSystems.PolicyEffects

/-! `dequeue_task` and `enqueue_task` of core.c, and the pairs of them with which
`set_user_nice` and `do_set_cpus_allowed` take a task off its run queue and put it back. The
flags say that the place in the queue is to be kept; the wrr class does not look at them. -/
namespace UnixSystems.SaveRestore
open WrrModel hiding State
open WrrConservation hiding Action step Enabled
open PolicyModel hiding State effectivePrio

def enqueueRestore : UInt32 := 0x02

/-- What `sched_info_dequeued` records is left out. -/
def dequeueTask (cfg : Config) (K : OtherClasses) (s : WrrModel.State) (cpu : ℕ) (p : Pid)
    (flags : UInt32) (now : UInt64) : WrrModel.State :=
  let s := if flags &&& noclock = 0 then updateRqClock s cpu now else s
  if (s.task p).schedClass = .wrr then dequeueTaskWrr cfg s cpu p flags
  else K.method (s.task p).schedClass (.dequeueTask flags) s cpu p

def enqueueTask (K : OtherClasses) (s : WrrModel.State) (cpu : ℕ) (p : Pid) (flags : UInt32)
    (now : UInt64) : WrrModel.State :=
  let s := if flags &&& noclock = 0 then updateRqClock s cpu now else s
  if (s.task p).schedClass = .wrr then enqueueTaskWrr s cpu p flags
  else K.method (s.task p).schedClass (.enqueueTask flags) s cpu p

def saveRestore (cfg : Config) (K : OtherClasses) (s : WrrModel.State) (cpu : ℕ) (p : Pid)
    (now : UInt64) : WrrModel.State :=
  enqueueTask K (dequeueTask cfg K s cpu p (dequeueSave ||| noclock) now) cpu p
    (enqueueRestore ||| noclock) now

/-! ## The callers -/

def minNice : Int := -20

def maxNice : Int := 19

/-- `effective_prio`, which also stores the normal priority. -/
def effectivePrio (policy : Policy) (a : Prio) : Prio × Int :=
  let a := { a with normalPrio := normalPrio policy a }
  (a, if rtPrio a.prio then a.prio else a.normalPrio)

/-- How both callers change a task: `change` while it is off its queue, and `check` once it
is back on it. -/
def saveAround (cfg : Config) (K : OtherClasses) (s : PolicyModel.State) (p : Pid) (now : UInt64)
    (change check : PolicyModel.State → PolicyModel.State) : PolicyModel.State :=
  let cpu := (s.core.task p).cpu
  let queued := (s.prio p).onRq
  let running := (s.core.rq cpu).curr = some p
  let s := if queued then
      s.modifyCore fun core => dequeueTask cfg K core cpu p (dequeueSave ||| noclock) now
    else s
  let s := if running then callOwn cfg K .putPrevTask p s else s
  let s := change s
  let s := if queued then
      check (s.modifyCore fun core => enqueueTask K core cpu p (enqueueRestore ||| noclock) now)
    else s
  if running then callOwn cfg K .setCurrTask p s else s

/-- The new priorities; the load weight belongs to the fair class. -/
def renice (p : Pid) (nice : Int) (s : PolicyModel.State) : PolicyModel.State :=
  s.modifyPrio p fun a =>
    let (a, prio) := effectivePrio (s.policy p) { a with staticPrio := niceToPrio nice }
    { a with prio := prio }

/-- `onCpu` says that the task is executing. -/
def setUserNice (cfg : Config) (K : OtherClasses) (s : PolicyModel.State) (p : Pid) (nice : Int)
    (onCpu : Bool) (now : UInt64) : PolicyModel.State :=
  if prioToNice (s.prio p).staticPrio = nice ∨ nice < minNice ∨ maxNice < nice then s
  else
    let s := s.modifyCore fun core => updateRqClock core (core.task p).cpu now
    if dlPolicy (s.policy p) ∨ rtPolicy (s.policy p) then
      s.modifyPrio p fun a => { a with staticPrio := niceToPrio nice }
    else
      let oldPrio := (s.prio p).prio
      saveAround cfg K s p now (renice p nice) fun s =>
        let delta := (s.prio p).prio - oldPrio
        if delta < 0 ∨ (0 < delta ∧ onCpu) then
          s.modifyCore fun core => reschedCurr core (core.task p).cpu
        else s

/-- The affinity, which is set in between, is no part of this state. -/
def doSetCpusAllowed (cfg : Config) (K : OtherClasses) (s : PolicyModel.State) (p : Pid)
    (now : UInt64) : PolicyModel.State :=
  saveAround cfg K s p now id id

/-! ## What the pair does to the run list -/

section Pair

variable {s t : WrrModel.State} {cpu : ℕ} {p : Pid} {l r queue : List Pid} (cfg : Config)
  (K : OtherClasses)

theorem dequeueTask_wrr (wrr : (s.task p).schedClass = .wrr) (now : UInt64) :
    dequeueTask cfg K s cpu p (dequeueSave ||| noclock) now =
      dequeueTaskWrr cfg s cpu p (dequeueSave ||| noclock) := by
  have timeless : (dequeueSave ||| noclock) &&& noclock ≠ 0 := by decide
  simp only [dequeueTask, if_neg timeless, if_pos wrr]

theorem enqueueTask_wrr (wrr : (s.task p).schedClass = .wrr) (now : UInt64) :
    enqueueTask K s cpu p (enqueueRestore ||| noclock) now =
      enqueueTaskWrr s cpu p (enqueueRestore ||| noclock) := by
  have timeless : (enqueueRestore ||| noclock) &&& noclock ≠ 0 := by decide
  simp only [enqueueTask, if_neg timeless, if_pos wrr]

theorem enqueued_restore (p : Pid) (queue : List Pid) :
    enqueued (enqueueRestore ||| noclock) p queue = queue ++ [p] :=
  if_neg (by decide)

theorem schedClass_dequeueTaskWrr (s : WrrModel.State) (cpu : ℕ) (p q : Pid) (flags : UInt32) :
    ((dequeueTaskWrr cfg s cpu p flags).task q).schedClass = (s.task q).schedClass :=
  congrArg (·.2.1) (unaccounted_dequeueTaskWrr cfg s cpu p q flags)

theorem saveRestore_queue (ring : HasQueue s cpu (l ++ p :: r))
    (busy : (s.rq cpu).wrr.nrRunning ≠ 0) (wrr : (s.task p).schedClass = .wrr) (now : UInt64) :
    HasQueue (saveRestore cfg K s cpu p now) cpu (l ++ r ++ [p]) := by
  obtain ⟨removed, _⟩ := hasQueue_dequeue cfg (dequeueSave ||| noclock) ring busy
  have out : p ∉ l ++ r := by
    have distinct := ring.nodup
    rw [List.nodup_middle] at distinct
    exact (List.nodup_cons.mp distinct).1
  have back := (hasQueue_enqueue (enqueueRestore ||| noclock) removed out).1
  rw [enqueued_restore] at back
  rw [saveRestore, dequeueTask_wrr cfg K wrr, enqueueTask_wrr K]
  · exact back
  · rw [schedClass_dequeueTaskWrr]
    exact wrr

theorem saveRestore_counters (busy : (s.rq cpu).wrr.nrRunning ≠ 0)
    (wrr : (s.task p).schedClass = .wrr) (now : UInt64) :
    ((saveRestore cfg K s cpu p now).rq cpu).wrr = (s.rq cpu).wrr ∧
      ((saveRestore cfg K s cpu p now).rq cpu).nrRunning = (s.rq cpu).nrRunning := by
  have off := effect_dequeueTaskWrr cfg s cpu p (dequeueSave ||| noclock) busy
  have on := effect_enqueueTaskWrr (dequeueTaskWrr cfg s cpu p (dequeueSave ||| noclock)) cpu p
    (enqueueRestore ||| noclock)
  rw [saveRestore, dequeueTask_wrr cfg K wrr, enqueueTask_wrr K]
  · rw [on.wrr, on.total, off.wrr, off.total, (off.task p).1]
    simp only [UInt32.sub_add_cancel, and_self]
  · rw [schedClass_dequeueTaskWrr]
    exact wrr

structure KeepsPlace (s t : WrrModel.State) (cpu : ℕ) (queue : List Pid) : Prop where
  order : HasQueue t cpu queue
  wrr : (t.rq cpu).wrr = (s.rq cpu).wrr
  total : (t.rq cpu).nrRunning = (s.rq cpu).nrRunning

theorem busy_of_mem (count : (s.rq cpu).wrr.nrRunning.toNat = queue.length) (member : p ∈ queue) :
    (s.rq cpu).wrr.nrRunning ≠ 0 := by
  intro zero
  rw [zero, UInt32.toNat_zero] at count
  exact List.ne_nil_of_mem member (List.eq_nil_of_length_eq_zero count.symm)

theorem rotated_eq_iff (distinct : (l ++ p :: r).Nodup) :
    l ++ r ++ [p] = l ++ p :: r ↔ (l ++ p :: r).getLast? = some p := by
  rw [List.nodup_middle, List.nodup_cons, List.mem_append, not_or] at distinct
  rcases List.eq_nil_or_concat' r with rfl | ⟨r, q, rfl⟩
  · simp
  · have other : q ≠ p := fun same => distinct.1.2 (by simp [same])
    constructor
    · intro same
      rw [← same, List.getLast?_concat]
    · intro last
      have ends : (l ++ p :: (r ++ [q])).getLast? = some q := by
        rw [← List.cons_append, ← List.append_assoc, List.getLast?_concat]
      rw [ends] at last
      exact absurd (Option.some.inj last) other

theorem keepsPlace_split_iff (ring : HasQueue s cpu (l ++ p :: r))
    (busy : (s.rq cpu).wrr.nrRunning ≠ 0) (wrr : (s.task p).schedClass = .wrr) (now : UInt64) :
    KeepsPlace s (saveRestore cfg K s cpu p now) cpu (l ++ p :: r) ↔
      (l ++ p :: r).getLast? = some p := by
  have moved := saveRestore_queue cfg K ring busy wrr now
  have counters := saveRestore_counters cfg K busy wrr now
  rw [← rotated_eq_iff ring.nodup]
  constructor
  · exact fun keeps => moved.unique keeps.order
  · intro same
    exact ⟨same ▸ moved, counters.1, counters.2⟩

end Pair

theorem keepsPlace_iff_last (cfg : Config) (K : OtherClasses) (s : WrrModel.State) (cpu : ℕ)
    (queue : List Pid) (ring : HasQueue s cpu queue)
    (count : (s.rq cpu).wrr.nrRunning.toNat = queue.length) (p : Pid) (member : p ∈ queue)
    (wrr : (s.task p).schedClass = .wrr) (now : UInt64) :
    KeepsPlace s (saveRestore cfg K s cpu p now) cpu queue ↔ queue.getLast? = some p := by
  have busy := busy_of_mem count member
  obtain ⟨l, r, rfl⟩ := List.append_of_mem member
  exact keepsPlace_split_iff cfg K ring busy wrr now

def twoWaiting : WrrModel.State := enqueueTaskWrr (enqueueTaskWrr quiet 0 (.nth 0) 0) 0 (.nth 1) 0

def twoListed : ℕ → List Pid := Function.update (fun _ => []) 0 [.nth 0, .nth 1]

theorem twoWaiting_holds : Holds (fun cpu => (quiet.rq cpu).nrRunning) twoWaiting twoListed := by
  have start := holds_init quiet initWrrRq_quiet
  have one : Holds _ (enqueueTaskWrr quiet 0 (.nth 0) 0) _ := start.enqueue 0 (by simp) rfl
  have two : Holds _ twoWaiting _ := one.enqueue 0 (p := .nth 1) (by
    intro c
    by_cases here : c = 0 <;> simp [here, enqueued, enqueueHead, Pid.nth]) rfl
  rw [Function.update_idem] at two
  exact two

theorem twoWaiting_queue : HasQueue twoWaiting 0 [.nth 0, .nth 1] := twoWaiting_holds.ring 0

theorem keepsPlace_iff_last_second :
    KeepsPlace twoWaiting (saveRestore ⟨10, 1000, true, true⟩ idleClasses twoWaiting 0 (.nth 1) 7) 0
      [.nth 0, .nth 1] :=
  (keepsPlace_iff_last _ idleClasses twoWaiting 0 _ twoWaiting_queue (by decide) (.nth 1) (by decide)
    (by decide) 7).mpr (by decide)

theorem first_loses_place :
    HasQueue twoWaiting 0 [.nth 0, .nth 1] ∧
      HasQueue (saveRestore ⟨10, 1000, true, true⟩ idleClasses twoWaiting 0 (.nth 0) 7) 0
        [.nth 1, .nth 0] ∧
      ¬ KeepsPlace twoWaiting (saveRestore ⟨10, 1000, true, true⟩ idleClasses twoWaiting 0 (.nth 0) 7) 0
        [.nth 0, .nth 1] := by
  have busy : (twoWaiting.rq 0).wrr.nrRunning ≠ 0 := by decide
  have ring : HasQueue twoWaiting 0 ([] ++ Pid.nth 0 :: [.nth 1]) := twoWaiting_queue
  refine ⟨twoWaiting_queue, saveRestore_queue _ idleClasses ring busy rfl 7, fun keeps => ?_⟩
  exact absurd ((keepsPlace_split_iff _ idleClasses ring busy rfl 7).mp keeps) (by decide)

/-! ## What the callers do -/

section Callers

variable {s : PolicyModel.State} {p : Pid} {l r : List Pid} (cfg : Config) (K : OtherClasses)

theorem links_callOwn (m : Method) (still : m = .putPrevTask ∨ m = .setCurrTask) (p : Pid)
    (s : PolicyModel.State) : (callOwn cfg K m p s).core.links = s.core.links := by
  simp only [callOwn, callMethod, State.modifyCore]
  split_ifs
  · rcases still with rfl | rfl
    · exact (accounted_updateCurrWrr cfg s.core _).links
    · exact (accounted_setCurrTaskWrr s.core _).links
  · exact (K.foreign _ _ _ _ _).links

theorem links_ite_callOwn (running : Prop) [Decidable running] (m : Method)
    (still : m = .putPrevTask ∨ m = .setCurrTask) (p : Pid) (s : PolicyModel.State) :
    (if running then callOwn cfg K m p s else s).core.links = s.core.links := by
  split_ifs
  · exact links_callOwn cfg K m still p s
  · rfl

theorem wrr_ite_callOwn (running : Prop) [Decidable running] (m : Method)
    (wrr : s.schedClass p = .wrr) :
    (if running then callOwn cfg K m p s else s).schedClass p = .wrr := by
  split_ifs
  · rw [(same_callOwn cfg K m p s).schedClass]
    exact wrr
  · exact wrr

theorem saveAround_queue (ring : HasQueue s.core (s.core.task p).cpu (l ++ p :: r))
    (busy : (s.core.rq (s.core.task p).cpu).wrr.nrRunning ≠ 0) (wrr : s.schedClass p = .wrr)
    (onRq : (s.prio p).onRq = true) (now : UInt64) {change check : PolicyModel.State → PolicyModel.State}
    (changes : ∀ t, (change t).core = t.core) (checks : ∀ t, (check t).core.links = t.core.links) :
    HasQueue (saveAround cfg K s p now change check).core (s.core.task p).cpu (l ++ r ++ [p]) := by
  have out : p ∉ l ++ r := by
    have distinct := ring.nodup
    rw [List.nodup_middle] at distinct
    exact (List.nodup_cons.mp distinct).1
  have removed : HasQueue (s.modifyCore fun core => dequeueTask cfg K core (s.core.task p).cpu p
      (dequeueSave ||| noclock) now).core (s.core.task p).cpu (l ++ r) := by
    rw [State.modifyCore, dequeueTask_wrr cfg K wrr]
    exact (hasQueue_dequeue cfg (dequeueSave ||| noclock) ring busy).1
  have kept : (s.modifyCore fun core => dequeueTask cfg K core (s.core.task p).cpu p
      (dequeueSave ||| noclock) now).schedClass p = .wrr := by
    rw [State.schedClass, State.modifyCore, dequeueTask_wrr cfg K wrr, schedClass_dequeueTaskWrr]
    exact wrr
  simp only [saveAround, onRq, if_true]
  generalize (s.modifyCore fun core => dequeueTask cfg K core (s.core.task p).cpu p
    (dequeueSave ||| noclock) now) = off at removed kept
  have put := links_ite_callOwn cfg K ((s.core.rq (s.core.task p).cpu).curr = some p) .putPrevTask
    (.inl rfl) p off
  have wrrPut := wrr_ite_callOwn cfg K ((s.core.rq (s.core.task p).cpu).curr = some p) .putPrevTask kept
  generalize (if (s.core.rq (s.core.task p).cpu).curr = some p then callOwn cfg K .putPrevTask p off
    else off) = idle at put wrrPut
  rw [HasQueue, ← put] at removed
  have back := (hasQueue_enqueue (enqueueRestore ||| noclock) removed out).1
  rw [enqueued_restore, ← enqueueTask_wrr K wrrPut now] at back
  rw [HasQueue, links_ite_callOwn cfg K _ .setCurrTask (.inr rfl), checks]
  simpa only [HasQueue, State.modifyCore, changes] using back

theorem setUserNice_queue (ring : HasQueue s.core (s.core.task p).cpu (l ++ p :: r))
    (busy : (s.core.rq (s.core.task p).cpu).wrr.nrRunning ≠ 0) (wrr : s.schedClass p = .wrr)
    (onRq : (s.prio p).onRq = true) (plain : ¬ (dlPolicy (s.policy p) ∨ rtPolicy (s.policy p)))
    (nice : Int) (valid : minNice ≤ nice ∧ nice ≤ maxNice)
    (new : prioToNice (s.prio p).staticPrio ≠ nice) (onCpu : Bool) (now : UInt64) :
    HasQueue (setUserNice cfg K s p nice onCpu now).core (s.core.task p).cpu (l ++ r ++ [p]) := by
  have changes : ¬ (prioToNice (s.prio p).staticPrio = nice ∨ nice < minNice ∨ maxNice < nice) := by
    omega
  rw [setUserNice, if_neg changes]
  have same : (s.modifyCore fun core => updateRqClock core (core.task p).cpu now).policy p =
      s.policy p := rfl
  dsimp only
  rw [same, if_neg plain]
  have clocked : HasQueue (updateRqClock s.core (s.core.task p).cpu now) (s.core.task p).cpu
      (l ++ p :: r) := ring
  have still : ((updateRqClock s.core (s.core.task p).cpu now).rq (s.core.task p).cpu).wrr.nrRunning ≠
      0 := by
    simpa [updateRqClock, WrrModel.State.modifyRq] using busy
  refine saveAround_queue (s := s.modifyCore fun core => updateRqClock core (core.task p).cpu now) cfg K
    clocked still wrr onRq now (fun t => rfl) fun t => ?_
  split_ifs <;> rfl

theorem doSetCpusAllowed_queue (ring : HasQueue s.core (s.core.task p).cpu (l ++ p :: r))
    (busy : (s.core.rq (s.core.task p).cpu).wrr.nrRunning ≠ 0) (wrr : s.schedClass p = .wrr)
    (onRq : (s.prio p).onRq = true) (now : UInt64) :
    HasQueue (doSetCpusAllowed cfg K s p now).core (s.core.task p).cpu (l ++ r ++ [p]) :=
  saveAround_queue cfg K ring busy wrr onRq now (fun _ => rfl) fun _ => rfl

end Callers

end UnixSystems.SaveRestore
