import UnixSystems.RotationRuns

/-! What an interrupted `rotevt_wait` leaves behind. The call announces its signal in the
condition of the event, which all waiters share, and leaves through the exit of a call that
was triggered: the value in `res` is lost. -/
namespace UnixSystems.RotationSignals
open GuardedRuns RotationModel EventMachine RotationRuns

def caller : Action → Option Pid
  | .rotevtWait pid _ _ | .resume pid _ => some pid
  | _ => none

def result (s : State) : Action → Option Int
  | .rotevtWait pid eventId signalPending => (rotevtWait s pid eventId signalPending).2
  | .resume pid signalPending => (rotevtWaitResumed s pid signalPending).2
  | _ => none

def answer (pid : Pid) : State → List Action → Option Int
  | _, [] => none
  | s, a :: acts =>
    (if caller a = some pid then result s a else none).or (answer pid (step s a) acts)

def outcomes (pid : Pid) : State → List Action → List (Pid × Int)
  | _, [] => []
  | s, a :: acts =>
    match caller a, result s a with
    | some q, some res =>
      if q = pid then outcomes pid (step s a) acts else (q, res) :: outcomes pid (step s a) acts
    | _, _ => outcomes pid (step s a) acts

def without (pid : Pid) (acts : List Action) : List Action := acts.filter (caller · ≠ some pid)

/-- The rest of a call that has gone to sleep and ends because a signal is pending. In
between it may wake up without a reason and sleep again, and others may do anything. -/
inductive Asleep (pid : Pid) (evt : Addr) : State → List Action → Prop
  | interrupted {s : State} (w : Waiter) (found : s.waiters.find? (·.pid = pid) = some w)
      (target : w.targetEvt = evt) (initial : (s.mem evt).condition = .initial) :
      Asleep pid evt s [.resume pid true]
  | again {s : State} {acts : List Action} (w : Waiter)
      (found : s.waiters.find? (·.pid = pid) = some w) (target : w.targetEvt = evt)
      (initial : (s.mem evt).condition = .initial)
      (rest : Asleep pid evt (step s (.resume pid false)) acts) :
      Asleep pid evt s (.resume pid false :: acts)
  | other {s : State} {a : Action} {acts : List Action} (foreign : caller a ≠ some pid)
      (rest : Asleep pid evt (step s a) acts) : Asleep pid evt s (a :: acts)

/-- A run that is one call of the process, ended by a signal before or after it has slept,
with the steps of others in between. -/
inductive Interrupted (pid : Pid) (evt : Addr) : State → List Action → Prop
  | atOnce {s : State} (eventId : Int) (found : s.eventIdr.find eventId = some evt)
      (initial : (s.mem evt).condition = .initial) :
      Interrupted pid evt s [.rotevtWait pid eventId true]
  | later {s : State} {acts : List Action} (eventId : Int)
      (found : s.eventIdr.find eventId = some evt) (initial : (s.mem evt).condition = .initial)
      (rest : Asleep pid evt (step s (.rotevtWait pid eventId false)) acts) :
      Interrupted pid evt s (.rotevtWait pid eventId false :: acts)

/-- The call reports the signal and is otherwise as if it had not been made. -/
structure Transparent (pid : Pid) (evt : Addr) (s : State) (call : List Action) : Prop where
  reported : answer pid s call = some (-Errno.erestartsys)
  condition : ((run step s call).mem evt).condition =
    ((run step s (without pid call)).mem evt).condition
  counter : ((run step s call).mem evt).ctr = ((run step s (without pid call)).mem evt).ctr
  others : ∀ later, (∀ a ∈ later, caller a ≠ some pid) →
    outcomes pid s (call ++ later) = outcomes pid s (without pid call ++ later)

section Call

variable {pid : Pid} {evt : Addr} {s : State} {call : List Action}

theorem condition_leaveWait (eventId : Int) (alive : (s.mem evt).condition ≠ .destroyed) :
    ((leaveWait s pid evt eventId).1.mem evt).condition = (s.mem evt).condition ∧
      (leaveWait s pid evt eventId).1.eventIdr = s.eventIdr := by
  simp [leaveWait, countOut, finishWait, State.setEvent, State.note, alive]

theorem waitLoop_signal (s : State) (pid : Pid) (eventId : Int) (initial : (s.mem evt).condition = .initial) :
    (waitLoop s pid evt eventId true).2 = some 0 ∧
      ((waitLoop s pid evt eventId true).1.mem evt).condition = .sigPending := by
  unfold waitLoop
  rw [if_pos initial]
  dsimp only
  rw [if_pos rfl]
  refine ⟨rfl, ?_⟩
  have marked : (((prepareToWait s evt pid).setEvent evt
      { (prepareToWait s evt pid).mem evt with condition := .sigPending }).mem evt).condition =
      .sigPending := by
    simp [State.setEvent]
  rw [(condition_leaveWait eventId (by rw [marked]; decide)).1, marked]

theorem waitLoop_sleeps (eventId : Int) (initial : (s.mem evt).condition = .initial) :
    (waitLoop s pid evt eventId false).2 = none := by
  simp [waitLoop, initial]

theorem resumed_signal (w : Waiter) (found : s.waiters.find? (·.pid = pid) = some w)
    (target : w.targetEvt = evt) (initial : (s.mem evt).condition = .initial) :
    result s (.resume pid true) = some 0 ∧
      ((step s (.resume pid true)).mem evt).condition = .sigPending := by
  subst target
  simp only [result, step, rotevtWaitResumed, found]
  exact waitLoop_signal s w.pid w.eventId initial

theorem Asleep.ends (asleep : Asleep pid evt s call) :
    answer pid s call = some 0 ∧ ((run step s call).mem evt).condition = .sigPending := by
  induction asleep with
  | interrupted w found target initial =>
    obtain ⟨returned, marked⟩ := resumed_signal w found target initial
    exact ⟨by simp [answer, caller, returned], marked⟩
  | @again s acts w found target initial rest ih =>
    subst target
    have sleeps : result s (.resume pid false) = none := by
      simp only [result, rotevtWaitResumed, found]
      exact waitLoop_sleeps w.eventId initial
    refine ⟨?_, ih.2⟩
    rw [answer, sleeps, ite_self, Option.none_or]
    exact ih.1
  | other foreign rest ih =>
    refine ⟨?_, ih.2⟩
    rw [answer, if_neg foreign, Option.none_or]
    exact ih.1

theorem Interrupted.ends (interrupted : Interrupted pid evt s call) :
    answer pid s call = some 0 ∧ ((run step s call).mem evt).condition = .sigPending := by
  cases interrupted with
  | atOnce eventId found initial =>
    obtain ⟨returned, marked⟩ := waitLoop_signal (s.note (.entered pid evt)) pid eventId
      initial
    have entry : rotevtWait s pid eventId true =
        waitLoop (s.note (.entered pid evt)) pid evt eventId true := by
      simp only [rotevtWait, found]
    refine ⟨?_, ?_⟩
    · simp [answer, caller, result, entry, returned]
    · simpa [step, entry] using marked
  | later eventId found initial rest =>
    have entry : rotevtWait s pid eventId false =
        waitLoop (s.note (.entered pid evt)) pid evt eventId false := by
      simp only [rotevtWait, found]
    have sleeps : result s (.rotevtWait pid eventId false) = none := by
      simp only [result, entry]
      exact waitLoop_sleeps eventId initial
    obtain ⟨returned, marked⟩ := rest.ends
    refine ⟨?_, marked⟩
    rw [answer, sleeps, ite_self, Option.none_or]
    exact returned

/-- The event is as good as triggered for everybody: a process that enters a wait on it now
does not sleep. -/
theorem Interrupted.releases (interrupted : Interrupted pid evt s call) (q : Pid) (eventId : Int)
    (found : (run step s call).eventIdr.find eventId = some evt) (signalPending : Bool) :
    result (run step s call) (.rotevtWait q eventId signalPending) = some 0 := by
  have marked := interrupted.ends.2
  simp [result, rotevtWait, found, waitLoop, State.note, marked, leaveWait]

end Call

theorem interrupted_not_transparent (pid : Pid) (evt : Addr) (s : State) (call : List Action)
    (interrupted : Interrupted pid evt s call) :
    ¬ Transparent pid evt s call ∧ answer pid s call = some 0 ∧
      ((run step s call).mem evt).condition = .sigPending ∧
      ∀ q eventId signalPending, (run step s call).eventIdr.find eventId = some evt →
        result (run step s call) (.rotevtWait q eventId signalPending) = some 0 := by
  obtain ⟨returned, marked⟩ := interrupted.ends
  refine ⟨fun transparent => ?_, returned, marked, fun q eventId signalPending found =>
    interrupted.releases q eventId found signalPending⟩
  have reported := transparent.reported
  rw [returned] at reported
  exact absurd reported (by decide)

theorem interrupted_not_transparent_asleep :
    Interrupted (.nth 0) 0 (step boot (.rotevtCreate (some ⟨0, 0, 0, false⟩) true true))
        [.rotevtWait (.nth 0) 0 false, .rotevtWait (.nth 1) 0 false, .wakeUp (.nth 0),
          .resume (.nth 0) true] ∧
      answer (.nth 0) (step boot (.rotevtCreate (some ⟨0, 0, 0, false⟩) true true))
        [.rotevtWait (.nth 0) 0 false, .rotevtWait (.nth 1) 0 false, .wakeUp (.nth 0),
          .resume (.nth 0) true] = some 0 := by
  have call : Interrupted (.nth 0) 0 (step boot (.rotevtCreate (some ⟨0, 0, 0, false⟩) true true))
      [.rotevtWait (.nth 0) 0 false, .rotevtWait (.nth 1) 0 false, .wakeUp (.nth 0),
        .resume (.nth 0) true] :=
    .later 0 rfl rfl (.other (by decide) (.other (by decide) (.interrupted _ rfl rfl rfl)))
  exact ⟨call, (interrupted_not_transparent _ _ _ _ call).2.1⟩

/-- A wait interrupted before it sleeps: it returns 0, the condition and the counter have
changed, and the next process to wait returns at once instead of sleeping. -/
theorem interrupted_releases_others :
    let s := step boot (.rotevtCreate (some ⟨0, 0, 0, false⟩) true true)
    answer (.nth 0) s [.rotevtWait (.nth 0) 0 true] = some 0 ∧
      ((run step s [.rotevtWait (.nth 0) 0 true]).mem 0).condition = .sigPending ∧
      (s.mem 0).condition = .initial ∧
      ((run step s [.rotevtWait (.nth 0) 0 true]).mem 0).ctr = -1 ∧ (s.mem 0).ctr = 0 ∧
      outcomes (.nth 0) s ([.rotevtWait (.nth 0) 0 true] ++ [.rotevtWait (.nth 1) 0 false]) =
        [(.nth 1, 0)] ∧
      outcomes (.nth 0) s (without (.nth 0) [.rotevtWait (.nth 0) 0 true] ++
        [.rotevtWait (.nth 1) 0 false]) = [] := by
  decide

end UnixSystems.RotationSignals
