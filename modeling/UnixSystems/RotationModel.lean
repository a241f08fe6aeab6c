import UnixSystems.BoundedFifo
import UnixSystems.IdTable
import UnixSystems.KernelTypes

/-! The rotation system calls of rotation.c, one definition per function.
A step is what runs between two acquisitions of `myLock`; `rotevtWait` therefore
has an entry step and, after `schedule()`, a step `rotevtWaitResumed`.

An address names one allocation of `kmalloc`, not the block it gave out: `kfree` marks it
and leaves the contents, and a block that is given out again gets a new name. So a step of a
process that still holds the address of a freed event is not described further than that it
happens. Whether it does is a theorem, and results that the new contents of the block could
touch are stated for runs in which no process resumes on a freed event. The two user-space
copies and the success of the allocations enter as arguments. `history` is a ghost field: nothing reads it. -/
namespace UnixSystems.RotationModel

def maxWindow : ℕ := 512

inductive Condition where
  | initial
  | evtTriggered
  | destroyed
  | sigPending
deriving DecidableEq

structure DevRotation where
  x : Int32
  y : Int32
  z : Int32
deriving DecidableEq

structure RotationMotion where
  x : Int32
  y : Int32
  z : Int32
  bidirection : Bool
deriving DecidableEq

abbrev Addr := ℕ

structure RotationEvent where
  motion : RotationMotion
  queue : List Pid
  condition : Condition
  ctr : Int32
  id : Int

/-- A process between the `schedule()` of `rotevt_wait` and the lock after it:
its locals `targetEvt` and `event_id`, and whether it has been made runnable. -/
structure Waiter where
  pid : Pid
  targetEvt : Addr
  eventId : Int
  woken : Bool
deriving DecidableEq

def Waiter.wakeIf (w : Waiter) (now : Bool) : Waiter := { w with woken := w.woken || now }

@[simp] theorem Waiter.wakeIf_pid (w : Waiter) (now : Bool) : (w.wakeIf now).pid = w.pid := rfl

@[simp] theorem Waiter.wakeIf_targetEvt (w : Waiter) (now : Bool) :
    (w.wakeIf now).targetEvt = w.targetEvt := rfl

/-- What the ghost history records: a satisfied threshold check, a destroy that
returned 0, and the entry and return of a wait that found its event. -/
inductive Occurrence where
  | triggered (evt : Addr)
  | destroyed (evt : Addr)
  | entered (pid : Pid) (evt : Addr)
  | returned (pid : Pid) (evt : Addr) (res : Int)
deriving DecidableEq

structure State where
  sampleSize : Int32
  windowSize : Int32
  sampleQueue : Fifo DevRotation maxWindow
  eventIdr : IdTable Addr
  mem : Addr → RotationEvent
  freed : Addr → Bool
  brk : Addr
  waiters : List Waiter
  history : List Occurrence

def blankEvent : RotationEvent := ⟨⟨0, 0, 0, false⟩, [], .initial, 0, 0⟩

def boot : State where
  sampleSize := 6
  windowSize := 10
  sampleQueue := Fifo.empty
  eventIdr := IdTable.empty
  mem := fun _ => blankEvent
  freed := fun _ => false
  brk := 0
  waiters := []
  history := []

def State.setEvent (s : State) (evt : Addr) (v : RotationEvent) : State :=
  { s with mem := Function.update s.mem evt v }

def State.note (s : State) (o : Occurrence) : State := { s with history := o :: s.history }

def kfree (s : State) (evt : Addr) : State := { s with freed := Function.update s.freed evt true }

/-! ## The threshold check -/

def abs (v : Int32) : Int32 := if v < 0 then -v else v

def exceeds (threshold : RotationMotion) (dummy : DevRotation) : Bool :=
  let x := if threshold.bidirection then abs dummy.x else dummy.x
  let y := if threshold.bidirection then abs dummy.y else dummy.y
  let z := if threshold.bidirection then abs dummy.z else dummy.z
  threshold.x ≤ x && threshold.y ≤ y && threshold.z ≤ z

/-- The loop of `threshCheck` for the iterations left: each takes the oldest sample
out, compares it and puts it back. It runs at most 512 times, so the `unsigned short`
counters cannot wrap. -/
def threshLoop (threshold : RotationMotion) :
    ℕ → ℕ → Fifo DevRotation maxWindow → ℕ × Fifo DevRotation maxWindow
  | 0, exceedCtr, sampleQueue => (exceedCtr, sampleQueue)
  | n + 1, exceedCtr, sampleQueue =>
    match sampleQueue.get with
    | (none, rest) => threshLoop threshold n exceedCtr rest
    | (some dummy, rest) =>
      threshLoop threshold n (if exceeds threshold dummy then exceedCtr + 1 else exceedCtr)
        (rest.put dummy)

def threshCheck (s : State) (threshold : RotationMotion) : Bool × State :=
  let (exceedCtr, sampleQueue) := threshLoop threshold s.sampleQueue.len 0 s.sampleQueue
  (s.sampleSize.toInt ≤ exceedCtr, { s with sampleQueue := sampleQueue })

theorem threshLoop_value (threshold : RotationMotion) (passed rest : List DevRotation)
    (exceedCtr : ℕ) (sampleQueue : Fifo DevRotation maxWindow)
    (shape : sampleQueue.items = passed ++ rest) :
    (threshLoop threshold passed.length exceedCtr sampleQueue).1 =
        exceedCtr + passed.countP (exceeds threshold) ∧
      (threshLoop threshold passed.length exceedCtr sampleQueue).2.items = rest ++ passed := by
  induction passed generalizing rest exceedCtr sampleQueue with
  | nil => simpa [threshLoop] using shape
  | cons dummy passed ih =>
    have oldest : sampleQueue.items.head? = some dummy := by simp [shape]
    have rotated := sampleQueue.get_put_items dummy dummy (passed ++ rest) (by simpa using shape)
    rw [List.append_assoc] at rotated
    obtain ⟨count, items⟩ := ih (rest ++ [dummy])
      (if exceeds threshold dummy then exceedCtr + 1 else exceedCtr) _ rotated
    simp only [List.length_cons, threshLoop, Fifo.get, oldest]
    simp only [Fifo.get] at count items
    refine ⟨?_, by rw [items]; simp⟩
    rw [count, List.countP_cons]
    split_ifs <;> omega

theorem threshCheck_fst (s : State) (threshold : RotationMotion) :
    (threshCheck s threshold).1 =
      decide (s.sampleSize.toInt ≤ s.sampleQueue.items.countP (exceeds threshold)) := by
  have h := threshLoop_value threshold s.sampleQueue.items [] 0 s.sampleQueue (by simp)
  simp [threshCheck, Fifo.len, h.1]

theorem threshCheck_snd (s : State) (threshold : RotationMotion) :
    (threshCheck s threshold).2 = s := by
  have h := threshLoop_value threshold s.sampleQueue.items [] 0 s.sampleQueue (by simp)
  have same : (threshLoop threshold s.sampleQueue.len 0 s.sampleQueue).2 = s.sampleQueue :=
    Fifo.ext (by simpa [Fifo.len] using h.2)
  simp [threshCheck, same]

/-! ## Wait queues -/

def wakeUpAll (s : State) (evt : Addr) : State :=
  let queue := (s.mem evt).queue
  { s.setEvent evt { s.mem evt with queue := [] } with
    waiters := s.waiters.map fun w => w.wakeIf (w.pid ∈ queue) }

def prepareToWait (s : State) (evt : Addr) (pid : Pid) : State :=
  if pid ∈ (s.mem evt).queue then s
  else s.setEvent evt { s.mem evt with queue := (s.mem evt).queue ++ [pid] }

def finishWait (s : State) (evt : Addr) (pid : Pid) : State :=
  s.setEvent evt { s.mem evt with queue := (s.mem evt).queue.filter (· ≠ pid) }

def wqHasSleeper (s : State) (evt : Addr) : Bool := (s.mem evt).queue ≠ []

/-! ## The system calls -/

/-- Make room when the window is full, then queue the new sample. `kfifo_len` is
unsigned, so `windowSize` is converted before the comparison. -/
def insertSample (s : State) (kRot : DevRotation) : State :=
  let sampleQueue :=
    if s.sampleQueue.len = s.windowSize.toUInt32.toNat then s.sampleQueue.get.2
    else s.sampleQueue
  { s with sampleQueue := sampleQueue.put kRot }

def checkEvent (s : State) (eCursor : Addr) : State :=
  let (hit, s) := threshCheck s (s.mem eCursor).motion
  if hit then
    let s := s.setEvent eCursor { s.mem eCursor with condition := .evtTriggered }
    (wakeUpAll s eCursor).note (.triggered eCursor)
  else s

theorem checkEvent_eq (s : State) (eCursor : Addr) :
    checkEvent s eCursor =
      if (threshCheck s (s.mem eCursor).motion).1 then
        (wakeUpAll (s.setEvent eCursor { s.mem eCursor with condition := .evtTriggered })
          eCursor).note (.triggered eCursor)
      else s := by
  simp only [checkEvent, threshCheck_snd]

def setRotation (s : State) (uid : ℕ) (rotation : Option DevRotation) : State × Int :=
  if uid ≠ 0 then (s, -Errno.eperm)
  else
    match rotation with
    | none => (s, -Errno.efault)
    | some kRot =>
      let s := insertSample s kRot
      if s.sampleSize.toUInt32.toNat ≤ s.sampleQueue.len then
        (s.eventIdr.entries.foldl (fun s e => checkEvent s e.2) s, 0)
      else (s, 0)

def idrAlloc (s : State) (evt : Addr) (memory : Bool) : State × Int :=
  if memory then
    let (id, table) := s.eventIdr.alloc 0 evt
    if id < 2 ^ 31 then ({ s with eventIdr := table }, id) else (s, -Errno.enospc)
  else (s, -Errno.enomem)

/-- The critical section of `rotevt_create`. The id is stored before the error test. -/
def registerEvent (s : State) (event : Addr) (idrMemory : Bool) : State × Int :=
  let (s, res) := idrAlloc s event idrMemory
  let s := s.setEvent event { s.mem event with id := res }
  if res = -Errno.enomem ∨ res = -Errno.enospc then (kfree s event, res) else (s, res)

def rotevtCreate (s : State) (motion : Option RotationMotion) (memory idrMemory : Bool) :
    State × Int :=
  if memory then
    let event := s.brk
    let s := { s with brk := s.brk + 1 }
    match motion with
    | none => (kfree s event, -Errno.efault)
    | some motion =>
      registerEvent (s.setEvent event ⟨motion, [], .initial, 0, 0⟩) event idrMemory
  else (s, -Errno.enomem)

/-- `idr_remove` and `kfree` of what it returns; `kfree(NULL)` does nothing. -/
def removeAndFree (s : State) (eventId : Int) : State :=
  match s.eventIdr.find eventId with
  | none => s
  | some evt => kfree { s with eventIdr := s.eventIdr.remove eventId } evt

def rotevtDestroy (s : State) (eventId : Int) : State × Int :=
  match s.eventIdr.find eventId with
  | none => (s, -Errno.einval)
  | some targetEvt =>
    let s := s.setEvent targetEvt { s.mem targetEvt with condition := .destroyed }
    let s := s.note (.destroyed targetEvt)
    if wqHasSleeper s targetEvt then (wakeUpAll s targetEvt, 0)
    else (removeAndFree s eventId, 0)

/-- `finish_wait` and the decrement of the counter: the caller no longer waits. -/
def countOut (s : State) (pid : Pid) (targetEvt : Addr) : State :=
  let s := finishWait s targetEvt pid
  let s := { s with waiters := s.waiters.filter (·.pid ≠ pid) }
  s.setEvent targetEvt { s.mem targetEvt with ctr := (s.mem targetEvt).ctr - 1 }

/-- From `finish_wait` to the return. The value stored in `res` is not returned. -/
def leaveWait (s : State) (pid : Pid) (targetEvt : Addr) (eventId : Int) : State × Option Int :=
  let s := countOut s pid targetEvt
  let s :=
    if (s.mem targetEvt).ctr = 0 ∧ (s.mem targetEvt).condition = .destroyed then
      removeAndFree s eventId
    else s
  (s.note (.returned pid targetEvt 0), some 0)

def countIn (s : State) (pid : Pid) (targetEvt : Addr) (eventId : Int) : State :=
  let s := s.setEvent targetEvt { s.mem targetEvt with ctr := (s.mem targetEvt).ctr + 1 }
  let sleeper : Waiter := ⟨pid, targetEvt, eventId, false⟩
  { s with waiters := sleeper :: s.waiters.filter (·.pid ≠ pid) }

/-- The `while` loop of `rotevt_wait` from a test of the condition, with the lock held,
to the next release of the lock: the caller goes to sleep (no result yet) or leaves. -/
def waitLoop (s : State) (pid : Pid) (targetEvt : Addr) (eventId : Int) (signalPending : Bool) :
    State × Option Int :=
  if (s.mem targetEvt).condition = .initial then
    let s := prepareToWait s targetEvt pid
    if signalPending then
      let s := s.setEvent targetEvt { s.mem targetEvt with condition := .sigPending }
      leaveWait s pid targetEvt eventId
    else (countIn s pid targetEvt eventId, none)
  else leaveWait s pid targetEvt eventId

def rotevtWait (s : State) (pid : Pid) (eventId : Int) (signalPending : Bool) :
    State × Option Int :=
  match s.eventIdr.find eventId with
  | none => (s, some (-Errno.einval))
  | some targetEvt =>
    waitLoop (s.note (.entered pid targetEvt)) pid targetEvt eventId signalPending

/-- What `rotevt_wait` does once `schedule()` has returned and the lock is held again. -/
def rotevtWaitResumed (s : State) (pid : Pid) (signalPending : Bool) : State × Option Int :=
  match s.waiters.find? (·.pid = pid) with
  | none => (s, none)
  | some w => waitLoop s w.pid w.targetEvt w.eventId signalPending

/-- Any wake-up other than `wake_up_all`, a signal in the first place: the sleeper
becomes runnable and stays on the queue. -/
def wakeUpProcess (s : State) (pid : Pid) : State :=
  { s with waiters := s.waiters.map fun w => w.wakeIf (w.pid = pid) }

def discard : ℕ → Fifo DevRotation maxWindow → Fifo DevRotation maxWindow
  | 0, sampleQueue => sampleQueue
  | n + 1, sampleQueue => if sampleQueue.len = 0 then sampleQueue else discard n sampleQueue.get.2

def setRotationSampling (s : State) (uid : ℕ) (nrSamples window : Int32) : State × Int :=
  if uid ≠ 0 then (s, -Errno.eperm)
  else if nrSamples < 0 ∨ window < nrSamples ∨ (maxWindow : Int) < window.toInt then
    (s, -Errno.einval)
  else
    ({ s with
      sampleQueue := discard s.sampleQueue.len s.sampleQueue
      sampleSize := nrSamples
      windowSize := window }, 0)

/-- The result and the words stored in user space. The second store is not tried
when the first one fails. -/
def getRotationSampling (s : State) (storeSamples storeWindow : Bool) :
    Int × Option Int32 × Option Int32 :=
  if !storeSamples then (-Errno.efault, none, none)
  else if !storeWindow then (-Errno.efault, some s.sampleSize, none)
  else (0, some s.sampleSize, some s.windowSize)

end UnixSystems.RotationModel
