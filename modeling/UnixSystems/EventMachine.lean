import UnixSystems.RotationModel

/-! One rotation event on its own: the object, the processes holding it, the id under
which the table knows it, whether it has been freed, and what happened to it, newest
first. `View.step` is what a system call does to the event. The counters and the
lists are those of the code; only the other events are gone. -/
namespace UnixSystems.EventMachine
open RotationModel

structure View where
  event : RotationEvent
  holders : List Waiter
  slot : Option Int
  freed : Bool
  history : List Occurrence

@[ext] theorem View.ext {v u : View} (event : v.event = u.event) (holders : v.holders = u.holders)
    (slot : v.slot = u.slot) (freed : v.freed = u.freed) (history : v.history = u.history) :
    v = u := by
  cases v
  cases u
  simp_all

def unborn : View := ⟨blankEvent, [], none, false, []⟩

inductive Label where
  | idle
  | born (motion : RotationMotion) (id : Int)
  | stillborn (event : RotationEvent)
  | trigger
  | destroy
  | wait (pid : Pid) (id : Int) (signalPending : Bool)
  | resume (pid : Pid) (id : Int) (signalPending : Bool)
  | wakeUp (pid : Pid)
  | robbed

/-- The loop of `rotevt_wait`, testing the condition now, goes on to `schedule()`. -/
def Sleeps (e : RotationEvent) (signalPending : Bool) : Prop :=
  e.condition = .initial ∧ signalPending = false

instance (e : RotationEvent) (signalPending : Bool) : Decidable (Sleeps e signalPending) :=
  inferInstanceAs (Decidable (_ ∧ _))

namespace View

def setCondition (v : View) (c : Condition) : View :=
  { v with event := { v.event with condition := c } }

def note (v : View) (o : Occurrence) : View := { v with history := o :: v.history }

@[simp] theorem note_event (v : View) (o : Occurrence) : (v.note o).event = v.event := rfl

@[simp] theorem note_holders (v : View) (o : Occurrence) : (v.note o).holders = v.holders := rfl

@[simp] theorem note_slot (v : View) (o : Occurrence) : (v.note o).slot = v.slot := rfl

def wakeAll (v : View) : View :=
  { v with
    event := { v.event with queue := [] }
    holders := v.holders.map fun w => w.wakeIf (w.pid ∈ v.event.queue) }

def drop (v : View) : View := { v with slot := none, freed := true }

def trigger (v : View) (evt : Addr) : View :=
  ((v.setCondition .evtTriggered).wakeAll).note (.triggered evt)

def destroy (v : View) (evt : Addr) : View :=
  let v := (v.setCondition .destroyed).note (.destroyed evt)
  if v.event.queue ≠ [] then v.wakeAll else v.drop

def prepare (v : View) (pid : Pid) : View :=
  { v with
    event := { v.event with
      queue := if pid ∈ v.event.queue then v.event.queue else v.event.queue ++ [pid] } }

def countIn (v : View) (evt : Addr) (pid : Pid) (id : Int) : View :=
  { v with
    event := { v.event with ctr := v.event.ctr + 1 }
    holders := ⟨pid, evt, id, false⟩ :: v.holders.filter (·.pid ≠ pid) }

def sleep (v : View) (evt : Addr) (pid : Pid) (id : Int) : View :=
  (v.prepare pid).countIn evt pid id

/-- A pending signal reaches the event through its condition. -/
def interrupt (v : View) : View :=
  if v.event.condition = .initial then v.setCondition .sigPending else v

theorem interrupt_condition (v : View) : v.interrupt.event.condition ≠ .initial := by
  unfold interrupt
  split_ifs with initial
  · simp [setCondition]
  · exact initial

theorem interrupt_rest (v : View) : v.interrupt.holders = v.holders ∧ v.interrupt.slot = v.slot ∧
    v.interrupt.event.ctr = v.event.ctr := by
  unfold interrupt
  split_ifs <;> exact ⟨rfl, rfl, rfl⟩

/-- The caller is the last waiter of a destroyed event, so far as the counter tells. -/
def LastOut (v : View) : Prop := v.event.ctr - 1 = 0 ∧ v.event.condition = .destroyed

instance (v : View) : Decidable v.LastOut := inferInstanceAs (Decidable (_ ∧ _))

def countOut (v : View) (pid : Pid) : View :=
  { v with
    event := { v.event with
      queue := v.event.queue.filter (· ≠ pid)
      ctr := v.event.ctr - 1 }
    holders := v.holders.filter (·.pid ≠ pid) }

def exit (v : View) (evt : Addr) (pid : Pid) : View := (v.countOut pid).note (.returned pid evt 0)

def leave (v : View) (evt : Addr) (pid : Pid) (id : Int) : View :=
  if v.LastOut ∧ v.slot = some id then (v.exit evt pid).drop else v.exit evt pid

/-- The queue entry made on the way out is taken back by `finish_wait`. -/
theorem leave_prepare (v : View) (evt : Addr) (pid : Pid) (id : Int) :
    (v.prepare pid).leave evt pid id = v.leave evt pid id := by
  by_cases queued : pid ∈ v.event.queue
  · simp [prepare, queued]
  · simp [prepare, queued, leave, LastOut, exit, countOut, List.filter_append]

def loop (v : View) (evt : Addr) (pid : Pid) (id : Int) (signalPending : Bool) : View :=
  if Sleeps v.event signalPending then v.sleep evt pid id
  else v.interrupt.leave evt pid id

def step (v : View) (evt : Addr) : Label → View
  | .idle => v
  | .born motion id => { v with event := ⟨motion, [], .initial, 0, id⟩, slot := some id }
  | .stillborn event => { v with event := event, freed := true }
  | .trigger => v.trigger evt
  | .destroy => v.destroy evt
  | .wait pid id signalPending => (v.note (.entered pid evt)).loop evt pid id signalPending
  | .resume pid id signalPending => v.loop evt pid id signalPending
  | .wakeUp pid =>
    { v with holders := v.holders.map fun w => w.wakeIf (w.pid = pid) }
  | .robbed => v.drop

section Loop

variable {v : View} {signalPending : Bool} (evt : Addr) (pid : Pid) (id : Int)

theorem step_wait_of_sleeps (sleeps : Sleeps v.event signalPending) :
    v.step evt (.wait pid id signalPending) = (v.note (.entered pid evt)).sleep evt pid id :=
  if_pos sleeps

theorem step_wait_of_leaves (leaves : ¬ Sleeps v.event signalPending) :
    v.step evt (.wait pid id signalPending) =
      (v.note (.entered pid evt)).interrupt.leave evt pid id :=
  if_neg leaves

theorem step_resume_of_sleeps (sleeps : Sleeps v.event signalPending) :
    v.step evt (.resume pid id signalPending) = v.sleep evt pid id :=
  if_pos sleeps

theorem step_resume_of_leaves (leaves : ¬ Sleeps v.event signalPending) :
    v.step evt (.resume pid id signalPending) = v.interrupt.leave evt pid id :=
  if_neg leaves

end Loop
end View

structure Well (evt : Addr) (v : View) : Prop where
  target : ∀ w ∈ v.holders, w.targetEvt = evt
  ids : ∀ i, v.slot = some i → ∀ w ∈ v.holders, w.eventId = i
  distinct : (v.holders.map (·.pid)).Nodup
  queued : ∀ p ∈ v.event.queue, p ∈ v.holders.map (·.pid)
  asleep : ∀ w ∈ v.holders, w.woken = false → w.pid ∈ v.event.queue
  alive : v.slot ≠ none → v.freed = false

def Admits (v : View) : Label → Prop
  | .born _ _ => v = unborn
  | .stillborn event => v = unborn ∧ event.queue = [] ∧ event.condition = .initial
  | .trigger | .destroy | .robbed => v.slot ≠ none
  | .wait pid id _ => v.slot = some id ∧ ∀ w ∈ v.holders, w.pid ≠ pid
  | .resume pid id _ => ∃ w ∈ v.holders, w.pid = pid ∧ w.eventId = id ∧ w.woken = true
  | .idle | .wakeUp _ => True

theorem unborn_well (evt : Addr) : Well evt unborn := by
  constructor <;> simp [unborn, blankEvent]

namespace Well

variable {evt : Addr} {v : View}

theorem map_wakeIf (f : Waiter → Bool) (l : List Waiter) :
    (l.map fun w => w.wakeIf (f w)).map (·.pid) = l.map (·.pid) := by
  rw [List.map_map]
  rfl

theorem length_others (h : Well evt v) {pid : Pid} (inside : pid ∈ v.holders.map (·.pid)) :
    (v.holders.filter (·.pid ≠ pid)).length + 1 = v.holders.length := by
  have once : v.holders.countP (·.pid = pid) = 1 := by
    rw [← List.count_eq_one_of_mem h.distinct inside, List.count_eq_countP, List.countP_map]
    exact List.countP_congr fun w _ => by simp
  rw [v.holders.length_eq_countP_add_countP (·.pid = pid), once, ← List.countP_eq_length_filter,
    add_comm]
  simp

theorem others_eq {pid : Pid} (outside : ∀ w ∈ v.holders, w.pid ≠ pid) :
    v.holders.filter (·.pid ≠ pid) = v.holders :=
  List.filter_eq_self.mpr fun w held => by simpa using outside w held

theorem setCondition (h : Well evt v) (c : Condition) : Well evt (v.setCondition c) :=
  ⟨h.target, h.ids, h.distinct, h.queued, h.asleep, h.alive⟩

theorem note (h : Well evt v) (o : Occurrence) : Well evt (v.note o) :=
  ⟨h.target, h.ids, h.distinct, h.queued, h.asleep, h.alive⟩

theorem drop (h : Well evt v) : Well evt v.drop :=
  ⟨h.target, by simp [View.drop], h.distinct, h.queued, h.asleep, by simp [View.drop]⟩

theorem wake (h : Well evt v) (f : Waiter → Bool) (queue : List Pid)
    (sub : ∀ p ∈ queue, p ∈ v.event.queue)
    (left : ∀ w ∈ v.holders, f w = false → w.pid ∈ v.event.queue → w.pid ∈ queue) :
    Well evt { v with
      event := { v.event with queue := queue }
      holders := v.holders.map fun w => w.wakeIf (f w) } := by
  refine ⟨?_, ?_, ?_, ?_, ?_, h.alive⟩
  · intro w member
    obtain ⟨u, held, rfl⟩ := List.mem_map.mp member
    exact h.target u held
  · intro i slot w member
    obtain ⟨u, held, rfl⟩ := List.mem_map.mp member
    exact h.ids i slot u held
  · simpa only [map_wakeIf] using h.distinct
  · intro p member
    simpa only [map_wakeIf] using h.queued p (sub p member)
  · intro w member unwoken
    obtain ⟨u, held, rfl⟩ := List.mem_map.mp member
    obtain ⟨before, off⟩ := Bool.or_eq_false_iff.mp unwoken
    exact left u held off (h.asleep u held before)

theorem wakeAll (h : Well evt v) : Well evt v.wakeAll :=
  h.wake (fun w => decide (w.pid ∈ v.event.queue)) [] (by simp)
    (fun _ _ off on => absurd on (of_decide_eq_false off))

theorem wakeUp (h : Well evt v) (pid : Pid) : Well evt (v.step evt (.wakeUp pid)) :=
  h.wake (fun w => decide (w.pid = pid)) v.event.queue (fun _ m => m) (fun _ _ _ m => m)

theorem trigger (h : Well evt v) : Well evt (v.trigger evt) :=
  ((h.setCondition _).wakeAll).note _

theorem destroy (h : Well evt v) : Well evt (v.destroy evt) := by
  have marked := (h.setCondition .destroyed).note (.destroyed evt)
  unfold View.destroy
  dsimp only
  split_ifs
  · exact marked.wakeAll
  · exact marked.drop

theorem interrupt (h : Well evt v) : Well evt v.interrupt := by
  unfold View.interrupt
  split_ifs
  · exact h.setCondition _
  · exact h

theorem exit (h : Well evt v) (pid : Pid) : Well evt (v.exit evt pid) := by
  refine ⟨?_, ?_, ?_, ?_, ?_, h.alive⟩
  · exact fun w member => h.target w (List.mem_of_mem_filter member)
  · exact fun i slot w member => h.ids i slot w (List.mem_of_mem_filter member)
  · exact h.distinct.sublist ((List.filter_sublist).map _)
  · intro p member
    obtain ⟨old, other⟩ := List.mem_filter.mp member
    obtain ⟨w, held, rfl⟩ := List.mem_map.mp (h.queued p old)
    exact List.mem_map.mpr ⟨w, List.mem_filter.mpr ⟨held, other⟩, rfl⟩
  · intro w member unwoken
    obtain ⟨held, other⟩ := List.mem_filter.mp member
    exact List.mem_filter.mpr ⟨h.asleep w held unwoken, other⟩

theorem leave (h : Well evt v) (pid : Pid) (id : Int) : Well evt (v.leave evt pid id) := by
  unfold View.leave
  split_ifs
  · exact (h.exit pid).drop
  · exact h.exit pid

theorem sleep (h : Well evt v) (pid : Pid) (id : Int) (slot : ∀ i, v.slot = some i → id = i) :
    Well evt (v.sleep evt pid id) := by
  have queueMem : ∀ p, p ∈ (v.sleep evt pid id).event.queue ↔ p = pid ∨ p ∈ v.event.queue := by
    intro p
    by_cases old : pid ∈ v.event.queue
    · simp only [View.sleep, View.countIn, View.prepare, old, if_true]
      constructor
      · exact Or.inr
      · rintro (rfl | m)
        · exact old
        · exact m
    · simp only [View.sleep, View.countIn, View.prepare, old, if_false, List.mem_append, List.mem_singleton]
      tauto
  refine ⟨?_, ?_, ?_, ?_, ?_, h.alive⟩
  · intro w member
    rcases List.mem_cons.mp member with rfl | member
    · rfl
    · exact h.target w (List.mem_of_mem_filter member)
  · intro i found w member
    rcases List.mem_cons.mp member with rfl | member
    · exact slot i found
    · exact h.ids i found w (List.mem_of_mem_filter member)
  · refine List.nodup_cons.mpr ⟨?_, h.distinct.sublist ((List.filter_sublist).map _)⟩
    simp
  · intro p member
    rcases (queueMem p).mp member with rfl | old
    · simp [View.sleep, View.countIn]
    · by_cases same : p = pid
      · simp [View.sleep, View.countIn, same]
      · obtain ⟨w, held, rfl⟩ := List.mem_map.mp (h.queued p old)
        exact List.mem_map.mpr ⟨w, List.mem_cons_of_mem _ (List.mem_filter.mpr
          ⟨held, by simpa using same⟩), rfl⟩
  · intro w member unwoken
    rw [queueMem]
    rcases List.mem_cons.mp member with rfl | member
    · exact Or.inl rfl
    · exact Or.inr (h.asleep w (List.mem_of_mem_filter member) unwoken)

theorem loop (h : Well evt v) (pid : Pid) (id : Int) (signalPending : Bool)
    (slot : ∀ i, v.slot = some i → id = i) : Well evt (v.loop evt pid id signalPending) := by
  unfold View.loop
  split_ifs
  · exact h.sleep pid id slot
  · exact h.interrupt.leave pid id

theorem step (h : Well evt v) (l : Label) (admits : Admits v l) : Well evt (v.step evt l) := by
  cases l with
  | idle => exact h
  | born motion id =>
    cases admits
    constructor <;> simp [View.step, unborn]
  | stillborn event =>
    obtain ⟨rfl, empty, _⟩ := admits
    constructor <;> simp [View.step, unborn, empty]
  | trigger => exact h.trigger
  | destroy => exact h.destroy
  | wait pid id signalPending =>
    refine (h.note _).loop pid id signalPending fun i slot => ?_
    exact Option.some.inj (admits.1.symm.trans slot)
  | resume pid id signalPending =>
    obtain ⟨w, member, _, rfl, _⟩ := admits
    exact h.loop pid w.eventId signalPending fun i slot => h.ids i slot w member
  | wakeUp pid => exact h.wakeUp pid
  | robbed => exact h.drop

end Well
end UnixSystems.EventMachine
