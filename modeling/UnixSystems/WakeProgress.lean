import UnixSystems.WakeSpins
import UnixSystems.FairRounds

/-! No deadlock and no livelock. When nothing new is begun, the CPUs finish what they are in,
whatever the order in which they go on and whatever is decided on the way: a CPU that spins waits,
over at most two others, for one that can go on, and each step that is not a spin brings the end
nearer. What can put it off is a class that lets go of the run queue lock once more, or a balancer
that looks at one more task; how often they do is counted. -/

namespace UnixSystems.WakeProgress
open GuardedRuns FairRounds WakeModel WakePlaces WakeFrame WakeMoves WakeStates WakeExclusion WakeSpins Tallies

variable {Cpu Task : Type} {s : State Cpu Task} {w : Cpu} {p : Task}

/-- A class lets go of the lock in `pick_next_task`, or `detach_tasks` looks at a task. -/
def costs (s : State Cpu Task) (t : Cpu × Choice Cpu Task) : Bool :=
  match s.act t.1 with
  | .schedule _ _ .pick => t.2.flag
  | .balance _ _ _ .detach => t.2.task.isSome
  | _ => false

def Moves (s : State Cpu Task) (w : Cpu) : Prop :=
  ∃ p rq, s.act w = .move p (.moveQueued rq)

/-! ## How much is left to do -/

/-- The queue read is the one the task is on, and will be found so under its lock. -/
def Fresh (t : TaskStruct Cpu) (rq : Cpu) : Prop :=
  t.cpu = rq ∧ t.onRq ≠ .migrating

theorem fresh_of_keeps {t t' : TaskStruct Cpu} {rq : Cpu} (cpu : t'.cpu = t.cpu)
    (moves : t'.onRq = .migrating → t.onRq = .migrating) (fresh : Fresh t rq) : Fresh t' rq :=
  ⟨cpu.trans fresh.1, mt moves fresh.2⟩

variable {s₁ : State Cpu Task} {c : Cpu} {extra : ℕ} {choice : Choice Cpu Task}

section Ranks
variable [DecidableEq Cpu]

instance (t : TaskStruct Cpu) (rq : Cpu) : Decidable (Fresh t rq) :=
  inferInstanceAs (Decidable (_ ∧ _))

/-- The steps left of a wake-up. One that has read a queue the task has left comes back once. -/
def ttwuRank (t : TaskStruct Cpu) : TtwuPc Cpu → ℕ
  | .lockPi => 22
  | .testState => 21
  | .testOnRq => 20
  | .readRq => if t.onRq = .migrating then 19 else 14
  | .lockRq rq => if Fresh t rq then 13 else 18
  | .checkRq rq => if Fresh t rq then 12 else 17
  | .dropRq _ => 16
  | .relax => 15
  | .remote _ => 11
  | .unlockRemote _ false => 10
  | .waitOnCpu => 9
  | .markWaking => 8
  | .selectRq => 7
  | .queue _ => 6
  | .listAdd _ | .lockDest _ => 5
  | .activate _ => 4
  | .setRunning _ => 3
  | .kick _ | .unlockDest _ | .unlockRemote _ true => 2
  | .unlockPi => 1

def scheduleRank : SchedulePc → ℕ
  | .lock => 5
  | .decide | .dropped => 4
  | .pick => 3
  | .finish => 2
  | .unlock => 1

def pendingRank (tasks : List Task) : PendingPc Task → ℕ
  | .take => 4
  | .lock | .setRunning _ => 3 + 2 * tasks.length
  | .activate => 2 + 2 * tasks.length
  | .unlock => 1

/-- One that may still migrate its task has `extra` to pay with for the others, which then have to
look for the task again. -/
def moveRank (extra : ℕ) (t : TaskStruct Cpu) : MovePc Cpu → ℕ
  | .lockPi => extra + if t.onRq = .migrating then 15 else 7
  | .readRq => extra + if t.onRq = .migrating then 14 else 6
  | .lockRq rq => extra + if Fresh t rq then 5 else 13
  | .checkRq rq => extra + if Fresh t rq then 4 else 12
  | .dropRq _ => extra + 10
  | .dropPi => extra + 9
  | .relax => extra + 8
  | .moveQueued _ => extra + 3
  | .unlockSrc _ _ => 5
  | .lockDest _ => 4
  | .attach _ => 3
  | .unlockRq _ => 2
  | .unlockPi => 1

def balanceRank (tasks : List Task) : BalancePc → ℕ
  | .lockSrc => 5 + tasks.length
  | .detach => 4 + tasks.length
  | .lockDst => 3 + tasks.length
  | .attach => 2 + tasks.length
  | .unlockDst => 1

def specialRank : SpecialPc → ℕ
  | .lockPi => 3
  | .set => 2
  | .unlockPi => 1

def rank (extra : ℕ) (task : Task → TaskStruct Cpu) : Activity Cpu Task → ℕ
  | .run => 0
  | .ttwu p _ pc => ttwuRank (task p) pc
  | .schedule _ _ pc => scheduleRank pc
  | .pending tasks pc => pendingRank tasks pc
  | .move p pc => moveRank extra (task p) pc
  | .balance tasks _ _ pc => balanceRank tasks pc
  | .special _ _ pc => specialRank pc

theorem rank_pos {task : Task → TaskStruct Cpu} {a : Activity Cpu Task} (busy : a.isRun = false) :
    0 < rank extra task a := by
  cases a with
  | run => cases busy
  | ttwu p mask pc =>
    cases pc
    case unlockRemote rq woken => cases woken <;> simp [rank, ttwuRank]
    case readRq | lockRq rq | checkRq rq =>
      simp only [rank, ttwuRank]
      split_ifs <;> omega
    all_goals simp [rank, ttwuRank]
  | schedule preempt prev pc => cases pc <;> simp [rank, scheduleRank]
  | pending tasks pc => cases pc <;> simp [rank, pendingRank]
  | move p pc =>
    cases pc
    case lockPi | readRq | lockRq rq | checkRq rq =>
      simp only [rank, moveRank]
      split_ifs <;> omega
    all_goals simp [rank, moveRank]
  | balance tasks src dst pc => cases pc <;> simp [rank, balanceRank]
  | special p value pc => cases pc <;> simp [rank, specialRank]

theorem ttwuRank_le {t t' : TaskStruct Cpu} (pc : TtwuPc Cpu) (cpu : pc = .lockPi ∨ t'.cpu = t.cpu)
    (moves : t'.onRq = .migrating → t.onRq = .migrating) : ttwuRank t' pc ≤ ttwuRank t pc := by
  cases pc
  case readRq =>
    simp only [ttwuRank]
    split_ifs <;> first | omega | exact absurd (moves ‹_›) ‹_›
  case lockRq rq | checkRq rq =>
    have cpu : t'.cpu = t.cpu := by simpa using cpu
    simp only [ttwuRank]
    split_ifs <;> first | omega | exact absurd (fresh_of_keeps cpu moves ‹_›) ‹_›
  case unlockRemote rq woken => cases woken <;> exact le_rfl
  all_goals exact le_rfl

theorem moveRank_le {t t' : TaskStruct Cpu} (pc : MovePc Cpu) (cpu : pc = .lockPi ∨ pc = .relax ∨ t'.cpu = t.cpu)
    (moves : t'.onRq = .migrating → t.onRq = .migrating) : moveRank extra t' pc ≤ moveRank extra t pc := by
  cases pc
  case lockPi | readRq =>
    simp only [moveRank]
    split_ifs <;> first | omega | exact absurd (moves ‹_›) ‹_›
  case lockRq rq | checkRq rq =>
    have cpu : t'.cpu = t.cpu := by simpa using cpu
    simp only [moveRank]
    split_ifs <;> first | omega | exact absurd (fresh_of_keeps cpu moves ‹_›) ‹_›
  all_goals exact le_rfl

theorem rank_le_add (task task' : Task → TaskStruct Cpu) (a : Activity Cpu Task) :
    rank extra task' a ≤ rank extra task a + 8 := by
  cases a with
  | ttwu p mask pc =>
    cases pc
    case unlockRemote rq woken => cases woken <;> exact Nat.le_add_right _ _
    case readRq | lockRq rq | checkRq rq =>
      simp only [rank, ttwuRank]
      split_ifs <;> omega
    all_goals exact Nat.le_add_right _ _
  | move p pc =>
    cases pc
    case lockPi | readRq | lockRq rq | checkRq rq =>
      simp only [rank, moveRank]
      split_ifs <;> omega
    all_goals exact Nat.le_add_right _ _
  | _ => exact Nat.le_add_right _ _

end Ranks

section Measures
variable [Fintype Cpu]

def listed (s : State Cpu Task) : ℕ := ∑ c, (s.rq c).wakeList.length

section
variable [DecidableEq Task]

theorem listed_setOnCpu (s : State Cpu Task) (p : Option Task) (onCpu : Bool) :
    listed (setOnCpu s p onCpu) = listed s := by
  cases p <;> rfl

end

variable [DecidableEq Cpu]

/-- What the CPU has left becomes less. An entry of a wake list stands for two steps of the CPU
that takes it. -/
def Nearer (extra : ℕ) (s : State Cpu Task) (w : Cpu) (s' : State Cpu Task) : Prop :=
  rank extra s'.task (s'.act w) + 2 * listed s' < rank extra s.task (s.act w) + 2 * listed s

theorem nearer_goto {a b : Activity Cpu Task} (here : s.act w = a) (lists : listed s₁ = listed s)
    (less : rank extra s₁.task b < rank extra s.task a) : Nearer extra s w (s₁.goto w b) := by
  have after : listed (s₁.goto w b) = listed s := lists
  rw [Nearer, goto_act_self, here, after]
  exact Nat.add_lt_add_right less _

theorem listed_setRq (s : State Cpu Task) (c : Cpu) {rq : Rq Cpu Task}
    (same : rq.wakeList = (s.rq c).wakeList) : listed (s.setRq c rq) = listed s :=
  sum_comp_update_of_eq (fun _ (rq : Rq Cpu Task) => rq.wakeList.length) s.rq c (congrArg List.length same)

variable [DecidableEq Task]

theorem nearer_listAdd {mask : UInt64} {rq : Cpu} (here : s.act w = .ttwu p mask (.listAdd rq)) :
    Nearer extra s w (ttwuStep s w p mask choice (.listAdd rq)) := by
  have longer := sum_comp_update (fun _ (rq : Rq Cpu Task) => rq.wakeList.length) s.rq rq
    { s.rq rq with wakeList := p :: (s.rq rq).wakeList }
  have after : listed (ttwuStep s w p mask choice (.listAdd rq)) = listed s + 1 := by
    simp only [List.length_cons] at longer
    exact Nat.add_right_cancel (m := (s.rq rq).wakeList.length) (longer.trans (by rw [listed]; omega))
  rw [Nearer, after, ttwuStep, goto_act_self, here]
  split_ifs <;> simp only [rank, ttwuRank] <;> omega

theorem nearer_ttwuStep {mask : UInt64} {pc : TtwuPc Cpu} (here : s.act w = .ttwu p mask pc) (free : Free s w) :
    Nearer extra s w (ttwuStep s w p mask choice pc) := by
  have met : ∀ n, need w (.ttwu p mask pc) = some n → Met s n := here ▸ free
  cases pc
  case listAdd rq => exact nearer_listAdd here
  case lockPi =>
    simp only [ttwuStep, if_pos (show s.piLock p = none from met _ rfl)]
    exact nearer_goto here rfl (by simp [rank, ttwuRank])
  case testState =>
    simp only [ttwuStep]
    split_ifs <;> exact nearer_goto here rfl (by simp [rank, ttwuRank])
  case testOnRq =>
    simp only [ttwuStep]
    split_ifs with off
    · exact nearer_goto here rfl (by simp [rank, ttwuRank])
    · refine nearer_goto here rfl ?_
      simp only [rank, ttwuRank]
      split_ifs <;> decide
  case readRq =>
    refine nearer_goto here rfl ?_
    simp only [rank, ttwuRank, Fresh, true_and]
    split_ifs <;> first | decide | contradiction
  case lockRq rq =>
    simp only [ttwuStep, if_pos (show (s.rq rq).lock = none from met _ rfl)]
    refine nearer_goto here (listed_setRq s rq rfl) ?_
    by_cases fresh : Fresh (s.task p) rq <;> simp [rank, ttwuRank, State.lockRq, State.setRq, fresh]
  case checkRq rq =>
    simp only [ttwuStep]
    split_ifs with fresh
    · exact nearer_goto here rfl (by simp [rank, ttwuRank, show Fresh (s.task p) rq from fresh])
    · exact nearer_goto here rfl (by simp [rank, ttwuRank, show ¬ Fresh (s.task p) rq from fresh])
  case remote rq =>
    simp only [ttwuStep]
    split_ifs <;> exact nearer_goto here rfl (by simp [rank, ttwuRank])
  case queue rq =>
    simp only [ttwuStep]
    refine nearer_goto here rfl ?_
    split_ifs <;> simp [rank, ttwuRank]
  case relax =>
    have settled : (s.task p).onRq ≠ .migrating := met _ rfl
    simp only [ttwuStep, if_neg settled]
    refine nearer_goto here rfl ?_
    simp only [rank, ttwuRank, if_neg settled]
    decide
  case waitOnCpu =>
    have off : (s.task p).onCpu = false := met _ rfl
    simp only [ttwuStep, off, Bool.false_eq_true, if_false]
    exact nearer_goto here rfl (by simp [rank, ttwuRank])
  case lockDest rq =>
    simp only [ttwuStep, if_pos (show (s.rq rq).lock = none from met _ rfl)]
    exact nearer_goto here (listed_setRq s rq rfl) (by simp [rank, ttwuRank])
  case unlockRemote rq woken =>
    cases woken <;> exact nearer_goto here (listed_setRq s rq rfl) (by simp [rank, ttwuRank])
  case dropRq rq => exact nearer_goto here (listed_setRq s rq rfl) (by simp [rank, ttwuRank])
  case unlockDest rq => exact nearer_goto here (listed_setRq s rq rfl) (by simp [rank, ttwuRank])
  case kick rq => exact nearer_goto here (listed_setRq s rq rfl) (by simp [rank, ttwuRank])
  case activate rq => exact nearer_goto here (listed_setRq s rq rfl) (by simp [rank, ttwuRank])
  case markWaking => exact nearer_goto here (listed_setRq s _ rfl) (by simp [rank, ttwuRank])
  all_goals exact nearer_goto here rfl (by simp [rank, ttwuRank])

theorem nearer_scheduleStep {preempt : Bool} {prev : Option Task} {pc : SchedulePc}
    (here : s.act w = .schedule preempt prev pc) (free : Free s w) (holds : pc = .pick → choice.flag = false) :
    Nearer extra s w (scheduleStep s w preempt prev choice pc) := by
  have met : ∀ n, need w (.schedule preempt prev pc) = some n → Met s n := here ▸ free
  cases pc
  case lock | dropped =>
    simp only [scheduleStep, if_pos (show (s.rq w).lock = none from met _ rfl)]
    exact nearer_goto here (listed_setRq s w rfl) (by simp [rank, scheduleRank])
  case decide =>
    cases prev with
    | none => exact nearer_goto here rfl (by simp [rank, scheduleRank])
    | some n =>
      simp only [scheduleStep]
      split_ifs
      · exact nearer_goto here rfl (by simp [rank, scheduleRank])
      · exact nearer_goto here rfl (by simp [rank, scheduleRank])
      · exact nearer_goto here (listed_setRq s w rfl) (by simp [rank, scheduleRank])
  case pick =>
    simp only [scheduleStep, holds rfl, Bool.false_eq_true, if_false]
    split_ifs
    · exact nearer_goto here rfl (by simp [rank, scheduleRank])
    · exact nearer_goto here ((listed_setOnCpu _ _ _).trans (listed_setRq s w (by rfl))) (by simp [rank, scheduleRank])
  case finish => exact nearer_goto here (listed_setOnCpu _ _ _) (by simp [rank, scheduleRank])
  case unlock => exact nearer_goto here (listed_setRq s w rfl) (by simp [rank, scheduleRank])

theorem nearer_take {tasks : List Task} (here : s.act w = .pending tasks .take) :
    Nearer extra s w (pendingStep s w tasks .take) := by
  have shorter := sum_comp_update (fun _ (rq : Rq Cpu Task) => rq.wakeList.length) s.rq w
    { s.rq w with wakeList := [] }
  have after : listed (pendingStep s w tasks .take) + (s.rq w).wakeList.length = listed s := shorter
  rw [Nearer, ← after, pendingStep, goto_act_self, here]
  split_ifs <;> simp only [rank, pendingRank] <;> omega

theorem nearer_pendingStep {tasks : List Task} {pc : PendingPc Task} (here : s.act w = .pending tasks pc)
    (free : Free s w) : Nearer extra s w (pendingStep s w tasks pc) := by
  have met : ∀ n, need w (.pending tasks pc) = some n → Met s n := here ▸ free
  cases pc
  case take => exact nearer_take here
  case lock =>
    simp only [pendingStep, if_pos (show (s.rq w).lock = none from met _ rfl)]
    exact nearer_goto here (listed_setRq s w rfl) (by simp [rank, pendingRank])
  case activate =>
    cases tasks with
    | nil => exact nearer_goto here rfl (by simp [rank, pendingRank])
    | cons p rest =>
      refine nearer_goto here (listed_setRq s w rfl) ?_
      simp only [rank, pendingRank, List.length_cons]
      omega
  case setRunning => exact nearer_goto here rfl (by simp [rank, pendingRank])
  case unlock => exact nearer_goto here (listed_setRq s w rfl) (by simp [rank, pendingRank])

theorem moved_le {rq : Cpu} (here : s.act w = .move p (.moveQueued rq)) :
    let s' := moveStep s w p choice (.moveQueued rq)
    rank extra s'.task (s'.act w) + 2 * listed s' + extra ≤ rank extra s.task (s.act w) + 2 * listed s + 2 := by
  dsimp only [moveStep]
  split_ifs
  · have lists : listed (s.setRq rq { s.rq rq with queue := (s.rq rq).queue.erase p }) = listed s :=
      listed_setRq s rq rfl
    rw [goto_act_self, here]
    change _ + 2 * listed (s.setRq rq _) + extra ≤ _
    simp only [rank, moveRank, lists]
    omega
  · rw [goto_act_self, here]
    change _ + 2 * listed s + extra ≤ _
    simp only [rank, moveRank]
    omega

theorem nearer_moveStep {pc : MovePc Cpu} (here : s.act w = .move p pc) (free : Free s w)
    (other : ∀ rq, pc ≠ .moveQueued rq) :
    Nearer extra s w (moveStep s w p choice pc) := by
  have met : ∀ n, need w (.move p pc) = some n → Met s n := here ▸ free
  cases pc
  case lockPi =>
    simp only [moveStep, if_pos (show s.piLock p = none from met _ rfl)]
    refine nearer_goto here rfl ?_
    by_cases moves : (s.task p).onRq = .migrating <;> simp [rank, moveRank, State.setPi, moves]
  case readRq =>
    refine nearer_goto here rfl ?_
    by_cases moves : (s.task p).onRq = .migrating <;> simp [rank, moveRank, Fresh, moves]
  case lockRq rq =>
    simp only [moveStep, if_pos (show (s.rq rq).lock = none from met _ rfl)]
    refine nearer_goto here (listed_setRq s rq rfl) ?_
    by_cases fresh : Fresh (s.task p) rq <;> simp [rank, moveRank, State.lockRq, State.setRq, fresh]
  case checkRq rq =>
    simp only [moveStep]
    split_ifs with fresh
    · exact nearer_goto here rfl (by simp [rank, moveRank, show Fresh (s.task p) rq from fresh])
    · exact nearer_goto here rfl (by simp [rank, moveRank, show ¬ Fresh (s.task p) rq from fresh])
  case moveQueued rq => exact absurd rfl (other rq)
  case lockDest rq =>
    simp only [moveStep, if_pos (show (s.rq rq).lock = none from met _ rfl)]
    exact nearer_goto here (listed_setRq s rq rfl) (by simp [rank, moveRank])
  case relax =>
    have settled : (s.task p).onRq ≠ .migrating := met _ rfl
    simp only [moveStep, if_neg settled]
    exact nearer_goto here rfl (by simp [rank, moveRank, settled])
  case unlockSrc rq dest => exact nearer_goto here (listed_setRq s rq rfl) (by simp [rank, moveRank])
  case attach dest => exact nearer_goto here (listed_setRq s dest rfl) (by simp [rank, moveRank])
  case unlockRq rq => exact nearer_goto here (listed_setRq s rq rfl) (by simp [rank, moveRank])
  case dropRq rq => exact nearer_goto here (listed_setRq s rq rfl) (by simp [rank, moveRank])
  all_goals exact nearer_goto here rfl (by simp [rank, moveRank])

theorem nearer_balanceStep {tasks : List Task} {src dst : Cpu} {pc : BalancePc}
    (here : s.act w = .balance tasks src dst pc) (free : Free s w) (ends : pc = .detach → choice.task = none) :
    Nearer extra s w (balanceStep s w tasks src dst choice pc) := by
  have met : ∀ n, need w (.balance tasks src dst pc) = some n → Met s n := here ▸ free
  cases pc
  case lockSrc =>
    simp only [balanceStep, if_pos (show (s.rq src).lock = none from met _ rfl)]
    exact nearer_goto here (listed_setRq s src rfl) (by simp [rank, balanceRank])
  case detach =>
    simp only [balanceStep, ends rfl]
    refine nearer_goto here (listed_setRq s src rfl) ?_
    split_ifs <;> simp [rank, balanceRank]
  case lockDst =>
    simp only [balanceStep, if_pos (show (s.rq dst).lock = none from met _ rfl)]
    exact nearer_goto here (listed_setRq s dst rfl) (by simp [rank, balanceRank])
  case attach =>
    cases tasks with
    | nil => exact nearer_goto here rfl (by simp [rank, balanceRank])
    | cons p rest => exact nearer_goto here (listed_setRq s dst rfl) (by simp [rank, balanceRank])
  case unlockDst => exact nearer_goto here (listed_setRq s dst rfl) (by simp [rank, balanceRank])

theorem nearer_specialStep {value : UInt64} {pc : SpecialPc} (here : s.act w = .special p value pc)
    (free : Free s w) : Nearer extra s w (specialStep s w p value pc) := by
  have met : ∀ n, need w (.special p value pc) = some n → Met s n := here ▸ free
  cases pc
  case lockPi =>
    simp only [specialStep, if_pos (show s.piLock p = none from met _ rfl)]
    exact nearer_goto here rfl (by simp [rank, specialRank])
  all_goals exact nearer_goto here rfl (by simp [rank, specialRank])

theorem nearer_advance (busy : (s.act w).isRun = false) (free : Free s w) (cheap : costs s (w, choice) = false)
    (stays : ¬ Moves s w) : Nearer extra s w (advance s w choice) := by
  unfold advance
  split
  next here => rw [here] at busy; cases busy
  next here => exact nearer_ttwuStep here free
  next here =>
    refine nearer_scheduleStep here free ?_
    rintro rfl
    simpa [costs, here] using cheap
  next here => exact nearer_pendingStep here free
  next q pc here =>
    refine nearer_moveStep here free ?_
    rintro rq rfl
    exact stays ⟨q, rq, here⟩
  next here =>
    refine nearer_balanceStep here free ?_
    rintro rfl
    simpa [costs, here] using cheap
  next here => exact nearer_specialStep here free

theorem own_le_of_costs (costly : costs s (w, choice) = true) :
    rank extra (advance s w choice).task ((advance s w choice).act w) + 2 * listed (advance s w choice) ≤
      rank extra s.task (s.act w) + 2 * listed s + 1 := by
  unfold costs at costly
  dsimp only at costly
  split at costly
  next preempt prev here =>
    have after : advance s w choice = (s.unlockRq w).goto w (.schedule preempt prev .dropped) := by
      simp [advance, here, scheduleStep, costly]
    have lists : listed (s.unlockRq w) = listed s := listed_setRq s w rfl
    rw [after, goto_act_self, here]
    change _ + 2 * listed (s.unlockRq w) ≤ _
    simp only [rank, scheduleRank, lists]
    omega
  next tasks src dst here =>
    obtain ⟨q, some_task⟩ := Option.isSome_iff_exists.mp costly
    simp only [advance, here, balanceStep, some_task]
    split_ifs
    · have lists : listed (detachTask s q src dst) = listed s := listed_setRq s src rfl
      rw [goto_act_self]
      change _ + 2 * listed (detachTask s q src dst) ≤ _
      simp only [rank, balanceRank, lists, List.length_cons]
      omega
    · rw [here]
      exact Nat.le_succ _
  next => cases costly

end Measures

/-! ## What the others have left -/

/-- No task becomes migrating, and only a wake-up past its mark changes the CPU of one. -/
def Keeps (s : State Cpu Task) (w : Cpu) (q : Task) (t : TaskStruct Cpu) : Prop :=
  (t.onRq = .migrating → (s.task q).onRq = .migrating) ∧
    (t.cpu = (s.task q).cpu ∨ ∃ mask, s.act w = .ttwu q mask .selectRq)

theorem keeps_refl {q : Task} : Keeps s w q (s.task q) :=
  ⟨id, .inl rfl⟩

variable [DecidableEq Cpu] [DecidableEq Task]

theorem keeps_setTask {s₁ : State Cpu Task} {q : Task} (same : s₁.task = s.task) {t : TaskStruct Cpu}
    (self : Keeps s w p t) (a : Activity Cpu Task) : Keeps s w q (((s₁.setTask p t).goto w a).task q) := by
  by_cases here : q = p
  · subst here
    have value : ((s₁.setTask q t).goto w a).task q = t := s₁.setTask_task q t
    rw [value]
    exact self
  · have value : ((s₁.setTask p t).goto w a).task q = s₁.task q := s₁.setTask_task_of_ne here t
    rw [value, same]
    exact keeps_refl

theorem keeps_setOnCpu {s₁ : State Cpu Task} {q : Task} (same : s₁.task = s.task) (prev : Option Task)
    (onCpu : Bool) (a : Activity Cpu Task) : Keeps s w q (((setOnCpu s₁ prev onCpu).goto w a).task q) := by
  cases prev with
  | none => exact congrFun same q ▸ keeps_refl
  | some n => exact keeps_setTask same (by rw [same]; exact keeps_refl) a

theorem keeps_ttwuStep {q : Task} {mask : UInt64} {pc : TtwuPc Cpu} (here : s.act w = .ttwu p mask pc) :
    Keeps s w q ((ttwuStep s w p mask choice pc).task q) := by
  cases pc
  case selectRq => exact keeps_setTask (by rfl) (by exact ⟨id, .inr ⟨mask, here⟩⟩) _
  case markWaking => exact keeps_setTask (by rfl) (by exact ⟨id, .inl rfl⟩) _
  case activate => exact keeps_setTask (by rfl) (by exact ⟨by simp, .inl rfl⟩) _
  case setRunning => exact keeps_setTask (by rfl) (by exact ⟨id, .inl rfl⟩) _
  case remote rq =>
    simp only [ttwuStep]
    split_ifs
    · exact keeps_setTask (by rfl) (by exact ⟨id, .inl rfl⟩) _
    · exact keeps_refl
  case lockPi | testState | testOnRq | lockRq | checkRq | relax | waitOnCpu | lockDest =>
    simp only [ttwuStep]
    split_ifs <;> exact keeps_refl
  all_goals exact keeps_refl

theorem keeps_scheduleStep {q : Task} {preempt : Bool} {prev : Option Task} (pc : SchedulePc) :
    Keeps s w q ((scheduleStep s w preempt prev choice pc).task q) := by
  cases pc
  case decide =>
    cases prev with
    | none => exact keeps_refl
    | some n =>
      simp only [scheduleStep]
      split_ifs
      · exact keeps_refl
      · exact keeps_setTask (by rfl) (by exact ⟨id, .inl rfl⟩) _
      · exact keeps_setTask (by rfl) (by exact ⟨by simp, .inl rfl⟩) _
  case pick =>
    simp only [scheduleStep]
    split_ifs
    · exact keeps_refl
    · exact keeps_refl
    · exact keeps_setOnCpu (by rfl) _ _ _
  case finish => exact keeps_setOnCpu (by rfl) _ _ _
  case lock | dropped =>
    simp only [scheduleStep]
    split_ifs <;> exact keeps_refl
  case unlock => exact keeps_refl

theorem keeps_pendingStep {q : Task} {tasks : List Task} (pc : PendingPc Task) :
    Keeps s w q ((pendingStep s w tasks pc).task q) := by
  cases pc
  case activate =>
    cases tasks with
    | nil => exact keeps_refl
    | cons p rest => exact keeps_setTask (by rfl) (by exact ⟨by simp, .inl rfl⟩) _
  case setRunning p => exact keeps_setTask (by rfl) (by exact ⟨id, .inl rfl⟩) _
  case lock =>
    simp only [pendingStep]
    split_ifs <;> exact keeps_refl
  all_goals exact keeps_refl

theorem keeps_moveStep {q : Task} (pc : MovePc Cpu) (other : ∀ rq, pc ≠ .moveQueued rq) :
    Keeps s w q ((moveStep s w p choice pc).task q) := by
  cases pc
  case moveQueued rq => exact absurd rfl (other rq)
  case attach dest => exact keeps_setTask (by rfl) (by exact ⟨by simp, .inl rfl⟩) _
  case lockPi | lockRq | checkRq | lockDest | relax =>
    simp only [moveStep]
    split_ifs <;> exact keeps_refl
  all_goals exact keeps_refl

theorem keeps_balanceStep {q : Task} {tasks : List Task} {src dst : Cpu} (pc : BalancePc)
    (ends : pc = .detach → choice.task = none) :
    Keeps s w q ((balanceStep s w tasks src dst choice pc).task q) := by
  cases pc
  case attach =>
    cases tasks with
    | nil => exact keeps_refl
    | cons p rest => exact keeps_setTask (by rfl) (by exact ⟨by simp, .inl rfl⟩) _
  case detach =>
    simp only [balanceStep, ends rfl]
    exact keeps_refl
  case lockSrc | lockDst =>
    simp only [balanceStep]
    split_ifs <;> exact keeps_refl
  all_goals exact keeps_refl

theorem keeps_advance (cheap : costs s (w, choice) = false) (stays : ¬ Moves s w) (q : Task) :
    Keeps s w q ((advance s w choice).task q) := by
  unfold advance
  split
  next => exact keeps_refl
  next here => exact keeps_ttwuStep here
  next => exact keeps_scheduleStep _
  next => exact keeps_pendingStep _
  next p pc here =>
    refine keeps_moveStep _ ?_
    rintro rq rfl
    exact stays ⟨p, rq, here⟩
  next here =>
    refine keeps_balanceStep _ ?_
    rintro rfl
    simpa [costs, here] using cheap
  next pc _ =>
    cases pc
    case set => exact keeps_setTask (by rfl) (by exact ⟨id, .inl rfl⟩) _
    case lockPi =>
      simp only [specialStep]
      split_ifs <;> exact keeps_refl
    case unlockPi => exact keeps_refl

/-- A step of one CPU that migrates nothing leaves the others no more to do: what they know of the
queue of a task they know under its `pi_lock`. -/
theorem rank_advance_le (inv : Inv s) (cheap : costs s (w, choice) = false) (stays : ¬ Moves s w) {d : Cpu}
    (other : d ≠ w) : rank extra (advance s w choice).task (s.act d) ≤ rank extra s.task (s.act d) := by
  have keeps := keeps_advance cheap stays
  have cpu : ∀ q, piLock (s.act d) = some q → ((advance s w choice).task q).cpu = (s.task q).cpu := fun q held => by
    refine (keeps q).2.resolve_right ?_
    rintro ⟨mask, selects⟩
    exact other (inv.locks.pi.exclusive held (by rw [selects]; rfl))
  cases here : s.act d with
  | ttwu q mask pc =>
    refine ttwuRank_le pc ?_ (keeps q).1
    by_cases first : pc = .lockPi
    · exact .inl first
    · refine .inr (cpu q ?_)
      rw [here]
      cases pc <;> first | rfl | exact absurd rfl first
  | move q pc =>
    refine moveRank_le pc ?_ (keeps q).1
    by_cases first : pc = .lockPi ∨ pc = .relax
    · exact or_assoc.mp (.inl first)
    · refine .inr (.inr (cpu q ?_))
      rw [here]
      cases pc <;> first | rfl | simp at first
  | _ => exact le_rfl

theorem advance_of_spins (spins : ¬ Free s w) (choice : Choice Cpu Task) : advance s w choice = s := by
  obtain ⟨n, needs, unmet⟩ : ∃ n, need w (s.act w) = some n ∧ ¬ Met s n := by
    simpa [Free] using spins
  unfold advance
  split
  next here => rfl
  next p mask pc here =>
    rw [here] at needs
    cases pc <;> cases needs <;> simp_all [ttwuStep, Met]
  next preempt prev pc here =>
    rw [here] at needs
    cases pc <;> cases needs <;> simp_all [scheduleStep, Met]
  next tasks pc here =>
    rw [here] at needs
    cases pc <;> cases needs
    simp_all [pendingStep, Met]
  next p pc here =>
    rw [here] at needs
    cases pc <;> cases needs <;> simp_all [moveStep, Met]
  next tasks src dst pc here =>
    rw [here] at needs
    cases pc <;> cases needs <;> simp_all [balanceStep, Met]
  next p value pc here =>
    rw [here] at needs
    cases pc <;> cases needs
    simp_all [specialStep, Met]

theorem advance_of_run (idle : (s.act w).isRun) (choice : Choice Cpu Task) : advance s w choice = s := by
  rw [advance, act_eq_run idle]

/-! ## Completion -/

section Completion

def turn (s : State Cpu Task) (t : Cpu × Choice Cpu Task) : State Cpu Task :=
  advance s t.1 t.2

variable [Fintype Cpu]

/-- What one step may add to what the CPUs have left. -/
def growth (Cpu : Type) [Fintype Cpu] : ℕ := 8 * Fintype.card Cpu

def measure (s : State Cpu Task) : ℕ := ∑ c, rank (growth Cpu) s.task (s.act c) + 2 * listed s

theorem measure_advance_le {k m n : ℕ}
    (others : ∀ d ≠ w, rank (growth Cpu) (advance s w choice).task (s.act d) ≤ rank (growth Cpu) s.task (s.act d) + k)
    (own : rank (growth Cpu) (advance s w choice).task ((advance s w choice).act w) + 2 * listed (advance s w choice) + m ≤
      rank (growth Cpu) s.task (s.act w) + 2 * listed s + n) :
    measure (advance s w choice) + m ≤ measure s + n + (Fintype.card Cpu - 1) * k := by
  have rest : ∑ d ∈ Finset.univ.erase w, rank (growth Cpu) (advance s w choice).task ((advance s w choice).act d) ≤
      ∑ d ∈ Finset.univ.erase w, rank (growth Cpu) s.task (s.act d) + (Fintype.card Cpu - 1) * k := by
    have count : (Finset.univ.erase w).card = Fintype.card Cpu - 1 := Finset.card_erase_of_mem (Finset.mem_univ w)
    rw [← count, ← smul_eq_mul, ← Finset.sum_const, ← Finset.sum_add_distrib]
    refine Finset.sum_le_sum fun d member => ?_
    have other := Finset.ne_of_mem_erase member
    rw [elsewhere_advance s w _ d other]
    exact others d other
  have before := Finset.sum_erase_add Finset.univ (fun d => rank (growth Cpu) s.task (s.act d)) (Finset.mem_univ w)
  have after := Finset.sum_erase_add Finset.univ
    (fun d => rank (growth Cpu) (advance s w choice).task ((advance s w choice).act d)) (Finset.mem_univ w)
  unfold measure
  omega

theorem measure_moves_lt (moves : Moves s w) : measure (advance s w choice) < measure s := by
  obtain ⟨p, rq, here⟩ := moves
  have after : advance s w choice = moveStep s w p choice (.moveQueued rq) := by rw [advance, here]
  have total : measure (advance s w choice) + growth Cpu ≤ measure s + 2 + (Fintype.card Cpu - 1) * 8 := by
    refine measure_advance_le (fun d _ => rank_le_add _ _ _) ?_
    rw [after]
    exact moved_le here
  have some_cpu : 0 < Fintype.card Cpu := Fintype.card_pos_iff.mpr ⟨w⟩
  unfold growth at total
  omega

theorem measure_lt (inv : Inv s) (busy : (s.act w).isRun = false) (free : Free s w)
    (cheap : costs s (w, choice) = false) : measure (advance s w choice) < measure s := by
  by_cases moves : Moves s w
  · exact measure_moves_lt moves
  · have total : measure (advance s w choice) + 1 ≤ measure s + 0 + (Fintype.card Cpu - 1) * 0 :=
      measure_advance_le (fun d other => rank_advance_le inv cheap moves other) (nearer_advance busy free cheap moves)
    omega

theorem measure_le_of_costs (costly : costs s (w, choice) = true) :
    measure (advance s w choice) ≤ measure s + growth Cpu := by
  have total : measure (advance s w choice) + 0 ≤ measure s + 1 + (Fintype.card Cpu - 1) * 8 :=
    measure_advance_le (fun d _ => rank_le_add _ _ _) (own_le_of_costs costly)
  have some_cpu : 0 < Fintype.card Cpu := Fintype.card_pos_iff.mpr ⟨w⟩
  unfold growth
  omega

def AllRun (s : State Cpu Task) : Prop :=
  ∀ c, (s.act c).isRun

theorem shrinks :
    Shrinks turn costs Prod.fst (Inv : State Cpu Task → Prop) AllRun measure (growth Cpu) where
  keep s t inv := inv_advance inv t.1 t.2
  turn s t inv cheap := by
    by_cases busy : (s.act t.1).isRun = false
    · by_cases free : Free s t.1
      · exact .inr (measure_lt inv busy free cheap)
      · exact .inl (advance_of_spins free t.2)
    · exact .inl (advance_of_run (by simpa using busy) t.2)
  grow s t _ costly := measure_le_of_costs costly
  live s inv short := by
    obtain ⟨w, busy⟩ : ∃ w, (s.act w).isRun = false := by simpa [AllRun] using short
    obtain ⟨v, busy, free⟩ := someoneFree_of_busy inv busy
    refine ⟨v, fun t own => ?_⟩
    subst own
    cases cheap : costs s t with
    | true => exact .inl rfl
    | false => exact .inr (measure_lt inv busy free cheap)
  left s short := by
    obtain ⟨w, busy⟩ : ∃ w, (s.act w).isRun = false := by simpa [AllRun] using short
    have own : rank (growth Cpu) s.task (s.act w) ≤ ∑ c, rank (growth Cpu) s.task (s.act c) :=
      Finset.single_le_sum (f := fun c => rank (growth Cpu) s.task (s.act c)) (fun _ _ => Nat.zero_le _)
        (Finset.mem_univ w)
    have some_left : 0 < rank (growth Cpu) s.task (s.act w) := rank_pos busy
    unfold measure
    omega
  stay s t all := advance_of_run (all t.1) t.2

end Completion

end UnixSystems.WakeProgress
