import UnixSystems.GuardedRuns

/-! Completion under a fair schedule. Parties take turns, and have a choice in each; a turn changes
nothing or makes a measure smaller, unless it is a costly one, which may make it larger by a
constant. As long as the goal is not reached there is a party whose every turn would make the
measure smaller or be costly. Then the goal is reached within as many rounds as the measure counts,
and a constant number more for each costly turn, whatever the order of the parties within each round
and whatever they choose. -/
namespace UnixSystems.FairRounds
open GuardedRuns

variable {State Turn Party : Type*}

def spent (step : State → Turn → State) (costs : State → Turn → Bool) : State → List Turn → ℕ
  | _, [] => 0
  | s, t :: turns => (costs s t).toNat + spent step costs (step s t) turns

theorem spent_append (step : State → Turn → State) (costs : State → Turn → Bool) (s : State)
    (front rest : List Turn) :
    spent step costs s (front ++ rest) = spent step costs s front + spent step costs (run step s front) rest := by
  induction front generalizing s with
  | nil => simp [spent]
  | cons t front ih =>
    rw [List.cons_append, spent, spent, run_cons, ih]
    omega

structure Shrinks (step : State → Turn → State) (costs : State → Turn → Bool) (party : Turn → Party)
    (Inv Goal : State → Prop) (measure : State → ℕ) (growth : ℕ) : Prop where
  keep : ∀ s t, Inv s → Inv (step s t)
  turn : ∀ s t, Inv s → costs s t = false → step s t = s ∨ measure (step s t) < measure s
  grow : ∀ s t, Inv s → costs s t = true → measure (step s t) ≤ measure s + growth
  live : ∀ s, Inv s → ¬ Goal s → ∃ p, ∀ t, party t = p → costs s t = true ∨ measure (step s t) < measure s
  left : ∀ s, ¬ Goal s → 0 < measure s
  stay : ∀ s t, Goal s → step s t = s

variable {step : State → Turn → State} {costs : State → Turn → Bool} {party : Turn → Party}
  {Inv Goal : State → Prop} {measure : State → ℕ} {growth : ℕ} {s : State}

theorem Shrinks.inv_run (shrinks : Shrinks step costs party Inv Goal measure growth) (inv : Inv s)
    (turns : List Turn) : Inv (run step s turns) := by
  induction turns generalizing s with
  | nil => exact inv
  | cons t turns ih => exact ih (shrinks.keep s t inv)

theorem Shrinks.turn_le (shrinks : Shrinks step costs party Inv Goal measure growth) (inv : Inv s) (t : Turn) :
    measure (step s t) ≤ measure s + growth * (costs s t).toNat := by
  cases costly : costs s t with
  | true => simpa using shrinks.grow s t inv costly
  | false =>
    rcases shrinks.turn s t inv costly with same | less
    · simp [same]
    · simpa using less.le

theorem Shrinks.run_le (shrinks : Shrinks step costs party Inv Goal measure growth) (inv : Inv s)
    (turns : List Turn) : measure (run step s turns) ≤ measure s + growth * spent step costs s turns := by
  induction turns generalizing s with
  | nil => exact Nat.le_add_right _ _
  | cons t turns ih =>
    have first := shrinks.turn_le inv t
    have later := ih (shrinks.keep s t inv)
    rw [run_cons, spent, Nat.mul_add]
    omega

theorem Shrinks.round_lt (shrinks : Shrinks step costs party Inv Goal measure growth) (inv : Inv s)
    (short : ¬ Goal s) {round : List Turn} (all : ∀ p, ∃ t ∈ round, party t = p) :
    measure (run step s round) < measure s + (growth + 1) * spent step costs s round := by
  obtain ⟨p, counts⟩ := shrinks.live s inv short
  obtain ⟨t, member, own⟩ := all p
  clear all
  induction round with
  | nil => cases member
  | cons u round ih =>
    have later := shrinks.run_le (shrinks.keep s u inv) round
    rw [run_cons, spent]
    cases costly : costs s u with
    | true =>
      have first := shrinks.grow s u inv costly
      simp only [Bool.toNat_true, Nat.mul_add, Nat.add_mul]
      omega
    | false =>
      rcases shrinks.turn s u inv costly with same | less
      · rw [same, Bool.toNat_false, Nat.zero_add]
        refine ih ((List.mem_cons.mp member).resolve_left ?_)
        rintro rfl
        rcases counts t own with costs' | less
        · rw [costly] at costs'
          cases costs'
        · rw [same] at less
          exact lt_irrefl _ less
      · simp only [Bool.toNat_false, Nat.zero_add, Nat.add_mul]
        omega

theorem Shrinks.goal_stays (shrinks : Shrinks step costs party Inv Goal measure growth) (goal : Goal s)
    (turns : List Turn) : Goal (run step s turns) := by
  induction turns generalizing s with
  | nil => exact goal
  | cons t turns ih =>
    rw [run_cons, shrinks.stay s t goal]
    exact ih goal

theorem Shrinks.completes (shrinks : Shrinks step costs party Inv Goal measure growth) (inv : Inv s)
    {rounds : List (List Turn)} (fair : ∀ round ∈ rounds, ∀ p, ∃ t ∈ round, party t = p)
    (enough : measure s + (growth + 1) * spent step costs s rounds.flatten ≤ rounds.length) :
    Goal (run step s rounds.flatten) := by
  induction rounds generalizing s with
  | nil =>
    by_contra short
    have left := shrinks.left s short
    simp only [List.flatten_nil, spent, List.length_nil] at enough
    omega
  | cons round rounds ih =>
    rw [List.flatten_cons, run_append]
    by_cases goal : Goal s
    · exact shrinks.goal_stays (shrinks.goal_stays goal round) _
    · refine ih (shrinks.inv_run inv round) (fun r later => fair r (List.mem_cons_of_mem _ later)) ?_
      have less := shrinks.round_lt inv goal (fair round List.mem_cons_self)
      rw [List.flatten_cons, spent_append, List.length_cons, Nat.mul_add] at enough
      omega

end UnixSystems.FairRounds
