import Mathlib

/-! Finite runs of a total step function. A guard is a condition on the state
before a step; a run meets it when each of its steps does. Environment
constraints and the conditions under which a property survives are both guards,
so that one induction serves all of them. Nothing here bounds a run's length. -/
namespace UnixSystems.GuardedRuns

variable {State Action : Type*}

def run (step : State → Action → State) (s : State) (acts : List Action) : State :=
  acts.foldl step s

@[simp] theorem run_nil (step : State → Action → State) (s : State) : run step s [] = s := rfl

@[simp] theorem run_cons (step : State → Action → State) (s : State) (a : Action)
    (acts : List Action) : run step s (a :: acts) = run step (step s a) acts := rfl

@[simp] theorem run_append (step : State → Action → State) (s : State) (front back : List Action) :
    run step s (front ++ back) = run step (run step s front) back :=
  List.foldl_append

/-- Each action is taken from a state in which the guard admits it. -/
def Along (step : State → Action → State) (guard : State → Action → Prop) :
    State → List Action → Prop
  | _, [] => True
  | s, a :: acts => guard s a ∧ Along step guard (step s a) acts

instance (step : State → Action → State) (guard : State → Action → Prop)
    [∀ s a, Decidable (guard s a)] : ∀ s acts, Decidable (Along step guard s acts)
  | _, [] => isTrue trivial
  | s, a :: acts =>
    have := instDecidableAlong step guard (step s a) acts
    inferInstanceAs (Decidable (guard s a ∧ Along step guard (step s a) acts))

theorem along_append {step : State → Action → State} {guard : State → Action → Prop} {s : State}
    {front back : List Action} :
    Along step guard s (front ++ back) ↔
      Along step guard s front ∧ Along step guard (run step s front) back := by
  induction front generalizing s with
  | nil => simp [Along]
  | cons a front ih => simp only [List.cons_append, Along, ih, run_cons, and_assoc]

theorem along_of_forall_mem {step : State → Action → State} {guard : State → Action → Prop} (s : State)
    {acts : List Action} (admits : ∀ a ∈ acts, ∀ s, guard s a) : Along step guard s acts := by
  induction acts generalizing s with
  | nil => trivial
  | cons a acts ih =>
    exact ⟨admits a List.mem_cons_self s, ih (step s a) fun b later => admits b (List.mem_cons_of_mem a later)⟩

theorem along_of_forall {step : State → Action → State} {guard : State → Action → Prop}
    (admits : ∀ s a, guard s a) (s : State) (acts : List Action) : Along step guard s acts :=
  along_of_forall_mem s fun a _ s => admits s a

theorem Along.and {step : State → Action → State} {guard other : State → Action → Prop} {s : State}
    {acts : List Action} (h : Along step guard s acts) (h' : Along step other s acts) :
    Along step (fun s a => guard s a ∧ other s a) s acts := by
  induction acts generalizing s with
  | nil => trivial
  | cons a acts ih => exact ⟨⟨h.1, h'.1⟩, ih h.2 h'.2⟩

theorem along_iff_along {step : State → Action → State} {guard first second : State → Action → Prop}
    (Inv : State → Prop) (keep : ∀ s a, guard s a → second s a → Inv s → Inv (step s a))
    (same : ∀ s a, guard s a → Inv s → (first s a ↔ second s a)) {s : State} {acts : List Action}
    (init : Inv s) (h : Along step guard s acts) :
    Along step first s acts ↔ Along step second s acts := by
  induction acts generalizing s with
  | nil => exact Iff.rfl
  | cons a acts ih =>
    rw [Along, Along, same s a h.1 init]
    exact and_congr_right fun admitted => ih (keep s a h.1 admitted init) h.2

theorem run_invariant {step : State → Action → State} {guard : State → Action → Prop}
    (Inv : State → Prop) (keep : ∀ s a, guard s a → Inv s → Inv (step s a))
    {s : State} {acts : List Action} (init : Inv s) (h : Along step guard s acts) :
    Inv (run step s acts) := by
  induction acts generalizing s with
  | nil => exact init
  | cons a acts ih => exact ih (keep s a h.1 init) h.2

/-- The property holds in the first state and in each state the run passes through. -/
def Always (step : State → Action → State) (P : State → Prop) (s : State)
    (acts : List Action) : Prop :=
  ∀ front, front <+: acts → P (run step s front)

theorem always_nil {step : State → Action → State} {P : State → Prop} {s : State} :
    Always step P s [] ↔ P s := by
  simp [Always]

theorem always_cons {step : State → Action → State} {P : State → Prop} {s : State}
    {a : Action} {acts : List Action} :
    Always step P s (a :: acts) ↔ P s ∧ Always step P (step s a) acts := by
  constructor
  · intro h
    refine ⟨h [] (List.nil_prefix), fun front hp => ?_⟩
    exact h (a :: front) (List.cons_prefix_cons.mpr ⟨rfl, hp⟩)
  · rintro ⟨now, later⟩ front hp
    cases front with
    | nil => exact now
    | cons b front =>
      obtain ⟨rfl, rest⟩ := List.cons_prefix_cons.mp hp
      exact later front rest

theorem always_of_invariant {step : State → Action → State} {guard : State → Action → Prop}
    {P : State → Prop} (Inv : State → Prop) (keep : ∀ s a, guard s a → Inv s → Inv (step s a))
    (imp : ∀ s, Inv s → P s) {s : State} {acts : List Action} (init : Inv s)
    (h : Along step guard s acts) : Always step P s acts := by
  induction acts generalizing s with
  | nil => exact always_nil.mpr (imp s init)
  | cons a acts ih => exact always_cons.mpr ⟨imp s init, ih (keep s a h.1 init) h.2⟩

/-- When, among states satisfying the invariant and the property, a step keeps the
property exactly if the condition admits it, a whole run keeps the property exactly
if the condition admits all its steps. -/
theorem always_iff_along {step : State → Action → State} {guard cond : State → Action → Prop}
    (Inv P : State → Prop) (keep : ∀ s a, guard s a → Inv s → Inv (step s a))
    (exact_step : ∀ s a, guard s a → Inv s → P s → (P (step s a) ↔ cond s a))
    {s : State} {acts : List Action} (inv : Inv s) (now : P s)
    (h : Along step guard s acts) :
    Always step P s acts ↔ Along step cond s acts := by
  induction acts generalizing s with
  | nil => simpa [always_nil, Along] using now
  | cons a acts ih =>
    rw [always_cons, Along]
    have here := exact_step s a h.1 inv now
    constructor
    · rintro ⟨_, later⟩
      have next : P (step s a) := later [] (List.nil_prefix)
      exact ⟨here.mp next, (ih (keep s a h.1 inv) next h.2).mp later⟩
    · rintro ⟨admitted, later⟩
      exact ⟨now, (ih (keep s a h.1 inv) (here.mpr admitted) h.2).mpr later⟩

def Visits (step : State → Action → State) (s : State) (acts : List Action) (t : State) : Prop :=
  ∃ front, front <+: acts ∧ run step s front = t

def Takes (step : State → Action → State) (s : State) (acts : List Action) (t : State) (a : Action) :
    Prop :=
  ∃ front, front ++ [a] <+: acts ∧ run step s front = t

section Visits

variable {step : State → Action → State} {s t : State} {acts : List Action} {a : Action}

theorem visits_start (step : State → Action → State) (s : State) (acts : List Action) :
    Visits step s acts s :=
  ⟨[], List.nil_prefix, rfl⟩

theorem Always.of_visits {P : State → Prop} (always : Always step P s acts)
    (visits : Visits step s acts t) : P t := by
  obtain ⟨front, begins, rfl⟩ := visits
  exact always front begins

theorem Takes.visits (takes : Takes step s acts t a) : Visits step s acts t := by
  obtain ⟨front, begins, reached⟩ := takes
  exact ⟨front, (List.prefix_append front [a]).trans begins, reached⟩

theorem Takes.visits_step (takes : Takes step s acts t a) : Visits step s acts (step t a) := by
  obtain ⟨front, begins, reached⟩ := takes
  exact ⟨front ++ [a], begins, by rw [run_append, reached, run_cons, run_nil]⟩

theorem exists_takes_of_mem (step : State → Action → State) (s : State) (member : a ∈ acts) :
    ∃ t, Takes step s acts t a := by
  obtain ⟨front, back, rfl⟩ := List.append_of_mem member
  exact ⟨_, front, ⟨back, (List.append_cons front a back).symm⟩, rfl⟩

end Visits

end UnixSystems.GuardedRuns
