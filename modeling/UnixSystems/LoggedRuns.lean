import Mathlib

/-! Runs that note what they do and may halt. The notes made before a halt stay, so that a
property of all notes can be followed from one step to the next, and a run that halts early can
be compared with the whole run. -/
namespace UnixSystems.LoggedRuns

universe u

structure Logged (ν ε α : Type u) where
  log : List ν
  outcome : Except ε α

namespace Logged

variable {ν ε α β σ ι : Type u}

def bind (x : Logged ν ε α) (f : α → Logged ν ε β) : Logged ν ε β :=
  match x.outcome with
  | .ok a => ⟨x.log ++ (f a).log, (f a).outcome⟩
  | .error e => ⟨x.log, .error e⟩

instance : Monad (Logged ν ε) where
  pure a := ⟨[], .ok a⟩
  bind := Logged.bind

def notes (l : List ν) : Logged ν ε PUnit := ⟨l, .ok ⟨⟩⟩

def halt (e : ε) : Logged ν ε α := ⟨[], .error e⟩

def require (p : Prop) [Decidable p] (e : ε) : Logged ν ε PUnit :=
  if p then pure ⟨⟩ else halt e

section Bind

variable {x : Logged ν ε α} {f : α → Logged ν ε β}

@[simp] theorem log_pure (a : α) : (pure a : Logged ν ε α).log = [] := rfl

@[simp] theorem outcome_pure (a : α) : (pure a : Logged ν ε α).outcome = .ok a := rfl

theorem bind_ok {a : α} (ok : x.outcome = .ok a) : x >>= f = ⟨x.log ++ (f a).log, (f a).outcome⟩ := by
  show Logged.bind x f = _
  rw [Logged.bind, ok]

theorem bind_error {e : ε} (err : x.outcome = .error e) : x >>= f = ⟨x.log, .error e⟩ := by
  show Logged.bind x f = _
  rw [Logged.bind, err]

instance : LawfulMonad (Logged ν ε) := by
  refine LawfulMonad.mk' _ ?_ ?_ ?_
  · intro α x
    obtain ⟨log, a | e⟩ := x
    · rfl
    · show Logged.mk (log ++ []) _ = _
      rw [List.append_nil]
      rfl
  · intro α β a f
    rfl
  · intro α β γ x f g
    obtain ⟨log, e | a⟩ := x
    · rfl
    · cases next : (f a).outcome with
      | error e =>
        have first : (⟨log, .ok a⟩ : Logged ν ε α) >>= f = ⟨log ++ (f a).log, .error e⟩ := by
          rw [bind_ok rfl, next]
        rw [first, bind_error rfl, bind_ok rfl, bind_error next]
      | ok b =>
        have first : (⟨log, .ok a⟩ : Logged ν ε α) >>= f = ⟨log ++ (f a).log, .ok b⟩ := by
          rw [bind_ok rfl, next]
        rw [first, bind_ok rfl, bind_ok rfl, bind_ok next, List.append_assoc]

theorem bind_congr_ok {g : α → Logged ν ε β} (same : ∀ a, x.outcome = .ok a → f a = g a) :
    x >>= f = x >>= g := by
  cases ends : x.outcome with
  | ok a => rw [bind_ok ends, bind_ok ends, same a ends]
  | error e => rw [bind_error ends, bind_error ends]

theorem mk_ok_bind (l : List ν) (a : α) :
    (⟨l, .ok a⟩ : Logged ν ε α) >>= f = notes l >>= fun _ => f a := rfl

theorem mk_ok_bind_pure (l : List ν) (a : α) (b : β) :
    (⟨l, .ok a⟩ : Logged ν ε α) >>= (fun _ => pure b) = ⟨l, .ok b⟩ := by
  rw [bind_ok rfl, log_pure, List.append_nil]
  rfl

theorem map_mk_ok (l : List ν) (a : α) (g : α → β) :
    g <$> (⟨l, .ok a⟩ : Logged ν ε α) = ⟨l, .ok (g a)⟩ := by
  rw [map_eq_pure_bind]
  exact mk_ok_bind_pure l a (g a)

@[simp] theorem notes_bind_log (l : List ν) (g : PUnit → Logged ν ε β) :
    (notes l >>= g).log = l ++ (g ⟨⟩).log := rfl

@[simp] theorem notes_bind_outcome (l : List ν) (g : PUnit → Logged ν ε β) :
    (notes l >>= g).outcome = (g ⟨⟩).outcome := rfl

theorem require_bind (p : Prop) [Decidable p] (e : ε) (g : PUnit → Logged ν ε β) :
    require p e >>= g = if p then g ⟨⟩ else halt e := by
  unfold require
  split_ifs <;> rfl

end Bind

/-! ## A property of all notes -/

def Within (P : ν → Prop) (x : Logged ν ε α) : Prop := ∀ a ∈ x.log, P a

section Within

variable {P : ν → Prop} {x : Logged ν ε α} {f : α → Logged ν ε β}

@[simp] theorem within_pure (a : α) : Within P (pure a : Logged ν ε α) := by simp [Within]

theorem within_bind :
    Within P (x >>= f) ↔ Within P x ∧ ∀ a, x.outcome = .ok a → Within P (f a) := by
  cases ends : x.outcome with
  | ok a =>
    rw [bind_ok ends]
    simp [Within, or_imp, forall_and]
  | error e =>
    rw [bind_error ends]
    simp [Within]

theorem within_notes_bind (l : List ν) (g : PUnit → Logged ν ε β) :
    Within P (notes l >>= g) ↔ (∀ a ∈ l, P a) ∧ Within P (g ⟨⟩) := by
  simp [Within, or_imp, forall_and]

end Within

/-! ## A property of the end -/

/-- A result has the one property, and the reason for a halt the other. -/
structure Ends (Q : α → Prop) (E : ε → Prop) (x : Logged ν ε α) : Prop where
  result : ∀ a, x.outcome = .ok a → Q a
  reason : ∀ e, x.outcome = .error e → E e

section Ends

variable {Q : α → Prop} {R : β → Prop} {I : σ → Prop} {E : ε → Prop} {x : Logged ν ε α} {f : α → Logged ν ε β}

theorem ends_of_ok {a : α} (ok : x.outcome = .ok a) (holds : Q a) : Ends Q E x where
  result := fun b same => Except.ok.inj (ok.symm.trans same) ▸ holds
  reason := fun e never => absurd (ok.symm.trans never) (by simp)

theorem ends_of_error {e : ε} (err : x.outcome = .error e) (holds : E e) : Ends Q E x where
  result := fun a never => absurd (err.symm.trans never) (by simp)
  reason := fun e same => Except.error.inj (err.symm.trans same) ▸ holds

theorem Ends.bind (first : Ends Q E x) (next : ∀ a, Q a → Ends R E (f a)) : Ends R E (x >>= f) := by
  cases ends : x.outcome with
  | ok a =>
    have later := next a (first.result a ends)
    rw [bind_ok ends]
    exact ⟨later.result, later.reason⟩
  | error e =>
    rw [bind_error ends]
    exact ends_of_error rfl (first.reason e ends)

theorem ends_notes (l : List ν) : Ends (fun _ => True) E (notes l : Logged ν ε PUnit) := ends_of_ok rfl trivial

theorem ends_require (p : Prop) [Decidable p] {e : ε} (kind : ¬ p → E e) :
    Ends (fun _ => p) E (require p e : Logged ν ε PUnit) := by
  unfold require
  split_ifs with holds
  · exact ends_of_ok rfl holds
  · exact ends_of_error rfl (kind holds)

theorem Ends.foldlM {f : σ → ι → Logged ν ε σ} (step : ∀ s i, I s → Ends I E (f s i)) (l : List ι) {s : σ}
    (start : I s) : Ends I E (l.foldlM f s) := by
  induction l generalizing s with
  | nil => exact ends_of_ok rfl start
  | cons i l ih =>
    rw [List.foldlM_cons]
    exact (step s i start).bind fun _ kept => ih kept

end Ends

/-! ## Halting early -/

/-- The run is the full one, or it halts early for a reason of this kind. -/
def Stops (why : ε → Prop) (x full : Logged ν ε α) : Prop :=
  x = full ∨ ∃ e, why e ∧ x.outcome = .error e ∧ x.log <+: full.log

section Stops

variable {why : ε → Prop} {P : ν → Prop} {x full : Logged ν ε α}

theorem Stops.refl (x : Logged ν ε α) : Stops why x x := .inl rfl

theorem stops_require (p : Prop) {q : Prop} [Decidable p] [Decidable q] (met : q) {e : ε} (kind : why e) :
    Stops why (require p e : Logged ν ε PUnit) (require q e) := by
  unfold require
  rw [if_pos met]
  split_ifs
  · exact .inl rfl
  · exact .inr ⟨e, kind, rfl, List.nil_prefix⟩

theorem Stops.bind (first : Stops why x full) {f g : α → Logged ν ε β}
    (next : ∀ a, Stops why (f a) (g a)) : Stops why (x >>= f) (full >>= g) := by
  rcases first with rfl | ⟨e, kind, halted, early⟩
  · cases ends : x.outcome with
    | error e =>
      rw [bind_error ends, bind_error ends]
      exact .refl _
    | ok a =>
      rw [bind_ok ends, bind_ok ends]
      rcases next a with same | ⟨e, kind, halted, early⟩
      · exact .inl (by rw [same])
      · exact .inr ⟨e, kind, halted, (List.prefix_append_right_inj _).mpr early⟩
  · refine .inr ⟨e, kind, ?_, ?_⟩
    · rw [bind_error halted]
    · rw [bind_error halted]
      refine early.trans ?_
      cases ends : full.outcome with
      | error e => rw [bind_error ends]
      | ok a => rw [bind_ok ends]; exact List.prefix_append _ _

theorem Stops.foldlM {f g : σ → ι → Logged ν ε σ} (step : ∀ s i, Stops why (f s i) (g s i)) (l : List ι)
    (s : σ) : Stops why (l.foldlM f s) (l.foldlM g s) := by
  induction l generalizing s with
  | nil => exact .refl _
  | cons i l ih =>
    rw [List.foldlM_cons, List.foldlM_cons]
    exact (step s i).bind ih

theorem Stops.within (stops : Stops why x full) (all : Within P full) : Within P x := by
  rcases stops with rfl | ⟨_, _, _, early⟩
  · exact all
  · exact fun a member => all a (early.subset member)

theorem Stops.outcome_ok (stops : Stops why x full) {a : α} (ok : x.outcome = .ok a) : x = full := by
  rcases stops with same | ⟨e, _, halted, _⟩
  · exact same
  · rw [ok] at halted
    exact nomatch halted

theorem Stops.outcome_error (stops : Stops why x full) {e : ε} (other : ¬ why e)
    (halted : x.outcome = .error e) : x = full := by
  rcases stops with same | ⟨e', kind, stopped, _⟩
  · exact same
  · rw [halted] at stopped
    cases stopped
    exact absurd kind other

end Stops

end Logged

end UnixSystems.LoggedRuns
