import Mathlib

/-! Locks with one owner each, and parties that hold at most one lock of the kind. The lock
names its owner and the party knows from its own position what it holds; the two agree. -/
namespace UnixSystems.Holders

variable {Lock Party : Type*} {owner : Lock → Option Party} {holds : Party → Option Lock}
  {l : Lock} {p q : Party}

def Agree (owner : Lock → Option Party) (holds : Party → Option Lock) : Prop :=
  ∀ l p, owner l = some p ↔ holds p = some l

theorem Agree.exclusive (agree : Agree owner holds) (first : holds p = some l)
    (second : holds q = some l) : p = q := by
  have here := (agree l p).mpr first
  rw [(agree l q).mpr second] at here
  exact (Option.some.inj here).symm

theorem Agree.not_free (agree : Agree owner holds) (held : holds p = some l) : owner l ≠ none := by
  rw [(agree l p).mpr held]
  exact Option.some_ne_none p

variable [DecidableEq Lock] [DecidableEq Party]

theorem Agree.acquire (agree : Agree owner holds) (free : owner l = none) (empty : holds p = none) :
    Agree (Function.update owner l (some p)) (Function.update holds p (some l)) := by
  intro m q
  by_cases lock : m = l <;> by_cases party : q = p
  · simp [lock, party]
  · have other := (agree l q).not.mp (by simp [free])
    simp [lock, party, other, Ne.symm party]
  · have other := (agree m p).not.mpr (by simp [empty])
    simp [lock, party, other, Ne.symm lock]
  · simpa [lock, party] using agree m q

theorem Agree.release (agree : Agree owner holds) (held : holds p = some l) :
    Agree (Function.update owner l none) (Function.update holds p none) := by
  have owned := (agree l p).mpr held
  intro m q
  by_cases lock : m = l <;> by_cases party : q = p
  · simp [lock, party]
  · have other := (agree l q).not.mp (by simp [owned, Ne.symm party])
    simp [lock, party, other]
  · have other := (agree m p).not.mpr (by simp [held, Ne.symm lock])
    simp [lock, party, other]
  · simpa [lock, party] using agree m q

end UnixSystems.Holders
