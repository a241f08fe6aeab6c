import Mathlib

/-! Totals over finitely many parties, of which one changes at a time. -/
namespace UnixSystems.Tallies

variable {ι α M : Type*} [Fintype ι] [DecidableEq ι] [AddCommMonoid M]

theorem sum_comp_update (g : ι → α → M) (f : ι → α) (i : ι) (v : α) :
    ∑ j, g j (Function.update f i v j) + g i (f i) = ∑ j, g j (f j) + g i v := by
  have rest : ∑ j ∈ Finset.univ.erase i, g j (Function.update f i v j) =
      ∑ j ∈ Finset.univ.erase i, g j (f j) :=
    Finset.sum_congr rfl fun j other => by rw [Function.update_of_ne (Finset.ne_of_mem_erase other)]
  rw [← Finset.sum_erase_add Finset.univ (fun j => g j (Function.update f i v j)) (Finset.mem_univ i),
    ← Finset.sum_erase_add Finset.univ (fun j => g j (f j)) (Finset.mem_univ i), rest, Function.update_self]
  exact add_right_comm _ _ _

theorem sum_comp_update_of_eq (g : ι → α → M) (f : ι → α) (i : ι) {v : α} (same : g i v = g i (f i)) :
    ∑ j, g j (Function.update f i v j) = ∑ j, g j (f j) := by
  refine Finset.sum_congr rfl fun j _ => ?_
  by_cases here : j = i
  · subst here
    rw [Function.update_self, same]
  · rw [Function.update_of_ne here]

end UnixSystems.Tallies
