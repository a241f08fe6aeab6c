import Mathlib

/-! A scan for the least value with a strict comparison: it keeps the best element so far and
its value, starting from no element and a bound. It ends with the leftmost of the least
elements, or with none when no value is below the bound. -/
namespace UnixSystems.FirstMinimum

variable {α β : Type*} [LinearOrder β] (f : α → β)

def better (best : Option α × β) (x : α) : Option α × β :=
  if f x < best.2 then (some x, f x) else best

def scan (bound : β) (l : List α) : Option α × β := l.foldl (better f) (none, bound)

structure FirstLeast (bound : β) (l : List α) (x : α) : Prop where
  first : ∃ front back, l = front ++ x :: back ∧ ∀ y ∈ front, f x < f y
  least : ∀ y ∈ l, f x ≤ f y
  below : f x < bound

variable {f} {bound : β} {l : List α}

theorem FirstLeast.mem {x : α} (h : FirstLeast f bound l x) : x ∈ l := by
  obtain ⟨front, back, rfl, _⟩ := h.first
  simp

theorem scan_concat (bound : β) (l : List α) (y : α) :
    scan f bound (l ++ [y]) = better f (scan f bound l) y := by
  simp [scan]

theorem scan_cases (bound : β) (l : List α) :
    (scan f bound l = (none, bound) ∧ ∀ y ∈ l, bound ≤ f y) ∨
      ∃ x, scan f bound l = (some x, f x) ∧ FirstLeast f bound l x := by
  induction l using List.reverseRecOn with
  | nil => exact .inl ⟨rfl, by simp⟩
  | append_singleton l y ih =>
    rw [scan_concat, better]
    rcases ih with ⟨scanned, above⟩ | ⟨x, scanned, least⟩
    · rw [scanned]
      by_cases lower : f y < bound
      · refine .inr ⟨y, if_pos lower, ⟨l, [], rfl, fun z member => ?_⟩, fun z member => ?_, lower⟩
        · exact lower.trans_le (above z member)
        · rcases List.mem_append.mp member with old | new
          · exact lower.le.trans (above z old)
          · rw [List.mem_singleton.mp new]
      · refine .inl ⟨if_neg lower, fun z member => ?_⟩
        rcases List.mem_append.mp member with old | new
        · exact above z old
        · rw [List.mem_singleton.mp new]
          exact not_lt.mp lower
    · rw [scanned]
      by_cases lower : f y < f x
      · refine .inr ⟨y, if_pos lower, ⟨l, [], rfl, fun z member => ?_⟩, fun z member => ?_,
          lower.trans least.below⟩
        · exact lower.trans_le (least.least z member)
        · rcases List.mem_append.mp member with old | new
          · exact lower.le.trans (least.least z old)
          · rw [List.mem_singleton.mp new]
      · obtain ⟨front, back, rfl, strict⟩ := least.first
        refine .inr ⟨x, if_neg lower, ⟨front, back ++ [y], by simp, strict⟩, fun z member => ?_,
          least.below⟩
        rcases List.mem_append.mp member with old | new
        · exact least.least z old
        · rw [List.mem_singleton.mp new]
          exact not_lt.mp lower

theorem FirstLeast.unique {x y : α} (h : FirstLeast f bound l x) (h' : FirstLeast f bound l y) :
    x = y := by
  obtain ⟨front, back, split, strict⟩ := h.first
  obtain ⟨front', back', split', strict'⟩ := h'.first
  have same : f x = f y := le_antisymm (h.least y h'.mem) (h'.least x h.mem)
  rw [split] at split'
  rcases List.append_eq_append_iff.mp split' with ⟨mid, rfl, rest⟩ | ⟨mid, rfl, rest⟩
  · cases mid with
    | nil => simpa using (List.cons.inj rest).1
    | cons z mid =>
      obtain rfl : x = z := (List.cons.inj rest).1
      have less := strict' x (by simp)
      exact absurd less (by simp [same])
  · cases mid with
    | nil => simpa using (List.cons.inj rest).1.symm
    | cons z mid =>
      obtain rfl : y = z := (List.cons.inj rest).1
      have less := strict y (by simp)
      exact absurd less (by simp [same])

theorem scan_eq_some_iff {x : α} : (scan f bound l).1 = some x ↔ FirstLeast f bound l x := by
  rcases scan_cases (f := f) bound l with ⟨scanned, above⟩ | ⟨y, scanned, least⟩
  · rw [scanned]
    constructor
    · intro none
      cases none
    · intro h
      exact absurd h.below (not_lt.mpr (above x h.mem))
  · rw [scanned]
    constructor
    · intro same
      rwa [← Option.some.inj same]
    · intro h
      rw [least.unique h]

theorem scan_eq_none_iff : (scan f bound l).1 = none ↔ ∀ y ∈ l, bound ≤ f y := by
  rcases scan_cases (f := f) bound l with ⟨scanned, above⟩ | ⟨y, scanned, least⟩
  · rw [scanned]
    exact ⟨fun _ => above, fun _ => rfl⟩
  · rw [scanned]
    constructor
    · intro none
      cases none
    · intro above
      exact absurd least.below (not_lt.mpr (above y least.mem))

end UnixSystems.FirstMinimum
