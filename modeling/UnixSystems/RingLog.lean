import Mathlib

/-! A log in a ring of slots: each item goes to the next slot, and once the ring is full the
oldest item makes room. -/
namespace UnixSystems.RingLog

variable {α : Type*}

structure Logs (cap : ℕ) (slot : ℕ → Option α) (index size : ℕ) (items : List α) : Prop where
  index_eq : index = items.length % cap
  size_eq : size = min items.length cap
  kept : ∀ n < items.length, items.length ≤ n + cap → slot (n % cap) = items[n]?

theorem logs_nil (cap : ℕ) (slot : ℕ → Option α) : Logs cap slot 0 0 [] :=
  ⟨by simp, by simp, fun n inside => absurd inside (Nat.not_lt_zero n)⟩

section Push

variable {cap index size : ℕ} {slot : ℕ → Option α} {items : List α}

theorem mod_ne_mod {m n : ℕ} (less : m < n) (near : n < m + cap) : m % cap ≠ n % cap := by
  intro same
  have turns : cap ∣ n - m := (Nat.modEq_iff_dvd' less.le).mp same
  have turn := Nat.le_of_dvd (by omega) turns
  omega

theorem Logs.push (logs : Logs cap slot index size items) (x : α) :
    Logs cap (Function.update slot index (some x)) ((index + 1) % cap)
      (if size = cap then size else size + 1) (items ++ [x]) := by
  have index_eq := logs.index_eq
  have size_eq := logs.size_eq
  refine ⟨?_, ?_, fun n inside near => ?_⟩
  · rw [index_eq, Nat.mod_add_mod, List.length_append, List.length_singleton]
  · rw [List.length_append, List.length_singleton]
    split_ifs <;> omega
  · rw [List.length_append, List.length_singleton] at inside near
    by_cases last : n = items.length
    · rw [last, index_eq, Function.update_self]
      simp
    · have before : n < items.length := by omega
      rw [index_eq, Function.update_of_ne (mod_ne_mod before (by omega)),
        logs.kept n before (by omega), List.getElem?_append_left before]

theorem Logs.newest (logs : Logs cap slot index size items) {i : ℕ} (inside : i < size) :
    slot ((index + cap - i - 1) % cap) = items.reverse[i]? := by
  have size_eq := logs.size_eq
  have place : (index + cap - i - 1) % cap = (items.length - 1 - i) % cap := by
    have turn : items.length - 1 - i + cap = items.length + (cap - i - 1) := by omega
    rw [logs.index_eq, Nat.add_sub_assoc (by omega), Nat.add_sub_assoc (by omega), Nat.mod_add_mod,
      ← turn, Nat.add_mod_right]
  rw [place, logs.kept _ (by omega) (by omega), List.getElem?_reverse (by omega)]

theorem Logs.nodup_newest (logs : Logs cap slot index size items) :
    ((List.range size).map fun i => (index + cap - i - 1) % cap).Nodup := by
  have size_eq := logs.size_eq
  have apart : ∀ {i j : ℕ}, j < size → i < j → (index + cap - i - 1) % cap ≠ (index + cap - j - 1) % cap :=
    fun inside less => (mod_ne_mod (by omega) (by omega)).symm
  refine List.Nodup.map_on ?_ List.nodup_range
  intro i first j second same
  rw [List.mem_range] at first second
  rcases Nat.lt_trichotomy i j with less | rfl | more
  · exact absurd same (apart second less)
  · rfl
  · exact absurd same.symm (apart first more)

end Push

/-! ## A ring that was empty -/

structure Ring (cap : ℕ) (slot : ℕ → Option α) (index size : ℕ) (items : List α) : Prop
    extends Logs cap slot index size items where
  occupied : ∀ j, (slot j).isSome ↔ j < size

theorem ring_nil (cap : ℕ) : Ring cap (fun _ => none : ℕ → Option α) 0 0 [] :=
  ⟨logs_nil cap _, fun j => by simp⟩

theorem Ring.push {cap index size : ℕ} {slot : ℕ → Option α} {items : List α}
    (ring : Ring cap slot index size items) (pos : 0 < cap) (x : α) :
    Ring cap (Function.update slot index (some x)) ((index + 1) % cap)
      (if size = cap then size else size + 1) (items ++ [x]) := by
  have size_eq := ring.size_eq
  have index_lt : index < cap := ring.index_eq ▸ Nat.mod_lt _ pos
  -- before the first turn the next slot is the first that is not in use
  have next : size < cap → index = size := by
    intro room
    rw [ring.index_eq, Nat.mod_eq_of_lt (by omega)]
    omega
  refine ⟨ring.toLogs.push x, fun j => ?_⟩
  by_cases here : j = index
  · rw [here, Function.update_self]
    simp only [Option.isSome_some, true_iff]
    split_ifs <;> omega
  · rw [Function.update_of_ne here, ring.occupied]
    split_ifs <;> omega

end UnixSystems.RingLog
