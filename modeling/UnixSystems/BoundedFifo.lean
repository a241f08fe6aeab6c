import Mathlib

/-! A first-in first-out buffer of fixed capacity. The capacity bound is a field,
so an overfull buffer cannot be built. A put into a full buffer and a get from an
empty one leave it as it is; the caller sees the failed get as `none`. -/
namespace UnixSystems

structure Fifo (α : Type*) (cap : ℕ) where
  items : List α
  bound : items.length ≤ cap

namespace Fifo

variable {α : Type*} {cap : ℕ}

@[ext] theorem ext {p q : Fifo α cap} (same : p.items = q.items) : p = q := by
  cases p
  cases q
  simpa using same

def empty : Fifo α cap := ⟨[], Nat.zero_le _⟩

def len (q : Fifo α cap) : ℕ := q.items.length

def put (q : Fifo α cap) (x : α) : Fifo α cap :=
  if room : q.items.length < cap then ⟨q.items ++ [x], by simp only [List.length_append, List.length_singleton]; omega⟩ else q

def get (q : Fifo α cap) : Option α × Fifo α cap :=
  (q.items.head?, ⟨q.items.tail, by have := q.bound; simp only [List.length_tail]; omega⟩)

theorem put_items_of_lt (q : Fifo α cap) (x : α) (room : q.items.length < cap) :
    (q.put x).items = q.items ++ [x] := by
  simp [put, room]

@[simp] theorem get_snd_items (q : Fifo α cap) : q.get.2.items = q.items.tail := rfl

theorem get_put_items (q : Fifo α cap) (x y : α) (rest : List α)
    (shape : q.items = x :: rest) : (q.get.2.put y).items = rest ++ [y] := by
  have bound := q.bound
  have room : q.get.2.items.length < cap := by
    rw [shape, List.length_cons] at bound
    rw [get_snd_items, shape, List.tail_cons]
    omega
  rw [put_items_of_lt _ _ room, get_snd_items, shape, List.tail_cons]

end Fifo
end UnixSystems
