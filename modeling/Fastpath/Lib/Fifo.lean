import Mathlib.Data.List.Basic

/-!
# Bounded queues

A queue of at most `capacity` elements. `push` answers whether there was room,
and without room it leaves the queue as it is; whether anybody looks at the
answer is up to the caller.
-/

namespace Fastpath.Lib

structure Fifo (α : Type) (capacity : Nat) where
  items : List α
  bounded : items.length ≤ capacity

namespace Fifo

variable {α : Type} {capacity : Nat}

def empty : Fifo α capacity := ⟨[], Nat.zero_le _⟩

def Full (q : Fifo α capacity) : Prop := q.items.length = capacity

instance (q : Fifo α capacity) : Decidable q.Full :=
  inferInstanceAs (Decidable (q.items.length = capacity))

def push (a : α) (q : Fifo α capacity) : Bool × Fifo α capacity :=
  if h : q.items.length < capacity then
    (true, ⟨q.items ++ [a], by rw [List.length_append]; exact h⟩)
  else (false, q)

def pop (q : Fifo α capacity) : Fifo α capacity where
  items := q.items.tail
  bounded := by
    have := q.bounded
    rw [List.length_tail]
    omega

@[simp] theorem items_empty : (empty : Fifo α capacity).items = [] := rfl

@[simp] theorem items_pop (q : Fifo α capacity) : q.pop.items = q.items.tail := rfl

theorem push_room {q : Fifo α capacity} (h : ¬ q.Full) (a : α) :
    (q.push a).1 = true ∧ (q.push a).2.items = q.items ++ [a] := by
  have hlt : q.items.length < capacity := Nat.lt_of_le_of_ne q.bounded h
  rw [push, dif_pos hlt]
  exact ⟨rfl, rfl⟩

theorem push_full {q : Fifo α capacity} (h : q.Full) (a : α) : q.push a = (false, q) := by
  rw [push, dif_neg]
  rw [Full] at h
  omega

/-- A push has put `b` at the end exactly if there was room and `b` was pushed. -/
theorem items_push_eq {q : Fifo α capacity} {a b : α} :
    (q.push a).2.items = q.items ++ [b] ↔ ¬ q.Full ∧ a = b := by
  by_cases hfull : q.Full
  · rw [push_full hfull]
    simp [hfull]
  · rw [(push_room hfull a).2]
    simp [hfull]

end Fifo

end Fastpath.Lib
