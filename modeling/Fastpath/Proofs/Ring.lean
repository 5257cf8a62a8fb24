import Mathlib.Data.List.Basic
import Fastpath.Model.Ring

/-!
# The ring as a queue

`Represents` ties a ring to the list of what is in it. The head is never more
than one round ahead of the tail, so a position is the tail and an offset, and
comes round at most once; with that, pushing and popping are what they are on a
list of fewer than `SIZE` elements.
-/

namespace Fastpath.RingBuffer

variable {α : Type} {size : Nat} {r : RingBuffer α size} {l : List α}

/-- An offset of at most one round. -/
theorem wrap {tail k : Nat} (htail : tail < size) (hk : k ≤ size) :
    (tail + k) % size = if tail + k < size then tail + k else tail + k - size := by
  split
  · next hlt => exact Nat.mod_eq_of_lt hlt
  · next hge =>
      rw [Nat.mod_eq_sub_mod (by omega)]
      exact Nat.mod_eq_of_lt (by omega)

structure Represents (r : RingBuffer α size) (l : List α) : Prop where
  tail_lt : r.tail < size
  room : l.length < size
  head : r.head = (r.tail + l.length) % size
  cells : ∀ i a, l[i]? = some a → r.cells ((r.tail + i) % size) = some a

theorem represents_new (hsize : 0 < size) : (new : RingBuffer α size).Represents [] :=
  ⟨hsize, hsize, (Nat.zero_mod size).symm, fun _ _ h => by cases h⟩

theorem filterMap_range {f : Nat → Option α} (h : ∀ i a, l[i]? = some a → f i = some a) :
    (List.range l.length).filterMap f = l := by
  induction l generalizing f with
  | nil => rfl
  | cons a l ih =>
      rw [List.length_cons, List.range_succ_eq_map, List.filterMap_cons, h 0 a rfl,
        List.filterMap_map]
      exact congrArg (a :: ·) (ih fun i b hb => h (i + 1) b hb)

namespace Represents

theorem length_eq (h : r.Represents l) : r.length = l.length := by
  have htail := h.tail_lt
  have hroom := h.room
  rw [RingBuffer.length, h.head, wrap htail (Nat.le_of_lt hroom)]
  split <;> split <;> omega

theorem items_eq (h : r.Represents l) : r.items = l := by
  rw [items, h.length_eq]
  exact filterMap_range h.cells

theorem next_head (h : r.Represents l) : next size r.head = (r.tail + (l.length + 1)) % size := by
  rw [next, h.head, Nat.mod_add_mod, Nat.add_assoc]

/-- The next head is the tail when all cells but one are taken. -/
theorem full_iff (h : r.Represents l) : next size r.head = r.tail ↔ l.length + 1 = size := by
  have htail := h.tail_lt
  have hroom := h.room
  rw [h.next_head, wrap htail hroom]
  split <;> omega

theorem push_full (h : r.Represents l) (hfull : l.length + 1 = size) (a : α) :
    r.push a = (false, r) := by
  rw [push, if_pos (h.full_iff.mpr hfull)]

theorem push_room (h : r.Represents l) (hroom : l.length + 1 ≠ size) (a : α) :
    (r.push a).1 = true ∧ (r.push a).2.Represents (l ++ [a]) := by
  have htail := h.tail_lt
  have hlen := h.room
  rw [push, if_neg fun hfull => hroom (h.full_iff.mp hfull)]
  refine ⟨rfl, htail, ?_, ?_, ?_⟩
  · rw [List.length_append]
    show l.length + 1 < size
    omega
  · rw [List.length_append]
    exact h.next_head
  · intro i b hb
    show Function.update r.cells r.head (some a) ((r.tail + i) % size) = some b
    by_cases hi : i < l.length
    · rw [List.getElem?_append_left hi] at hb
      rw [Function.update_of_ne, h.cells i b hb]
      rw [h.head, wrap htail (by omega), wrap htail (by omega)]
      split <;> split <;> omega
    · have hend : i = l.length := by
        have hlt := (List.getElem?_eq_some_iff.mp hb).1
        rw [List.length_append] at hlt
        change i < l.length + 1 at hlt
        omega
      rw [hend, List.getElem?_append_right (Nat.le_refl _), Nat.sub_self] at hb
      rw [hend, ← h.head, Function.update_self]
      exact hb

theorem pop_nil (h : r.Represents []) : r.pop = (none, r) := by
  rw [pop, if_pos]
  rw [h.head]
  exact (Nat.mod_eq_of_lt h.tail_lt).symm

theorem pop_cons {a : α} (h : r.Represents (a :: l)) :
    r.pop.1 = some a ∧ r.pop.2.Represents l := by
  have htail := h.tail_lt
  have hlen : l.length + 1 < size := h.room
  have hne : ¬ r.tail = r.head := by
    rw [h.head, wrap htail (Nat.le_of_lt h.room), List.length_cons]
    split <;> omega
  have hfirst : r.cells r.tail = some a := by
    have := h.cells 0 a rfl
    rwa [Nat.add_zero, Nat.mod_eq_of_lt htail] at this
  have hnext : ∀ k, (next size r.tail + k) % size = (r.tail + (k + 1)) % size := by
    intro k
    rw [next, Nat.mod_add_mod, Nat.add_assoc, Nat.add_comm 1 k]
  rw [pop, if_neg hne]
  refine ⟨hfirst, Nat.mod_lt _ (by omega), by omega, ?_, ?_⟩
  · exact h.head.trans (hnext l.length).symm
  · intro i b hb
    show Function.update r.cells r.tail none ((next size r.tail + i) % size) = some b
    have hlt := (List.getElem?_eq_some_iff.mp hb).1
    rw [hnext, Function.update_of_ne, h.cells (i + 1) b hb]
    rw [wrap htail (by omega)]
    split <;> omega

end Represents

end Fastpath.RingBuffer
