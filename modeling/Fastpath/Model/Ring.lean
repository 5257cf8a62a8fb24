import Mathlib.Logic.Function.Basic

/-!
# The ring buffer

`tf::ringbuffer`: `SIZE` cells, and two indices that run round them. An object is
constructed in the cell at the head and destroyed in the cell at the tail. The
two indices are equal when the ring is empty, so it is full when the next head
would be the tail, one cell short of `SIZE`.
-/

namespace Fastpath

/-- `tf::ringbuffer<T, SIZE>`. A cell is empty until an object is constructed in it. -/
structure RingBuffer (α : Type) (size : Nat) where
  cells : Nat → Option α
  head : Nat
  tail : Nat

namespace RingBuffer

variable {α : Type} {size : Nat}

def new : RingBuffer α size := ⟨fun _ => none, 0, 0⟩

/-- `next(current)`. -/
def next (size current : Nat) : Nat := (current + 1) % size

def push (object : α) (r : RingBuffer α size) : Bool × RingBuffer α size :=
  if next size r.head = r.tail then (false, r)
  else
    (true, { r with
      cells := Function.update r.cells r.head (some object), head := next size r.head })

/-- `pop(object)`, with the object it moves out. -/
def pop (r : RingBuffer α size) : Option α × RingBuffer α size :=
  if r.tail = r.head then (none, r)
  else
    (r.cells r.tail, { r with
      cells := Function.update r.cells r.tail none, tail := next size r.tail })

/-- `size()`. -/
def length (r : RingBuffer α size) : Nat :=
  if r.head ≥ r.tail then r.head - r.tail else r.head + size - r.tail

/-- What is in the ring, the next one to be popped first. -/
def items (r : RingBuffer α size) : List α :=
  (List.range r.length).filterMap fun i => r.cells ((r.tail + i) % size)

end RingBuffer

end Fastpath
