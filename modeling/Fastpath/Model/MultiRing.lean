import Mathlib.Logic.Function.Basic
import Mathlib.Algebra.Order.Ring.Nat

/-!
# The ring buffer of many threads

`tf::multiringbuffer` takes any number of producers and of consumers. Each cell
has a sequence number beside its data, and a thread that wants the cell of its
`pos` compares the two and then claims the place with a `compare_exchange_weak`
on `m_head` or `m_tail`. That may fail for no reason, and when it fails `pos`
becomes what the index is by now.

A call is cut at every access to what the threads share, and between two accesses
of one thread the others may take any number of their own. What has been claimed
for is kept beside the buffer, in the order of the claims, and so is what each
`pop` has returned.
-/

namespace Fastpath

/-- The access that a thread is about to make. -/
inductive MultiOp (α : Type) where
  /-- In no call. -/
  | idle
  /-- In `push`: `m_head.load`. -/
  | loadingHead (data : α)
  /-- `cell->m_sequence.load`. -/
  | readingFree (data : α) (pos : UInt64)
  /-- `m_head.compare_exchange_weak`. -/
  | claiming (data : α) (pos : UInt64)
  /-- `cell->m_data = data`. -/
  | writing (data : α) (pos : UInt64)
  /-- `cell->m_sequence.store`. -/
  | publishing (pos : UInt64)
  /-- In `pop`: `m_tail.load`. -/
  | loadingTail
  /-- `cell->m_sequence.load`. -/
  | readingStored (pos : UInt64)
  /-- `m_tail.compare_exchange_weak`. -/
  | taking (pos : UInt64)
  /-- `data = cell->m_data`. -/
  | copying (pos : UInt64)
  /-- `cell->m_sequence.store`. -/
  | releasing (pos : UInt64) (data : Option α)
deriving DecidableEq, Repr

/-- `cell_t`; the data is `none` before the first `push` to the cell. -/
structure MultiCell (α : Type) where
  sequence : UInt64
  data : Option α

/-- A `pop` that has returned `true`. -/
structure Popped (α : Type) (n : Nat) where
  thread : Fin n
  pos : Nat
  data : Option α
deriving DecidableEq

/-- `tf::multiringbuffer<T, 2 ^ k>` and its threads. -/
structure MultiRing (α : Type) (k n : Nat) where
  cells : Fin (2 ^ k) → MultiCell α
  head : UInt64
  tail : UInt64
  ops : Fin n → MultiOp α
  /-- The data of every `push` that has claimed a place. -/
  accepted : List α
  popped : List (Popped α n)

namespace MultiRing

variable {α : Type} {k n : Nat}

/-- `m_buffer_mask`. -/
def mask (k : Nat) : UInt64 := UInt64.ofNat (2 ^ k - 1)

theorem and_mask_lt (pos : UInt64) : (pos &&& mask k).toNat < 2 ^ k := by
  have hpos : 0 < 2 ^ k := Nat.two_pow_pos k
  have hmask : (mask k).toNat ≤ 2 ^ k - 1 := Nat.mod_le _ _
  rw [UInt64.toNat_and]
  have hand : pos.toNat &&& (mask k).toNat ≤ (mask k).toNat := Nat.and_le_right
  omega

/-- `pos & m_buffer_mask`. -/
def index (k : Nat) (pos : UInt64) : Fin (2 ^ k) := ⟨(pos &&& mask k).toNat, and_mask_lt pos⟩

/-- `(intptr_t)seq - (intptr_t)pos`. -/
def dif (seq pos : UInt64) : Int := seq.toInt64.toInt - pos.toInt64.toInt

def new : MultiRing α k n where
  cells i := ⟨UInt64.ofNat i, none⟩
  head := 0
  tail := 0
  ops _ := .idle
  accepted := []
  popped := []

/-- `m_buffer[pos & m_buffer_mask]`. -/
def cell (pos : UInt64) (s : MultiRing α k n) : MultiCell α := s.cells (index k pos)

def setCell (pos : UInt64) (cell : MultiCell α) (s : MultiRing α k n) : MultiRing α k n :=
  { s with cells := Function.update s.cells (index k pos) cell }

def goTo (t : Fin n) (op : MultiOp α) (s : MultiRing α k n) : MultiRing α k n :=
  { s with ops := Function.update s.ops t op }

/-- The next access of a thread. A `compare_exchange_weak` may fail spuriously. -/
def advance (t : Fin n) (spurious : Bool) (s : MultiRing α k n) : MultiRing α k n :=
  match s.ops t with
  | .idle => s
  | .loadingHead data => s.goTo t (.readingFree data s.head)
  | .readingFree data pos =>
      if dif (s.cell pos).sequence pos = 0 then s.goTo t (.claiming data pos)
      -- Returns `false`.
      else if dif (s.cell pos).sequence pos < 0 then s.goTo t .idle
      else s.goTo t (.loadingHead data)
  | .claiming data pos =>
      if s.head = pos ∧ spurious = false then
        goTo t (.writing data pos)
          { s with head := pos + 1, accepted := s.accepted ++ [data] }
      else s.goTo t (.readingFree data s.head)
  | .writing data pos =>
      (s.setCell pos { s.cell pos with data := some data }).goTo t (.publishing pos)
  | .publishing pos => (s.setCell pos { s.cell pos with sequence := pos + 1 }).goTo t .idle
  | .loadingTail => s.goTo t (.readingStored s.tail)
  | .readingStored pos =>
      if dif (s.cell pos).sequence (pos + 1) = 0 then s.goTo t (.taking pos)
      -- Returns `false`.
      else if dif (s.cell pos).sequence (pos + 1) < 0 then s.goTo t .idle
      else s.goTo t .loadingTail
  | .taking pos =>
      if s.tail = pos ∧ spurious = false then
        goTo t (.copying pos) { s with tail := pos + 1 }
      else s.goTo t (.readingStored s.tail)
  | .copying pos => s.goTo t (.releasing pos (s.cell pos).data)
  | .releasing pos data =>
      goTo t .idle
        { s.setCell pos { s.cell pos with sequence := pos + mask k + 1 } with
          popped := s.popped ++ [⟨t, pos.toNat, data⟩] }

inductive Step (α : Type) (n : Nat) where
  /-- `push(data)` is called. -/
  | push (thread : Fin n) (data : α)
  /-- `pop(data)` is called. -/
  | pop (thread : Fin n)
  /-- The next access of a thread. -/
  | advance (thread : Fin n) (spurious : Bool)

/-- A thread in a call does not call again. -/
def step (s : MultiRing α k n) : Step α n → MultiRing α k n
  | .push t data =>
      match s.ops t with
      | .idle => s.goTo t (.loadingHead data)
      | _ => s
  | .pop t =>
      match s.ops t with
      | .idle => s.goTo t .loadingTail
      | _ => s
  | .advance t spurious => s.advance t spurious

/-- What a thread has popped, in the order of its calls. -/
def poppedBy (t : Fin n) (s : MultiRing α k n) : List (Option α) :=
  (s.popped.filter (·.thread = t)).map (·.data)

/-- The access at hand returns `false`. -/
def Refuses (t : Fin n) (s : MultiRing α k n) : Prop :=
  match s.ops t with
  | .readingFree _ pos => dif (s.cell pos).sequence pos < 0
  | .readingStored pos => dif (s.cell pos).sequence (pos + 1) < 0
  | _ => False

end MultiRing

end Fastpath
