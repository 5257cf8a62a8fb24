import Mathlib.Algebra.Order.Ring.Nat
import Fastpath.Lib.SplitFirst

/-!
# The arena

The allocator behind the fields of a message. A slab is one block from `malloc`
and a head that only moves up: memory is handed out at the head, and giving a
block back lowers a count. The head comes down again in two cases, when the
count is zero and when the block given back is the last below the head.

Blocks are looked for by address. An arena is its slabs in the order of their
links; a new one is linked behind the last, which is what `m_current_slab` is.
`malloc` is a parameter that answers with an address of its own for every slab,
and what is known of it is that it never answers with memory that another slab
has, nor with memory that begins where another slab ends.

Sizes are naturals; the counts are bounded by the sizes of the slabs. How much
memory a slab has is another matter: `align_up` is `size_t` arithmetic, and for
the fifteen largest sizes it comes to nothing. `SlabMalloc` is `malloc` as it is
called, and `Malloc` is what it is as long as the arithmetic does not wrap.
-/

namespace Fastpath

open Fastpath.Lib

/-- `arena::slab`, without its link. -/
structure Slab where
  content : Nat
  size : Nat
  allocated : Nat
  head : Nat
deriving DecidableEq, Repr

namespace Slab

/-- `align_up`, to sixteen bytes, in `size_t`. -/
def alignUp (n : UInt64) : UInt64 := (n + 15) &&& ~~~15

/-- How many bytes `malloc` is asked for. -/
def contentSize (s : Slab) : Nat := (alignUp (UInt64.ofNat s.size)).toNat

/-- The next multiple of sixteen. -/
def roundUp (n : Nat) : Nat := (n + 15) / 16 * 16

/-- `slab(size)`, on the block that `malloc` has answered with. -/
def new (content size : Nat) : Slab := ⟨content, size, 0, content⟩

def pointerInBuffer (s : Slab) (p : Nat) : Bool := decide (s.content ≤ p ∧ p ≤ s.head)

def free (s : Slab) : Nat := s.size - (s.head - s.content)

def allocate (s : Slab) (size : Nat) : Slab :=
  { s with head := s.head + size, allocated := s.allocated + size }

def deallocate (s : Slab) (ptr size : Nat) : Slab :=
  let s := { s with allocated := s.allocated - size }
  if s.allocated = 0 then { s with head := s.content }
  else if ptr + size = s.head then { s with head := ptr }
  else s

/-- Two slabs whose memory neither overlaps nor touches. -/
def Apart (s t : Slab) : Prop :=
  s.content + s.contentSize < t.content ∨ t.content + t.contentSize < s.content

/-- Two slabs whose sizes, rounded up, neither overlap nor touch. -/
def RoundedApart (s t : Slab) : Prop :=
  s.content + roundUp s.size < t.content ∨ t.content + roundUp t.size < s.content

end Slab

/-- `malloc`, as a slab calls it: the address of the next slab, for the slabs there are and the
size of the new one. What it answers with is as long as it was asked for, and neither overlaps
nor touches what it has answered with before. -/
structure SlabMalloc where
  address : List Slab → Nat → Nat
  apart : ∀ (slabs : List Slab) (size : Nat), ∀ s ∈ slabs, s.Apart (.new (address slabs size) size)

/-- `malloc` for slabs of any size, each of which has all the memory that it says. -/
structure Malloc where
  address : List Slab → Nat → Nat
  apart : ∀ (slabs : List Slab) (size : Nat), ∀ s ∈ slabs,
    s.RoundedApart (.new (address slabs size) size)

/-- An address behind all the slabs, if a slab is as long as `extent` has it. -/
def addressBehind (extent : Slab → Nat) (slabs : List Slab) : Nat :=
  (slabs.map fun s => s.content + extent s).sum + 1

theorem lt_addressBehind (extent : Slab → Nat) {slabs : List Slab} {s : Slab} (hs : s ∈ slabs) :
    s.content + extent s < addressBehind extent slabs := by
  refine Nat.lt_succ_of_le ?_
  induction slabs with
  | nil => cases hs
  | cons first rest ih =>
      rw [List.map_cons, List.sum_cons]
      rcases List.mem_cons.mp hs with rfl | hs
      · exact Nat.le_add_right _ _
      · exact Nat.le_trans (ih hs) (Nat.le_add_left _ _)

/-- A `malloc` that answers with memory behind all that it has answered with so far. -/
def SlabMalloc.bump : SlabMalloc :=
  ⟨fun slabs _ => addressBehind Slab.contentSize slabs,
    fun _ _ _ hs => .inl (lt_addressBehind Slab.contentSize hs)⟩

/-- Likewise, for slabs that have all the memory that they say. -/
def Malloc.bump : Malloc :=
  ⟨fun slabs _ => addressBehind (fun s => Slab.roundUp s.size) slabs,
    fun _ _ _ hs => .inl (lt_addressBehind (fun s => Slab.roundUp s.size) hs)⟩

/-- What `allocate` was asked for: the pointer it answered with, and the size. -/
structure Block where
  ptr : Nat
  size : Nat
deriving DecidableEq, Repr

/-- `tf::arena`: the slabs from `m_root_slab` to `m_current_slab`. -/
structure Arena where
  initialSize : Nat
  slabs : List Slab
deriving DecidableEq, Repr

namespace Arena

/-- `find_slab_with_space` from the root, with the slabs around the one it finds. -/
def findSlabWithSpace (a : Arena) (size : Nat) : Option (List Slab × Slab × List Slab) :=
  splitFirst (fun s => decide (size ≤ s.free)) a.slabs

/-- `find_slab_containing` from the root, likewise. -/
def findSlabContaining (a : Arena) (ptr : Nat) : Option (List Slab × Slab × List Slab) :=
  splitFirst (·.pointerInBuffer ptr) a.slabs

variable (address : List Slab → Nat → Nat)

/-- `arena(initial_size)`. -/
def new (initialSize : Nat) : Arena :=
  ⟨initialSize, [.new (address [] initialSize) initialSize]⟩

/-- `arena::allocate(size)`: the pointer, and the arena after it. -/
def allocate (a : Arena) (size : Nat) : Nat × Arena :=
  match a.findSlabWithSpace size with
  | some (before, s, behind) => (s.head, { a with slabs := before ++ s.allocate size :: behind })
  | none =>
      let room := max size a.initialSize
      let s := Slab.new (address a.slabs room) room
      (s.head, { a with slabs := a.slabs ++ [s.allocate size] })

/-- `arena::deallocate(p, size)`. -/
def deallocate (a : Arena) (ptr size : Nat) : Arena :=
  match a.findSlabContaining ptr with
  | some (before, s, behind) =>
      { a with slabs := before ++ s.deallocate ptr size :: behind }
  | none => a

end Arena

end Fastpath
