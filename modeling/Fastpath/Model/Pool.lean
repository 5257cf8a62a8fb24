import Mathlib.Logic.Function.Basic
import Fastpath.Model.Message

/-!
# The object pool

`tf::pool` hands out objects and takes them back. An object is an address, and
what it holds is kept beside the pool, by address: an object that comes back
still holds what it was last used for, and the next `allocate` that takes it
only calls `prepareForReuse` on it. The stack of free objects is written from
its back, the end `allocate` and `release` work on.
-/

namespace Fastpath

open Fastpath.Lib

/-- `tf::reusable`, as far as a pool is concerned. -/
class Reusable (T : Type) where
  new : T
  prepareForReuse : T → T

instance : Reusable Message := ⟨Message.new, Message.clear⟩

/-- `tf::pool<T>` for a reusable `T`. -/
structure Pool (T : Type) where
  poolSize : Nat
  /-- `m_freeAllocations`, its back first. -/
  freeAllocations : List Nat
  objectCache : List Nat
  /-- What the object at an address holds. -/
  object : Nat → T
  /-- The constructor fills the cache, and nothing ever leaves it. -/
  cached : 0 < objectCache.length

namespace Pool

variable {T : Type} [Reusable T]

def new (poolSize : Nat) (h : 0 < poolSize) : Pool T where
  poolSize := poolSize
  freeAllocations := (List.range poolSize).reverse
  objectCache := List.range poolSize
  object := fun _ => Reusable.new
  cached := by rwa [List.length_range]

/-- The growth branch of `allocate`: as many new objects as there were, all of them
free. -/
def grow (p : Pool T) : Pool T :=
  let fresh := List.range' p.objectCache.length p.poolSize
  let cache := p.objectCache ++ fresh
  { poolSize := p.poolSize * 2
    freeAllocations := (cache.drop p.poolSize).reverse ++ p.freeAllocations
    objectCache := cache
    object := fun i => if i ∈ fresh then Reusable.new else p.object i
    cached := by
      have := p.cached
      rw [List.length_append]
      omega }

def allocate : Exec Fault (Pool T) Nat where
  run p :=
    let p := if p.freeAllocations.isEmpty then p.grow else p
    match p.freeAllocations with
    | [] => (.error .outOfBounds, p)
    | i :: rest =>
        (.ok i, { p with
          freeAllocations := rest
          object := Function.update p.object i (Reusable.prepareForReuse (p.object i)) })

def release (i : Nat) (p : Pool T) : Pool T :=
  { p with freeAllocations := i :: p.freeAllocations }

/-- Whatever was done to the object at `i`. -/
def store (i : Nat) (value : T) (p : Pool T) : Pool T :=
  { p with object := Function.update p.object i value }

end Pool

end Fastpath
