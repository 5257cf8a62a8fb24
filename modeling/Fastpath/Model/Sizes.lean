import Fastpath.Model.Storage

/-!
# The sizes of a storage, in sixty-four bits

`Fastpath.Model.Storage` counts in naturals. This is the arithmetic as the code
does it, in `size_t`: what a request is rounded up to, and when the storage
grows. A sum that does not fit wraps, and nothing asks whether it does.
-/

namespace Fastpath

/-- `m_storedLength` and `m_storage.second` of a `MutableByteStorage`. -/
structure Sizes where
  storedLength : UInt64
  capacity : UInt64
deriving DecidableEq, Repr

namespace Sizes

/-- What `allocateStorage(length)` makes of `m_storage.second`. -/
def allocateStorage (length : UInt64) : UInt64 :=
  let second := length
  let second := second - 1
  let second := second ||| (second >>> 1)
  let second := second ||| (second >>> 2)
  let second := second ||| (second >>> 4)
  let second := second ||| (second >>> 8)
  let second := second ||| (second >>> 16)
  second + 1

/-- `allocate(length)` -/
def allocate (length : UInt64) (s : Sizes) : Sizes :=
  let s :=
    if s.storedLength + length > s.capacity then
      { s with capacity := allocateStorage (s.capacity + length) }
    else s
  { s with storedLength := s.storedLength + length }

end Sizes

end Fastpath
