import Fastpath.Lib.LittleEndian
import Fastpath.Lib.Exec

/-!
# Byte storage

The three buffers everything else is written against. `ByteStorage` is the
read side: a run of stored bytes and a cursor with one mark. It is modelled as
the transient view that `MessageBuffer::byteStorage` and `segment` hand out,
whose memory belongs to someone else. `MutableByteStorage` is the write side:
it owns an allocation, appends to it and moves to a larger one when it runs
out of room. `MessageBuffer` puts a start index over the latter, so that bytes
can also leave at the front.

Two choices carry the rest of the development.

A pointer is an allocation and an offset. A storage that has moved is a
different allocation, so a pointer taken before the move still names the old
block and a write through it does not land in the new one.

An allocation is a list of bytes and nothing in it is initialised: `spare` is
whatever the memory held before, and `heap` is what the allocator will hand
out next. The stored length never exceeds the capacity because the two lists
together are the capacity. Sizes are naturals. The `size_t` arithmetic of the
growth path wraps for sizes beyond `2 ^ 63`, and what the allocator is asked for
is then the wrapped size; up to there `Sizes.allocate_ofStorage` says that the
two count alike, and no larger size is meant here.

The host is little endian, so `endianScalar` is the identity and a scalar in
memory is its `leBytes`.
-/

namespace Fastpath

open Fastpath.Lib

abbrev Bytes := List UInt8

/-- The ways a call can stop other than by returning. Only the first is a C++
exception; the others are the points past which the program's behaviour is no
longer determined by its text, or where it never returns at all. -/
inductive Fault where
  /-- `fp::exception`, with its description. -/
  | exception (what : String)
  /-- A read at or past the end of the bytes it reads from. -/
  | outOfBounds
  /-- A copy into a fixed array that is shorter than what is copied. -/
  | overrun
  /-- A field used as an object of a class it is not. -/
  | badCast
  /-- A loop that repeats without consuming anything. -/
  | diverged
deriving DecidableEq, Repr

/-- A fault after which the program is reading or writing memory it was not
given. -/
def Fault.isMemory : Fault → Bool
  | .outOfBounds | .overrun | .badCast => true
  | .exception _ | .diverged => false

/-! ## Reading -/

/-- `fp::ByteStorage`, as a transient view: the stored bytes, the offset of
`m_read_ptr` and the offset of `m_mark_ptr`. -/
structure ByteStorage where
  bytes : Bytes
  read : Nat
  marked : Nat
deriving DecidableEq, Repr

namespace ByteStorage

/-- A view over `bytes`, both pointers at its start. -/
def ofBytes (bytes : Bytes) : ByteStorage := ⟨bytes, 0, 0⟩

def length (s : ByteStorage) : Nat := s.bytes.length

def mark (s : ByteStorage) : ByteStorage := { s with marked := s.read }

def resetRead (s : ByteStorage) : ByteStorage := { s with read := s.marked }

def advanceRead (distance : Nat) (s : ByteStorage) : ByteStorage :=
  { s with read := s.read + distance }

def bytesRead (s : ByteStorage) : Nat := s.read

/-- `m_storedLength - bytesRead()` in `size_t`: once the cursor is past the end
the difference wraps. -/
def remainingReadLength (s : ByteStorage) : Nat :=
  if s.read ≤ s.bytes.length then s.bytes.length - s.read
  else 2 ^ 64 - (s.read - s.bytes.length)

/-- What lies between the cursor and the end. -/
def rest (s : ByteStorage) : Bytes := s.bytes.drop s.read

/-- Copy `n` bytes from `offset` past the cursor, which does not move. Copying
nothing reads nothing. -/
def peekBytes (offset n : Nat) : Exec Fault ByteStorage Bytes where
  run s :=
    if n = 0 ∨ s.read + offset + n ≤ s.bytes.length then
      (.ok ((s.rest.drop offset).take n), s)
    else (.error .outOfBounds, s)

/-- The free function `readScalar<T>(p)` at `readBytes() + offset`, for a `T` of
`w` bytes. -/
def peekScalar (offset w : Nat) : Exec Fault ByteStorage Nat := do
  let raw ← peekBytes offset w
  pure (leNat raw)

/-- The member `readScalar<S>()`, for an `S` of `w` bytes: read and advance. -/
def readScalar (w : Nat) : Exec Fault ByteStorage Nat := do
  let value ← peekScalar 0 w
  Exec.modify (advanceRead w)
  pure value

/-- Copy `n` bytes from a pointer kept from an earlier cursor position. -/
def copyFrom (position n : Nat) : Exec Fault ByteStorage Bytes where
  run s := (((peekBytes 0 n).run { s with read := position }).1, s)

/-- `segment(length)`: a view of the next `length` bytes; the cursor steps over
them. -/
def segment (length : Nat) (s : ByteStorage) : ByteStorage × ByteStorage :=
  (ofBytes (s.rest.take length), s.advanceRead length)

end ByteStorage

/-! ## Writing -/

/-- A pointer into an allocation. -/
structure Ptr where
  block : Nat
  offset : Nat
deriving DecidableEq, Repr

/-- `fp::MutableByteStorage`: the allocation `m_storage.first` points at, split
at `m_storedLength`, and the two read pointers. -/
structure MutableByteStorage where
  /-- Which allocation this is; every move takes the next number. -/
  block : Nat
  /-- The first `m_storedLength` bytes of the allocation. -/
  stored : Bytes
  /-- The rest of the allocation, uninitialised. -/
  spare : Bytes
  readPtr : Ptr
  markPtr : Ptr
  /-- What the allocator hands out, by allocation number and offset. -/
  heap : Nat → Nat → UInt8

/-- The capacity `ByteStorage::allocateStorage` settles on for `length` bytes:
the shift-and-or ladder that fills the bits below the leading one. -/
def allocateStorage (length : Nat) : Nat :=
  if length = 0 then 0
  else
    let v := length - 1
    let v := v ||| (v >>> 1)
    let v := v ||| (v >>> 2)
    let v := v ||| (v >>> 4)
    let v := v ||| (v >>> 8)
    let v := v ||| (v >>> 16)
    v + 1

/-- Replace the bytes of `l` from position `i` on by `data`. -/
def splice (l : Bytes) (i : Nat) (data : Bytes) : Bytes :=
  l.take i ++ data ++ l.drop (i + data.length)

namespace MutableByteStorage

def new (allocation : Nat) (heap : Nat → Nat → UInt8) : MutableByteStorage where
  block := 0
  stored := []
  spare := (List.range (allocateStorage allocation)).map (heap 0)
  readPtr := ⟨0, 0⟩
  markPtr := ⟨0, 0⟩
  heap := heap

def length (s : MutableByteStorage) : Nat := s.stored.length

def capacity (s : MutableByteStorage) : Nat := s.stored.length + s.spare.length

/-- A pointer into the old allocation carried over to the new one. -/
def rebase (s : MutableByteStorage) (p : Ptr) : Ptr :=
  if p.block = s.block then ⟨s.block + 1, p.offset⟩ else p

/-- The growth branch of `allocate(length)`: a new allocation, the whole old one
copied to its front, the read pointers carried over. -/
def grow (s : MutableByteStorage) (length : Nat) : MutableByteStorage :=
  { s with
    block := s.block + 1
    spare := s.spare ++
      (List.range (allocateStorage (s.capacity + length) - s.capacity)).map
        fun i => s.heap (s.block + 1) (s.capacity + i)
    readPtr := s.rebase s.readPtr
    markPtr := s.rebase s.markPtr }

/-- Make room for `length` more bytes, moving only if they do not fit. -/
def reserve (s : MutableByteStorage) (length : Nat) : MutableByteStorage :=
  if s.capacity < s.stored.length + length then s.grow length else s

/-- `allocate(length)`: the stored length grows over memory as it was found, and
the answer points at the first of the new bytes. -/
def allocate (s : MutableByteStorage) (length : Nat) : Ptr × MutableByteStorage :=
  let s := s.reserve length
  (⟨s.block, s.stored.length⟩,
    { s with stored := s.stored ++ s.spare.take length, spare := s.spare.drop length })

/-- A store of `data` through `p`. Through a pointer into a released allocation
it does not reach the current one. -/
def writeThrough (s : MutableByteStorage) (p : Ptr) (data : Bytes) : MutableByteStorage :=
  if p.block = s.block then
    let memory := splice (s.stored ++ s.spare) p.offset data
    { s with stored := memory.take s.stored.length, spare := memory.drop s.stored.length }
  else s

def append (s : MutableByteStorage) (data : Bytes) : MutableByteStorage :=
  let (p, s) := s.allocate data.length
  s.writeThrough p data

/-- `appendScalar<S>(value)`, for an `S` of `w` bytes. -/
def appendScalar (s : MutableByteStorage) (w value : Nat) : MutableByteStorage :=
  s.append (leBytes w value)

/-- `append(src, length)`, of another storage. -/
def appendFrom (s : MutableByteStorage) (src : ByteStorage) (length : Nat) : MutableByteStorage :=
  s.append (src.bytes.take (min src.length length))

/-- The free function `writeScalar(p, value)`, for a scalar of `w` bytes. -/
def writeScalar (s : MutableByteStorage) (p : Ptr) (w value : Nat) : MutableByteStorage :=
  s.writeThrough p (leBytes w value)

/-- `truncate(length)`, for a length not beyond the stored one. -/
def truncate (s : MutableByteStorage) (length : Nat) : MutableByteStorage :=
  { s with stored := s.stored.take length, spare := s.stored.drop length ++ s.spare }

def clear (s : MutableByteStorage) : MutableByteStorage :=
  { s.truncate 0 with readPtr := ⟨s.block, 0⟩, markPtr := ⟨s.block, 0⟩ }

/-- `setData(data, length)`: if need be into a new allocation, and then the read pointers are what
they were. -/
def setData (s : MutableByteStorage) (data : Bytes) : MutableByteStorage :=
  let s :=
    if s.capacity < data.length then
      { s with
        block := s.block + 1
        stored := []
        spare := (List.range (allocateStorage (max data.length (s.capacity * 2)))).map
          (s.heap (s.block + 1)) }
    else s
  let memory := splice (s.stored ++ s.spare) 0 data
  { s with stored := memory.take data.length, spare := memory.drop data.length }

/-! The read side, which has its pointers in the same allocation. -/

def mark (s : MutableByteStorage) : MutableByteStorage := { s with markPtr := s.readPtr }

def resetRead (s : MutableByteStorage) : MutableByteStorage := { s with readPtr := s.markPtr }

def advanceRead (distance : Nat) (s : MutableByteStorage) : MutableByteStorage :=
  { s with readPtr := { s.readPtr with offset := s.readPtr.offset + distance } }

/-- `bytesRead()`: a difference of pointers, which is one only within one allocation. -/
def bytesRead (s : MutableByteStorage) : Option Nat :=
  if s.readPtr.block = s.block then some s.readPtr.offset else none

def remainingReadLength (s : MutableByteStorage) : Option Nat :=
  s.bytesRead.map fun read => ByteStorage.remainingReadLength ⟨s.stored, read, read⟩

/-- `readScalar<S>()`, for an `S` of `w` bytes. -/
def readScalar (w : Nat) : Exec Fault MutableByteStorage Nat where
  run s :=
    (if s.readPtr.block = s.block ∧ s.readPtr.offset + w ≤ s.capacity then
      .ok (leNat (((s.stored ++ s.spare).drop s.readPtr.offset).take w))
    else .error .outOfBounds, s.advanceRead w)

end MutableByteStorage

/-! ## The message buffer -/

structure MessageBuffer where
  startIndex : Nat
  storage : MutableByteStorage

namespace MessageBuffer

def new (initialAllocation : Nat) (heap : Nat → Nat → UInt8) : MessageBuffer :=
  ⟨0, .new initialAllocation heap⟩

/-- The bytes `bytes(&data)` points at. -/
def bytes (b : MessageBuffer) : Bytes := b.storage.stored.drop b.startIndex

/-- `visible_length()`, also `length()`. -/
def length (b : MessageBuffer) : Nat := b.storage.length - b.startIndex

/-- `byteStorage()`: a transient view of the visible bytes. -/
def byteStorage (b : MessageBuffer) : ByteStorage := .ofBytes b.bytes

/-- The compaction of `allocate`: the visible bytes slide to the front of the
allocation, and what they leave behind them stays in memory. -/
def compact (b : MessageBuffer) : MessageBuffer where
  startIndex := 0
  storage :=
    { b.storage with
      stored := b.storage.stored.drop b.startIndex
      spare := (b.storage.stored ++ b.storage.spare).drop
        (b.storage.stored.length - b.startIndex) }

/-- `allocate(length)`: compact if that could help, then grow the storage. -/
def allocate (b : MessageBuffer) (length : Nat) : Ptr × MessageBuffer :=
  let b :=
    if b.startIndex ≠ 0 ∧ b.storage.capacity < b.storage.length + length then b.compact
    else b
  let (p, storage) := b.storage.allocate length
  (p, { b with storage := storage })

def append (b : MessageBuffer) (data : Bytes) : MessageBuffer :=
  { b with storage := b.storage.append data }

/-- Something done to `mutableBuffer()`. -/
def mutableBuffer (b : MessageBuffer) (f : MutableByteStorage → MutableByteStorage) :
    MessageBuffer :=
  { b with storage := f b.storage }

/-- `operator[]`: the byte in memory, `none` where `bytes` has answered with a null pointer or
where the allocation has ended. -/
def get (b : MessageBuffer) (index : Nat) : Option UInt8 :=
  if b.storage.length > 0 then (b.storage.stored ++ b.storage.spare)[b.startIndex + index]?
  else none

/-- Someone else's write into memory this buffer handed out. -/
def writeThrough (b : MessageBuffer) (p : Ptr) (data : Bytes) : MessageBuffer :=
  { b with storage := b.storage.writeThrough p data }

def eraseBack (b : MessageBuffer) (length : Nat) : MessageBuffer :=
  if length > 0 then
    { b with storage := b.storage.truncate (b.storage.length - length) }
  else b

def eraseFront (b : MessageBuffer) (length : Nat) : MessageBuffer :=
  if length + b.startIndex ≥ b.storage.length then ⟨0, b.storage.clear⟩
  else if b.storage.length = 0 then { b with startIndex := 0 }
  else { b with startIndex := b.startIndex + length }

def clear (b : MessageBuffer) : MessageBuffer := ⟨0, b.storage.clear⟩

end MessageBuffer

end Fastpath
