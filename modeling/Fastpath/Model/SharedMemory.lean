import Fastpath.Lib.Fifo
import Fastpath.Model.Transport

/-!
# Shared memory

Two processes pass messages by pointer. A sender encodes into a storage of the
shared segment and pushes a shared pointer to it on a queue of the segment; a
receiver is woken, and takes pointers off the front until there are none.

A pointer is what is behind it: the bytes of a `BufferContainer`, or nothing
for a null pointer, which the type allows and the receiver follows all the same.
The queue is `boost::lockfree::spsc_queue`, a bounded queue between one thread
that pushes and one that pops. What a wake-up comes to, and what the receiving
loop finds in the queue while it runs, are up to the environment.

The segment has a size, and what a pointer is to is in the segment until the last
copy of the pointer is destroyed. Memory that is not there is not handed out, and
memory that is there may be refused: there are other buffers in the segment, and
gaps between them. A sender does not survive a refusal. The storage would be at a
null pointer, and the exceptions of the other allocations meet a `noexcept`.
-/

namespace Fastpath

open Fastpath.Lib

/-- `SharedMemoryManager::shared_ptr_type`. -/
abbrev SharedPtr := Option Bytes

/-- `fp::SharedMemoryBuffer`, with the queue it has opened. -/
structure SharedMemoryBuffer where
  objectList : Fifo SharedPtr 1024

namespace SharedMemoryBuffer

def new : SharedMemoryBuffer := ⟨.empty⟩

/-- `notify(ptr)`. What `push` answers is dropped. -/
def notify (ptr : SharedPtr) (b : SharedMemoryBuffer) : SharedMemoryBuffer :=
  ⟨(b.objectList.push ptr).2⟩

/-- `retrieve(callback)`, for the pointers the loop finds; the answer is how many. One
the callback throws on is not popped. -/
def retrieve {σ : Type} (callback : ByteStorage → SharedPtr → Exec Fault σ Unit) :
    List SharedPtr → Exec Fault σ Nat
  | [] => pure 0
  | none :: _ => Exec.throw .outOfBounds
  | some data :: found => do
      callback (.ofBytes data) (some data)
      let count ← retrieve callback found
      pure (count + 1)

end SharedMemoryBuffer

/-! ## The client's transport -/

/-- `fp::SHMTransport`. -/
structure SHMTransport where
  /-- `m_connected`, and the notifier is connected. -/
  connected : Bool
  sendQueue : SharedMemoryBuffer
  pool : Pool Message
  /-- The pool's objects the application still refers to. -/
  held : List Nat
  delivered : List Message

/-- A call of `sendMessage`: the message, and what is in the memory that the segment's
allocator hands out for its storage. -/
structure SendCall where
  msg : Message
  heap : Nat → Nat → UInt8

namespace SendCall

/-- The storage the message is encoded into, if the segment has the memory. -/
def storage (call : SendCall) : MutableByteStorage :=
  (call.msg.encode (MutableByteStorage.new 2048 call.heap)).2

/-- `getInterprocessBuffer(&storage)`, likewise. -/
def buffer (call : SendCall) : SharedPtr := some call.storage.stored

/-- How much of the segment the pointer keeps, at the least: the storage, and a
`BufferContainer` of eight bytes for its pointer and eight for its length. -/
def footprint (call : SendCall) : Nat := call.storage.capacity + 16

end SendCall

/-- `initial_size` of a `SharedMemoryManager`, which no caller sets. -/
def segmentSize : Nat := 1024 * 1024 * 2

namespace SHMTransport

theorem poolSize_pos : 0 < 10000 := by decide

def new : SHMTransport where
  connected := true
  sendQueue := .new
  pool := .new 10000 poolSize_pos
  held := []
  delivered := []

/-- `sendMessage(msg)`; `served` is whether the segment has the memory, and `notified` what
`m_notifier->notify()` answers. A call that is not served ends with the process. -/
def sendMessage (call : SendCall) (served notified : Bool) (t : SHMTransport) :
    Option (Status × SHMTransport) :=
  if t.connected then
    if served then
      let t := { t with sendQueue := t.sendQueue.notify call.buffer }
      some (if notified then .ok else .cannotSend, t)
    else none
  else some (.cannotSend, t)

/-- `messageCallback(this, message)` and the end of the callback's own reference. -/
def deliver (keeps : Nat → Bool) (i : Nat) (t : SHMTransport) : SHMTransport :=
  let t := { t with delivered := t.delivered ++ [t.pool.object i] }
  if keeps t.delivered.length then { t with held := i :: t.held }
  else { t with pool := t.pool.release i }

/-- Decoding one buffer into the object at `i`. An exception is not caught; the reference
to the object ends with it. -/
def decodeInto (keeps : Nat → Bool) (i : Nat) (ptr : ByteStorage) :
    Exec Fault SHMTransport Unit where
  run t :=
    let stored (msg : Message) : SHMTransport := { t with pool := t.pool.store i msg }
    let released (t : SHMTransport) : SHMTransport := { t with pool := t.pool.release i }
    match Message.decode.run ⟨t.pool.object i, ptr⟩ with
    | (.ok true, d) => (.ok (), (stored d.msg).deliver keeps i)
    | (.ok false, d) => (.ok (), released (stored d.msg))
    | (.error (.exception what), d) => (.error (.exception what), released (stored d.msg))
    | (.error e, d) => (.error e, stored d.msg)

/-- The callback of the receiver event, for the pointers it finds. -/
def receive (keeps : Nat → Bool) (found : List SharedPtr) : Exec Fault SHMTransport Unit := do
  let _ ← SharedMemoryBuffer.retrieve (fun ptr _ => do
    let i ← Exec.zoom SHMTransport.pool (fun p t => { t with pool := p }) Pool.allocate
    decodeInto keeps i ptr) found
  pure ()

end SHMTransport

/-! ## One queue between two processes -/

/-- A queue with its two ends. The sender is between its push and its answer, or not in a
call, or its process has ended in one; the receiver is between `front` and `pop`, or not. -/
structure Exchange where
  connected : Bool
  queue : SharedMemoryBuffer
  /-- What the elements of the queue keep of the segment, in the order of the elements. -/
  footprints : List Nat
  sending : Option SendCall
  /-- The sender's process has ended. -/
  ended : Bool
  reading : Bool
  /-- What the receiver's callback was given. -/
  retrieved : List SharedPtr
  /-- The calls that have answered `OK`. -/
  reported : List SendCall

inductive Exchange.Step where
  /-- `sendMessage` up to its push. `served` is whether the segment hands out memory that it
  has. -/
  | push (call : SendCall) (served : Bool)
  /-- The rest of it. -/
  | answer (notified : Bool)
  /-- A round of `retrieve` up to the end of the callback. -/
  | front
  /-- The rest of it. -/
  | pop

namespace Exchange

def new (connected : Bool) : Exchange := ⟨connected, .new, [], none, false, false, [], []⟩

/-- The push of a call. The pointer goes into the queue, or is destroyed. -/
def push (call : SendCall) (s : Exchange) : Exchange :=
  { s with
    queue := s.queue.notify call.buffer
    footprints :=
      if s.queue.objectList.Full then s.footprints else s.footprints ++ [call.footprint]
    sending := some call }

def step (s : Exchange) : Step → Exchange
  | .push call served =>
      if s.sending.isNone && s.connected && !s.ended then
        if served && s.footprints.sum + call.footprint ≤ segmentSize then s.push call
        else { s with ended := true }
      else s
  | .answer notified =>
      match s.sending with
      | some call =>
          { s with
            sending := none
            reported := if notified then s.reported ++ [call] else s.reported }
      | none => s
  | .front =>
      match s.reading, s.queue.objectList.items with
      | false, ptr :: _ => { s with reading := true, retrieved := s.retrieved ++ [ptr] }
      | _, _ => s
  | .pop =>
      if s.reading then
        { s with
          queue := ⟨s.queue.objectList.pop⟩
          footprints := s.footprints.tail
          reading := false }
      else s

end Exchange

end Fastpath
