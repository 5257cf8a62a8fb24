import Mathlib.Algebra.Order.Ring.Nat
import Fastpath.Model.SharedMemory

/-!
# Wake-ups

A process that has put a pointer on a queue of the segment writes to an `eventfd`
that the other process polls. The poll is edge-triggered: a write puts the
descriptor on a list, and `epoll_wait` takes it off the list and reports it if its
counter is not zero by then. A report is not repeated. The router's callback reads
the counter, which leaves zero, and takes a read that fails for the end of its
client. The client's callback never reads it. Both then take pointers off the
front of their queue until `empty()` says that there are none.

The two processes are cut at every access to what they share. The counter goes up
to 2^64 - 2, and a write that would take it further fails and wakes nobody. What
becomes of a pointer that has been retrieved is not looked at here, but for a null
pointer, which the receiver does not survive.
-/

namespace Fastpath

/-- Who sends whom. -/
inductive Direction where
  /-- `SHMTransport::sendMessage` and `shm_peer_connection::notificationHandler`. -/
  | toRouter
  /-- `shm_peer_connection::sendBuffer` and `SHMTransport::createReceiverEvent`. -/
  | toClient
deriving DecidableEq, Repr

/-- The thread that polls. -/
inductive Receiver where
  /-- The descriptor has not been added to the poll. -/
  | unregistered
  /-- In `epoll_wait`, or on the way there. -/
  | waiting
  /-- At the beginning of the callback. -/
  | called
  /-- At `empty()`. -/
  | retrieving
  /-- Between `front()` and `pop()`. -/
  | reading
  /-- The pointer at the front was null, and has been followed. -/
  | faulted
  /-- `m_disconnectionHandler` has been called. -/
  | disconnected
deriving DecidableEq, Repr

/-- A queue of the segment and the `fp::notifier` that goes with it. -/
structure Doorbell where
  queue : SharedMemoryBuffer
  /-- The value of the `eventfd`. -/
  counter : Nat
  /-- The descriptor is on the poll's list. -/
  ready : Bool
  /-- `m_connected` of the sender's `InterprocessNotifierClient`. -/
  connected : Bool
  /-- The sender is between its push and its `notify`. -/
  sending : Bool
  receiver : Receiver
  /-- What the queue had room for. -/
  accepted : List SharedPtr
  /-- What the receiver's loop has come to. -/
  retrieved : List SharedPtr

namespace Doorbell

def new : Doorbell where
  queue := .new
  counter := 0
  ready := false
  connected := true
  sending := false
  receiver := .unregistered
  accepted := []
  retrieved := []

def maxCounter : Nat := 2 ^ 64 - 2

/-- `m_sendQueue->notify(ptr)`, or `m_clientQueue->notify(ptr)`. -/
def push (ptr : SharedPtr) (d : Doorbell) : Doorbell :=
  { d with
    queue := d.queue.notify ptr
    sending := true
    accepted := if (d.queue.objectList.push ptr).1 then d.accepted ++ [ptr] else d.accepted }

/-- `notifier::notify()`. The client gives up when it fails, the router does not look. -/
def notify (direction : Direction) (d : Doorbell) : Doorbell :=
  if d.counter < maxCounter then
    { d with
      sending := false
      counter := d.counter + 1
      ready := d.receiver ≠ .unregistered }
  else { d with sending := false, connected := d.connected && direction = .toClient }

/-- The receiver's next access. -/
def receive (direction : Direction) (d : Doorbell) : Doorbell :=
  match d.receiver with
  | .unregistered => { d with receiver := .waiting, ready := 0 < d.counter }
  | .waiting =>
      if d.ready then
        { d with ready := false, receiver := if 0 < d.counter then .called else .waiting }
      else d
  | .called =>
      match direction with
      | .toRouter =>
          -- `reset()`
          if 0 < d.counter then { d with counter := 0, receiver := .retrieving }
          else { d with receiver := .disconnected }
      | .toClient => { d with receiver := .retrieving }
  | .retrieving =>
      match d.queue.objectList.items with
      | [] => { d with receiver := .waiting }
      | ptr :: _ =>
          { d with
            receiver := if ptr.isSome then .reading else .faulted
            retrieved := d.retrieved ++ [ptr] }
  | .reading => { d with queue := ⟨d.queue.objectList.pop⟩, receiver := .retrieving }
  | .faulted => d
  | .disconnected => d

inductive Step where
  | push (ptr : SharedPtr)
  | notify
  | receive

def step (direction : Direction) (d : Doorbell) : Step → Doorbell
  | .push ptr => if d.connected && !d.sending then d.push ptr else d
  | .notify => if d.sending then d.notify direction else d
  | .receive => d.receive direction

end Doorbell

end Fastpath
