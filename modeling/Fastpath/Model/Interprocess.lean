import Fastpath.Lib.RefCounts
import Fastpath.Lib.Fifo
import Fastpath.Model.SharedMemory

/-!
# Buffers of the shared segment

What goes through the queues of the segment are pointers, to buffers that any
process may be the last to let go of. A client allocates a buffer, encodes into it
and pushes a shared pointer; the router copies the pointer to the queues of the
connections that are interested; and every end pops it when its callback is
through. The last one to destroy a pointer gives the buffer back to the segment.

The processes run as they like, and a step is what one of them does between two
accesses to a use count or a queue. Which free address the segment allocates and
which connections are interested are up to the environment, and so is whether the
router takes a message for a request about its observers, which it does not pass
on. All connections are over shared memory: what has come over another one the
router forwards as a null pointer. Connections that end are in `Model.Segment`, and
what wakes the readers is in `Model.Doorbell`.

The environment also decides when the segment, of 2 MiB, has no memory for a
client. The client's process ends there. A storage that it has already allocated
stays in the segment, and nobody has a pointer to it.
-/

namespace Fastpath

open Fastpath.Lib

/-- A client's thread in `SHMTransport::sendMessage`. -/
inductive Sender where
  | idle
  /-- `getInterprocessBuffer` has returned a pointer. -/
  | allocated (object : Nat) (data : Bytes)
  /-- The pointer has been pushed, or refused, and not been destroyed. -/
  | pushed (object : Nat)
  /-- The process has ended. -/
  | ended
deriving DecidableEq, Repr

/-- The stages of the callback in `shm_peer_connection::notificationHandler`. -/
inductive CallbackStage (n : Nat) where
  | entered
  /-- There is a `message_wrapper`, and `message_handler` has still to come to these. -/
  | wrapped (rest : List (Fin n))
  | left
deriving DecidableEq, Repr

/-- A round of `m_serverQueue->retrieve` on the router. -/
structure RouterCallback (n : Nat) where
  source : Fin n
  object : Nat
  /-- What the callback was given. -/
  data : Bytes
  stage : CallbackStage n

/-- A client's process, with the two queues that are named after it. -/
structure SHMClient where
  sender : Sender
  serverQueue : Fifo Nat 1024
  clientQueue : Fifo Nat 1024
  /-- It is between `front` and `pop`. -/
  reading : Bool
  /-- What the client has sent, as far as its queue had room. -/
  accepted : List Bytes
  /-- What the router's callback was given of that. -/
  handled : List Bytes
  /-- What the router has sent the client, as far as its queue had room. -/
  forwarded : List Bytes
  /-- What the client's callback was given of that. -/
  retrieved : List Bytes

structure Interprocess (n : Nat) where
  segment : RefCounts Bytes
  clients : Fin n → SHMClient
  router : Option (RouterCallback n)
  /-- The storages of clients that have ended before there was a pointer. -/
  stranded : Nat
  /-- A buffer was read that was not there. -/
  stray : Bool

namespace SHMClient

def new : SHMClient where
  sender := .idle
  serverQueue := .empty
  clientQueue := .empty
  reading := false
  accepted := []
  handled := []
  forwarded := []
  retrieved := []

end SHMClient

namespace Interprocess

variable {n : Nat}

def new : Interprocess n where
  segment := .empty
  clients := fun _ => .new
  router := none
  stranded := 0
  stray := false

def setClient (i : Fin n) (client : SHMClient) (s : Interprocess n) : Interprocess n :=
  { s with clients := Function.update s.clients i client }

inductive Step (n : Nat) where
  /-- The client encodes `data` into a buffer, which is at a free address. -/
  | allocate (i : Fin n) (object : Nat) (data : Bytes)
  /-- The segment has not the memory for the storage, or for what `getInterprocessBuffer` adds to
  a `storage` that it had the memory for. -/
  | exhausted (i : Fin n) (storage : Bool)
  /-- `m_sendQueue->notify(ptr)`. -/
  | push (i : Fin n)
  /-- The client's own pointer is destroyed. -/
  | release (i : Fin n)
  /-- The router's callback is called with the front of the client's queue. -/
  | handle (i : Fin n)
  /-- A `message_wrapper` is made, and these connections are interested. -/
  | wrap (interested : List (Fin n))
  /-- `sendBuffer(wrapper)` for the next of them. -/
  | forward
  /-- The wrapper is destroyed. -/
  | unwrap
  /-- The router's `pop`. -/
  | finish
  /-- The client's callback is called with the front of its queue. -/
  | retrieve (i : Fin n)
  /-- The client's `pop`. -/
  | pop (i : Fin n)

def allocate (i : Fin n) (object : Nat) (data : Bytes) (s : Interprocess n) : Interprocess n :=
  let client := s.clients i
  if client.sender = .idle ∧ s.segment.content object = none then
    { s.setClient i { client with sender := .allocated object data } with
      segment := s.segment.make object data }
  else s

def exhausted (i : Fin n) (storage : Bool) (s : Interprocess n) : Interprocess n :=
  let client := s.clients i
  if client.sender = .idle then
    { s.setClient i { client with sender := .ended } with
      stranded := if storage then s.stranded + 1 else s.stranded }
  else s

def push (i : Fin n) (s : Interprocess n) : Interprocess n :=
  let client := s.clients i
  match client.sender with
  | .allocated object data =>
      let (pushed, serverQueue) := client.serverQueue.push object
      if pushed then
        { s.setClient i { client with
            sender := .pushed object
            serverQueue := serverQueue
            accepted := client.accepted ++ [data] } with
          segment := s.segment.copy object }
      else s.setClient i { client with sender := .pushed object }
  | _ => s

def release (i : Fin n) (s : Interprocess n) : Interprocess n :=
  let client := s.clients i
  match client.sender with
  | .pushed object =>
      { s.setClient i { client with sender := .idle } with segment := s.segment.drop object }
  | _ => s

def handle (i : Fin n) (s : Interprocess n) : Interprocess n :=
  let client := s.clients i
  match s.router, client.serverQueue.items with
  | none, object :: _ =>
      match s.segment.content object with
      | some data =>
          { s.setClient i { client with handled := client.handled ++ [data] } with
            router := some ⟨i, object, data, .entered⟩ }
      | none => { s with stray := true }
  | _, _ => s

def wrap (interested : List (Fin n)) (s : Interprocess n) : Interprocess n :=
  match s.router with
  | some ⟨i, object, data, .entered⟩ =>
      { s with
        segment := s.segment.copy object
        router := some ⟨i, object, data, .wrapped interested⟩ }
  | _ => s

def forward (s : Interprocess n) : Interprocess n :=
  match s.router with
  | some ⟨i, object, data, .wrapped (j :: rest)⟩ =>
      let s := { s with router := some ⟨i, object, data, .wrapped rest⟩ }
      let client := s.clients j
      let (pushed, clientQueue) := client.clientQueue.push object
      if pushed then
        { s.setClient j { client with
            clientQueue := clientQueue
            forwarded := client.forwarded ++ [data] } with
          segment := s.segment.copy object }
      else s
  | _ => s

def unwrap (s : Interprocess n) : Interprocess n :=
  match s.router with
  | some ⟨i, object, data, .wrapped []⟩ =>
      { s with segment := s.segment.drop object, router := some ⟨i, object, data, .left⟩ }
  | _ => s

def finish (s : Interprocess n) : Interprocess n :=
  match s.router with
  | some ⟨_, _, _, .wrapped _⟩ => s
  | some ⟨i, object, _, _⟩ =>
      let client := s.clients i
      { s.setClient i { client with serverQueue := client.serverQueue.pop } with
        segment := s.segment.drop object
        router := none }
  | none => s

def retrieve (i : Fin n) (s : Interprocess n) : Interprocess n :=
  let client := s.clients i
  match client.reading || client.sender = .ended, client.clientQueue.items with
  | false, object :: _ =>
      match s.segment.content object with
      | some data =>
          s.setClient i { client with reading := true, retrieved := client.retrieved ++ [data] }
      | none => { s with stray := true }
  | _, _ => s

def pop (i : Fin n) (s : Interprocess n) : Interprocess n :=
  let client := s.clients i
  match client.reading && client.sender ≠ .ended, client.clientQueue.items with
  | true, object :: _ =>
      { s.setClient i { client with reading := false, clientQueue := client.clientQueue.pop } with
        segment := s.segment.drop object }
  | _, _ => s

def step (s : Interprocess n) : Step n → Interprocess n
  | .allocate i object data => s.allocate i object data
  | .exhausted i storage => s.exhausted i storage
  | .push i => s.push i
  | .release i => s.release i
  | .handle i => s.handle i
  | .wrap interested => s.wrap interested
  | .forward => s.forward
  | .unwrap => s.unwrap
  | .finish => s.finish
  | .retrieve i => s.retrieve i
  | .pop i => s.pop i

end Interprocess

end Fastpath
