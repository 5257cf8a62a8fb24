import Fastpath.Model.Router
import Fastpath.Model.SharedMemory

/-!
# A router with peers of both kinds

The router of `Router` has sockets only. The program's has peers in shared
memory beside them, and `message_handler` serves both through one interface: it
is handed a wrapper, and each kind of connection takes out of the wrapper the
representation it can send. A connection on a socket wraps the bytes it has read;
one in shared memory wraps the pointer it was given as well.

Decoding, addressing and registration are the same code for both kinds, and the
functions of `Router` that do not touch the list of connections are used as they
are.
-/

namespace Fastpath

open Fastpath.Lib

/-- `fp::message_wrapper`. -/
structure MessageWrapper where
  byteStorage : ByteStorage
  sharedPtr : SharedPtr

namespace MessageWrapper

/-- The constructor without a pointer. -/
def ofBuffer (buffer : ByteStorage) : MessageWrapper := ⟨buffer, none⟩

def getEncodedBuffer (w : MessageWrapper) : ByteStorage := w.byteStorage

/-- `getSharedPtrBuffer()`. That one has to be created is logged, and the null pointer
returned. -/
def getSharedPtrBuffer (w : MessageWrapper) : SharedPtr :=
  match w.sharedPtr with
  | some data => some data
  | none => w.sharedPtr

end MessageWrapper

/-- What a `peer_connection` sends through: a socket, with what it was sent, or the queue
towards a client. -/
inductive Link where
  | tcp (sent : Bytes)
  | shm (clientQueue : SharedMemoryBuffer)

/-- `sendBuffer(wrapper)`, by class. -/
def Link.sendBuffer (wrapper : MessageWrapper) : Link → Link
  | .tcp sent => .tcp (sent ++ wrapper.getEncodedBuffer.bytes)
  | .shm clientQueue => .shm (clientQueue.notify wrapper.getSharedPtrBuffer)

/-- `fp::peer_connection`. -/
structure Peer where
  subscriptions : Subscriptions
  link : Link

/-- `fp::bootstrap`, with connections of either kind. -/
structure Hub where
  connections : List Nat
  /-- The connection at an address. -/
  peer : Nat → Peer

namespace Hub

def update (i : Nat) (f : Peer → Peer) (h : Hub) : Hub :=
  { h with peer := Function.update h.peer i (f (h.peer i)) }

/-- One round of `message_handler`'s `for_each`. -/
def forward (subject : Subject UInt64) (wrapper : MessageWrapper) (h : Hub) (i : Nat) : Hub :=
  if (h.peer i).subscriptions.isInterested subject then
    h.update i fun c => { c with link := c.link.sendBuffer wrapper }
  else h

def messageHandler (_source : Nat) (subject : Subject UInt64) (msgData : MessageWrapper)
    (h : Hub) : Hub :=
  h.connections.foldl (forward subject msgData) h

def disconnectionHandler (i : Nat) (h : Hub) : Hub :=
  { h with connections := h.connections.erase i }

/-- What a connection works on: the router, and a view of the bytes it has received. -/
structure Routing where
  hub : Hub
  storage : ByteStorage

def onStorage {α : Type} (x : Exec Fault ByteStorage α) : Exec Fault Routing α :=
  Exec.zoom Routing.storage (fun b s => { s with storage := b }) x

/-- The admin branch, of either kind of connection. An exception of the decoder is not
caught. -/
def processAdmin (source : Nat) (subject : Subject UInt64) (msgData : ByteStorage) :
    Exec Fault Routing DecodeStatus where
  run s :=
    match Message.decode.run ⟨Message.new, msgData⟩ with
    | (.ok true, d) =>
        match PeerConnection.handleAdminMessage subject d.msg
            (s.hub.peer source).subscriptions with
        | .ok subscriptions =>
            (.ok .complete, { s with
              hub := s.hub.update source fun c => { c with subscriptions := subscriptions } })
        | .error e => (.error e, s)
    | (.ok false, _) => (.ok .corrupt, s)
    | (.error e, _) => (.error e, s)

/-! ## A connection on a socket -/

/-- `tcp_peer_connection::process_buffer(buffer)`, of the connection at `source`. -/
def processBuffer (source : Nat) : Exec Fault Routing DecodeStatus := do
  onStorage (Exec.modify ByteStorage.mark)
  let (status, addressing) ← onStorage addressingDetails
  match status, addressing with
  | .complete, some a =>
      onStorage (Exec.modify ByteStorage.resetRead)
      if a.subjectLength > 0 then
        let subject ← onStorage (Bootstrap.readSubject a.subject)
        let msgData ← onStorage (Bootstrap.takeSegment a.msgLength)
        if subject.isAdmin then
          let status ← processAdmin source subject msgData
          onStorage (Exec.modify ByteStorage.mark)
          pure status
        else
          Exec.modify fun s =>
            { s with hub := s.hub.messageHandler source subject (.ofBuffer msgData) }
          onStorage (Exec.modify ByteStorage.mark)
          pure .complete
      else pure .corrupt
  | status, _ =>
      onStorage (Exec.modify ByteStorage.resetRead)
      pure status

/-! ## A connection in shared memory -/

/-- What `notificationHandler` does with a pointer and the view of what is behind it. The
subject is read wherever it is, and that a message could not be decoded is only
logged. -/
def processPointer (source : Nat) (sharedPtr : SharedPtr) : Exec Fault Routing Unit := do
  onStorage (Exec.modify ByteStorage.mark)
  let (status, addressing) ← onStorage addressingDetails
  match status, addressing with
  | .complete, some a =>
      onStorage (Exec.modify ByteStorage.resetRead)
      let subject ← onStorage (Bootstrap.readSubject a.subject)
      let s ← Exec.get
      if subject.isAdmin then
        let _ ← processAdmin source subject s.storage
        pure ()
      else
        Exec.modify fun s =>
          { s with hub := s.hub.messageHandler source subject ⟨s.storage, sharedPtr⟩ }
  | _, _ => pure ()

/-- The callback `notificationHandler` gives to `retrieve`. -/
def pointerCallback (source : Nat) (ptr : ByteStorage) (sharedPtr : SharedPtr) :
    Exec Fault Hub Unit :=
  Exec.zoom (fun h => ⟨h, ptr⟩) (fun s _ => s.hub) (processPointer source sharedPtr)

/-- `shm_peer_connection::notificationHandler`, for what `reset()` answers and the pointers
that `retrieve` then finds. -/
def notificationHandler (source : Nat) (reset : Bool) (found : List SharedPtr) :
    Exec Fault Hub Unit :=
  if reset then do
    let _ ← SharedMemoryBuffer.retrieve (pointerCallback source) found
    pure ()
  else Exec.modify (disconnectionHandler source)

end Hub

end Fastpath
