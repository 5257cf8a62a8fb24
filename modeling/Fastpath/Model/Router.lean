import Mathlib.Logic.Function.Basic
import Fastpath.Model.Subject
import Fastpath.Model.Transport

/-!
# The router

`bootstrap` keeps a list of connections, and every connection a list of
subscriptions and a buffer of received bytes. A connection looks at the head of
its buffer only through the addressing: a message for the router itself is
decoded and acted upon, every other one goes out again byte for byte to whoever
subscribed to its subject, the sender included.

Connections are known by address, as the handlers know them. The sockets take what
they are sent, at once and whole; what each of them took is recorded, and so is
every call of the message handler. That is an assumption about the environment:
an accepted socket is a blocking one, so a client that does not read can stop the
router, and a `send` that fails closes the socket behind its back, since nobody
looks at what `sendBuffer` returns. A `send` that is cut short is in
`Model.Socket`.
-/

namespace Fastpath

open Fastpath.Lib

/-- `fp::tcp_peer_connection`, with what its socket has been sent. -/
structure PeerConnection where
  subscriptions : Subscriptions
  buffer : MessageBuffer
  sent : Bytes

namespace PeerConnection

/-- A connection as it is accepted. -/
def new (heap : Nat → Nat → UInt8) : PeerConnection := ⟨[], .new 4500 heap, []⟩

def registerObserver : Subject UInt64 := .new stringHash (.ofString "_FP.REGISTER.OBSERVER")

/-- `handle_admin_message(subject, message)`, on the subscriptions. -/
def handleAdminMessage (subject : Subject UInt64) (message : Message)
    (subscriptions : Subscriptions) : Except Fault Subscriptions :=
  if subject.subjectHash = registerObserver.subjectHash then
    match message.getDataField (.ofString "subject") with
    | .error e => .error e
    | .ok none => .ok subscriptions
    | .ok (some data) =>
        if data.length = 0 then .ok subscriptions
        else (CString.readFrom data).map subscriptions.addSubscription
  else if subject.subjectHash = registerObserver.subjectHash then
    match message.getDataField (.ofString "subject") with
    | .error e => .error e
    -- the length is zero, so this is not refused, and `data` is a null pointer
    | .ok none => .error .outOfBounds
    | .ok (some data) => (CString.readFrom data).map subscriptions.removeSubscription
  else .ok subscriptions

end PeerConnection

structure Bootstrap where
  connections : List Nat
  /-- The connection at an address. -/
  peer : Nat → PeerConnection
  /-- What `message_handler` was called with: the source and the message's bytes. -/
  handled : List (Nat × Bytes)

namespace Bootstrap

def update (i : Nat) (f : PeerConnection → PeerConnection) (r : Bootstrap) : Bootstrap :=
  { r with peer := Function.update r.peer i (f (r.peer i)) }

/-- `sendBuffer(wrapper)` on the connection at `i`, whose socket takes it. -/
def sendBuffer (i : Nat) (data : Bytes) (r : Bootstrap) : Bootstrap :=
  r.update i fun c => { c with sent := c.sent ++ data }

/-- One round of `message_handler`'s `for_each`. -/
def forward (subject : Subject UInt64) (data : Bytes) (r : Bootstrap) (i : Nat) : Bootstrap :=
  if (r.peer i).subscriptions.isInterested subject then r.sendBuffer i data else r

def messageHandler (source : Nat) (subject : Subject UInt64) (data : Bytes) (r : Bootstrap) :
    Bootstrap :=
  r.connections.foldl (forward subject data) { r with handled := r.handled ++ [(source, data)] }

def disconnectionHandler (i : Nat) (r : Bootstrap) : Bootstrap :=
  { r with connections := r.connections.erase i }

/-- What `process_buffer` works on: the router, and the view of `m_buffer`. -/
structure Routing where
  router : Bootstrap
  storage : ByteStorage

def onStorage {α : Type} (x : Exec Fault ByteStorage α) : Exec Fault Routing α :=
  Exec.zoom Routing.storage (fun b s => { s with storage := b }) x

/-- `subject<> subject(subject_ptr)`. -/
def readSubject (position : Nat) : Exec Fault ByteStorage (Subject UInt64) where
  run s :=
    match CString.readFrom (s.bytes.drop position) with
    | .ok subject => (.ok (.new stringHash subject), s)
    | .error e => (.error e, s)

/-- `buffer.segment(length)`. -/
def takeSegment (length : Nat) : Exec Fault ByteStorage ByteStorage where
  run s := (.ok (s.segment length).1, (s.segment length).2)

/-- The admin branch of `process_buffer`. Its message is a new one, and an exception of
the decoder is not caught. -/
def processAdmin (source : Nat) (subject : Subject UInt64) (msgData : ByteStorage) :
    Exec Fault Routing DecodeStatus where
  run s :=
    match Message.decode.run ⟨Message.new, msgData⟩ with
    | (.ok true, d) =>
        match PeerConnection.handleAdminMessage subject d.msg
            (s.router.peer source).subscriptions with
        | .ok subscriptions =>
            (.ok .complete, { s with
              router := s.router.update source fun c => { c with subscriptions := subscriptions } })
        | .error e => (.error e, s)
    | (.ok false, _) => (.ok .corrupt, s)
    | (.error e, _) => (.error e, s)

/-- `process_buffer(buffer)` of the connection at `source`. -/
def processBuffer (source : Nat) : Exec Fault Routing DecodeStatus := do
  onStorage (Exec.modify ByteStorage.mark)
  let (status, addressing) ← onStorage addressingDetails
  match status, addressing with
  | .complete, some a =>
      onStorage (Exec.modify ByteStorage.resetRead)
      if a.subjectLength > 0 then
        let subject ← onStorage (readSubject a.subject)
        let msgData ← onStorage (takeSegment a.msgLength)
        if subject.isAdmin then
          let status ← processAdmin source subject msgData
          onStorage (Exec.modify ByteStorage.mark)
          pure status
        else
          Exec.modify fun s =>
            { s with router := s.router.messageHandler source subject msgData.bytes }
          onStorage (Exec.modify ByteStorage.mark)
          pure .complete
      else pure .corrupt
  | status, _ =>
      onStorage (Exec.modify ByteStorage.resetRead)
      pure status

/-- One round of `data_handler`'s inner loop. -/
def processRound (source : Nat) : Exec Fault Routing (Option DecodeStatus) := do
  match ← processBuffer source with
  | .complete => pure none
  | status => pure (some status)

/-- What follows a read of at least one byte. The answer is whether the connection is
still there. A round over a message of no bytes changes nothing and never ends. -/
def drain (source : Nat) : Exec Fault Bootstrap Bool where
  run r :=
    let buffer := (r.peer source).buffer
    let loop := Exec.untilSome .diverged (processRound source) (buffer.bytes.length + 1)
    match loop.run ⟨r, buffer.byteStorage⟩ with
    | (.ok .corrupt, s) => (.ok false, s.router.disconnectionHandler source)
    | (.ok _, s) =>
        (.ok true, s.router.update source fun c =>
          { c with buffer := c.buffer.eraseFront s.storage.bytesRead })
    | (.error e, s) => (.error e, s.router)

/-- `data_handler` of the connection at `source`, for the reads that find bytes and
whether the one that does not finds the socket closed. -/
def dataHandler (source : Nat) (closed : Bool) : List Bytes → Exec Fault Bootstrap Unit
  | [] => do
      Exec.modify (update source fun c => { c with buffer := c.buffer.fill [] })
      if closed then Exec.modify (disconnectionHandler source)
  | data :: reads => do
      Exec.modify (update source fun c => { c with buffer := c.buffer.fill data })
      if ← drain source then dataHandler source closed reads

/-- Calls of `data_handler` in the order the dispatch loop makes them. -/
def route : List (Nat × List Bytes) → Exec Fault Bootstrap Unit
  | [] => pure ()
  | (source, reads) :: schedule => do
      dataHandler source false reads
      route schedule

/-- `peer_connection_handler`, with the connection that has been made at `i`. -/
def peerConnectionHandler (i : Nat) (heap : Nat → Nat → UInt8) (r : Bootstrap) : Bootstrap where
  connections := r.connections ++ [i]
  peer := Function.update r.peer i (PeerConnection.new heap)
  handled := r.handled

/-- What the dispatch loop of `run` calls back for. -/
inductive Event where
  /-- Somebody connects; the connection is allocated at `i`. -/
  | accepted (i : Nat) (heap : Nat → Nat → UInt8)
  /-- The connection's socket is readable. -/
  | readable (i : Nat) (reads : List Bytes) (closed : Bool)

def handle : Event → Exec Fault Bootstrap Unit
  | .accepted i heap => Exec.modify (peerConnectionHandler i heap)
  | .readable i reads closed => dataHandler i closed reads

/-- The loop of `run()`. -/
def run : List Event → Exec Fault Bootstrap Unit
  | [] => pure ()
  | event :: events => do
      handle event
      run events

/-- The router before its first callback. Nothing is at any address. -/
def new (heap : Nat → Nat → UInt8) : Bootstrap := ⟨[], fun _ => PeerConnection.new heap, []⟩

end Bootstrap

end Fastpath
