import Fastpath.Model.Codec
import Fastpath.Model.Pool

/-!
# The client's transport

`TCPTransport` keeps two buffers, one per direction, and both outlive the
connection they are used on. The receive callback reads into the end of one
until there is nothing to read, and after every read takes complete messages
off its front into objects of the pool. `sendMessage` encodes into the other
and hands its visible bytes to the socket.

The network is the environment. What a `read` finds, whether a `send` succeeds
and whether a `connect` does are arguments; what the application is given, told
and asked to transmit is recorded. Destroying the last reference to a message
gives its object back to the pool, and when the application drops one it was
given is up to the environment too.
-/

namespace Fastpath

open Fastpath.Lib

inductive Notification where
  | connected | disconnected | corruptMessage | slowConsumer
deriving DecidableEq, Repr

/-- `fp::status`, as far as a transport or a listener answers it. -/
inductive Status where
  | ok | cannotSend | cannotDestroy | invalidTransportState
deriving DecidableEq, Repr

/-- `fp::TCPTransport` with the socket behind `m_peer`. -/
structure TCPTransport where
  connected : Bool
  shouldDisconnect : Bool
  sendBuffer : MessageBuffer
  readBuffer : MessageBuffer
  pool : Pool Message
  /-- The pool's objects the application still refers to. -/
  held : List Nat
  /-- What the notification handler was told. -/
  notifications : List Notification
  /-- What the message callback was given, as it was then. -/
  delivered : List Message
  /-- What was handed to `m_peer->send`. -/
  handed : List Bytes

def mtuSize : Nat := 1500

/-- `read(allocate(MTU_SIZE), MTU_SIZE, size)` and `erase_back(MTU_SIZE - size)`, for
a read that finds `data`. -/
def MessageBuffer.fill (b : MessageBuffer) (data : Bytes) : MessageBuffer :=
  let (p, b) := b.allocate mtuSize
  (b.writeThrough p data).eraseBack (mtuSize - data.length)

/-- How a round of reads ends: nothing to read for now, or the connection is gone,
and then with the outcome of the `connect` that follows. -/
inductive LastRead where
  | noData
  | closed (reconnects : Bool)

namespace TCPTransport

/-- A transport that has connected; `heap` is the memory its buffers are allocated
from. -/
def new (heap : Nat → Nat → UInt8) : TCPTransport where
  connected := true
  shouldDisconnect := false
  sendBuffer := .new 1024 heap
  readBuffer := .new 1500 heap
  pool := .new 10000 (by decide)
  held := []
  notifications := []
  delivered := []
  handed := []

def notify (type : Notification) (t : TCPTransport) : TCPTransport :=
  { t with notifications := t.notifications ++ [type] }

/-- `m_peer->connect()` succeeding, and the connection state handler. -/
def connect (t : TCPTransport) : TCPTransport :=
  if t.connected then t else { t with connected := true }.notify .connected

/-- `m_peer->disconnect()` and the connection state handler, which reconnects at
once unless the transport is going away. -/
def disconnectPeer (reconnects : Bool) (t : TCPTransport) : TCPTransport :=
  if t.connected then
    let t := { t with connected := false }.notify .disconnected
    if !t.shouldDisconnect && reconnects then t.connect else t
  else t

/-- `__disconnect()`. -/
def disconnect (t : TCPTransport) : TCPTransport :=
  { t with shouldDisconnect := true }.disconnectPeer false

/-! ## Receiving -/

/-- `messageCallback(this, message)` and the end of `processData`'s own reference.
`keeps n` says whether the application keeps one of its own to the `n`-th
message it is given. -/
def deliver (keeps : Nat → Bool) (i : Nat) (t : TCPTransport) : TCPTransport :=
  let t := { t with delivered := t.delivered ++ [t.pool.object i] }
  if keeps t.delivered.length then { t with held := i :: t.held }
  else { t with pool := t.pool.release i }

def letGo (i : Nat) (t : TCPTransport) : TCPTransport :=
  if i ∈ t.held then { t with held := t.held.erase i, pool := t.pool.release i } else t

/-- What `processData` works on: the transport, and the view of `m_readBuffer`. -/
structure Receiving where
  transport : TCPTransport
  storage : ByteStorage

/-- The `try` block of `processData`, decoding into the object at `i`. -/
def decodeInto (keeps : Nat → Bool) (i : Nat) : Exec Fault Receiving Bool where
  run s :=
    let stored (msg : Message) : TCPTransport :=
      { s.transport with pool := s.transport.pool.store i msg }
    let released (t : TCPTransport) : TCPTransport := { t with pool := t.pool.release i }
    match Message.decode.run ⟨s.transport.pool.object i, s.storage⟩ with
    | (.ok true, d) => (.ok true, ⟨(stored d.msg).deliver keeps i, d.buffer⟩)
    | (.ok false, d) => (.ok false, ⟨released (stored d.msg), d.buffer.resetRead⟩)
    | (.error (.exception _), d) =>
        (.ok false, ⟨released ((stored d.msg).notify .corruptMessage).disconnect, d.buffer⟩)
    | (.error e, d) => (.error e, ⟨stored d.msg, d.buffer⟩)

def processData (keeps : Nat → Bool) : Exec Fault Receiving Bool := do
  let (status, _) ← Exec.zoom Receiving.storage (fun b s => { s with storage := b })
    haveCompleteMessage
  match status with
  | .complete =>
      let i ← Exec.zoom (fun s => s.transport.pool)
        (fun p s => { s with transport := { s.transport with pool := p } }) Pool.allocate
      Exec.modify fun s => { s with storage := s.storage.mark }
      decodeInto keeps i
  | _ => pure false

/-- One round of `while (processData(...))`. -/
def processRound (keeps : Nat → Bool) : Exec Fault Receiving (Option Unit) := do
  if ← processData keeps then pure none else pure (some ())

/-- What follows a read of at least one byte: messages are taken off a view of the
buffer, and the buffer gives up what the view has read. A message is longer than
nothing, so the rounds are at most the bytes. -/
def drain (keeps : Nat → Bool) : Exec Fault TCPTransport Unit where
  run t :=
    let loop := Exec.untilSome .diverged (processRound keeps) (t.readBuffer.bytes.length + 1)
    match loop.run ⟨t, t.readBuffer.byteStorage⟩ with
    | (.ok (), s) =>
        (.ok (), { s.transport with
          readBuffer := s.transport.readBuffer.eraseFront s.storage.bytesRead })
    | (.error e, s) => (.error e, s.transport)

/-- The receive callback, for the reads that find bytes and the one that does not. A
transport that has disconnected itself reads from a closed descriptor, and
finds none. -/
def receive (keeps : Nat → Bool) (last : LastRead) : List Bytes → Exec Fault TCPTransport Unit
  | [] => do
      Exec.modify fun t => { t with readBuffer := t.readBuffer.fill [] }
      match last with
      | .noData => pure ()
      | .closed reconnects => Exec.modify (disconnectPeer reconnects)
  | data :: reads => do
      let t ← Exec.get
      if t.connected then
        Exec.modify fun t => { t with readBuffer := t.readBuffer.fill data }
        drain keeps
        receive keeps last reads
      else Exec.modify fun t => { t with readBuffer := t.readBuffer.fill [] }

/-- What happens to a transport while one connection is up. -/
inductive Event where
  | readable (reads : List Bytes)
  | letGo (i : Nat)

def handle (keeps : Nat → Bool) : Event → Exec Fault TCPTransport Unit
  | .readable reads => receive keeps .noData reads
  | .letGo i => Exec.modify (letGo i)

def run (keeps : Nat → Bool) : List Event → Exec Fault TCPTransport Unit
  | [] => pure ()
  | event :: events => do
      handle keeps event
      run keeps events

def reads : List Event → List Bytes
  | [] => []
  | .readable found :: events => found ++ reads events
  | .letGo _ :: events => reads events

/-- One connection: what happens while it is up, the reads of the call that finds it
closed, and whether the state handler's own `connect` succeeds. -/
structure Connection where
  events : List Event
  last : List Bytes
  reconnects : Bool

def Connection.received (c : Connection) : Bytes := (reads c.events).flatten ++ c.last.flatten

/-! ## Sending -/

/-- What a call of `m_peer->send` comes to. A failed one has closed the socket, and
the state handler has tried to connect again. -/
inductive SendResult where
  | sent
  | failed (reconnects : Bool)

def sendMessage (msg : Message) (result : SendResult) (t : TCPTransport) :
    Status × TCPTransport :=
  if t.connected then
    let buffer := { t.sendBuffer with storage := (msg.encode t.sendBuffer.storage).2 }
    let t := { t with sendBuffer := buffer, handed := t.handed ++ [buffer.bytes] }
    match result with
    | .sent => (.ok, { t with sendBuffer := buffer.eraseFront buffer.length })
    | .failed reconnects => (.cannotSend, t.disconnectPeer reconnects)
  else (.cannotSend, t)

/-- What happens to a transport that is sent through: calls, the connection being
lost, and a `connect` from the background succeeding. -/
inductive SendEvent where
  | send (msg : Message) (result : SendResult)
  | closed (reconnects : Bool)
  | connect

def sendStep (t : TCPTransport) : SendEvent → TCPTransport
  | .send msg result => (t.sendMessage msg result).2
  | .closed reconnects => t.disconnectPeer reconnects
  | .connect => t.connect

/-- The messages whose call answered `OK`. -/
def reportedOk : TCPTransport → List SendEvent → List Message
  | _, [] => []
  | t, .send msg result :: events =>
      (if (t.sendMessage msg result).1 = .ok then [msg] else []) ++
        reportedOk (t.sendStep (.send msg result)) events
  | t, event :: events => reportedOk (t.sendStep event) events

end TCPTransport

end Fastpath
