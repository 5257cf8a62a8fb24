import Fastpath.Model.Listener

/-!
# A listener across connections

The transport tells its listener of every connection that comes or goes. The
router knows nothing of the connections before, so when one has come every
observer is subscribed again, and the receiver event is made again for the new
descriptor. What happens to the observers while there is no connection is told to
nobody.

One transport is modelled, and a connection that takes what it is sent until it is
lost between two calls. A loss that a `send` runs into is something else: its
request stays in `m_sendBuffer` and is sent again on the next connection.
-/

namespace Fastpath

/-- `fp::TransportContainer`, and the listener that has it. -/
structure TransportContainer where
  listener : MessageListener
  /-- There is an `event`, and it is registered with the event manager. -/
  receiving : Bool

namespace TransportContainer

def new (heap : Nat → Nat → UInt8) : TransportContainer := ⟨.new heap, false⟩

variable (this : UInt64) (subject : Nat → CString)

/-- The handler that `registerTransport` sets is told that there is a connection. -/
def notifyConnected (c : TransportContainer) : TransportContainer :=
  match c.listener.eventManager with
  | some _ =>
      { listener := c.listener.observers.foldl
          (fun l subscriber => l.subscribe this (subject subscriber) .sent) c.listener
        receiving := true }
  | none => c

/-- `m_peer->connect()` succeeds. -/
def connect (c : TransportContainer) : TransportContainer :=
  if c.listener.transport.connected then c
  else notifyConnected this subject
    { c with listener := { c.listener with transport := c.listener.transport.connect } }

/-- The connection is lost, and the handler is told. -/
def disconnect (c : TransportContainer) : TransportContainer where
  listener := { c.listener with transport := c.listener.transport.disconnectPeer false }
  receiving := if c.listener.eventManager.isSome then false else c.receiving

inductive Event where
  | call (call : MessageListener.Call)
  /-- The connection is lost; whether the state handler's own `connect` succeeds. -/
  | closed (reconnects : Bool)
  /-- A `connect` of `__connect` succeeds. -/
  | connect

def step (c : TransportContainer) : Event → TransportContainer
  | .call (.add subscriber eventManager) =>
      { listener := (MessageListener.step this subject c.listener (.add subscriber eventManager)).2
        -- the first time, `registerTransport` makes the event, if there is a connection
        receiving := if c.listener.eventManager.isNone then c.listener.transport.connected
          else c.receiving }
  | .call (.remove subscriber) =>
      { c with listener := (MessageListener.step this subject c.listener (.remove subscriber)).2 }
  | .closed reconnects =>
      if c.listener.transport.connected then
        if !c.listener.transport.shouldDisconnect && reconnects then
          c.disconnect.connect this subject
        else c.disconnect
      else c
  | .connect => if c.listener.transport.shouldDisconnect then c else c.connect this subject

end TransportContainer

end Fastpath
