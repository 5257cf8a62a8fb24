import Fastpath.Lib.Broker
import Fastpath.Lib.Frames
import Fastpath.Model.Listener
import Fastpath.Model.Router
import Fastpath.Spec.Wire

/-!
# The router as a broker

What the router is for, with no buffer in sight. Every client has a list of
things to send: messages for others, and messages for the router about its
observers. The network hands the router the bytes of these in pieces that end
anywhere. `Traffic` keeps what each client sends and how much of it has arrived,
and the history of a broker in which everything that has arrived in full has
happened, one after the other.

A request to unregister an observer is not an event of the broker. The router
receives it, and does nothing.
-/

namespace Fastpath

open Fastpath.Lib

/-- What a client sends the router. -/
inductive Sending where
  | publish (m : Message)
  | register (this : UInt64) (subject : CString)
  | unregister (this : UInt64) (subject : CString)

namespace Sending

open MessageListener in
def message : Sending → Message
  | .publish m => m
  | .register this subject => observerMessage registerTopic this subject
  | .unregister this subject => observerMessage unregisterTopic this subject

def wire (s : Sending) : Bytes := s.message.wire

/-- What it is to the broker, from the client at `i`. -/
def events (i : Nat) : Sending → List (Broker.Event Nat CString Message)
  | .publish m => [.publish i m]
  | .register _ subject => [.subscribe i subject]
  | .unregister _ _ => []

/-- A message that is not for the router and whose image has a length, or a request whose
subject fits. -/
def Proper : Sending → Prop
  | .publish m =>
      Built m ∧ m.wire.length < 2 ^ 64 ∧ (Subject.new stringHash m.subjectString).isAdmin = false
  | .register _ subject => subject.length < 2 ^ 31
  | .unregister _ subject => subject.length < 2 ^ 31

end Sending

/-- A pattern covers a message if a subscription for the one matches the subject of the other. -/
def covers (pattern : CString) (m : Message) : Bool :=
  (Subscription.new stringHash pattern).matchesSubject (.new stringHash m.subjectString)

/-- The clients' side of the connections to a router. -/
structure Traffic where
  /-- What the client at an address sends, from its first byte to its last. -/
  stream : Nat → List Sending
  /-- What has arrived of that. -/
  arrived : Nat → Bytes
  history : List (Broker.Event Nat CString Message)

namespace Traffic

def new : Traffic := ⟨fun _ => [], fun _ => [], []⟩

def broker (t : Traffic) : Broker Nat CString Message := Broker.reached covers t.history

inductive Event where
  | accepted (i : Nat) (heap : Nat → Nat → UInt8) (stream : List Sending)
  | readable (i : Nat) (reads : List Bytes) (closed : Bool)

/-- What the router sees of it. -/
def Event.seen : Event → Bootstrap.Event
  | .accepted i heap _ => .accepted i heap
  | .readable i reads closed => .readable i reads closed

/-- What the client at `i` has sent, as far as it has arrived in full. -/
def arrivedInFull (t : Traffic) (i : Nat) (arrived : Bytes) : List Sending :=
  complete Sending.wire (t.stream i) arrived

def step (t : Traffic) : Event → Traffic
  | .accepted i _ stream =>
      { stream := Function.update t.stream i stream
        arrived := Function.update t.arrived i []
        history := t.history ++ [.join i] }
  | .readable i reads closed =>
      let arrived := t.arrived i ++ reads.flatten
      let fresh := (t.arrivedInFull i arrived).drop (t.arrivedInFull i (t.arrived i)).length
      { stream := t.stream
        arrived := Function.update t.arrived i arrived
        history := t.history ++ fresh.flatMap (Sending.events i) ++
          if closed then [.leave i] else [] }

/-- A connection is allocated where none is, and its client sends what it should. A read
is for a connection that is there, finds what its client sends next, and not more
than it has room for. -/
def Proper (t : Traffic) : Event → Prop
  | .accepted i _ stream => i ∉ t.broker.connected ∧ ∀ s ∈ stream, s.Proper
  | .readable i reads _ =>
      i ∈ t.broker.connected ∧ (∀ data ∈ reads, data.length ≤ 1500) ∧
        ∃ future, t.arrived i ++ reads.flatten ++ future = (t.stream i).flatMap Sending.wire

end Traffic

end Fastpath
