import Fastpath.Model.Transport

/-!
# The client's observers

`MessageListener` keeps the subscribers of each transport and tells the router
about them with messages of its own, one when a subscriber comes and one when it
goes. Nothing comes back, so whether the router holds the subscriptions the
listener believes it holds is up to what the router makes of those messages.

One transport is modelled. A subscriber is known by its address, which is what
`removeObserver` compares, and read for its subject.
-/

namespace Fastpath

open Fastpath.Lib

/-- `fp::MessageListener`, as far as one transport goes. -/
structure MessageListener where
  transport : TCPTransport
  /-- `transport->m_eventManager`. -/
  eventManager : Option Nat
  /-- The subscribers of `m_observers[transport]`. -/
  observers : List Nat

namespace MessageListener

/-- What `subscribe` and `unsubscribe` send, each on a subject of its own. The
message is a local and both identifiers are short, so building it never fails. -/
def observerMessage (topic : CString) (this : UInt64) (subject : CString) : Message :=
  let msg := (MutableMessage.setSubject topic Message.new).1
  let msg := ((MutableMessage.addStringField (.ofString "subject") subject).run msg).2
  ((MutableMessage.addScalarField (.ofString "id") (.uint64 this)).run msg).2

def registerTopic : CString := .ofString "_FP.REGISTER.OBSERVER"

def unregisterTopic : CString := .ofString "_FP.UNREGISTER.OBSERVER"

def send (msg : Message) (result : TCPTransport.SendResult) (l : MessageListener) :
    MessageListener :=
  { l with transport := (l.transport.sendMessage msg result).2 }

def subscribe (this : UInt64) (subject : CString) (result : TCPTransport.SendResult)
    (l : MessageListener) : MessageListener :=
  l.send (observerMessage registerTopic this subject) result

def unsubscribe (this : UInt64) (subject : CString) (result : TCPTransport.SendResult)
    (l : MessageListener) : MessageListener :=
  l.send (observerMessage unregisterTopic this subject) result

/-- `registerTransport(transport, eventManager)`: the first event manager stays. -/
def registerTransport (eventManager : Nat) (l : MessageListener) : Bool × MessageListener :=
  match l.eventManager with
  | none => (true, { l with eventManager := some eventManager })
  | some current => (decide (current = eventManager), l)

variable (this : UInt64) (subject : Nat → CString)

def addObserver (subscriber eventManager : Nat) (result : TCPTransport.SendResult)
    (l : MessageListener) : Status × MessageListener :=
  match l.registerTransport eventManager with
  | (true, l) =>
      let l := { l with observers := l.observers ++ [subscriber] }
      (.ok, if l.transport.connected then l.subscribe this (subject subscriber) result else l)
  | (false, l) => (.invalidTransportState, l)

def removeObserver (subscriber : Nat) (result : TCPTransport.SendResult) (l : MessageListener) :
    Status × MessageListener :=
  if subscriber ∈ l.observers then
    let l := l.unsubscribe this (subject subscriber) result
    (.ok, { l with observers := l.observers.erase subscriber })
  else (.cannotDestroy, l)

inductive Call where
  | add (subscriber eventManager : Nat)
  | remove (subscriber : Nat)

/-- A call on a connection that takes what it is sent. -/
def step (l : MessageListener) : Call → Status × MessageListener
  | .add subscriber eventManager => addObserver this subject subscriber eventManager .sent l
  | .remove subscriber => removeObserver this subject subscriber .sent l

def run (l : MessageListener) : List Call → MessageListener
  | [] => l
  | call :: calls => run (step this subject l call).2 calls

def new (heap : Nat → Nat → UInt8) : MessageListener := ⟨.new heap, none, []⟩

end MessageListener

end Fastpath
