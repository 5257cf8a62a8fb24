import Fastpath.Model.Ring

/-!
# Events and their queue

The event manager's thread notifies events: it counts the notification in the
event and pushes an element on the ring of the event's queue. The dispatching
thread pops elements, and running one uncounts it and calls back. An event that
is unregistered while it still has something to dispatch is marked, and deleted
behind the last of its elements.

The two threads interleave, so `__notify` and a dispatch are cut where the other
thread can see it: between the count and the push, between the pop and the
uncount, and between the callback and the test for removal. Callbacks run client
code, so whatever a client may do may also happen there. When a descriptor is
ready, a timer due or a signal raised is up to the environment, and so is which
events the event manager finds for it; `Model.EventManager` has the tables that
it looks them up in. Events are known by number, and no number is used twice.
-/

namespace Fastpath

/-- `fp::EventType`: the bits `READ` and `WRITE`. -/
structure EventType where
  read : Bool
  write : Bool
deriving DecidableEq, Repr

def EventType.none : EventType := ⟨false, false⟩

def EventType.and (a b : EventType) : EventType := ⟨a.read && b.read, a.write && b.write⟩

/-- `DataEvent`, `TimerEvent`, `SignalEvent`. -/
inductive EventKind where
  | data | timer | signal
deriving DecidableEq, Repr

/-- `fp::Event`, as far as dispatching goes. -/
structure QueueEvent where
  kind : EventKind
  /-- `m_eventTypes` of an `IOEvent`. -/
  eventTypes : EventType
  awaitingDispatch : UInt16
  pendingRemoval : Bool
deriving DecidableEq, Repr

namespace QueueEvent

def pushDispatch (e : QueueEvent) : QueueEvent :=
  { e with awaitingDispatch := e.awaitingDispatch + 1 }

def popDispatch (e : QueueEvent) : QueueEvent :=
  { e with awaitingDispatch := e.awaitingDispatch - 1 }

/-- `__awaitingDispatch()`. -/
def isAwaitingDispatch (e : QueueEvent) : Bool := e.awaitingDispatch != 0

/-- `serviceIOEvent` passes over an event that is awaiting dispatch; the other two do not
look. -/
def skipped (e : QueueEvent) : Bool :=
  match e.kind with
  | .data => e.isAwaitingDispatch
  | .timer | .signal => false

/-- What `__notify` is given, for a readiness of `filter`. -/
def notifiedType (e : QueueEvent) (filter : EventType) : EventType :=
  match e.kind with
  | .data => e.eventTypes.and filter
  | .timer | .signal => .none

end QueueEvent

structure QueueElement where
  event : Nat
  type : EventType
deriving DecidableEq, Repr

/-- A `BlockingQueue` or `BusySpinQueue` with its events and its two threads. -/
structure SharedQueue where
  /-- The events that have been created and not deleted; they are all registered. -/
  events : Nat → Option QueueEvent
  nextEvent : Nat
  queue : RingBuffer QueueElement 4096
  /-- The element of a `__notify` between its count and its push. -/
  notifying : Option QueueElement
  /-- The element of a `dispatch_event`, and whether its function has been run. -/
  dispatching : Option (QueueElement × Bool)
  /-- The callbacks that were called. -/
  called : List QueueElement
  /-- A deleted event, or an erased iterator, was used. -/
  misused : Bool

namespace SharedQueue

inductive Step where
  /-- `registerEvent(…)`. -/
  | register (kind : EventKind) (types : EventType)
  /-- The event manager finds the event: `service*Event` and `__notify` up to its push. -/
  | service (event : Nat) (filter : EventType)
  /-- `m_queue->__enqueue(…)`, the end of `__notify`. -/
  | enqueue
  /-- `m_queue.pop(dispatcher)`. -/
  | pop
  /-- `dispatcher.function()` up to the callback's end. -/
  | run
  /-- The rest of `dispatch_event`. -/
  | finish
  /-- `unregisterEvent(event)`. -/
  | unregister (event : Nat)

def new : SharedQueue where
  events := fun _ => none
  nextEvent := 0
  queue := .new
  notifying := none
  dispatching := none
  called := []
  misused := false

def setEvent (i : Nat) (e : Option QueueEvent) (s : SharedQueue) : SharedQueue :=
  { s with events := Function.update s.events i e }

/-- Something is done to an event that is not there. -/
def useDeleted (i : Nat) (s : SharedQueue) : SharedQueue :=
  if i < s.nextEvent then { s with misused := true } else s

def step (s : SharedQueue) : Step → SharedQueue
  | .register kind types =>
      { s.setEvent s.nextEvent (some ⟨kind, types, 0, false⟩) with nextEvent := s.nextEvent + 1 }
  | .service event filter =>
      match s.notifying, s.events event with
      | some _, _ => s
      | none, none => s.useDeleted event
      | none, some e =>
          if e.skipped then s
          else
            { s.setEvent event (some e.pushDispatch) with
              notifying := some ⟨event, e.notifiedType filter⟩ }
  | .enqueue =>
      match s.notifying with
      | some element => { s with queue := (s.queue.push element).2, notifying := none }
      | none => s
  | .pop =>
      match s.dispatching, s.queue.pop with
      | none, (some element, queue) =>
          { s with queue := queue, dispatching := some (element, false) }
      | _, _ => s
  | .run =>
      match s.dispatching with
      | some (element, false) =>
          match s.events element.event with
          | some e =>
              { s.setEvent element.event (some e.popDispatch) with
                dispatching := some (element, true)
                called := if e.pendingRemoval then s.called else s.called ++ [element] }
          | none => { s with dispatching := some (element, true), misused := true }
      | _ => s
  | .finish =>
      match s.dispatching with
      | some (element, true) =>
          match s.events element.event with
          | some e =>
              if e.pendingRemoval && !e.isAwaitingDispatch then
                -- `delete *it`, where `it` has just been erased
                { s.setEvent element.event none with dispatching := none, misused := true }
              else { s with dispatching := none }
          | none => { s with dispatching := none, misused := true }
      | _ => s
  | .unregister event =>
      match s.events event with
      | some e =>
          if e.isAwaitingDispatch then s.setEvent event (some { e with pendingRemoval := true })
          else s.setEvent event none
      | none => s.useDeleted event

end SharedQueue

end Fastpath
