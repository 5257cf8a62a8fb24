import Fastpath.Model.Dispatch

/-!
# The handler tables

An event manager keeps, for each descriptor, the handlers registered on it, and
tells the poll which readiness to wait for. The two managers share this code but
for what becomes of a descriptor that cannot be one, and for an assertion on the
way out. A handler's descriptor and event types never change, so a handler is
its pointer together with them.

The poll is the Linux one. `epoll_ctl` refuses to add a descriptor that it has
already, and to remove one that it has not; descriptors are open.
-/

namespace Fastpath

def EventType.or (a b : EventType) : EventType := ⟨a.read || b.read, a.write || b.write⟩

/-- An `IOEvent *`. -/
structure Handler where
  address : Nat
  fileDescriptor : Int
  eventTypes : EventType
deriving DecidableEq, Repr

/-- `EventPoll`: what each descriptor is polled for, if it is. -/
structure EventPoll where
  interest : Int → Option EventType

namespace EventPoll

/-- `add(EventPollIOElement)`. -/
def add (identifier : Int) (filter : EventType) (p : EventPoll) : Bool × EventPoll :=
  match p.interest identifier with
  | some _ => (false, p)
  | none => (true, ⟨Function.update p.interest identifier (some filter)⟩)

/-- `remove(EventPollIOElement)`. -/
def remove (identifier : Int) (p : EventPoll) : Bool × EventPoll :=
  match p.interest identifier with
  | some _ => (true, ⟨Function.update p.interest identifier none⟩)
  | none => (false, p)

end EventPoll

/-- `InlineEventManager` and `GlobalEventManager`. -/
inductive ManagerKind where
  | inline | global
deriving DecidableEq, Repr

/-- `m_ioHandlerLookup` and `m_eventLoop`. -/
structure Registry where
  handlers : Int → Option (List Handler)
  eventLoop : EventPoll

namespace Registry

def new : Registry := ⟨fun _ => none, ⟨fun _ => none⟩⟩

/-- `registerHandler(IOEvent *)`. The answer is missing where the process ends: the inline
manager throws out of a function that must not. -/
def registerHandler (manager : ManagerKind) (event : Handler) (r : Registry) :
    Option Bool × Registry :=
  if event.fileDescriptor ≤ 0 then
    match manager with
    | .global => (some false, r)
    | .inline => (none, r)
  else
    let registered :=
      match r.handlers event.fileDescriptor with
      | some events => events ++ [event]
      | none => [event]
    let polled := r.eventLoop.add event.fileDescriptor event.eventTypes
    (some polled.1,
      ⟨Function.update r.handlers event.fileDescriptor (some registered), polled.2⟩)

/-- The end of `unregisterHandler(IOEvent *)`: the inline manager asserts that the event is not
awaiting dispatch. A build without assertions answers `result` all the same; the tables are what
they are in either build, and nothing reads the answer. -/
def checkAwaiting (manager : ManagerKind) (awaitingDispatch result : Bool) : Option Bool :=
  match manager with
  | .inline => if awaitingDispatch then none else some result
  | .global => some result

/-- `unregisterHandler(IOEvent *)`. -/
def unregisterHandler (manager : ManagerKind) (event : Handler) (awaitingDispatch : Bool)
    (r : Registry) : Option Bool × Registry :=
  match r.handlers event.fileDescriptor with
  | none => (some false, r)
  | some registered =>
      if event ∈ registered then
        if registered.length = 1 then
          let polled := r.eventLoop.remove event.fileDescriptor
          (checkAwaiting manager awaitingDispatch polled.1,
            ⟨Function.update r.handlers event.fileDescriptor none, polled.2⟩)
        else
          -- `registered_events` is a copy of the vector, and the copy is erased from
          (checkAwaiting manager awaitingDispatch true, r)
      else (some false, r)

/-- `foreach_event_matching(event, callback)`: the handlers it calls back, in order. -/
def foreachEventMatching (r : Registry) (identifier : Int) (filter : EventType) : List Handler :=
  match r.handlers identifier with
  | some events => events.filter fun e => e.eventTypes.and filter ≠ .none
  | none => []

inductive Call where
  | registerHandler (event : Handler)
  | unregisterHandler (event : Handler) (awaitingDispatch : Bool)

def call (manager : ManagerKind) (r : Registry) : Call → Option Bool × Registry
  | .registerHandler event => r.registerHandler manager event
  | .unregisterHandler event awaitingDispatch =>
      r.unregisterHandler manager event awaitingDispatch

end Registry

end Fastpath
