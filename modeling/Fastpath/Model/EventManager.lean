import Fastpath.Model.Registry

/-!
# The event manager and a queue

The tables of an event manager with the queue whose events they hold. An event is
made by the queue and put into the table of its kind; what the poll reports is
looked up there, and only what is found is notified; and unregistering an event
takes it out of the table first, and then marks or deletes it.

What the poll reports is up to the environment, whether the descriptor is still
polled or not: a batch may have been taken before an event was unregistered. So
is the descriptor that a timer is given. The two threads interleave as in
`Model.Dispatch`. A step on the tables is taken as a whole; what the lock is
worth is in `Model.RwLock`.

`dispatch_event` may come to look at memory that has been freed, at the event its
callback has had deleted or at the node of an erased iterator. Either what was
there is still there, or that is the end of the process.
-/

namespace Fastpath

/-- What an event is known by, which never changes. -/
inductive EventKey where
  /-- `m_identifier` of a `TimerEvent`. -/
  | timer (identifier : Int)
  /-- `m_signal` of a `SignalEvent`. -/
  | signal (signal : Int)
  /-- `m_fd` of a `DataEvent`. -/
  | data (fileDescriptor : Int)
deriving DecidableEq, Repr

/-- `GlobalEventManager`, with a queue that is registered with it. -/
structure GlobalEventManager where
  queue : SharedQueue
  /-- The keys of the events, by number. -/
  key : Nat → Option EventKey
  timerHandlerLookup : Int → Option Nat
  signalHandlerLookup : Int → Option Nat
  /-- `m_ioHandlerLookup`, and what its descriptors are polled for. -/
  io : Registry
  /-- The process has not survived. -/
  ended : Bool

/-- What `dispatch_event` is about to do takes it to freed memory. -/
def SharedQueue.finishesInFreed (s : SharedQueue) : Bool :=
  match s.dispatching with
  | some (element, true) =>
      match s.events element.event with
      | some e => e.pendingRemoval && !e.isAwaitingDispatch
      | none => true
  | _ => false

namespace GlobalEventManager

inductive Step where
  /-- `registerEvent(timeout, …)`, for which `timerfd_create` answers `identifier`. -/
  | registerTimer (identifier : Int)
  /-- `registerEvent(signal, …)`. -/
  | registerSignal (signal : Int)
  /-- `registerEvent(fd, types, …)`. -/
  | registerData (fd : Int) (types : EventType)
  /-- `serviceTimerEvent`, for the identifier in what the poll reports. -/
  | serviceTimerEvent (identifier : Int)
  /-- `serviceSignalEvent`. -/
  | serviceSignalEvent (signal : Int)
  /-- `serviceIOEvent`, as far as it is about one of the handlers it finds. -/
  | serviceIOEvent (identifier : Int) (filter : EventType) (event : Nat)
  | enqueue
  | pop
  | run
  /-- The rest of `dispatch_event`. `survives` is whether memory that is freed is as it was. -/
  | finish (survives : Bool)
  /-- `unregisterEvent(event)`. -/
  | unregister (event : Nat)

def new : GlobalEventManager where
  queue := .new
  key := fun _ => none
  timerHandlerLookup := fun _ => none
  signalHandlerLookup := fun _ => none
  io := .new
  ended := false

/-- `unordered_map::emplace`: what is there stays. -/
def emplace (table : Int → Option Nat) (identifier : Int) (event : Nat) : Int → Option Nat :=
  Function.update table identifier (some ((table identifier).getD event))

/-- `m_registeredEvents.emplace(new …)`. -/
def create (kind : EventKind) (types : EventType) (key : EventKey) (s : GlobalEventManager) :
    GlobalEventManager :=
  { s with
    queue := s.queue.step (.register kind types)
    key := Function.update s.key s.queue.nextEvent (some key) }

/-- `registerHandler(event)`, by class. -/
def registerHandler (event : Nat) (types : EventType) (s : GlobalEventManager) :
    EventKey → GlobalEventManager
  | .timer identifier =>
      { s with timerHandlerLookup := emplace s.timerHandlerLookup identifier event }
  | .signal signal => { s with signalHandlerLookup := emplace s.signalHandlerLookup signal event }
  | .data fd => { s with io := (s.io.registerHandler .global ⟨event, fd, types⟩).2 }

/-- `unregisterHandler(event)`, by class. -/
def unregisterHandler (event : Nat) (e : QueueEvent) (s : GlobalEventManager) :
    Option EventKey → GlobalEventManager
  | some (.timer identifier) =>
      { s with timerHandlerLookup := Function.update s.timerHandlerLookup identifier none }
  | some (.signal signal) =>
      { s with signalHandlerLookup := Function.update s.signalHandlerLookup signal none }
  | some (.data fd) =>
      { s with
        io := (s.io.unregisterHandler .global ⟨event, fd, e.eventTypes⟩ e.isAwaitingDispatch).2 }
  | none => s

/-- `handler->__notify(…)` up to its push, for the handler that was found. -/
def service (found : Option Nat) (filter : EventType) (s : GlobalEventManager) :
    GlobalEventManager :=
  match found with
  | some event => { s with queue := s.queue.step (.service event filter) }
  | none => s

/-- `registerEvent(…)`. -/
def registerEvent (kind : EventKind) (types : EventType) (key : EventKey)
    (s : GlobalEventManager) : GlobalEventManager :=
  (s.create kind types key).registerHandler s.queue.nextEvent types key

/-- `unregisterEvent(event)`. An event that has been deleted is none to call it with. -/
def unregisterEvent (event : Nat) (s : GlobalEventManager) : GlobalEventManager :=
  match s.queue.events event with
  | some e =>
      let s := s.unregisterHandler event e (s.key event)
      { s with queue := s.queue.step (.unregister event) }
  | none => s

def step (s : GlobalEventManager) (i : Step) : GlobalEventManager :=
  if s.ended then s
  else
    match i with
    | .registerTimer identifier => s.registerEvent .timer .none (.timer identifier)
    | .registerSignal signal => s.registerEvent .signal .none (.signal signal)
    | .registerData fd types => s.registerEvent .data types (.data fd)
    | .serviceTimerEvent identifier => s.service (s.timerHandlerLookup identifier) .none
    | .serviceSignalEvent signal => s.service (s.signalHandlerLookup signal) .none
    | .serviceIOEvent identifier filter event =>
        if event ∈ (s.io.foreachEventMatching identifier filter).map Handler.address then
          s.service (some event) filter
        else s
    | .enqueue => { s with queue := s.queue.step .enqueue }
    | .pop => { s with queue := s.queue.step .pop }
    | .run => { s with queue := s.queue.step .run }
    | .finish survives =>
        if s.queue.finishesInFreed && !survives then { s with ended := true }
        else { s with queue := s.queue.step .finish }
    | .unregister event => s.unregisterEvent event

end GlobalEventManager

end Fastpath
