import Fastpath.Model.Pool
import Fastpath.Model.Ring
import Fastpath.Model.Subject

/-!
# Messages and their queues

A message that has been decoded goes to every observer of its transport whose
subscription matches. The event manager's thread runs through the observers and
puts an element on the ring of each one's queue; the element holds a shared
pointer to the message. The queues are dispatched by threads of the application,
one each, which pop elements and run them. When the last pointer is gone the
message goes back to the pool, and the next one is decoded into it.

One transport is modelled, with any number of queues, and what else is pushed on
the queues: the other kinds of event, and the messages of other transports, are
one kind of element here. A thread is cut where another can see it. The list of
observers has no lock. A change to it while the other thread runs through it is
misuse, and so is looking at a `MessageEvent` that has been deleted. `for_each`
runs through the list itself, and a copy of it is as good only as long as nothing
is misused; what a run does after that is not the code's.

A message event is never marked for removal, since `unregisterEvent` is not for
it; its `m_awaitingDispatch` is counted up and not looked at.
-/

namespace Fastpath

/-- `fp::Subscriber`'s `is_interested(subject)`, for the subject it was made with. -/
def Subscriber.isInterested (pattern : CString) (subject : Subject UInt64) : Bool :=
  (Subscription.new stringHash pattern).matchesSubject subject

/-- `fp::MessageEvent`, as it is constructed. No address is used twice. -/
structure MessageEvent (n : Nat) where
  address : Nat
  queue : Fin n
  subscriber : Nat
deriving DecidableEq, Repr

/-- `fp::QueueElement`: an event and a bound message, by its place in the pool, or something
else. -/
inductive MessageElement (n : Nat) where
  | message (event : MessageEvent n) (object : Nat)
  | other
deriving DecidableEq, Repr

/-- A queue and the thread that dispatches it. -/
structure DispatchQueue (n : Nat) where
  ring : RingBuffer (MessageElement n) 4096
  /-- `dispatcher`, and whether its function has been run. -/
  dispatcher : Option (MessageElement n × Bool)

/-- The event manager's thread in `handleMessage`. -/
structure Handling (n : Nat) where
  message : Nat
  /-- The observers that `for_each` has not come to. -/
  rest : List (MessageEvent n)

/-- `fp::MessageListener`, the pool of a transport, and the queues. -/
structure MessageDispatch (n : Nat) where
  pool : Pool Message
  /-- `use_count()` of the shared pointers to an object. -/
  useCount : Nat → Nat
  /-- `m_observers[transport]`. They own the events, so no others are there. -/
  observers : List (MessageEvent n)
  nextAddress : Nat
  handling : Option (Handling n)
  queues : Fin n → DispatchQueue n
  /-- The calls of `__notify`, with what they returned. -/
  notified : List (MessageEvent n × Message × Bool)
  /-- The calls of `m_callback`, with what the message was then. -/
  called : List (MessageEvent n × Message)
  /-- A deleted event was looked at, or the observers were changed under the other thread. -/
  misused : Bool

namespace MessageDispatch

variable {n : Nat}

/-- Whether an event has been deleted. -/
instance (e : MessageEvent n) (observers : List (MessageEvent n)) : Decidable (e ∈ observers) :=
  inferInstance

theorem messagePool_pos : 0 < 10000 := by decide

def new : MessageDispatch n where
  pool := .new 10000 messagePool_pos
  useCount := fun _ => 0
  observers := []
  nextAddress := 0
  handling := none
  queues := fun _ => ⟨.new, none⟩
  notified := []
  called := []
  misused := false

/-- A shared pointer is destroyed. -/
def dropReference (i : Nat) (s : MessageDispatch n) : MessageDispatch n :=
  let count := s.useCount i - 1
  { s with
    useCount := Function.update s.useCount i count
    pool := if count = 0 then s.pool.release i else s.pool }

def setQueue (q : Fin n) (queue : DispatchQueue n) (s : MessageDispatch n) : MessageDispatch n :=
  { s with queues := Function.update s.queues q queue }

/-- The event manager's thread is running through the observers, or through their elements. -/
def changeObservers (observers : List (MessageEvent n)) (s : MessageDispatch n) :
    MessageDispatch n :=
  { s with observers := observers, misused := s.misused || s.handling.isSome }

/-- What follows `registerTransport` in `addObserver`, up to the request to the router. -/
def addObserver (queue : Fin n) (subscriber : Nat) (s : MessageDispatch n) : MessageDispatch n :=
  { s.changeObservers (s.observers ++ [⟨s.nextAddress, queue, subscriber⟩]) with
    nextAddress := s.nextAddress + 1 }

/-- The observer that `removeObserver` finds. -/
def observerOf (subscriber : Nat) (s : MessageDispatch n) : Option (MessageEvent n) :=
  s.observers.find? fun e => e.subscriber == subscriber

/-- `removeObserver`, but for the request to the router: the event goes with its place. -/
def removeObserver (subscriber : Nat) (s : MessageDispatch n) : MessageDispatch n :=
  match s.observerOf subscriber with
  | some e => s.changeObservers (s.observers.erase e)
  | none => s

/-- `processData` up to its callback, and `handleMessage` up to its loop. -/
def take (message : Message) (s : MessageDispatch n) : MessageDispatch n :=
  match Pool.allocate.run s.pool with
  | (.ok i, pool) =>
      { s with
        pool := pool.store i message
        useCount := Function.update s.useCount i 1
        handling := some ⟨i, s.observers⟩ }
  | (.error _, pool) => { s with pool := pool }

/-- `MessageEvent::__notify(message)`. Nobody looks at what it returns. -/
def notify (e : MessageEvent n) (i : Nat) (s : MessageDispatch n) : MessageDispatch n :=
  let queue := s.queues e.queue
  let (pushed, ring) := queue.ring.push (.message e i)
  { s.setQueue e.queue { queue with ring := ring } with
    useCount := if pushed then Function.update s.useCount i (s.useCount i + 1) else s.useCount
    notified := s.notified ++ [(e, s.pool.object i, pushed)] }

inductive Step (n : Nat) where
  | addObserver (queue : Fin n) (subscriber : Nat)
  | removeObserver (subscriber : Nat)
  /-- `message` has been decoded. -/
  | take (message : Message)
  /-- A round of `for_each`. -/
  | observe
  /-- The end of `handleMessage`, and of `processData`'s own pointer. -/
  | handled
  /-- Something else is enqueued. -/
  | enqueue (q : Fin n)
  /-- `m_queue.pop(dispatcher)`. -/
  | pop (q : Fin n)
  /-- `dispatcher.function()`. -/
  | run (q : Fin n)
  /-- The rest of `dispatch_event`. -/
  | finish (q : Fin n)

variable (subject : Nat → CString)

def interested (e : MessageEvent n) (m : Message) : Bool :=
  Subscriber.isInterested (subject e.subscriber) (.new stringHash m.subjectString)

def step (s : MessageDispatch n) : Step n → MessageDispatch n
  | .addObserver queue subscriber => s.addObserver queue subscriber
  | .removeObserver subscriber => s.removeObserver subscriber
  | .take message =>
      match s.handling with
      | none => s.take message
      | some _ => s
  | .observe =>
      match s.handling with
      | some ⟨i, e :: rest⟩ =>
          let s := { s with
            handling := some ⟨i, rest⟩
            misused := s.misused || decide (e ∉ s.observers) }
          if interested subject e (s.pool.object i) then s.notify e i else s
      | _ => s
  | .handled =>
      match s.handling with
      | some ⟨i, []⟩ => { s with handling := none }.dropReference i
      | _ => s
  | .enqueue q =>
      s.setQueue q { s.queues q with ring := ((s.queues q).ring.push .other).2 }
  | .pop q =>
      match (s.queues q).dispatcher, (s.queues q).ring.pop with
      | none, (some element, ring) => s.setQueue q ⟨ring, some (element, false)⟩
      | _, _ => s
  | .run q =>
      match (s.queues q).dispatcher with
      | some (.message e i, false) =>
          { s.setQueue q ⟨(s.queues q).ring, some (.message e i, true)⟩ with
            called := s.called ++ [(e, s.pool.object i)] }
      | some (.other, false) => s.setQueue q ⟨(s.queues q).ring, some (.other, true)⟩
      | _ => s
  | .finish q =>
      match (s.queues q).dispatcher with
      | some (.message e i, true) =>
          -- `event->__pendingRemoval()` is read whether or not the event is there
          { s.setQueue q ⟨(s.queues q).ring, none⟩ with
            misused := s.misused || decide (e ∉ s.observers) }.dropReference i
      | some (.other, true) => s.setQueue q ⟨(s.queues q).ring, none⟩
      | _ => s

end MessageDispatch

end Fastpath
