import Mathlib.Logic.Function.Basic

/-!
# The named queues of one process id

The two queues of a client are named objects of the shared segment. Whoever
opens a queue finds the object of that name or constructs it, keeps a pointer,
and with the default argument destroys what the pointer points at when it goes.

A client opens both and so does the router. The client lets go of the queue it
sends on without destroying it and destroys the other; the router destroys both.
Each end may use its pointers as long as it is open. An object used or destroyed
through a pointer when it is no longer there is recorded as a misuse.

There may be any number of ends for one process id: the names are made of the id,
not of the connection.
-/

namespace Fastpath

/-- `ClientQueue_<pid>` and `ServerQueue_<pid>`. -/
inductive QueueName where
  | client | server
deriving DecidableEq

/-- The segment, as far as these two names go. Objects are numbered as they are
constructed. -/
structure Segment where
  named : QueueName → Option Nat
  next : Nat
  /-- Something was pushed to, read from or destroyed that was not there. -/
  misused : Bool

/-- A `SharedMemoryBuffer` as what it points at. -/
structure QueueHandle where
  name : QueueName
  object : Nat
  sharedQueue : Bool

namespace Segment

def new : Segment := ⟨fun _ => none, 0, false⟩

/-- The object a handle points at has been constructed and not destroyed. -/
def Alive (s : Segment) (h : QueueHandle) : Prop := s.named h.name = some h.object

instance (s : Segment) (h : QueueHandle) : Decidable (s.Alive h) :=
  inferInstanceAs (Decidable (s.named h.name = some h.object))

/-- The name stands for a new object. -/
def construct (name : QueueName) (s : Segment) : Segment :=
  { s with named := Function.update s.named name (some s.next), next := s.next + 1 }

/-- The object of that name is destroyed, and the name with it. -/
def remove (name : QueueName) (s : Segment) : Segment :=
  { s with named := Function.update s.named name none }

def findOrConstruct (name : QueueName) (s : Segment) : Nat × Segment :=
  match s.named name with
  | some object => (object, s)
  | none => (s.next, s.construct name)

/-- `SharedMemoryBuffer(name, manager)`. -/
def openQueue (name : QueueName) (s : Segment) : QueueHandle × Segment :=
  (⟨name, (s.findOrConstruct name).1, false⟩, (s.findOrConstruct name).2)

/-- A `push`, `front` or `pop` through the handle. -/
def use (h : QueueHandle) (s : Segment) : Segment :=
  if s.Alive h then s else { s with misused := true }

/-- `destroy_ptr`. -/
def destroyPtr (h : QueueHandle) (s : Segment) : Segment :=
  if s.Alive h then s.remove h.name else { s with misused := true }

/-- `~SharedMemoryBuffer()`. -/
def closeQueue (h : QueueHandle) (s : Segment) : Segment :=
  if h.sharedQueue then s else s.destroyPtr h

end Segment

/-! ## The two kinds of end -/

inductive QueueEnd where
  | closed
  /-- A connected `SHMTransport`. -/
  | client (recvQueue sendQueue : QueueHandle)
  /-- A `shm_peer_connection`. -/
  | router (clientQueue serverQueue : QueueHandle)

/-- The segment, and the ends that have been opened for one process id. -/
structure Sessions where
  segment : Segment
  ends : Nat → QueueEnd

inductive Sessions.Step where
  /-- The client's `on_connect`. -/
  | connect (i : Nat)
  /-- `__disconnect`. -/
  | disconnect (i : Nat)
  /-- The push of `sendMessage`. -/
  | sendMessage (i : Nat)
  /-- A round of the receiver event's `retrieve`. -/
  | receive (i : Nat)
  /-- `shm_peer_connection(…)`. -/
  | construct (i : Nat)
  /-- `~shm_peer_connection()`. -/
  | destroy (i : Nat)
  /-- The push of `sendBuffer`. -/
  | sendBuffer (i : Nat)
  /-- A round of `notificationHandler`'s `retrieve`. -/
  | notification (i : Nat)

namespace Sessions

def new : Sessions := ⟨.new, fun _ => .closed⟩

def set (i : Nat) (segment : Segment) (e : QueueEnd) (s : Sessions) : Sessions :=
  ⟨segment, Function.update s.ends i e⟩

/-- Steps of an end that is not there, or is of the other kind, do not happen. -/
def step (s : Sessions) : Step → Sessions
  | .connect i =>
      match s.ends i with
      | .closed =>
          let (recvQueue, segment) := s.segment.openQueue .client
          let (sendQueue, segment) := segment.openQueue .server
          s.set i segment (.client recvQueue sendQueue)
      | _ => s
  | .disconnect i =>
      match s.ends i with
      -- `m_sendQueue` is released, and its destructor never runs
      | .client recvQueue _ => s.set i (s.segment.closeQueue recvQueue) .closed
      | _ => s
  | .sendMessage i =>
      match s.ends i with
      | .client _ sendQueue => { s with segment := s.segment.use sendQueue }
      | _ => s
  | .receive i =>
      match s.ends i with
      | .client recvQueue _ => { s with segment := s.segment.use recvQueue }
      | _ => s
  | .construct i =>
      match s.ends i with
      | .closed =>
          let (clientQueue, segment) := s.segment.openQueue .client
          let (serverQueue, segment) := segment.openQueue .server
          s.set i segment (.router clientQueue serverQueue)
      | _ => s
  | .destroy i =>
      match s.ends i with
      -- members go in the reverse order of their declaration
      | .router clientQueue serverQueue =>
          s.set i ((s.segment.closeQueue serverQueue).closeQueue clientQueue) .closed
      | _ => s
  | .sendBuffer i =>
      match s.ends i with
      | .router clientQueue _ => { s with segment := s.segment.use clientQueue }
      | _ => s
  | .notification i =>
      match s.ends i with
      | .router _ serverQueue => { s with segment := s.segment.use serverQueue }
      | _ => s

end Sessions

end Fastpath
