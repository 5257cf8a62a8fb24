import Fastpath.Model.Registry
import Fastpath.Model.Storage

/-!
# The event poll on kqueue

`EventPoll::run` of the macOS build: one `kevent` call, and then a loop over the
batch of events it has written. What `kevent` answers is the environment's. The
callbacks are recorded for each event apart.

The two loops that repeat a callback count with an `i` of their own, and this is
the `i` they index the batch with. Behind the events of the batch the array has
not been written, so to look there is to read out of bounds.
-/

namespace Fastpath

/-- The filters that `add` registers. -/
inductive EventFilter where
  | read | write | timer | signal
deriving DecidableEq, Repr

/-- The constants of Darwin's `sys/event.h`. -/
def EventFilter.code : EventFilter → Int16
  | .read => -1
  | .write => -2
  | .signal => -6
  | .timer => -7

/-- `struct kevent`, as far as `run` reads it. -/
structure KEvent where
  ident : UInt64
  filter : EventFilter
  data : Int64
deriving DecidableEq

namespace KEvent

/-- `static_cast<int>(ident)`. -/
def identifier (e : KEvent) : Int32 := e.ident.toUInt32.toInt32

/-- `(filter & constant) == constant`. -/
def passes (e : KEvent) (constant : EventFilter) : Bool :=
  decide (e.filter.code &&& constant.code = constant.code)

end KEvent

/-- A callback with the element it is given. A timer's element has no timeout. -/
inductive Invocation where
  | io (identifier : Int32) (filter : EventType)
  | timer (identifier : Int32)
  | signal (identifier signal : Int32)
deriving DecidableEq

/-- What `kevent` answers: the events it has written, or `-1` and whether `errno` is `EINTR`. -/
inductive KAnswer where
  | events (batch : List KEvent)
  | failed (interrupted : Bool)

/-- `fp::EventPoll`, as far as `run` is concerned. -/
structure Kqueue where
  /-- `m_events`. -/
  events : Int
  errCount : Nat
deriving DecidableEq

namespace Kqueue

/-- The loop `for (int64_t i = …; i < _events[i].data; i++)`, over the array from `i` on. -/
def counted (call : KEvent → Invocation) : Nat → List KEvent → Except Fault (List Invocation)
  | _, [] => .error .outOfBounds
  | i, e :: behind =>
      if (i : Int) < e.data.toInt then (counted call (i + 1) behind).map (call e :: ·)
      else .ok []

/-- One round of the loop over the batch, for the event `e`. -/
def handle (batch : List KEvent) (e : KEvent) : Except Fault (List Invocation) :=
  let filter := EventType.none
  let filter := if e.passes .read then filter.or ⟨true, false⟩ else filter
  let filter := if e.passes .write then filter.or ⟨false, true⟩ else filter
  if filter ≠ EventType.none then .ok [.io e.identifier filter]
  else if e.passes .timer then counted (fun f => .timer f.identifier) 0 batch
  else if e.passes .signal then counted (fun f => .signal (-1) f.identifier) 0 batch
  else .ok []

/-- `run`, its answer and the callbacks of each event in turn. -/
def run (answer : KAnswer) (q : Kqueue) : Except Fault (Int × List (List Invocation) × Kqueue) :=
  if q.events ≠ 0 then
    match answer with
    | .events [] => .ok (0, [], q)
    | .events batch =>
        (batch.mapM (handle batch)).map fun calls => (0, calls, { q with errCount := 0 })
    | .failed interrupted =>
        if interrupted ∧ q.errCount < 10 then .ok (0, [], { q with errCount := q.errCount + 1 })
        else .ok (-1, [], q)
  else .ok (0, [], q)

end Kqueue

end Fastpath
