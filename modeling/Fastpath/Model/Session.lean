/-!
# Starting and stopping the session

`Session::start` makes an event manager and a thread that runs its event loop.
`Session::stop` sets a flag that the loop tests, wakes the loop, and joins its
thread. The two threads are cut at each access to what they share. When the
session is stopped it may be started again, with a new event manager.

The loop's poll comes back when a descriptor is ready, which is up to the
environment, or when the notifier has been signalled since it came back last:
it is polled for edges, and nobody reads it.
-/

namespace Fastpath

/-- Where the event loop's thread stands. -/
inductive LoopPc where
  /-- About to load `m_shutdown`. -/
  | testing
  /-- `m_shutdown` was `false`: in `waitForEvent()`, about to set `m_in_event_wait`. -/
  | tested
  /-- In the poll. -/
  | polling
  /-- Back from the poll, about to clear `m_in_event_wait`. -/
  | returned
  /-- Out of the loop, about to clear `m_shutdown`. -/
  | exiting
  /-- About to delete the event manager. -/
  | resetting
  /-- The thread is not there, or has ended. -/
  | ended
deriving DecidableEq, Repr

/-- Where the thread stands that starts and stops the session. -/
inductive ControlPc where
  | stopped
  | started
  /-- In `stop()`: `m_shutdown` is set, and `m_in_event_wait` is about to be loaded. -/
  | shuttingDown
  /-- In `stop()`: `m_in_event_wait` was set, and the notifier is about to be signalled. -/
  | signalling
  /-- In `stop()`, about to join. -/
  | joining
deriving DecidableEq, Repr

structure Session where
  shutdown : Bool
  inEventWait : Bool
  /-- The notifier has been written to since the poll last reported it. -/
  signalled : Bool
  /-- The event manager is there. -/
  eventManager : Bool
  loop : LoopPc
  control : ControlPc
  /-- `stop()` has used the event manager when it was not there. -/
  misused : Bool
deriving DecidableEq, Repr

namespace Session

def new : Session := ⟨false, false, false, false, .ended, .stopped, false⟩

inductive Step where
  /-- The next access of the event loop's thread; whether the poll finds a descriptor ready. -/
  | loop (ready : Bool)
  /-- The next access of `start()` or `stop()`. -/
  | control

def loopStep (ready : Bool) (s : Session) : Session :=
  match s.loop with
  | .testing => { s with loop := if s.shutdown then .exiting else .tested }
  | .tested => { s with inEventWait := true, loop := .polling }
  | .polling =>
      if s.signalled || ready then { s with signalled := false, loop := .returned } else s
  | .returned => { s with inEventWait := false, loop := .testing }
  | .exiting => { s with shutdown := false, loop := .resetting }
  | .resetting => { s with eventManager := false, loop := .ended }
  | .ended => s

def controlStep (s : Session) : Session :=
  match s.control with
  | .stopped =>
      { s with
        inEventWait := false
        signalled := false
        eventManager := true
        loop := .testing
        control := .started }
  | .started => { s with shutdown := true, control := .shuttingDown }
  | .shuttingDown =>
      if s.eventManager then
        { s with control := if s.inEventWait then .signalling else .joining }
      else { s with control := .joining, misused := true }
  | .signalling =>
      if s.eventManager then { s with signalled := true, control := .joining }
      else { s with control := .joining, misused := true }
  | .joining => if s.loop = .ended then { s with control := .stopped } else s

def step (s : Session) : Step → Session
  | .loop ready => s.loopStep ready
  | .control => s.controlStep

/-- `stop()` has finished its `notify()`, and the loop is in the poll with nothing to wake it. -/
def Lost (s : Session) : Prop :=
  s.control = .joining ∧ s.shutdown = true ∧ s.loop = .polling ∧ s.signalled = false

end Session

end Fastpath
