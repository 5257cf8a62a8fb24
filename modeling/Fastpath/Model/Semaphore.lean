import Mathlib.Logic.Function.Basic
import Mathlib.Algebra.Order.Ring.Int

/-!
# The light semaphore

`tf::LightweightSemaphore` counts in `m_count` and goes to a semaphore of the
kernel only when a thread has to sleep, or to be woken. A negative count is the
number of threads that have gone to sleep, or are about to, and that nobody has
signalled for.

The kernel's semaphore is the one of POSIX, or an `eventfd`, whatever the build
has found. The difference is in `wait()`: a `sem_wait` takes one permit, and a
`read` from an `eventfd` returns the whole count and leaves nothing. A handler
that runs while a thread sleeps ends either with `EINTR`. The `sem_wait` is made
again, and the `read` is not: nobody looks at what it returns.

A call is cut at every access to `m_count` and to the kernel's semaphore. A
`compare_exchange_weak` may fail for no reason. `m_count` is an `ssize_t`, and
adding to it atomically wraps.
-/

namespace Fastpath

/-- `m_sema`. -/
inductive Kernel where
  | posix
  | eventfd
deriving DecidableEq, Repr

/-- What a `wait()` that has come back has left of the count. -/
def Kernel.wake (kernel : Kernel) (permits : Nat) : Nat :=
  match kernel with
  | .posix => permits - 1
  | .eventfd => 0

/-- What an atomic addition leaves in an `ssize_t`. -/
def ssize (value : Int) : Int := value.bmod (2 ^ 64)

theorem ssize_eq {value : Int} (hlow : -2 ^ 63 ≤ value) (hhigh : value < 2 ^ 63) :
    ssize value = value :=
  Int.bmod_eq_of_le (by omega) (by omega)

/-- The calls that acquire. -/
inductive Acquire where
  | tryWait
  | wait
  | tryWaitMany (max : Nat)
  | waitMany (max : Nat)
deriving DecidableEq, Repr

/-- The access that a thread is about to make. `again` is set in the `tryWaitMany` that a
`waitMany` ends with, when it has slept or might have. -/
inductive SemOp where
  /-- In no call. -/
  | idle
  /-- `m_count.load`, at the start of `tryWait` or `tryWaitMany`. -/
  | loading (call : Acquire) (again : Bool)
  /-- `m_count.compare_exchange_weak`. -/
  | trying (call : Acquire) (again : Bool) (oldCount : Int)
  /-- `m_count.load` in the loop of the partial spinning, or behind it `m_count.fetch_sub`. -/
  | spinning (call : Acquire) (spin : Nat)
  /-- `m_count.compare_exchange_strong`. -/
  | grabbing (call : Acquire) (spin : Nat) (oldCount : Int)
  /-- `m_sema.wait()`. -/
  | sleeping (call : Acquire)
  /-- In `signal(count)`: `m_count.fetch_add`. -/
  | adding (count : Nat)
  /-- In `m_sema.signal(toRelease)`: what is left of it. -/
  | posting (left : Nat)
deriving DecidableEq, Repr

/-- `tf::LightweightSemaphore` and its threads. -/
structure Semaphore (n : Nat) where
  /-- `m_count`. -/
  count : Int
  /-- The count of `m_sema`. -/
  permits : Nat
  threads : Fin n → SemOp
  /-- The permits given by all calls of `signal`. -/
  signalled : Nat
  /-- The permits that threads have got hold of. -/
  acquired : Nat
  /-- What each call that acquires has returned; `true` is one. -/
  returned : List (Acquire × Nat)

namespace Acquire

/-- What a `compare_exchange` is to put in the place of `oldCount`. -/
def newCount (call : Acquire) (again : Bool) (oldCount : Int) : Int :=
  match call with
  | .tryWait | .wait => oldCount - 1
  | .tryWaitMany max => if oldCount > max then oldCount - max else 0
  | .waitMany max =>
      let max := if again then max - 1 else max
      if oldCount > max then oldCount - max else 0

/-- Whether the call goes on to spin when it has got nothing. -/
def blocks : Acquire → Bool
  | .tryWait | .tryWaitMany _ => false
  | .wait => true
  | .waitMany max => 0 < max

end Acquire

namespace Semaphore

variable {n : Nat}

def new (initialCount : Nat) : Semaphore n := ⟨initialCount, 0, fun _ => .idle, 0, 0, []⟩

def goTo (t : Fin n) (op : SemOp) (s : Semaphore n) : Semaphore n :=
  { s with threads := Function.update s.threads t op }

def ret (t : Fin n) (call : Acquire) (result : Nat) (s : Semaphore n) : Semaphore n :=
  { s.goTo t .idle with returned := s.returned ++ [(call, result)] }

/-- A `tryWait` or `tryWaitMany` has come back. -/
def tried (t : Fin n) (call : Acquire) (again : Bool) (result : Nat) (s : Semaphore n) :
    Semaphore n :=
  if again then s.ret t call (1 + result)
  else if result = 0 ∧ call.blocks then s.goTo t (.spinning call 10000)
  else s.ret t call result

/-- A `while` of `tryWait` or `tryWaitMany` looks at the count it has. -/
def look (t : Fin n) (call : Acquire) (again : Bool) (oldCount : Int) (s : Semaphore n) :
    Semaphore n :=
  if oldCount > 0 then s.goTo t (.trying call again oldCount) else s.tried t call again 0

/-- One permit has been got the hard way. -/
def woken (t : Fin n) (call : Acquire) (s : Semaphore n) : Semaphore n :=
  match call with
  | .waitMany max =>
      if max > 1 then s.goTo t (.loading call true) else s.ret t call 1
  | _ => s.ret t call 1

/-- The next access of the partial spinning, with so many rounds to go. -/
def spun (t : Fin n) (call : Acquire) (spin : Nat) (s : Semaphore n) : Semaphore n :=
  match spin with
  | spin + 1 =>
      if s.count > 0 then s.goTo t (.grabbing call spin s.count) else s.goTo t (.spinning call spin)
  | 0 =>
      let count := ssize (s.count - 1)
      if s.count ≤ 0 then goTo t (.sleeping call) { s with count := count }
      else woken t call { s with count := count, acquired := s.acquired + 1 }

/-- What `m_sema.signal` is called with, a `static_cast<int>`, if it is called. -/
def toRelease (oldCount : Int) (count : Nat) : Nat :=
  let toRelease := if -oldCount < count then -oldCount else count
  if toRelease > 0 then (toRelease.bmod (2 ^ 32)).toNat else 0

/-- `m_sema.signal` has so many to go. -/
def post (t : Fin n) (left : Nat) (s : Semaphore n) : Semaphore n :=
  if left = 0 then s.goTo t .idle else s.goTo t (.posting left)

/-- The next access of a thread. -/
def advance (kernel : Kernel) (t : Fin n) (spurious : Bool) (s : Semaphore n) : Semaphore n :=
  match s.threads t with
  | .idle => s
  | .loading call again => s.look t call again s.count
  | .trying call again oldCount =>
      if s.count = oldCount ∧ spurious = false then
        let newCount := call.newCount again oldCount
        let result := (oldCount - newCount).toNat
        tried t call again result { s with count := newCount, acquired := s.acquired + result }
      else s.look t call again s.count
  | .spinning call spin => s.spun t call spin
  | .grabbing call spin oldCount =>
      if s.count = oldCount then
        let newCount := call.newCount false oldCount
        let result := (oldCount - newCount).toNat
        ret t call result { s with count := newCount, acquired := s.acquired + result }
      else s.goTo t (.spinning call spin)
  | .sleeping call =>
      if s.permits = 0 then s
      else
        woken t call
          { s with permits := kernel.wake s.permits, acquired := s.acquired + 1 }
  | .adding count =>
      post t (toRelease s.count count)
        { s with count := ssize (s.count + count), signalled := s.signalled + count }
  | .posting left => post t (left - 1) { s with permits := s.permits + 1 }

inductive Step (n : Nat) where
  | acquire (thread : Fin n) (call : Acquire)
  | signal (thread : Fin n) (count : Nat)
  /-- The next access of a thread. -/
  | advance (thread : Fin n) (spurious : Bool)
  /-- A handler is run where the thread sleeps. -/
  | interrupted (thread : Fin n)

/-- `m_sema.wait()` has come back from the kernel with `EINTR`. -/
def interrupt (kernel : Kernel) (t : Fin n) (s : Semaphore n) : Semaphore n :=
  match kernel with
  | .posix => s
  | .eventfd =>
      match s.threads t with
      | .sleeping call =>
          -- a `read` that finds something is not interrupted
          if s.permits = 0 then woken t call { s with acquired := s.acquired + 1 } else s
      | _ => s

/-- A thread in a call does not call again. -/
def step (kernel : Kernel) (s : Semaphore n) : Step n → Semaphore n
  | .acquire t call =>
      match s.threads t with
      | .idle => s.goTo t (.loading call false)
      | _ => s
  | .signal t count =>
      match s.threads t with
      | .idle => s.goTo t (.adding count)
      | _ => s
  | .advance t spurious => s.advance kernel t spurious
  | .interrupted t => s.interrupt kernel t

/-- `availableApprox()`. -/
def availableApprox (s : Semaphore n) : Int := if s.count > 0 then s.count else 0

end Semaphore

end Fastpath
