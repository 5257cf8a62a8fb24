import Mathlib.Logic.Function.Basic

/-!
# The lock of the handler tables

`tf::rwlock` is one integer. A writer sets its lowest bit, an upgrader the next
one, and the readers are counted above. Every operation on it is atomic, and the
calls of `GlobalEventManager` are cut at each of them: `registerHandler` takes the
lock to itself, the `foreach_*_matching` take it shared, and `unregisterHandler`
takes it shared and upgrades it in place, still shared, for its erase.

What is in the tables is not looked at here. Whether a call finds its handler, and
whether that one is alone on its descriptor, is up to the run.
-/

namespace Fastpath

/-! The operations of `tf::rwlock`, as they change `m_bits`. -/

namespace RwLock

def reader : BitVec 32 := 4

def upgraded : BitVec 32 := 2

def writer : BitVec 32 := 1

/-- `try_lock()`. -/
def tryLock (bits : BitVec 32) : Bool × BitVec 32 :=
  if bits = 0 then (true, writer) else (false, bits)

def unlock (bits : BitVec 32) : BitVec 32 := bits &&& ~~~(writer ||| upgraded)

/-- The `fetch_add` of `try_lock_shared()`, and whether nobody was writing or upgrading. If
somebody was, `unlockShared` takes it back. -/
def tryLockShared (bits : BitVec 32) : Bool × BitVec 32 :=
  (bits &&& (writer ||| upgraded) = 0, bits + reader)

def unlockShared (bits : BitVec 32) : BitVec 32 := bits - reader

/-- `try_lock_upgrade()`, which leaves the bit set also when it fails. -/
def tryLockUpgrade (bits : BitVec 32) : Bool × BitVec 32 :=
  (bits &&& (upgraded ||| writer) = 0, bits ||| upgraded)

def unlockUpgrade (bits : BitVec 32) : BitVec 32 := bits - upgraded

end RwLock

/-- The calls that take the lock shared. -/
inductive SharedCall where
  /-- `foreach_event_matching`, `foreach_timer_matching`, `foreach_signal_matching`. -/
  | foreachMatching
  | unregisterTimer | unregisterSignal | unregisterIOEvent
deriving DecidableEq, Repr

/-- What an `unregisterHandler` finds in its table. -/
inductive Found where
  | absent | alone | several
deriving DecidableEq, Repr

/-- Where a thread stands. -/
inductive LockPc where
  | idle
  /-- `registerHandler`, in `lock()`. -/
  | locking
  /-- `registerHandler`, from there to `unlock()`. -/
  | writing
  /-- In `lock_shared()`. -/
  | sharing (call : SharedCall)
  /-- In `lock_shared()`, about to take back its `fetch_add`. -/
  | backing (call : SharedCall)
  /-- Behind `lock_shared()`, looking up and calling back. -/
  | reading (call : SharedCall)
  /-- In `lock_upgrade()`, and whether to erase from a table behind it. -/
  | upgrading (erases : Bool)
  | upgraded (erases : Bool)
  /-- Erasing from a table, and whether behind `lock_upgrade()`. -/
  | erasing (upgraded : Bool)
  /-- About to `unlock_shared()`. -/
  | leaving
deriving DecidableEq, Repr

/-- `m_lock` and the threads at it. -/
structure LockedTables (n : Nat) where
  bits : BitVec 32
  threads : Fin n → LockPc

namespace LockedTables

variable {n : Nat}

def new : LockedTables n := ⟨0, fun _ => .idle⟩

def move (t : Fin n) (pc : LockPc) (bits : BitVec 32) (s : LockedTables n) : LockedTables n :=
  ⟨bits, Function.update s.threads t pc⟩

inductive Step (n : Nat) where
  /-- `registerHandler` is called. -/
  | registerHandler (thread : Fin n)
  /-- Another call is made. -/
  | call (thread : Fin n) (call : SharedCall)
  /-- The next thing a thread does; `found` is what it finds if it looks. -/
  | advance (thread : Fin n) (found : Found)

/-- The branches of `unregisterHandler`. A signal's entry is erased before the upgrade; of
several handlers on a descriptor one is erased from a copy. -/
def branch : SharedCall → Found → LockPc
  | .foreachMatching, _ | _, .absent => .leaving
  | .unregisterTimer, _ => .upgrading true
  | .unregisterSignal, _ => .erasing false
  | .unregisterIOEvent, .alone => .upgrading true
  | .unregisterIOEvent, .several => .upgrading false

def advance (t : Fin n) (found : Found) (s : LockedTables n) : LockedTables n :=
  match s.threads t with
  | .idle => s
  | .locking =>
      match RwLock.tryLock s.bits with
      | (true, bits) => s.move t .writing bits
      | (false, bits) => s.move t .locking bits
  | .writing => s.move t .idle (RwLock.unlock s.bits)
  | .sharing call =>
      match RwLock.tryLockShared s.bits with
      | (true, bits) => s.move t (.reading call) bits
      | (false, bits) => s.move t (.backing call) bits
  | .backing call => s.move t (.sharing call) (RwLock.unlockShared s.bits)
  | .reading call => s.move t (branch call found) s.bits
  | .upgrading erases =>
      match RwLock.tryLockUpgrade s.bits with
      | (true, bits) => s.move t (.upgraded erases) bits
      | (false, bits) => s.move t (.upgrading erases) bits
  | .upgraded true => s.move t (.erasing true) s.bits
  | .upgraded false => s.move t .leaving (RwLock.unlockUpgrade s.bits)
  | .erasing true => s.move t .leaving (RwLock.unlockUpgrade s.bits)
  | .erasing false => s.move t (.upgrading false) s.bits
  | .leaving => s.move t .idle (RwLock.unlockShared s.bits)

def step (s : LockedTables n) : Step n → LockedTables n
  | .registerHandler t =>
      match s.threads t with
      | .idle => s.move t .locking s.bits
      | _ => s
  | .call t call =>
      match s.threads t with
      | .idle => s.move t (.sharing call) s.bits
      | _ => s
  | .advance t found => s.advance t found

end LockedTables

namespace LockPc

/-- Between `lock_shared()` and `unlock_shared()`. -/
def shared : LockPc → Bool
  | .reading _ | .upgrading _ | .upgraded _ | .erasing _ | .leaving => true
  | .idle | .locking | .writing | .sharing _ | .backing _ => false

/-- Modifying a handler table. -/
def modifying : LockPc → Bool
  | .writing | .erasing _ => true
  | _ => false

end LockPc

end Fastpath
