import Fastpath.Model.RwLock

/-!
# Every mode of the lock

A thread has the lock in read, upgrade or write mode, or in several of them, or
in none, and in read mode as often as it has asked for it. Whatever it calls is a
sequence of atomic operations on the one integer. A call that waits repeats the
attempt that its `try_` form makes once. Changing from write mode takes two
operations, and the thread is in write mode until the second.
-/

namespace Fastpath

namespace RwLock

/-- `try_unlock_upgrade_and_lock()`. -/
def tryUnlockUpgradeAndLock (bits : BitVec 32) : Bool × BitVec 32 :=
  if bits = upgraded then (true, writer) else (false, bits)

def unlockUpgradeAndLockShared (bits : BitVec 32) : BitVec 32 := bits + (reader - upgraded)

/-- What `unlock_and_lock_shared()` does in front of `unlock()`. -/
def addReader (bits : BitVec 32) : BitVec 32 := bits + reader

/-- The two steps of `unlock_and_lock_upgrade()`. -/
def setUpgraded (bits : BitVec 32) : BitVec 32 := bits ||| upgraded

def dropWriter (bits : BitVec 32) : BitVec 32 := bits - writer

end RwLock

/-- The functions of `tf::rwlock`. -/
inductive LockCall where
  | lock | tryLock
  | lockShared | tryLockShared
  | lockUpgrade | tryLockUpgrade
  | unlock | unlockShared | unlockUpgrade
  | unlockAndLockShared
  | unlockAndLockUpgrade
  | unlockUpgradeAndLock | tryUnlockUpgradeAndLock
  | unlockUpgradeAndLockShared
deriving DecidableEq, Repr

/-- The atomic operation a thread is about to do; `waits` if its call repeats a failed attempt. -/
inductive LockOp where
  /-- In no call. -/
  | idle
  | locking (waits : Bool)
  | sharing (waits : Bool)
  /-- To take back the `fetch_add` of a failed `try_lock_shared`. -/
  | backing (waits : Bool)
  | upgrading (waits : Bool)
  | unlocking | unlockingShared | unlockingUpgrade
  /-- The two of `unlock_and_lock_shared`. -/
  | addingReader | unlockingToShared
  /-- The two of `unlock_and_lock_upgrade`. -/
  | settingUpgraded | droppingWriter
  | promoting (waits : Bool)
  | demoting
deriving DecidableEq, Repr

/-- The modes a thread has the lock in; it may be in read mode several times over. -/
structure HeldModes where
  read : Nat
  upgrade : Bool
  write : Bool
deriving DecidableEq, Repr

def HeldModes.none : HeldModes := ⟨0, false, false⟩

structure LockThread where
  held : HeldModes
  op : LockOp
deriving DecidableEq, Repr

/-- `m_bits`, and the threads. -/
structure LockModes (n : Nat) where
  bits : BitVec 32
  threads : Fin n → LockThread

namespace LockCall

/-- The first operation of a call. -/
def entry : LockCall → LockOp
  | .lock => .locking true
  | .tryLock => .locking false
  | .lockShared => .sharing true
  | .tryLockShared => .sharing false
  | .lockUpgrade => .upgrading true
  | .tryLockUpgrade => .upgrading false
  | .unlock => .unlocking
  | .unlockShared => .unlockingShared
  | .unlockUpgrade => .unlockingUpgrade
  | .unlockAndLockShared => .addingReader
  | .unlockAndLockUpgrade => .settingUpgraded
  | .unlockUpgradeAndLock => .promoting true
  | .tryUnlockUpgradeAndLock => .promoting false
  | .unlockUpgradeAndLockShared => .demoting

/-- A thread releases or converts a mode it has. -/
def Allowed (held : HeldModes) : LockCall → Prop
  | .lock | .tryLock | .lockShared | .tryLockShared | .lockUpgrade | .tryLockUpgrade => True
  | .unlock | .unlockAndLockShared | .unlockAndLockUpgrade => held.write = true
  | .unlockShared => 0 < held.read
  | .unlockUpgrade | .unlockUpgradeAndLock | .tryUnlockUpgradeAndLock
  | .unlockUpgradeAndLockShared => held.upgrade = true

instance decidableAllowed (held : HeldModes) (call : LockCall) : Decidable (call.Allowed held) :=
  match call with
  | .lock | .tryLock | .lockShared | .tryLockShared | .lockUpgrade | .tryLockUpgrade =>
      .isTrue trivial
  | .unlock | .unlockAndLockShared | .unlockAndLockUpgrade =>
      inferInstanceAs (Decidable (held.write = true))
  | .unlockShared => inferInstanceAs (Decidable (0 < held.read))
  | .unlockUpgrade | .unlockUpgradeAndLock | .tryUnlockUpgradeAndLock
  | .unlockUpgradeAndLockShared => inferInstanceAs (Decidable (held.upgrade = true))

end LockCall

namespace LockModes

variable {n : Nat}

def new : LockModes n := ⟨0, fun _ => ⟨.none, .idle⟩⟩

def move (t : Fin n) (held : HeldModes) (op : LockOp) (bits : BitVec 32) (s : LockModes n) :
    LockModes n :=
  ⟨bits, Function.update s.threads t ⟨held, op⟩⟩

/-- Behind a failed attempt. -/
def retry (waits : Bool) (op : LockOp) : LockOp := if waits then op else .idle

/-- The atomic operation that a thread is about to do. -/
def advance (t : Fin n) (s : LockModes n) : LockModes n :=
  let held := (s.threads t).held
  match (s.threads t).op with
  | .idle => s
  | .locking waits =>
      match RwLock.tryLock s.bits with
      | (true, bits) => s.move t { held with write := true } .idle bits
      | (false, bits) => s.move t held (retry waits (.locking waits)) bits
  | .sharing waits =>
      match RwLock.tryLockShared s.bits with
      | (true, bits) => s.move t { held with read := held.read + 1 } .idle bits
      | (false, bits) => s.move t held (.backing waits) bits
  | .backing waits => s.move t held (retry waits (.sharing waits)) (RwLock.unlockShared s.bits)
  | .upgrading waits =>
      match RwLock.tryLockUpgrade s.bits with
      | (true, bits) => s.move t { held with upgrade := true } .idle bits
      | (false, bits) => s.move t held (retry waits (.upgrading waits)) bits
  | .unlocking => s.move t { held with write := false } .idle (RwLock.unlock s.bits)
  | .unlockingShared =>
      s.move t { held with read := held.read - 1 } .idle (RwLock.unlockShared s.bits)
  | .unlockingUpgrade =>
      s.move t { held with upgrade := false } .idle (RwLock.unlockUpgrade s.bits)
  | .addingReader => s.move t held .unlockingToShared (RwLock.addReader s.bits)
  | .unlockingToShared =>
      s.move t { held with write := false, read := held.read + 1 } .idle (RwLock.unlock s.bits)
  | .settingUpgraded => s.move t held .droppingWriter (RwLock.setUpgraded s.bits)
  | .droppingWriter =>
      s.move t { held with write := false, upgrade := true } .idle (RwLock.dropWriter s.bits)
  | .promoting waits =>
      match RwLock.tryUnlockUpgradeAndLock s.bits with
      | (true, bits) => s.move t { held with upgrade := false, write := true } .idle bits
      | (false, bits) => s.move t held (retry waits (.promoting waits)) bits
  | .demoting =>
      s.move t { held with upgrade := false, read := held.read + 1 } .idle
        (RwLock.unlockUpgradeAndLockShared s.bits)

inductive Step (n : Nat) where
  | call (thread : Fin n) (call : LockCall)
  | advance (thread : Fin n)

def step (s : LockModes n) : Step n → LockModes n
  | .call t call =>
      match (s.threads t).op with
      | .idle => s.move t (s.threads t).held call.entry s.bits
      | _ => s
  | .advance t => s.advance t

end LockModes

end Fastpath
