import Fastpath.Model.LockModes
import Fastpath.Proofs.RwLock

/-!
# The modes of the lock exclude each other

The integer counts the readers, and with them every thread that has added a
`READER` and not yet taken it back or changed to read mode for good. Its lowest
bit is set while a thread is in write mode. The bit for upgraders is set while a
thread is in upgrade mode, and possibly while one is in write mode, where a
failed attempt has left it or the writer has set it for itself; whatever the
writer does in the end, it is gone then or it is the former writer's.

So a writer finds no reader counted, and keeps out whoever comes, and when nobody
has a mode and nobody is in the middle of anything, nothing is left. All of this
is as long as the count fits the integer: it is one for each time that a thread
has taken read mode, and nothing keeps a thread from taking it again.
-/

namespace Fastpath

open Fastpath.Lib

namespace RwLock

variable {bits : BitVec 32}

theorem toNat_dropWriter (h : 1 ≤ bits.toNat) : (dropWriter bits).toNat + 1 = bits.toNat := by
  rw [dropWriter, BitVec.toNat_sub_of_le h]
  exact Nat.sub_add_cancel h

theorem toNat_unlockUpgradeAndLockShared (h : bits.toNat + 2 < UInt32.size) :
    (unlockUpgradeAndLockShared bits).toNat = bits.toNat + 2 := by
  rw [unlockUpgradeAndLockShared, BitVec.toNat_add]
  exact Nat.mod_eq_of_lt h

end RwLock

/-- Whether the operation at hand takes back, or changes into read mode, a `READER` that has been
added. -/
def LockOp.pending : LockOp → Nat
  | .backing _ | .unlockingToShared => 1
  | _ => 0

theorem LockOp.pending_le (op : LockOp) : op.pending ≤ 1 := by
  cases op <;> first | exact Nat.le_refl 1 | exact Nat.zero_le 1

/-- In upgrade mode in all but name: the bit is set, and the other one about to go. -/
def LockOp.dropping : LockOp → Nat
  | .droppingWriter => 1
  | _ => 0

namespace LockThread

def reads (th : LockThread) : Nat := th.held.read

def pending (th : LockThread) : Nat := th.op.pending

def upgrades (th : LockThread) : Nat := th.held.upgrade.toNat

def dropping (th : LockThread) : Nat := th.op.dropping

/-- In write mode, for good or until it calls something. -/
def writes (th : LockThread) : Nat := th.held.write.toNat - th.op.dropping

/-- The modes that the operation at hand needs. -/
def Fits (th : LockThread) : Prop :=
  match th.op with
  | .unlocking | .addingReader | .unlockingToShared | .settingUpgraded | .droppingWriter =>
      th.held.write = true
  | .unlockingShared => 0 < th.held.read
  | .unlockingUpgrade | .promoting _ | .demoting => th.held.upgrade = true
  | .idle | .locking _ | .sharing _ | .backing _ | .upgrading _ => True

end LockThread

namespace LockModes

open LockThread

variable {n : Nat} {s : LockModes n} {t u : Fin n}

/-- So few read modes are out that the integer has room for them and for one more from every
thread. -/
def Room (s : LockModes n) : Prop := tally reads s.threads < 3 * 2 ^ 28

instance (s : LockModes n) : Decidable s.Room := inferInstanceAs (Decidable (_ < _))

/-- What the integer is for numbers of readers, pending readers, upgraders, writers and those
about to change to upgrade mode, and what these numbers may be. -/
def Balanced (bits reads pending upgrades writes dropping : Nat) : Prop :=
  ∃ flag, flag ≤ 1 ∧ bits = 4 * (reads + pending) + 2 * flag + (writes + dropping) ∧
    upgrades + dropping ≤ flag ∧ (writes = 0 → flag = upgrades + dropping) ∧
      upgrades + writes + dropping ≤ 1 ∧ (writes + dropping ≠ 0 → reads = 0)

structure Sound (s : LockModes n) : Prop where
  balanced : Balanced s.bits.toNat (tally reads s.threads) (tally pending s.threads)
    (tally upgrades s.threads) (tally writes s.threads) (tally dropping s.threads)
  fits : ∀ t, (s.threads t).Fits

theorem sound_new : (new : LockModes n).Sound where
  balanced := by
    have hzero : ∀ weight : LockThread → Nat, weight ⟨.none, .idle⟩ = 0 →
        tally weight (new : LockModes n).threads = 0 := fun weight h => tally_eq_zero.mpr fun _ => h
    rw [hzero reads rfl, hzero pending rfl, hzero upgrades rfl, hzero writes rfl,
      hzero dropping rfl]
    exact ⟨0, Nat.zero_le 1, rfl, Nat.le_refl 0, fun _ => rfl, Nat.zero_le 1, fun _ => rfl⟩
  fits _ := trivial

theorem retry_spec (held : HeldModes) (op : LockOp) (hfits : LockThread.Fits ⟨held, op⟩)
    (hpending : op.pending = 0) (hdropping : op.dropping = 0) (waits : Bool) :
    LockThread.Fits ⟨held, retry waits op⟩ ∧ (retry waits op).pending = 0 ∧
      (retry waits op).dropping = 0 := by
  cases waits with
  | true => exact ⟨hfits, hpending, hdropping⟩
  | false => exact ⟨trivial, rfl, rfl⟩

namespace Sound

/-- One thread has done something, and the integer has changed with it. -/
theorem moved (h : s.Sound) {held : HeldModes} {op : LockOp} {bits : BitVec 32}
    (hfits : LockThread.Fits ⟨held, op⟩)
    (hbalanced : ∀ R P U W D,
      R + (s.threads t).held.read = tally reads s.threads + held.read →
      P + (s.threads t).op.pending = tally pending s.threads + op.pending →
      U + (s.threads t).held.upgrade.toNat = tally upgrades s.threads + held.upgrade.toNat →
      W + ((s.threads t).held.write.toNat - (s.threads t).op.dropping) =
        tally writes s.threads + (held.write.toNat - op.dropping) →
      D + (s.threads t).op.dropping = tally dropping s.threads + op.dropping →
      Balanced bits.toNat R P U W D) : (s.move t held op bits).Sound where
  balanced := hbalanced _ _ _ _ _ (tally_update _ _ _ _) (tally_update _ _ _ _)
    (tally_update _ _ _ _) (tally_update _ _ _ _) (tally_update _ _ _ _)
  fits u := by
    by_cases hu : u = t
    · rw [hu, move]
      dsimp only
      rw [Function.update_self]
      exact hfits
    · rw [move]
      dsimp only
      rw [Function.update_of_ne hu]
      exact h.fits u

/-- The thread goes on, and nothing else changes. -/
theorem goesOn (h : s.Sound) {op : LockOp} (hfits : LockThread.Fits ⟨(s.threads t).held, op⟩)
    (hpending : op.pending = (s.threads t).op.pending)
    (hdropping : op.dropping = (s.threads t).op.dropping) :
    (s.move t (s.threads t).held op s.bits).Sound := by
  refine h.moved hfits fun R P U W D hR hP hU hW hD => ?_
  rw [hpending] at hP
  rw [hdropping] at hW hD
  rw [Nat.add_right_cancel hR, Nat.add_right_cancel hP, Nat.add_right_cancel hU,
    Nat.add_right_cancel hW, Nat.add_right_cancel hD]
  exact h.balanced

/-- The integer is not full. -/
theorem bits_lt (h : s.Sound) (hn : n < 2 ^ 28) (hroom : s.Room) :
    s.bits.toNat + 4 < UInt32.size := by
  obtain ⟨flag, hflag, hbits, -, -, hone, -⟩ := h.balanced
  rw [Room] at hroom
  have hpending : tally pending s.threads ≤ n := tally_le fun th => th.op.pending_le
  rw [hbits, UInt32.size]
  omega

theorem read_le (s : LockModes n) (t : Fin n) :
    (s.threads t).held.read ≤ tally reads s.threads := weight_le_tally reads s.threads t

theorem pending_le (s : LockModes n) (t : Fin n) :
    (s.threads t).op.pending ≤ tally pending s.threads := weight_le_tally pending s.threads t

theorem upgrade_le (s : LockModes n) (t : Fin n) :
    (s.threads t).held.upgrade.toNat ≤ tally upgrades s.threads :=
    weight_le_tally upgrades s.threads t

theorem write_le (s : LockModes n) (t : Fin n) :
    (s.threads t).held.write.toNat - (s.threads t).op.dropping ≤ tally writes s.threads :=
  weight_le_tally writes s.threads t

theorem dropping_le (s : LockModes n) (t : Fin n) :
    (s.threads t).op.dropping ≤ tally dropping s.threads := weight_le_tally dropping s.threads t

theorem fits_of (h : s.Sound) {op : LockOp} (ht : (s.threads t).op = op) :
    LockThread.Fits ⟨(s.threads t).held, op⟩ := by
  rw [← ht]
  exact h.fits t

theorem one_le_reads (hread : 0 < (s.threads t).held.read) : 1 ≤ tally reads s.threads :=
  hread.trans_le (read_le s t)

theorem one_le_upgrades (hupgrade : (s.threads t).held.upgrade = true) :
    1 ≤ tally upgrades s.threads := by
  have hle := upgrade_le s t
  rwa [hupgrade] at hle

/-- A thread that is in write mode, whatever it is doing. -/
theorem one_le_writes (hwrite : (s.threads t).held.write = true) :
    1 ≤ tally writes s.threads + tally dropping s.threads := by
  have hle := write_le s t
  have hle' := dropping_le s t
  rw [hwrite, Bool.toNat_true] at hle
  omega

/-! Each operation in turn. -/

theorem lock (h : s.Sound) {waits : Bool} (ht : (s.threads t).op = .locking waits)
    (hzero : s.bits = 0) :
    (s.move t { (s.threads t).held with write := true } .idle RwLock.writer).Sound := by
  obtain ⟨flag, hflag, hbits, hle, hfree, hone, halone⟩ := h.balanced
  rw [hzero] at hbits
  change 0 = _ at hbits
  have hupgrade := upgrade_le s t
  have hwrite := write_le s t
  refine h.moved trivial fun R P U W D hR hP hU hW hD => ?_
  simp only [ht, LockOp.pending, LockOp.dropping, Bool.toNat_true] at hR hP hU hW hD hwrite
  refine ⟨0, Nat.zero_le 1, ?_, by omega, fun _ => by omega, by omega, fun _ => by omega⟩
  show 1 = _
  omega

theorem lockShared (h : s.Sound) {waits : Bool} (hn : n < 2 ^ 28) (hroom : s.Room)
    (ht : (s.threads t).op = .sharing waits) (hfree : s.bits.toNat % 4 = 0) :
    (s.move t { (s.threads t).held with read := (s.threads t).held.read + 1 } .idle
      (RwLock.tryLockShared s.bits).2).Sound := by
  have hbits' := RwLock.toNat_tryLockShared (h.bits_lt hn hroom)
  obtain ⟨flag, hflag, hbits, hle, hnone, hone, halone⟩ := h.balanced
  refine h.moved trivial fun R P U W D hR hP hU hW hD => ?_
  simp only [ht, LockOp.pending, LockOp.dropping] at hR hP hU hW hD
  exact ⟨flag, hflag, by omega, by omega, fun _ => by omega, by omega, fun _ => by omega⟩

/-- A reader that came too late is counted for a moment. -/
theorem notShared (h : s.Sound) {waits : Bool} (hn : n < 2 ^ 28) (hroom : s.Room)
    (ht : (s.threads t).op = .sharing waits) :
    (s.move t (s.threads t).held (.backing waits) (RwLock.tryLockShared s.bits).2).Sound := by
  have hbits' := RwLock.toNat_tryLockShared (h.bits_lt hn hroom)
  obtain ⟨flag, hflag, hbits, hle, hnone, hone, halone⟩ := h.balanced
  refine h.moved trivial fun R P U W D hR hP hU hW hD => ?_
  simp only [ht, LockOp.pending, LockOp.dropping] at hR hP hU hW hD
  exact ⟨flag, hflag, by omega, by omega, fun _ => by omega, by omega, fun _ => by omega⟩

theorem back (h : s.Sound) {waits : Bool} (ht : (s.threads t).op = .backing waits) :
    (s.move t (s.threads t).held (retry waits (.sharing waits))
      (RwLock.unlockShared s.bits)).Sound := by
  have hpending := pending_le s t
  rw [ht] at hpending
  change 1 ≤ _ at hpending
  obtain ⟨flag, hflag, hbits, hle, hnone, hone, halone⟩ := h.balanced
  have hbits' : (RwLock.unlockShared s.bits).toNat + 4 = s.bits.toNat :=
    RwLock.toNat_unlockShared (by omega)
  obtain ⟨hfits, hretry, hretry'⟩ := retry_spec (s.threads t).held (.sharing waits)
    trivial rfl rfl waits
  refine h.moved hfits fun R P U W D hR hP hU hW hD => ?_
  rw [ht, hretry] at hP
  rw [ht, hretry'] at hW hD
  simp only [LockOp.pending, LockOp.dropping] at hR hP hU hW hD
  exact ⟨flag, hflag, by omega, by omega, fun _ => by omega, by omega, fun _ => by omega⟩

theorem unlockShared (h : s.Sound) (ht : (s.threads t).op = .unlockingShared) :
    (s.move t { (s.threads t).held with read := (s.threads t).held.read - 1 } .idle
      (RwLock.unlockShared s.bits)).Sound := by
  have hread : 0 < (s.threads t).held.read := h.fits_of ht
  have hcount := one_le_reads hread
  obtain ⟨flag, hflag, hbits, hle, hnone, hone, halone⟩ := h.balanced
  have hbits' : (RwLock.unlockShared s.bits).toNat + 4 = s.bits.toNat :=
    RwLock.toNat_unlockShared (by omega)
  refine h.moved trivial fun R P U W D hR hP hU hW hD => ?_
  simp only [ht, LockOp.pending, LockOp.dropping] at hR hP hU hW hD
  exact ⟨flag, hflag, by omega, by omega, fun _ => by omega, by omega, fun _ => by omega⟩

theorem upgrade (h : s.Sound) {waits : Bool} (ht : (s.threads t).op = .upgrading waits)
    (hfree : s.bits.toNat % 4 = 0) :
    (s.move t { (s.threads t).held with upgrade := true } .idle
      (RwLock.tryLockUpgrade s.bits).2).Sound := by
  have hbits' := RwLock.toNat_or_upgraded s.bits
  obtain ⟨flag, hflag, hbits, hle, hnone, hone, halone⟩ := h.balanced
  have hupgrade := upgrade_le s t
  refine h.moved trivial fun R P U W D hR hP hU hW hD => ?_
  simp only [ht, LockOp.pending, LockOp.dropping, Bool.toNat_true] at hR hP hU hW hD
  refine ⟨1, Nat.le_refl 1, ?_, by omega, fun _ => by omega, by omega, fun _ => by omega⟩
  show (s.bits ||| RwLock.upgraded).toNat = _
  omega

/-- An upgrader that came too late has set the bit, or found it set. -/
theorem notUpgrade (h : s.Sound) {waits : Bool} (ht : (s.threads t).op = .upgrading waits)
    (htaken : s.bits.toNat % 4 ≠ 0) :
    (s.move t (s.threads t).held (retry waits (.upgrading waits))
      (RwLock.tryLockUpgrade s.bits).2).Sound := by
  have hbits' := RwLock.toNat_or_upgraded s.bits
  obtain ⟨flag, hflag, hbits, hle, hnone, hone, halone⟩ := h.balanced
  obtain ⟨hfits, hretry, hretry'⟩ := retry_spec (s.threads t).held (.upgrading waits)
    trivial rfl rfl waits
  refine h.moved hfits fun R P U W D hR hP hU hW hD => ?_
  rw [ht, hretry] at hP
  rw [ht, hretry'] at hW hD
  simp only [LockOp.pending, LockOp.dropping] at hR hP hU hW hD
  refine ⟨1, Nat.le_refl 1, ?_, by omega, fun _ => by omega, by omega, fun _ => by omega⟩
  show (s.bits ||| RwLock.upgraded).toNat = _
  omega

theorem unlock (h : s.Sound) (ht : (s.threads t).op = .unlocking) :
    (s.move t { (s.threads t).held with write := false } .idle (RwLock.unlock s.bits)).Sound := by
  have hwrite : (s.threads t).held.write = true := h.fits_of ht
  have hcount := one_le_writes hwrite
  have hbits' := RwLock.toNat_unlock s.bits
  obtain ⟨flag, hflag, hbits, hle, hnone, hone, halone⟩ := h.balanced
  refine h.moved trivial fun R P U W D hR hP hU hW hD => ?_
  simp only [ht, hwrite, LockOp.pending, LockOp.dropping, Bool.toNat_true, Bool.toNat_false]
    at hR hP hU hW hD
  exact ⟨0, Nat.zero_le 1, by omega, by omega, fun _ => by omega, by omega, fun _ => by omega⟩

theorem unlockUpgrade (h : s.Sound) (ht : (s.threads t).op = .unlockingUpgrade) :
    (s.move t { (s.threads t).held with upgrade := false } .idle
      (RwLock.unlockUpgrade s.bits)).Sound := by
  have hupgrade : (s.threads t).held.upgrade = true := h.fits_of ht
  have hcount := one_le_upgrades hupgrade
  obtain ⟨flag, hflag, hbits, hle, hnone, hone, halone⟩ := h.balanced
  have hbits' : (RwLock.unlockUpgrade s.bits).toNat + 2 = s.bits.toNat :=
    RwLock.toNat_unlockUpgrade (by omega)
  refine h.moved trivial fun R P U W D hR hP hU hW hD => ?_
  simp only [ht, hupgrade, LockOp.pending, LockOp.dropping, Bool.toNat_true, Bool.toNat_false]
    at hR hP hU hW hD
  exact ⟨0, Nat.zero_le 1, by omega, by omega, fun _ => by omega, by omega, fun _ => by omega⟩

theorem addReader (h : s.Sound) (hn : n < 2 ^ 28) (hroom : s.Room)
    (ht : (s.threads t).op = .addingReader) :
    (s.move t (s.threads t).held .unlockingToShared (RwLock.addReader s.bits)).Sound := by
  have hwrite := h.fits_of ht
  have hbits' := RwLock.toNat_tryLockShared (h.bits_lt hn hroom)
  obtain ⟨flag, hflag, hbits, hle, hnone, hone, halone⟩ := h.balanced
  refine h.moved hwrite fun R P U W D hR hP hU hW hD => ?_
  simp only [ht, LockOp.pending, LockOp.dropping] at hR hP hU hW hD
  refine ⟨flag, hflag, ?_, by omega, fun _ => by omega, by omega, fun _ => by omega⟩
  show (RwLock.tryLockShared s.bits).2.toNat = _
  omega

/-- The `READER` that was added is the thread's, now that it is no longer writing. -/
theorem unlockToShared (h : s.Sound) (ht : (s.threads t).op = .unlockingToShared) :
    (s.move t { (s.threads t).held with write := false, read := (s.threads t).held.read + 1 } .idle
      (RwLock.unlock s.bits)).Sound := by
  have hwrite : (s.threads t).held.write = true := h.fits_of ht
  have hcount := one_le_writes hwrite
  have hpending := pending_le s t
  have hread := read_le s t
  have hbits' := RwLock.toNat_unlock s.bits
  obtain ⟨flag, hflag, hbits, hle, hnone, hone, halone⟩ := h.balanced
  refine h.moved trivial fun R P U W D hR hP hU hW hD => ?_
  simp only [ht, hwrite, LockOp.pending, LockOp.dropping, Bool.toNat_true, Bool.toNat_false]
    at hR hP hU hW hD hpending
  exact ⟨0, Nat.zero_le 1, by omega, by omega, fun _ => by omega, by omega, fun _ => by omega⟩

theorem setUpgraded (h : s.Sound) (ht : (s.threads t).op = .settingUpgraded) :
    (s.move t (s.threads t).held .droppingWriter (RwLock.setUpgraded s.bits)).Sound := by
  have hwrite : (s.threads t).held.write = true := h.fits_of ht
  have hcount := one_le_writes hwrite
  have hbits' := RwLock.toNat_or_upgraded s.bits
  obtain ⟨flag, hflag, hbits, hle, hnone, hone, halone⟩ := h.balanced
  refine h.moved hwrite fun R P U W D hR hP hU hW hD => ?_
  simp only [ht, hwrite, LockOp.pending, LockOp.dropping, Bool.toNat_true] at hR hP hU hW hD
  refine ⟨1, Nat.le_refl 1, ?_, by omega, fun _ => by omega, by omega, fun _ => by omega⟩
  show (s.bits ||| RwLock.upgraded).toNat = _
  omega

theorem dropWriter (h : s.Sound) (ht : (s.threads t).op = .droppingWriter) :
    (s.move t { (s.threads t).held with write := false, upgrade := true } .idle
      (RwLock.dropWriter s.bits)).Sound := by
  have hwrite : (s.threads t).held.write = true := h.fits_of ht
  have hcount := dropping_le s t
  rw [ht] at hcount
  change 1 ≤ _ at hcount
  have hupgrade := upgrade_le s t
  obtain ⟨flag, hflag, hbits, hle, hnone, hone, halone⟩ := h.balanced
  have hbits' : (RwLock.dropWriter s.bits).toNat + 1 = s.bits.toNat :=
    RwLock.toNat_dropWriter (by omega)
  refine h.moved trivial fun R P U W D hR hP hU hW hD => ?_
  simp only [ht, hwrite, LockOp.pending, LockOp.dropping, Bool.toNat_true, Bool.toNat_false]
    at hR hP hU hW hD
  exact ⟨1, Nat.le_refl 1, by omega, by omega, fun _ => by omega, by omega, fun _ => by omega⟩

theorem promote (h : s.Sound) {waits : Bool} (ht : (s.threads t).op = .promoting waits)
    (hupgraded : s.bits = RwLock.upgraded) :
    (s.move t { (s.threads t).held with upgrade := false, write := true } .idle
      RwLock.writer).Sound := by
  have hupgrade : (s.threads t).held.upgrade = true := h.fits_of ht
  have hcount := one_le_upgrades hupgrade
  have hwrite := write_le s t
  obtain ⟨flag, hflag, hbits, hle, hnone, hone, halone⟩ := h.balanced
  rw [hupgraded] at hbits
  change 2 = _ at hbits
  refine h.moved trivial fun R P U W D hR hP hU hW hD => ?_
  simp only [ht, hupgrade, LockOp.pending, LockOp.dropping, Bool.toNat_true, Bool.toNat_false]
    at hR hP hU hW hD hwrite
  refine ⟨0, Nat.zero_le 1, ?_, by omega, fun _ => by omega, by omega, fun _ => by omega⟩
  show 1 = _
  omega

theorem demote (h : s.Sound) (hn : n < 2 ^ 28) (hroom : s.Room)
    (ht : (s.threads t).op = .demoting) :
    (s.move t { (s.threads t).held with upgrade := false, read := (s.threads t).held.read + 1 }
      .idle (RwLock.unlockUpgradeAndLockShared s.bits)).Sound := by
  have hupgrade : (s.threads t).held.upgrade = true := h.fits_of ht
  have hcount := one_le_upgrades hupgrade
  have hlt := h.bits_lt hn hroom
  have hbits' : (RwLock.unlockUpgradeAndLockShared s.bits).toNat = s.bits.toNat + 2 :=
    RwLock.toNat_unlockUpgradeAndLockShared (by omega)
  obtain ⟨flag, hflag, hbits, hle, hnone, hone, halone⟩ := h.balanced
  refine h.moved trivial fun R P U W D hR hP hU hW hD => ?_
  simp only [ht, hupgrade, LockOp.pending, LockOp.dropping, Bool.toNat_true, Bool.toNat_false]
    at hR hP hU hW hD
  exact ⟨0, Nat.zero_le 1, by omega, by omega, fun _ => by omega, by omega, fun _ => by omega⟩

theorem advance (h : s.Sound) (hn : n < 2 ^ 28) (hroom : s.Room) (t : Fin n) :
    (s.advance t).Sound := by
  have hiff : s.bits &&& (RwLock.writer ||| RwLock.upgraded) = 0 ↔ s.bits.toNat % 4 = 0 :=
    RwLock.and_flags_eq_zero_iff
  cases ht : (s.threads t).op with
  | idle =>
      rw [LockModes.advance, ht]
      exact h
  | locking waits =>
      simp only [LockModes.advance, ht, RwLock.tryLock]
      by_cases hzero : s.bits = 0
      · rw [if_pos hzero]
        exact h.lock ht hzero
      · rw [if_neg hzero]
        obtain ⟨hfits, hpending, hdropping⟩ := retry_spec (s.threads t).held (.locking waits)
          trivial rfl rfl waits
        exact h.goesOn hfits (by rw [hpending, ht]; rfl) (by rw [hdropping, ht]; rfl)
  | sharing waits =>
      rw [LockModes.advance, ht]
      dsimp only
      split
      · next bits htry =>
          obtain ⟨hfree, rfl⟩ := Prod.mk.inj htry
          exact h.lockShared hn hroom ht (hiff.mp (of_decide_eq_true hfree))
      · next bits htry =>
          obtain ⟨-, rfl⟩ := Prod.mk.inj htry
          exact h.notShared hn hroom ht
  | backing waits =>
      rw [LockModes.advance, ht]
      exact h.back ht
  | upgrading waits =>
      rw [LockModes.advance, ht]
      dsimp only
      rw [RwLock.tryLockUpgrade, BitVec.or_comm RwLock.upgraded RwLock.writer]
      split
      · next bits htry =>
          obtain ⟨hfree, rfl⟩ := Prod.mk.inj htry
          exact h.upgrade ht (hiff.mp (of_decide_eq_true hfree))
      · next bits htry =>
          obtain ⟨htaken, rfl⟩ := Prod.mk.inj htry
          exact h.notUpgrade ht (mt hiff.mpr (of_decide_eq_false htaken))
  | unlocking =>
      rw [LockModes.advance, ht]
      exact h.unlock ht
  | unlockingShared =>
      rw [LockModes.advance, ht]
      exact h.unlockShared ht
  | unlockingUpgrade =>
      rw [LockModes.advance, ht]
      exact h.unlockUpgrade ht
  | addingReader =>
      rw [LockModes.advance, ht]
      exact h.addReader hn hroom ht
  | unlockingToShared =>
      rw [LockModes.advance, ht]
      exact h.unlockToShared ht
  | settingUpgraded =>
      rw [LockModes.advance, ht]
      exact h.setUpgraded ht
  | droppingWriter =>
      rw [LockModes.advance, ht]
      exact h.dropWriter ht
  | promoting waits =>
      simp only [LockModes.advance, ht, RwLock.tryUnlockUpgradeAndLock]
      by_cases hupgraded : s.bits = RwLock.upgraded
      · rw [if_pos hupgraded]
        exact h.promote ht hupgraded
      · rw [if_neg hupgraded]
        obtain ⟨hfits, hpending, hdropping⟩ := retry_spec _ (.promoting waits) (h.fits_of ht)
          rfl rfl waits
        exact h.goesOn hfits (by rw [hpending, ht]; rfl) (by rw [hdropping, ht]; rfl)
  | demoting =>
      rw [LockModes.advance, ht]
      exact h.demote hn hroom ht

end Sound

/-- A thread calls what the modes that it has allow. -/
def Proper (s : LockModes n) : Step n → Prop
  | .call t call => (s.threads t).op = .idle → call.Allowed (s.threads t).held
  | .advance _ => True

instance decidableProper (s : LockModes n) (i : Step n) : Decidable (s.Proper i) :=
  match i with
  | .call t call =>
      inferInstanceAs (Decidable ((s.threads t).op = .idle → call.Allowed (s.threads t).held))
  | .advance _ => .isTrue trivial

theorem fits_entry {held : HeldModes} {call : LockCall} (h : call.Allowed held) :
    LockThread.Fits ⟨held, call.entry⟩ := by
  cases call <;> exact h

theorem pending_entry (call : LockCall) : call.entry.pending = 0 ∧ call.entry.dropping = 0 := by
  cases call <;> exact ⟨rfl, rfl⟩

protected theorem Sound.step (h : s.Sound) (hn : n < 2 ^ 28) (hroom : s.Room) {i : Step n}
    (hproper : s.Proper i) : (s.step i).Sound := by
  cases i with
  | advance t => exact h.advance hn hroom t
  | call t call =>
      rw [step]
      split
      · next ht =>
          obtain ⟨hpending, hdropping⟩ := pending_entry call
          exact h.goesOn (fits_entry (hproper ht)) (by rw [hpending, ht]; rfl)
            (by rw [hdropping, ht]; rfl)
      · exact h

/-- What is to hold at any moment. -/
structure Safe (s : LockModes n) : Prop where
  /-- One thread at most is in write or in upgrade mode, and not in both. -/
  exclusive : ∀ t u, (s.threads t).held.write ∨ (s.threads t).held.upgrade →
    (s.threads u).held.write ∨ (s.threads u).held.upgrade → t = u
  single : ∀ t, ¬ ((s.threads t).held.write ∧ (s.threads t).held.upgrade)
  alone : ∀ t u, (s.threads t).held.write → (s.threads u).held.read = 0
  /-- A mode that a thread has is in the integer, whoever else has tried for one, and no thread
  has write mode without it. -/
  writing : s.bits &&& RwLock.writer ≠ 0 ↔ ∃ t, (s.threads t).held.write
  upgrading : ∀ t, (s.threads t).held.upgrade → s.bits &&& RwLock.upgraded ≠ 0
  reading : 4 * tally reads s.threads ≤ s.bits.toNat
  /-- Nobody has a mode and nobody is in a call: nothing is left. -/
  clear : (∀ t, s.threads t = ⟨.none, .idle⟩) → s.bits = 0

namespace Sound

/-- In write or in upgrade mode, or changing from the one to the other. -/
theorem exclusive_le (h : s.Sound) :
    tally (fun th => upgrades th + (writes th + dropping th)) s.threads ≤ 1 := by
  obtain ⟨flag, hflag, hbits, hle, hnone, hone, halone⟩ := h.balanced
  rw [tally_add, tally_add]
  omega

theorem writes_pos {th : LockThread} (h : th.held.write = true) : 1 ≤ writes th + dropping th := by
  rw [writes, dropping, h, Bool.toNat_true]
  omega

theorem exclusive_ne_zero {th : LockThread} (h : th.held.write = true ∨ th.held.upgrade = true) :
    upgrades th + (writes th + dropping th) ≠ 0 := by
  rcases h with h | h
  · have hpos := writes_pos h
    omega
  · rw [upgrades, h, Bool.toNat_true]
    omega

/-- The lowest bit is set while a thread is in write mode. -/
theorem writing (h : s.Sound) :
    s.bits &&& RwLock.writer ≠ 0 ↔ ∃ t, (s.threads t).held.write = true := by
  have hbit : (s.bits &&& RwLock.writer).toNat =
      tally writes s.threads + tally dropping s.threads := by
    obtain ⟨flag, hflag, hbits, hle, hnone, hone, halone⟩ := h.balanced
    rw [BitVec.toNat_and]
    show s.bits.toNat &&& 2 ^ 1 - 1 = _
    rw [Nat.and_two_pow_sub_one_eq_mod]
    omega
  rw [Ne, BitVec.toNat_eq, hbit]
  constructor
  · intro hne
    by_contra hnone
    refine hne (Nat.add_eq_zero_iff.mpr
      ⟨tally_eq_zero.mpr fun t => ?_, tally_eq_zero.mpr fun t => ?_⟩)
    · rw [writes, Bool.eq_false_iff.mpr fun hwrite => hnone ⟨t, hwrite⟩]
      exact Nat.zero_sub _
    · cases hop : (s.threads t).op with
      | droppingWriter => exact absurd ⟨t, h.fits_of hop⟩ hnone
      | _ =>
          rw [dropping, hop]
          rfl
  · intro h hzero
    obtain ⟨t, hwrite⟩ := h
    have hpos := one_le_writes hwrite
    rw [hzero] at hpos
    exact absurd hpos (by decide)

theorem upgrading (h : s.Sound) (ht : (s.threads t).held.upgrade = true) :
    s.bits &&& RwLock.upgraded ≠ 0 := by
  have hcount := one_le_upgrades ht
  obtain ⟨flag, hflag, hbits, hle, hnone, hone, halone⟩ := h.balanced
  rw [Ne, BitVec.toNat_eq, RwLock.toNat_and_upgraded]
  show 2 * (s.bits.toNat / 2 % 2) ≠ 0
  omega

theorem clear (h : s.Sound) (hidle : ∀ t, s.threads t = ⟨.none, .idle⟩) : s.bits = 0 := by
  have hzero : ∀ weight : LockThread → Nat, weight ⟨.none, .idle⟩ = 0 →
      tally weight s.threads = 0 := by
    intro weight hweight
    refine tally_eq_zero.mpr fun t => ?_
    rw [hidle t, hweight]
  obtain ⟨flag, hflag, hbits, hle, hnone, hone, halone⟩ := h.balanced
  rw [hzero reads rfl, hzero pending rfl, hzero writes rfl, hzero dropping rfl] at hbits
  rw [hzero upgrades rfl, hzero writes rfl, hzero dropping rfl] at hnone
  refine BitVec.eq_of_toNat_eq ?_
  show s.bits.toNat = 0
  omega

theorem safe (h : s.Sound) : s.Safe where
  exclusive _ _ ht hu :=
    eq_of_tally_le_one h.exclusive_le (exclusive_ne_zero ht) (exclusive_ne_zero hu)
  single t ht := by
    have hle := (weight_le_tally (fun th => upgrades th + (writes th + dropping th)) s.threads
      t).trans h.exclusive_le
    have hpos := writes_pos ht.1
    rw [upgrades, ht.2, Bool.toNat_true] at hle
    omega
  alone t u ht := by
    have hpos := one_le_writes ht
    obtain ⟨flag, hflag, hbits, hle, hnone, hone, halone⟩ := h.balanced
    by_contra hread
    have hcount := one_le_reads (Nat.pos_of_ne_zero hread)
    omega
  writing := h.writing
  upgrading _ ht := h.upgrading ht
  reading := by
    obtain ⟨flag, hflag, hbits, -⟩ := h.balanced
    omega
  clear := h.clear

end Sound

/-- Whatever the threads call, and however their operations are interleaved, as long as the
integer has room for the readers. -/
theorem always_safe (hn : n < 2 ^ 28) (steps : List (Step n))
    (hproper : Along step (fun s i => s.Proper i ∧ s.Room) (new : LockModes n) steps) :
    Always step Safe (new : LockModes n) steps :=
  (hproper.always (fun _ _ h hi => h.step hn hi.2 hi.1) sound_new).mono fun _ h => h.safe

/-- An upgrader is refused by a writer, which changes to upgrade mode, and a reader is refused by
that. -/
theorem changed_safe :
    Always step Safe (new : LockModes 2)
      [.call 0 .lock, .advance 0, .call 1 .tryLockUpgrade, .advance 1,
        .call 0 .unlockAndLockUpgrade,
        .advance 0, .advance 0, .call 1 .tryLockShared, .advance 1, .advance 1,
        .call 0 .unlockUpgrade, .advance 0] :=
  always_safe (by decide) _ (by decide +kernel)

/-! ## Too many readers -/

@[simp] theorem bits_move (s : LockModes n) (t : Fin n) (held : HeldModes) (op : LockOp)
    (bits : BitVec 32) : (s.move t held op bits).bits = bits := rfl

@[simp] theorem threads_move_self (s : LockModes n) (t : Fin n) (held : HeldModes) (op : LockOp)
    (bits : BitVec 32) : (s.move t held op bits).threads t = ⟨held, op⟩ := Function.update_self ..

@[simp] theorem threads_move_of_ne (s : LockModes n) {t u : Fin n} (hne : u ≠ t)
    (held : HeldModes) (op : LockOp) (bits : BitVec 32) :
    (s.move t held op bits).threads u = s.threads u := Function.update_of_ne hne ..

/-- One thread takes read mode over and over, with nobody else about. -/
def shares (t : Fin n) (k : Nat) : List (Step n) :=
  (List.replicate k [.call t .lockShared, .advance t]).flatten

theorem shares_succ (t : Fin n) (k : Nat) :
    shares t (k + 1) = .call t .lockShared :: .advance t :: shares t k := by
  rw [shares, List.replicate_succ, List.flatten_cons]
  rfl

/-- The thread is in read mode so many times, and the integer has counted each of them. -/
structure Shared (k : Nat) (s : LockModes 2) : Prop where
  bits : s.bits = BitVec.ofNat 32 (4 * k)
  reader : s.threads 0 = ⟨⟨k, false, false⟩, .idle⟩
  other : s.threads 1 = ⟨.none, .idle⟩

theorem Shared.next {k : Nat} {s : LockModes 2} (h : Shared k s) :
    Shared (k + 1) ((s.step (.call 0 .lockShared)).step (.advance 0)) := by
  have hcall : s.step (.call 0 .lockShared) =
      s.move 0 ⟨k, false, false⟩ (.sharing true) s.bits := by
    rw [step, h.reader]
    rfl
  have hfree : s.bits &&& (RwLock.writer ||| RwLock.upgraded) = 0 := by
    rw [RwLock.and_flags_eq_zero_iff, h.bits, BitVec.toNat_ofNat]
    omega
  have hadvance : (s.step (.call 0 .lockShared)).step (.advance 0) =
      (s.step (.call 0 .lockShared)).move 0 ⟨k + 1, false, false⟩ .idle
        (s.bits + RwLock.reader) := by
    rw [hcall, step, advance, threads_move_self]
    simp only [RwLock.tryLockShared, bits_move, hfree, decide_true]
  rw [hadvance]
  refine ⟨?_, threads_move_self .., ?_⟩
  · rw [bits_move, h.bits, RwLock.reader, Nat.mul_add, BitVec.ofNat_add]
    rfl
  · rw [threads_move_of_ne _ (by decide), hcall, threads_move_of_ne _ (by decide), h.other]

theorem after_shares (k : Nat) {j : Nat} {s : LockModes 2} (h : Shared j s) :
    Shared (j + k) (after step s (shares 0 k)) ∧ Along step Proper s (shares 0 k) := by
  induction k generalizing j s with
  | zero => exact ⟨h, trivial⟩
  | succ k ih =>
      obtain ⟨hshared, hproper⟩ := ih h.next
      rw [shares_succ]
      refine ⟨?_, fun _ => trivial, trivial, hproper⟩
      rw [Nat.add_comm k 1, ← Nat.add_assoc]
      exact hshared

/-- As soon as the integer is zero again, another thread gets write mode. -/
theorem not_safe_of_shares {k : Nat} (hpos : 0 < k) (hzero : BitVec.ofNat 32 (4 * k) = 0) :
    Along step Proper (new : LockModes 2) (shares 0 k ++ [.call 1 .tryLock, .advance 1]) ∧
      ¬ Always step Safe (new : LockModes 2) (shares 0 k ++ [.call 1 .tryLock, .advance 1]) := by
  obtain ⟨hshared, hproper⟩ := after_shares k (j := 0) (s := new) ⟨rfl, rfl, rfl⟩
  rw [Nat.zero_add] at hshared
  refine ⟨along_append.mpr ⟨hproper, fun _ => trivial, trivial, trivial⟩, fun h => ?_⟩
  have hlast := h.last
  rw [after_append] at hlast
  generalize after step (new : LockModes 2) (shares 0 k) = s at hshared hlast
  change ((s.step (.call 1 .tryLock)).step (.advance 1)).Safe at hlast
  have hcall : s.step (.call 1 .tryLock) = s.move 1 .none (.locking false) s.bits := by
    rw [step, hshared.other]
    rfl
  have hlock : (s.step (.call 1 .tryLock)).step (.advance 1) =
      (s.step (.call 1 .tryLock)).move 1 ⟨0, false, true⟩ .idle RwLock.writer := by
    rw [hcall, step, advance, threads_move_self]
    simp only [RwLock.tryLock, bits_move, hshared.bits, hzero, if_true]
    rfl
  -- the writer has the lock to itself, and there is a reader
  have hnone := hlast.alone 1 0 (by rw [hlock, threads_move_self])
  rw [hlock, threads_move_of_ne _ (by decide), hcall, threads_move_of_ne _ (by decide),
    hshared.reader] at hnone
  exact absurd hnone (Nat.ne_of_gt hpos)

/-- A thread takes read mode `2 ^ 30` times, and another one gets write mode beside it. -/
theorem shares_not_safe :
    Along step Proper (new : LockModes 2) (shares 0 (2 ^ 30) ++ [.call 1 .tryLock, .advance 1]) ∧
      ¬ Always step Safe (new : LockModes 2)
        (shares 0 (2 ^ 30) ++ [.call 1 .tryLock, .advance 1]) :=
  not_safe_of_shares (by decide) (by decide)

end LockModes

end Fastpath
