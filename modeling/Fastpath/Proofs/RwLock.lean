import Mathlib.Data.Nat.Bitwise
import Fastpath.Lib.Steps
import Fastpath.Lib.Tally
import Fastpath.Model.RwLock

/-!
# What the lock of the handler tables keeps apart

The integer is what the threads have put into it: one `READER` for each thread
that has added one, and a flag for the one thread that writes or has upgraded. So
a writer is alone, and an upgrader keeps new readers out. It does not wait for the
readers that are in already, and it is one itself; and the entry of a signal is
erased with no flag set at all.
-/

namespace Fastpath

open Fastpath.Lib

namespace RwLock

variable {bits : BitVec 32}

theorem toNat_and_flags : (bits &&& (writer ||| upgraded)).toNat = bits.toNat % 4 := by
  rw [BitVec.toNat_and]
  exact Nat.and_two_pow_sub_one_eq_mod bits.toNat 2

theorem and_flags_eq_zero_iff : bits &&& (writer ||| upgraded) = 0 ↔ bits.toNat % 4 = 0 := by
  rw [← toNat_and_flags, BitVec.toNat_eq]
  rfl

theorem toNat_tryLockShared (h : bits.toNat + 4 < UInt32.size) :
    (tryLockShared bits).2.toNat = bits.toNat + 4 := by
  rw [tryLockShared, BitVec.toNat_add]
  exact Nat.mod_eq_of_lt h

theorem toNat_unlockShared (h : 4 ≤ bits.toNat) : (unlockShared bits).toNat + 4 = bits.toNat := by
  rw [unlockShared, BitVec.toNat_sub_of_le h]
  exact Nat.sub_add_cancel h

theorem toNat_unlockUpgrade (h : 2 ≤ bits.toNat) : (unlockUpgrade bits).toNat + 2 = bits.toNat := by
  rw [unlockUpgrade, BitVec.toNat_sub_of_le h]
  exact Nat.sub_add_cancel h

theorem toNat_unlock (bits : BitVec 32) : (unlock bits).toNat + bits.toNat % 4 = bits.toNat := by
  have hsplit : (bits &&& (writer ||| upgraded)) + unlock bits = bits := by
    rw [unlock, BitVec.add_eq_or_of_and_eq_zero, ← BitVec.and_or_distrib_left]
    · rw [show (writer ||| upgraded) ||| ~~~(writer ||| upgraded) = BitVec.allOnes 32
        from by decide,
        BitVec.and_allOnes]
    · rw [← BitVec.and_assoc, BitVec.and_comm _ bits, ← BitVec.and_assoc, BitVec.and_self,
        BitVec.and_assoc,
        show (writer ||| upgraded) &&& ~~~(writer ||| upgraded) = 0#32 from by decide,
        BitVec.and_zero]
  have hunlock : unlock bits = bits - (bits &&& (writer ||| upgraded)) := by
    rw [BitVec.eq_sub_iff_add_eq, BitVec.add_comm]
    exact hsplit
  have hle : (bits &&& (writer ||| upgraded)).toNat ≤ bits.toNat := by
    rw [toNat_and_flags]
    exact Nat.mod_le _ _
  rw [hunlock, BitVec.toNat_sub_of_le hle, toNat_and_flags]
  exact Nat.sub_add_cancel (Nat.mod_le _ _)

theorem toNat_and_upgraded (bits : BitVec 32) :
    (bits &&& upgraded).toNat = 2 * (bits.toNat / 2 % 2) := by
  rw [BitVec.toNat_and]
  show bits.toNat &&& 2 ^ 1 = _
  rw [Nat.and_two_pow, Nat.testBit_eq_decide_div_mod_eq, Nat.mul_comm]
  rcases Nat.mod_two_eq_zero_or_one (bits.toNat / 2) with h | h <;> simp [h]

/-- The flag is set, if it was not, and nothing else changes. -/
theorem toNat_or_upgraded (bits : BitVec 32) :
    (bits ||| upgraded).toNat + 2 * (bits.toNat / 2 % 2) = bits.toNat + 2 := by
  rw [← toNat_and_upgraded]
  have hlt := bits.isLt
  have hand := toNat_and_upgraded bits
  rcases Nat.mod_two_eq_zero_or_one (bits.toNat / 2) with h | h
  · have hzero : bits &&& upgraded = 0 := BitVec.eq_of_toNat_eq (by rw [hand, h]; rfl)
    rw [← BitVec.add_eq_or_of_and_eq_zero _ _ hzero, BitVec.toNat_add, hzero]
    show (bits.toNat + 2) % 2 ^ 32 + 0 = _
    omega
  · have hset : bits &&& upgraded = upgraded := BitVec.eq_of_toNat_eq (by rw [hand, h]; rfl)
    have hor : bits ||| upgraded = bits := by
      rw [← hset]
      ext i
      simp +contextual
    rw [hor, hset]
    rfl

end RwLock

namespace LockPc

/-- How many times a thread has added `READER`. -/
def readers : LockPc → Nat
  | .backing _ | .reading _ | .upgrading _ | .upgraded _ | .erasing _ | .leaving => 1
  | .idle | .locking | .writing | .sharing _ => 0

/-- The flag a thread has set. -/
def flags : LockPc → Nat
  | .writing => 1
  | .upgraded _ | .erasing true => 2
  | _ => 0

def isErasing : LockPc → Bool
  | .erasing _ => true
  | _ => false

theorem readers_le (pc : LockPc) : pc.readers ≤ 1 := by
  cases pc <;> simp [readers]

theorem flags_le (pc : LockPc) : pc.flags ≤ 2 := by
  cases pc with
  | erasing upgraded => cases upgraded <;> decide
  | _ => simp [flags]

theorem readers_of_shared {pc : LockPc} (h : pc.shared = true) : pc.readers = 1 := by
  cases pc <;> first | rfl | cases h

end LockPc

namespace LockedTables

variable {n : Nat} {s : LockedTables n} {t u : Fin n}

/-- Nobody modifies a table while another thread is between `lock_shared()` and
`unlock_shared()`, or modifies one too. -/
def Safe (s : LockedTables n) : Prop :=
  ∀ t u, t ≠ u → (s.threads t).modifying = true →
    (s.threads u).shared = false ∧ (s.threads u).modifying = false

/-- An `unregisterHandler` begins its erase only while no other thread has the lock shared, and
none asks for it while the entry of a signal is being erased. -/
def Undisturbed (s : LockedTables n) : Step n → Prop
  | .advance t found =>
      match s.threads t with
      | .upgraded true => ∀ u, u ≠ t → (s.threads u).shared = false
      | .reading .unregisterSignal =>
          found ≠ .absent → ∀ u, u ≠ t → (s.threads u).shared = false
      | .sharing _ => ∀ u, s.threads u ≠ .erasing false
      | _ => True
  | _ => True

/-- The integer is what the threads have put into it, and what follows from it. -/
structure Ordered (s : LockedTables n) : Prop where
  bits : s.bits.toNat = 4 * tally LockPc.readers s.threads + tally LockPc.flags s.threads
  flagged : ∀ t u, (s.threads t).flags ≠ 0 → (s.threads u).flags ≠ 0 → t = u
  writer : ∀ t u, s.threads t = .writing → (s.threads u).shared = false
  alone : ∀ t u, t ≠ u → (s.threads t).isErasing = true → (s.threads u).shared = false

theorem ordered_new : (new : LockedTables n).Ordered := by
  refine ⟨?_, fun _ _ h => absurd rfl h, fun _ _ h => (by cases h), fun _ _ _ h => (by cases h)⟩
  have hreaders : tally LockPc.readers (new : LockedTables n).threads = 0 :=
    tally_eq_zero.mpr fun _ => rfl
  have hflags : tally LockPc.flags (new : LockedTables n).threads = 0 :=
    tally_eq_zero.mpr fun _ => rfl
  rw [hreaders, hflags]
  rfl

@[simp] theorem threads_move_self (pc : LockPc) (bits : BitVec 32) :
    (s.move t pc bits).threads t = pc := Function.update_self ..

@[simp] theorem threads_move_of_ne (hne : u ≠ t) (pc : LockPc) (bits : BitVec 32) :
    (s.move t pc bits).threads u = s.threads u := Function.update_of_ne hne ..

namespace Ordered

theorem safe (h : s.Ordered) : s.Safe := by
  intro t u hne hmodifying
  cases ht : s.threads t with
  | writing =>
      have hshared := h.writer t u ht
      refine ⟨hshared, ?_⟩
      cases hu : s.threads u with
      | writing => exact absurd (h.flagged t u (by rw [ht]; decide) (by rw [hu]; decide)) hne
      | erasing upgraded =>
          rw [hu] at hshared
          cases hshared
      | _ => rfl
  | erasing upgraded =>
      have hshared := h.alone t u hne (by rw [ht]; rfl)
      refine ⟨hshared, ?_⟩
      cases hu : s.threads u with
      | writing =>
          have hwriter := h.writer u t hu
          rw [ht] at hwriter
          cases hwriter
      | erasing upgraded =>
          rw [hu] at hshared
          cases hshared
      | _ => rfl
  | _ =>
      rw [ht] at hmodifying
      cases hmodifying

/-- At most one thread has a flag, so the two lowest bits are its flag. -/
theorem tally_flags_le (h : s.Ordered) : tally LockPc.flags s.threads ≤ 2 := by
  by_cases hnone : tally LockPc.flags s.threads = 0
  · omega
  · rw [tally_eq_zero, not_forall] at hnone
    obtain ⟨t, ht⟩ := hnone
    rw [tally_eq_single t fun u hu => ?_]
    · exact LockPc.flags_le _
    · by_contra hflag
      exact hu (h.flagged u t hflag ht)

theorem low_bits (h : s.Ordered) : s.bits.toNat % 4 = tally LockPc.flags s.threads := by
  have hle := h.tally_flags_le
  rw [h.bits]
  omega

theorem low_bits_of_flag (h : s.Ordered) (ht : (s.threads t).flags ≠ 0) :
    s.bits.toNat % 4 = (s.threads t).flags := by
  rw [h.low_bits, tally_eq_single t fun u hu => ?_]
  by_contra hflag
  exact hu (h.flagged u t hflag ht)

theorem no_flag (h : s.Ordered) (hfree : s.bits.toNat % 4 = 0) (u : Fin n) :
    (s.threads u).flags = 0 := by
  rw [h.low_bits, tally_eq_zero] at hfree
  exact hfree u

theorem not_writing (h : s.Ordered) (hfree : s.bits.toNat % 4 = 0) (u : Fin n) :
    s.threads u ≠ .writing := by
  intro hu
  have hflag := h.no_flag hfree u
  rw [hu] at hflag
  cases hflag

theorem bits_lt (h : s.Ordered) (hn : n < 536870912) : s.bits.toNat + 4 < UInt32.size := by
  have hreaders : tally LockPc.readers s.threads ≤ n := tally_le LockPc.readers_le
  have hflags := h.tally_flags_le
  rw [h.bits, UInt32.size]
  omega

/-- One thread has moved, and the integer with it. -/
theorem moved (h : s.Ordered) {pc : LockPc} {bits : BitVec 32}
    (hbits : bits.toNat + (4 * (s.threads t).readers + (s.threads t).flags) =
      s.bits.toNat + (4 * pc.readers + pc.flags))
    (hflag : pc.flags ≠ 0 → (s.threads t).flags ≠ 0 ∨ s.bits.toNat % 4 = 0)
    (hwriting : pc = .writing → ∀ u, (s.threads u).shared = false)
    (hshared : pc.shared = true → (s.threads t).shared = true ∨
      (∀ u, s.threads u ≠ .writing) ∧ ∀ u, (s.threads u).isErasing = false)
    (herasing : pc.isErasing = true → ∀ u, u ≠ t → (s.threads u).shared = false) :
    (s.move t pc bits).Ordered := by
  have hreaders := tally_update LockPc.readers s.threads t pc
  have hflags := tally_update LockPc.flags s.threads t pc
  refine ⟨?_, ?_, ?_, ?_⟩
  · have hold := h.bits
    show bits.toNat = 4 * tally LockPc.readers (Function.update s.threads t pc) +
      tally LockPc.flags (Function.update s.threads t pc)
    omega
  · -- whoever else has a flag had it before, and then nobody could take one
    have hother : ∀ u, u ≠ t → pc.flags ≠ 0 → (s.threads u).flags = 0 := by
      intro u hu hpc
      rcases hflag hpc with hold | hfree
      · by_contra hnot
        exact hu (h.flagged u t hnot hold)
      · exact h.no_flag hfree u
    refine forall_pair_update
      (R := fun u v (pc pc' : LockPc) => pc.flags ≠ 0 → pc'.flags ≠ 0 → u = v)
      h.flagged (fun _ _ => rfl) (fun v hv hpc hfv => ?_) (fun u hu hfu hpc => ?_)
    · exact absurd (hother v hv hpc) hfv
    · exact absurd (hother u hu hpc) hfu
  · refine forall_pair_update (R := fun _ _ (pc pc' : LockPc) => pc = .writing → pc'.shared = false)
      h.writer (fun hpc => by rw [hpc]; rfl) (fun v _ hpc => hwriting hpc v) (fun u _ hwu => ?_)
    by_contra hpc
    rcases hshared (by simpa using hpc) with hold | ⟨hnone, -⟩
    · rw [h.writer u t hwu] at hold
      cases hold
    · exact hnone u hwu
  · refine forall_pair_update
      (R := fun u v (pc pc' : LockPc) => u ≠ v → pc.isErasing = true → pc'.shared = false)
      h.alone (fun hne => absurd rfl hne) (fun v hv _ hpc => herasing hpc v hv)
      (fun u hu _ heu => ?_)
    by_contra hpc
    rcases hshared (by simpa using hpc) with hold | ⟨-, hnone⟩
    · rw [h.alone u t hu heu] at hold
      cases hold
    · rw [hnone u] at heu
      cases heu

theorem reader_le_bits (h : s.Ordered) (ht : (s.threads t).readers = 1) : 4 ≤ s.bits.toNat := by
  have hle := weight_le_tally LockPc.readers s.threads t
  rw [h.bits]
  omega

theorem lock (h : s.Ordered) (ht : s.threads t = .locking) (hzero : s.bits = 0) :
    (s.move t .writing RwLock.writer).Ordered := by
  have hbits := h.bits
  rw [hzero] at hbits
  change 0 = _ at hbits
  have hnone : ∀ u, (s.threads u).shared = false := by
    intro u
    have hreaders := tally_eq_zero.mp (show tally LockPc.readers s.threads = 0 by omega) u
    by_contra hshared
    rw [LockPc.readers_of_shared (by simpa using hshared)] at hreaders
    cases hreaders
  refine h.moved ?_ (fun _ => .inr (by rw [hzero]; rfl)) (fun _ => hnone)
    (fun hshared => by cases hshared) (fun herasing => by cases herasing)
  rw [ht, hzero]
  rfl

/-- The writer gives the lock back. -/
theorem unlock (h : s.Ordered) (ht : s.threads t = .writing) :
    (s.move t .idle (RwLock.unlock s.bits)).Ordered := by
  have hflag := h.low_bits_of_flag (t := t) (by rw [ht]; decide)
  have hbits := RwLock.toNat_unlock s.bits
  refine h.moved ?_ (fun hflag => absurd rfl hflag) (fun hwriting => by cases hwriting)
    (fun hshared => by cases hshared) (fun herasing => by cases herasing)
  rw [ht] at hflag ⊢
  change s.bits.toNat % 4 = 1 at hflag
  show _ + 1 = _ + 0
  omega

theorem lockShared (h : s.Ordered) {call : SharedCall} (hn : n < 536870912)
    (ht : s.threads t = .sharing call) (hnone : ∀ u, s.threads u ≠ .erasing false)
    (hfree : s.bits.toNat % 4 = 0) :
    (s.move t (.reading call) (RwLock.tryLockShared s.bits).2).Ordered := by
  refine h.moved ?_ (fun hflag => absurd rfl hflag) (fun hwriting => by cases hwriting)
    (fun _ => .inr ⟨h.not_writing hfree, fun u => ?_⟩) (fun herasing => by cases herasing)
  · rw [ht, RwLock.toNat_tryLockShared (h.bits_lt hn)]
    rfl
  · cases hu : s.threads u with
    | erasing upgraded =>
        cases upgraded with
        | false => exact absurd hu (hnone u)
        | true =>
            have hflag := h.no_flag hfree u
            rw [hu] at hflag
            cases hflag
    | _ => rfl

theorem upgrade (h : s.Ordered) {erases : Bool} (ht : s.threads t = .upgrading erases)
    (hfree : s.bits.toNat % 4 = 0) :
    (s.move t (.upgraded erases) (s.bits ||| RwLock.upgraded)).Ordered := by
  have hor := RwLock.toNat_or_upgraded s.bits
  refine h.moved ?_ (fun _ => .inr hfree) (fun hwriting => by cases hwriting)
    (fun _ => .inl (by rw [ht]; rfl)) (fun herasing => by cases herasing)
  rw [ht]
  show (s.bits ||| RwLock.upgraded).toNat + 4 = s.bits.toNat + 6
  omega

/-- A reader that came too late has counted itself all the same. -/
theorem backing (h : s.Ordered) {call : SharedCall} (hn : n < 536870912)
    (ht : s.threads t = .sharing call) :
    (s.move t (.backing call) (RwLock.tryLockShared s.bits).2).Ordered := by
  refine h.moved ?_ (fun hflag => absurd rfl hflag) (fun hwriting => by cases hwriting)
    (fun hshared => by cases hshared) (fun herasing => by cases herasing)
  rw [ht, RwLock.toNat_tryLockShared (h.bits_lt hn)]
  rfl

/-- Whoever upgrades has the lock shared, so the flag in its way is another upgrader's. -/
theorem or_upgraded (h : s.Ordered) (ht : (s.threads t).shared = true)
    (htaken : s.bits.toNat % 4 ≠ 0) : s.bits ||| RwLock.upgraded = s.bits := by
  have hsome := htaken
  rw [h.low_bits, Ne, tally_eq_zero, not_forall] at hsome
  obtain ⟨u, hu⟩ := hsome
  have hor := RwLock.toNat_or_upgraded s.bits
  suffices hlow : s.bits.toNat % 4 = 2 from BitVec.eq_of_toNat_eq (by omega)
  rw [h.low_bits_of_flag hu]
  cases hpc : s.threads u with
  | writing =>
      rw [h.writer u t hpc] at ht
      cases ht
  | upgraded erases => rfl
  | erasing upgraded =>
      cases upgraded with
      | true => rfl
      | false =>
          rw [hpc] at hu
          exact absurd rfl hu
  | _ =>
      rw [hpc] at hu
      exact absurd rfl hu

/-- The thread gives its flag back, and keeps the lock shared. -/
theorem unlockUpgrade (h : s.Ordered) (hflag : (s.threads t).flags = 2)
    (ht : (s.threads t).shared = true) :
    (s.move t .leaving (RwLock.unlockUpgrade s.bits)).Ordered := by
  have hreaders := LockPc.readers_of_shared ht
  have hle := h.reader_le_bits hreaders
  have hbits : (RwLock.unlockUpgrade s.bits).toNat + 2 = s.bits.toNat :=
    RwLock.toNat_unlockUpgrade (by omega)
  refine h.moved ?_ (fun hflag => absurd rfl hflag) (fun hwriting => by cases hwriting)
    (fun _ => .inl ht) (fun herasing => by cases herasing)
  rw [hreaders, hflag]
  show _ + 6 = _ + 4
  omega

/-- The thread takes its `READER` back. -/
theorem unlockShared (h : s.Ordered) {pc : LockPc} (hreaders : (s.threads t).readers = 1)
    (hflag : (s.threads t).flags = 0) (hpc : pc.readers = 0 ∧ pc.flags = 0 ∧ pc.shared = false) :
    (s.move t pc (RwLock.unlockShared s.bits)).Ordered := by
  have hbits := RwLock.toNat_unlockShared (h.reader_le_bits hreaders)
  refine h.moved ?_ (fun hnot => absurd hpc.2.1 hnot) ?_ ?_ ?_
  · rw [hreaders, hflag, hpc.1, hpc.2.1]
    omega
  · rintro rfl
    cases hpc.2.1
  · intro hshared
    rw [hpc.2.2] at hshared
    cases hshared
  · intro herasing
    cases pc with
    | erasing upgraded => cases hpc.2.2
    | _ => cases herasing

/-- A thread goes on with what it has. -/
theorem goesOn (h : s.Ordered) {pc : LockPc} (hreaders : pc.readers = (s.threads t).readers)
    (hflags : pc.flags = (s.threads t).flags) (hshared : pc.shared = (s.threads t).shared)
    (hwriting : pc ≠ .writing)
    (herasing : pc.isErasing = true → ∀ u, u ≠ t → (s.threads u).shared = false) :
    (s.move t pc s.bits).Ordered := by
  refine h.moved ?_ (fun hflag => .inl (hflags ▸ hflag)) (fun hpc => absurd hpc hwriting)
    (fun hpc => .inl (hshared ▸ hpc)) herasing
  rw [hreaders, hflags]

theorem branch (h : s.Ordered) {call : SharedCall} {found : Found}
    (ht : s.threads t = .reading call) (hguard : s.Undisturbed (.advance t found)) :
    (s.move t (LockedTables.branch call found) s.bits).Ordered := by
  have hpc : (LockedTables.branch call found).readers = 1 ∧
      (LockedTables.branch call found).flags = 0 ∧
      (LockedTables.branch call found).shared = true ∧
      LockedTables.branch call found ≠ .writing := by
    cases call <;> cases found <;> decide
  refine h.goesOn (by rw [ht]; exact hpc.1) (by rw [ht]; exact hpc.2.1)
    (by rw [ht]; exact hpc.2.2.1)
    hpc.2.2.2 fun herasing => ?_
  -- only the entry of a signal is erased right away
  have hsignal : call = .unregisterSignal ∧ found ≠ .absent := by
    cases call <;> cases found <;> first | exact ⟨rfl, by decide⟩ | cases herasing
  simp only [Undisturbed, ht, hsignal.1] at hguard
  exact hguard hsignal.2

theorem advance (h : s.Ordered) (hn : n < 536870912) {found : Found}
    (hguard : s.Undisturbed (.advance t found)) : (s.advance t found).Ordered := by
  have hiff : s.bits &&& (RwLock.writer ||| RwLock.upgraded) = 0 ↔ s.bits.toNat % 4 = 0 :=
    RwLock.and_flags_eq_zero_iff
  cases ht : s.threads t with
  | idle =>
      rw [LockedTables.advance, ht]
      exact h
  | locking =>
      simp only [LockedTables.advance, ht, RwLock.tryLock]
      split
      · next hzero =>
          split at hzero
          · next hbits =>
              cases hzero
              exact h.lock ht hbits
          · cases hzero
      · next hnot =>
          split at hnot
          · cases hnot
          · cases hnot
            exact h.goesOn (by rw [ht]) (by rw [ht]) (by rw [ht]) (by simp)
              (fun herasing => by cases herasing)
  | writing =>
      rw [LockedTables.advance, ht]
      exact h.unlock ht
  | sharing call =>
      simp only [Undisturbed, ht] at hguard
      rw [LockedTables.advance, ht]
      dsimp only
      split
      · next bits htry =>
          have hfree := hiff.mp (of_decide_eq_true (congrArg Prod.fst htry))
          have hshared := h.lockShared hn ht hguard hfree
          rw [htry] at hshared
          exact hshared
      · next bits htry =>
          have hbacking := h.backing hn ht
          rw [htry] at hbacking
          exact hbacking
  | backing call =>
      rw [LockedTables.advance, ht]
      exact h.unlockShared (by rw [ht]; rfl) (by rw [ht]; rfl) ⟨rfl, rfl, rfl⟩
  | reading call =>
      rw [LockedTables.advance, ht]
      exact h.branch ht hguard
  | upgrading erases =>
      rw [LockedTables.advance, ht]
      dsimp only
      rw [RwLock.tryLockUpgrade, BitVec.or_comm RwLock.upgraded RwLock.writer]
      split
      · next bits htry =>
          obtain ⟨hfree, rfl⟩ := Prod.mk.inj htry
          exact h.upgrade ht (hiff.mp (of_decide_eq_true hfree))
      · next bits htry =>
          obtain ⟨htaken, rfl⟩ := Prod.mk.inj htry
          rw [h.or_upgraded (t := t) (by rw [ht]; rfl)
            (mt hiff.mpr (of_decide_eq_false htaken))]
          exact h.goesOn (by rw [ht]) (by rw [ht]) (by rw [ht]) (by simp)
            (fun herasing => by cases herasing)
  | upgraded erases =>
      rw [LockedTables.advance, ht]
      cases erases with
      | true =>
          simp only [Undisturbed, ht] at hguard
          exact h.goesOn (by rw [ht]; rfl) (by rw [ht]; rfl) (by rw [ht]; rfl) (by simp)
            fun _ => hguard
      | false => exact h.unlockUpgrade (by rw [ht]; rfl) (by rw [ht]; rfl)
  | erasing upgraded =>
      rw [LockedTables.advance, ht]
      cases upgraded with
      | true => exact h.unlockUpgrade (by rw [ht]; rfl) (by rw [ht]; rfl)
      | false =>
          exact h.goesOn (by rw [ht]; rfl) (by rw [ht]; rfl) (by rw [ht]; rfl) (by simp)
            (fun herasing => by cases herasing)
  | leaving =>
      rw [LockedTables.advance, ht]
      exact h.unlockShared (by rw [ht]; rfl) (by rw [ht]; rfl) ⟨rfl, rfl, rfl⟩

protected theorem step (h : s.Ordered) (hn : n < 536870912) {i : Step n}
    (hguard : s.Undisturbed i) :
    (s.step i).Ordered := by
  cases i with
  | advance t found => exact h.advance hn hguard
  | registerHandler t =>
      rw [step]
      split
      · next ht =>
          exact h.goesOn (by rw [ht]; rfl) (by rw [ht]; rfl) (by rw [ht]; rfl) (by simp)
            (fun herasing => by cases herasing)
      · exact h
  | call t call =>
      rw [step]
      split
      · next ht =>
          exact h.goesOn (by rw [ht]; rfl) (by rw [ht]; rfl) (by rw [ht]; rfl) (by simp)
            (fun herasing => by cases herasing)
      · exact h

/-- While the entry of a signal is erased, no flag is set that would keep a reader out. -/
theorem free_of_erasing (h : s.Ordered) (hu : s.threads u = .erasing false) :
    s.bits.toNat % 4 = 0 := by
  rw [h.low_bits, tally_eq_zero]
  intro v
  by_cases hv : v = u
  · rw [hv, hu]
    rfl
  · have hshared := h.alone u v (Ne.symm hv) (by rw [hu]; rfl)
    cases hpc : s.threads v with
    | writing =>
        have hwriter := h.writer v u hpc
        rw [hu] at hwriter
        cases hwriter
    | upgraded erases =>
        rw [hpc] at hshared
        cases hshared
    | erasing upgraded =>
        rw [hpc] at hshared
        cases hshared
    | _ => rfl

/-- A step that is disturbed, or disturbs, ends with an erase beside a shared lock. -/
theorem not_safe (h : s.Ordered) {i : Step n} (hnot : ¬ s.Undisturbed i) : ¬ (s.step i).Safe := by
  have hbeside : ∀ (t : Fin n) (pc : LockPc) (bits : BitVec 32), pc.modifying = true →
      ¬ (∀ u, u ≠ t → (s.threads u).shared = false) → ¬ (s.move t pc bits).Safe := by
    intro t pc bits hpc hshared hsafe
    refine hshared fun u hu => ?_
    have hu' := (hsafe t u (Ne.symm hu) (by rw [threads_move_self]; exact hpc)).1
    rwa [threads_move_of_ne hu] at hu'
  cases i with
  | registerHandler t => exact absurd trivial hnot
  | call t call => exact absurd trivial hnot
  | advance t found =>
      simp only [Undisturbed] at hnot
      split at hnot
      · next ht =>
          rw [step, LockedTables.advance, ht]
          exact hbeside t _ _ rfl hnot
      · next ht =>
          rw [Classical.not_imp] at hnot
          rw [step, LockedTables.advance, ht]
          cases found with
          | absent => exact absurd rfl hnot.1
          | alone => exact hbeside t _ _ rfl hnot.2
          | several => exact hbeside t _ _ rfl hnot.2
      · next call ht =>
          simp only [not_forall, not_not] at hnot
          obtain ⟨u, hu⟩ := hnot
          have hfree := RwLock.and_flags_eq_zero_iff.mpr (h.free_of_erasing hu)
          have hne : u ≠ t := by
            rintro rfl
            rw [hu] at ht
            cases ht
          intro hsafe
          rw [step, LockedTables.advance, ht] at hsafe
          dsimp only at hsafe
          rw [RwLock.tryLockShared, decide_eq_true hfree] at hsafe
          have hreading := (hsafe u t hne (by rw [threads_move_of_ne hne, hu]; rfl)).1
          rw [threads_move_self] at hreading
          cases hreading
      · exact absurd trivial hnot

end Ordered

/-- For fewer than `2 ^ 29` threads: no table is modified under a reader or beside another
writer in any state of an interleaving if and only if every `unregisterHandler` begins
its erase while no other thread has the lock shared, and nobody asks for it shared while
the entry of a signal is being erased. -/
theorem safe_iff_undisturbed (hn : n < 536870912) (steps : List (Step n)) :
    Always step Safe (new : LockedTables n) steps ↔ Along step Undisturbed new steps :=
  always_iff_along (fun _ h => Ordered.safe h) (fun _ _ h hguard => h.step hn hguard)
    (fun _ _ h hnot => h.not_safe hnot) ordered_new

/-- A timer is unregistered while another thread is calling back. -/
def overlapping : List (Step 2) :=
  [.call 0 .foreachMatching, .advance 0 .absent, .call 1 .unregisterTimer, .advance 1 .absent,
    .advance 1 .alone, .advance 1 .alone, .advance 1 .alone]

theorem overlapping_not_safe :
    (after step new overlapping).threads 0 = .reading .foreachMatching ∧
      (after step new overlapping).threads 1 = .erasing true ∧
      ¬ Always step Safe (new : LockedTables 2) overlapping := by
  have hreader : (after step new overlapping).threads 0 = .reading .foreachMatching := by
    decide +kernel
  have heraser : (after step new overlapping).threads 1 = .erasing true := by
    decide +kernel
  refine ⟨hreader, heraser, fun h => ?_⟩
  have hsafe := (h.last 1 0 (by decide) (by rw [heraser]; rfl)).1
  rw [hreader] at hsafe
  cases hsafe

/-- A reader that comes when the lock is upgraded already is kept out. -/
def keptOut : List (Step 2) :=
  [.call 1 .unregisterTimer, .advance 1 .absent, .advance 1 .alone, .advance 1 .alone,
    .call 0 .foreachMatching, .advance 0 .absent, .advance 1 .alone]

theorem safe_keptOut :
    2 < 536870912 ∧ (after step new keptOut).threads 0 = .backing .foreachMatching ∧
      (after step new keptOut).threads 1 = .erasing true ∧
      Always step Safe (new : LockedTables 2) keptOut := by
  refine ⟨by decide, by decide +kernel, by decide +kernel,
    (safe_iff_undisturbed (by decide) keptOut).mpr
      ⟨trivial, ?_, trivial, trivial, trivial, ?_, ?_, trivial⟩⟩
  · show ∀ u : Fin 2, (after step new (keptOut.take 1)).threads u ≠ .erasing false
    decide +kernel
  · show ∀ u : Fin 2, (after step new (keptOut.take 5)).threads u ≠ .erasing false
    decide +kernel
  · show ∀ u : Fin 2, u ≠ 1 → ((after step new (keptOut.take 6)).threads u).shared = false
    decide +kernel

end LockedTables

end Fastpath
