import Fastpath.Model.Sizes
import Fastpath.Proofs.Capacity

/-!
# Rounding up is enough

The five shifts look thirty-two bits up. That is as far as they have to look for
a request of up to `2 ^ 32` bytes, which gets the next power of two. A longer one
gets whatever comes out, but bits are only ever set, so this is not less than
what was asked for; and nothing is set above the highest bit, so up to `2 ^ 63`
the addition at the end does not wrap.

Up to there the sizes are those that the storage has when they are counted in
naturals.
-/

namespace Fastpath.Sizes

open Fastpath.Lib

theorem smeared_rung {v : Nat} {x : UInt64} {n : Nat} (h : Smeared n v x.toNat) (hn : n < 64) :
    Smeared (n + n) v (x ||| x >>> UInt64.ofNat n).toNat := by
  have hshift : (x >>> UInt64.ofNat n).toNat = x.toNat >>> n := by
    rw [UInt64.toNat_shiftRight, UInt64.toNat_ofNat_of_lt' (by show _ < 2 ^ 64; omega),
      Nat.mod_eq_of_lt hn]
  rw [UInt64.toNat_or, hshift]
  exact h.or_shiftRight

/-- What the code counts in sixty-four bits, one less than the capacity. -/
theorem exists_smeared {length : UInt64} (h : 1 ≤ length.toNat) (hle : length.toNat ≤ 2 ^ 63) :
    ∃ w, Smeared 32 (length.toNat - 1) w ∧ (allocateStorage length).toNat = w + 1 := by
  have hpred : (length - 1).toNat = length.toNat - 1 :=
    UInt64.toNat_sub_of_le _ _ (UInt64.le_iff_toNat_le.mpr h)
  have hone := smeared_one (length - 1).toNat
  have htwo := smeared_rung hone (by omega)
  have hfour := smeared_rung htwo (by omega)
  have height := smeared_rung hfour (by omega)
  have hsixteen := smeared_rung height (by omega)
  have hall := smeared_rung hsixteen (by omega)
  rw [hpred] at hall
  refine ⟨_, hall, ?_⟩
  have hlt := hall.lt_two_pow (e := 63) (by omega)
  rw [allocateStorage, UInt64.toNat_add]
  exact Nat.mod_eq_of_lt (Nat.lt_of_le_of_lt hlt (by decide))

theorem le_allocateStorage {length : UInt64} (h : 1 ≤ length.toNat)
    (hle : length.toNat ≤ 2 ^ 63) : length ≤ allocateStorage length := by
  obtain ⟨w, hw, heq⟩ := exists_smeared h hle
  have hpred := hw.le (by omega)
  rw [UInt64.le_iff_toNat_le, heq]
  omega

theorem isLeast_allocateStorage {length : UInt64} (h : 1 ≤ length.toNat)
    (hle : length.toNat ≤ 2 ^ 32) :
    IsLeast {p | (∃ e, p = 2 ^ e) ∧ length.toNat ≤ p} (allocateStorage length).toNat := by
  obtain ⟨w, hw, heq⟩ := exists_smeared h (Nat.le_trans hle (by decide))
  have hleast := hw.isLeast (by omega) (by omega)
  rwa [Nat.sub_add_cancel h, ← heq] at hleast

example : allocateStorage (2 ^ 33 + 1) = 2 ^ 34 - 3 := by decide

/-! ## Growing -/

theorem toNat_add_of_le {x y z : UInt64} (hx : x ≤ z) (h : z.toNat + y.toNat ≤ 2 ^ 63) :
    (x + y).toNat = x.toNat + y.toNat := by
  rw [UInt64.le_iff_toNat_le] at hx
  rw [UInt64.toNat_add]
  exact Nat.mod_eq_of_lt (by omega)

/-- What is stored fits, if it did before. -/
theorem allocate_le {s : Sizes} {length : UInt64} (h : s.storedLength ≤ s.capacity)
    (hle : s.capacity.toNat + length.toNat ≤ 2 ^ 63) :
    (s.allocate length).storedLength ≤ (s.allocate length).capacity := by
  have hsum := toNat_add_of_le h hle
  have hcapacity := toNat_add_of_le (UInt64.le_refl s.capacity) hle
  rw [allocate]
  split
  · next hgrows =>
      rw [gt_iff_lt, UInt64.lt_iff_toNat_lt] at hgrows
      rw [UInt64.le_iff_toNat_le] at h
      -- more is asked for than nothing, since there is not enough
      have hrounded : s.capacity + length ≤ allocateStorage (s.capacity + length) :=
        le_allocateStorage (by omega) (by omega)
      rw [UInt64.le_iff_toNat_le] at hrounded ⊢
      dsimp only
      omega
  · next hfits => exact UInt64.not_lt.mp hfits

/-- Every request is rounded up to enough, to the next power of two if it is not too long for the
shifts, and so whatever is allocated has room. -/
theorem allocateStorage_sufficient :
    (∀ length : UInt64, 1 ≤ length.toNat → length.toNat ≤ 2 ^ 63 →
      length ≤ allocateStorage length ∧
        (length.toNat ≤ 2 ^ 32 →
          IsLeast {p | (∃ e, p = 2 ^ e) ∧ length.toNat ≤ p} (allocateStorage length).toNat)) ∧
      ∀ (s : Sizes) (length : UInt64), s.storedLength ≤ s.capacity →
        s.capacity.toNat + length.toNat ≤ 2 ^ 63 →
          (s.allocate length).storedLength.toNat = s.storedLength.toNat + length.toNat ∧
            (s.allocate length).storedLength ≤ (s.allocate length).capacity := by
  refine ⟨fun length h hle => ⟨le_allocateStorage h hle, isLeast_allocateStorage h⟩,
    fun s length h hle => ⟨?_, allocate_le h hle⟩⟩
  rw [allocate, ← toNat_add_of_le h hle]
  split <;> rfl

/-! ## The sizes that are counted in naturals -/

/-- The sizes of a storage, as the code has them. -/
def ofStorage (s : MutableByteStorage) : Sizes := ⟨.ofNat s.length, .ofNat s.capacity⟩

theorem allocateStorage_ofNat {n : Nat} (h : 1 ≤ n) (hle : n ≤ 2 ^ 63) :
    allocateStorage (.ofNat n) = .ofNat (Fastpath.allocateStorage n) := by
  have hn : (UInt64.ofNat n).toNat = n :=
    UInt64.toNat_ofNat_of_lt' (Nat.lt_of_le_of_lt hle (by decide))
  obtain ⟨w, hw, heq⟩ : ∃ w, Smeared 32 ((UInt64.ofNat n).toNat - 1) w ∧
      (allocateStorage (.ofNat n)).toNat = w + 1 := exists_smeared (by omega) (by omega)
  obtain ⟨w', hw', heq'⟩ := Fastpath.allocateStorage_smeared (n := n) (by omega)
  rw [hn] at hw
  rw [← UInt64.ofNat_toNat (x := allocateStorage (.ofNat n)), heq, heq', hw.eq hw']

/-- As long as no size is more than `2 ^ 63`, the storage that counts in naturals and the code's
arithmetic have the same sizes. -/
theorem allocate_ofStorage {s : MutableByteStorage} {length : Nat}
    (h : s.capacity + length ≤ 2 ^ 63) :
    ofStorage (s.allocate length).2 = (ofStorage s).allocate (.ofNat length) := by
  have hstored : s.length ≤ s.capacity := Nat.le_add_right _ _
  have hlength : (s.allocate length).2.length = s.length + length := by
    rw [MutableByteStorage.length, s.allocate_stored, List.length_append, s.length_reserved]
    rfl
  have hgrows : (ofStorage s).storedLength + .ofNat length > (ofStorage s).capacity ↔
      s.capacity < s.length + length := by
    show UInt64.ofNat s.capacity < UInt64.ofNat s.length + UInt64.ofNat length ↔ _
    rw [← UInt64.ofNat_add, UInt64.lt_iff_toNat_lt,
      UInt64.toNat_ofNat_of_lt' (by show s.capacity < 2 ^ 64; omega),
      UInt64.toNat_ofNat_of_lt' (by show s.length + length < 2 ^ 64; omega)]
  have hcapacity : (s.allocate length).2.capacity = if s.capacity < s.length + length then
      Fastpath.allocateStorage (s.capacity + length) else s.capacity := s.allocate_capacity length
  rw [ofStorage, hlength, hcapacity, UInt64.ofNat_add, allocate]
  split
  · next h' =>
      rw [if_pos (hgrows.mpr h'), ← allocateStorage_ofNat (by omega) h, UInt64.ofNat_add]
      rfl
  · next h' =>
      rw [if_neg (mt hgrows.mp h')]
      rfl

end Fastpath.Sizes
