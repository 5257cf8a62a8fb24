import Mathlib.Data.Nat.Bitwise
import Mathlib.Order.Bounds.Basic

/-!
# Filling in the bits below

Or-ing a number with itself shifted down by `n` sets every bit that has a set
bit `n` places above it. Done with `n = 1, 2, 4, …` this looks twice as far up
each time: after the shift by `n` every bit says whether one of the `2 * n` bits
from there up was set in the beginning.

Once that is as far as the number is long, all the bits up to its highest are
set, and one more is a power of two.
-/

namespace Fastpath.Lib

variable {v w : Nat} {n : Nat}

/-- Every bit of `w` says whether one of the `n` bits of `v` from there up is set. -/
def Smeared (n v w : Nat) : Prop :=
  ∀ i, w.testBit i = true ↔ ∃ j < n, v.testBit (i + j) = true

theorem smeared_one (v : Nat) : Smeared 1 v v := by
  intro i
  constructor
  · intro h
    exact ⟨0, Nat.one_pos, h⟩
  · intro h
    obtain ⟨j, hj, h⟩ := h
    obtain rfl : j = 0 := Nat.lt_one_iff.mp hj
    exact h

theorem Smeared.or_shiftRight (h : Smeared n v w) : Smeared (n + n) v (w ||| w >>> n) := by
  intro i
  rw [Nat.testBit_or, Nat.testBit_shiftRight, Bool.or_eq_true, h i, h (n + i)]
  constructor
  · intro hor
    rcases hor with ⟨j, hj, hbit⟩ | ⟨j, hj, hbit⟩
    · exact ⟨j, by omega, hbit⟩
    · exact ⟨n + j, by omega, by rwa [← Nat.add_assoc, Nat.add_comm i n]⟩
  · intro hbit
    obtain ⟨j, hj, hbit⟩ := hbit
    by_cases hlow : j < n
    · exact .inl ⟨j, hlow, hbit⟩
    · refine .inr ⟨j - n, by omega, ?_⟩
      rwa [show n + i + (j - n) = i + j by omega]

/-- Nothing is set above the highest bit. -/
theorem Smeared.lt_two_pow (h : Smeared n v w) {e : Nat} (hv : v < 2 ^ e) : w < 2 ^ e := by
  refine Nat.lt_pow_two_of_testBit w fun i hi => ?_
  by_contra hbit
  obtain ⟨j, -, hset⟩ := (h i).mp (by simpa using hbit)
  have hle := Nat.ge_two_pow_of_testBit hset
  have hpow : 2 ^ e ≤ 2 ^ (i + j) := Nat.pow_le_pow_right Nat.two_pos (by omega)
  omega

theorem Smeared.eq (h : Smeared n v w) {w' : Nat} (h' : Smeared n v w') : w = w' :=
  Nat.eq_of_testBit_eq fun i => Bool.eq_iff_iff.mpr ((h i).trans (h' i).symm)

theorem Smeared.le (h : Smeared n v w) (hn : 0 < n) : v ≤ w := by
  have hor : v ||| w = w := by
    refine Nat.eq_of_testBit_eq fun i => ?_
    rw [Nat.testBit_or, Bool.or_eq_right_iff_imp]
    exact fun hbit => (h i).mpr ⟨0, hn, hbit⟩
  rw [← hor]
  exact Nat.left_le_or

/-- If one has looked as far as the number is long, everything below the highest bit is set. -/
theorem Smeared.exists_two_pow (h : Smeared n v w) (hv : v < 2 ^ n) : ∃ e, w + 1 = 2 ^ e := by
  by_cases hzero : v = 0
  · have hw : w < 2 ^ 0 := h.lt_two_pow (by omega)
    exact ⟨0, by omega⟩
  refine ⟨v.log2 + 1, ?_⟩
  have hw : w = 2 ^ (v.log2 + 1) - 1 := by
    refine Nat.eq_of_testBit_eq fun i => ?_
    rw [Nat.testBit_two_pow_sub_one, Bool.eq_iff_iff, decide_eq_true_iff, h i]
    constructor
    · intro hset
      obtain ⟨j, -, hset⟩ := hset
      have hle := (Nat.le_log2 hzero).mpr (Nat.ge_two_pow_of_testBit hset)
      omega
    · intro hi
      have hlog := (Nat.log2_lt hzero).mpr hv
      refine ⟨v.log2 - i, by omega, ?_⟩
      rw [show i + (v.log2 - i) = v.log2 by omega]
      exact Nat.testBit_log2 hzero
  rw [hw]
  exact Nat.sub_add_cancel Nat.one_le_two_pow

/-- The least power of two above `v`. -/
theorem Smeared.isLeast (h : Smeared n v w) (hn : 0 < n) (hv : v < 2 ^ n) :
    IsLeast {p | (∃ e, p = 2 ^ e) ∧ v + 1 ≤ p} (w + 1) := by
  refine ⟨⟨h.exists_two_pow hv, Nat.succ_le_succ (h.le hn)⟩, fun p hp => ?_⟩
  obtain ⟨⟨e, rfl⟩, hle⟩ := hp
  exact h.lt_two_pow hle

end Fastpath.Lib
