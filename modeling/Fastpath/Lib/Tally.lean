import Mathlib.Algebra.BigOperators.Fin
import Mathlib.Algebra.Order.BigOperators.Group.Finset
import Mathlib.Tactic.SplitIfs

/-!
# Tallies

A family of parties, each in a state of its own, and a weight for each state. The
tally is the sum of the weights, and it changes with the one party that moves.
-/

namespace Fastpath.Lib

variable {κ : Type} {n : Nat} (weight : κ → Nat) (f : Fin n → κ)

def tally : Nat := ∑ i, weight (f i)

theorem tally_update (i : Fin n) (k : κ) :
    tally weight (Function.update f i k) + weight (f i) = tally weight f + weight k := by
  have hcomp : ∀ j, weight (Function.update f i k j) =
      Function.update (fun j => weight (f j)) i (weight k) j := by
    intro j
    by_cases hj : j = i
    · rw [hj, Function.update_self, Function.update_self]
    · rw [Function.update_of_ne hj, Function.update_of_ne hj]
  rw [tally, tally, Finset.sum_congr rfl fun j _ => hcomp j,
    Finset.sum_update_of_mem (Finset.mem_univ i),
    ← Finset.add_sum_erase Finset.univ _ (Finset.mem_univ i), Finset.erase_eq]
  omega

theorem weight_le_tally (i : Fin n) : weight (f i) ≤ tally weight f :=
  Finset.single_le_sum (fun j _ => Nat.zero_le (weight (f j))) (Finset.mem_univ i)

variable {weight f}

theorem tally_eq_zero : tally weight f = 0 ↔ ∀ i, weight (f i) = 0 := by
  rw [tally, Finset.sum_eq_zero_iff]
  simp

/-- All the weight is with one party. -/
theorem tally_eq_single (i : Fin n) (h : ∀ j, j ≠ i → weight (f j) = 0) :
    tally weight f = weight (f i) :=
  Finset.sum_eq_single i (fun j _ hj => h j hj) fun hi => absurd (Finset.mem_univ i) hi

theorem tally_add (weight' : κ → Nat) :
    tally (fun k => weight k + weight' k) f = tally weight f + tally weight' f :=
  Finset.sum_add_distrib

/-- A weight of one can only be with one party. -/
theorem eq_of_tally_le_one (h : tally weight f ≤ 1) {i j : Fin n} (hi : weight (f i) ≠ 0)
    (hj : weight (f j) ≠ 0) : i = j := by
  by_contra hne
  have hsplit := Finset.add_sum_erase Finset.univ (fun k => weight (f k)) (Finset.mem_univ i)
  have hle : weight (f j) ≤ ∑ k ∈ Finset.univ.erase i, weight (f k) :=
    Finset.single_le_sum (f := fun k => weight (f k)) (fun k _ => Nat.zero_le _)
      (Finset.mem_erase.mpr ⟨Ne.symm hne, Finset.mem_univ j⟩)
  rw [tally] at h
  omega

theorem tally_le_mul {c : Nat} (h : ∀ k, weight k ≤ c) : tally weight f ≤ n * c := by
  have hsum := Finset.sum_le_card_nsmul Finset.univ (fun i => weight (f i)) c fun i _ => h (f i)
  simpa [tally] using hsum

theorem tally_le (h : ∀ k, weight k ≤ 1) : tally weight f ≤ n :=
  (tally_le_mul h).trans_eq (Nat.mul_one n)

/-- The tally of those who have `p`, when each has one thing at most. -/
def having {ι : Type} [DecidableEq ι] (has : κ → Option ι) (p : ι) (k : κ) : Nat :=
  if has k = some p then 1 else 0

section Having

variable {ι : Type} [DecidableEq ι] {has : κ → Option ι} {A B : ι → Prop} [DecidablePred A]
  [DecidablePred B]

/-- Each thing of `A` is had by one party. -/
def Divided (has : κ → Option ι) (A : ι → Prop) [DecidablePred A] (f : Fin n → κ) : Prop :=
  ∀ p, tally (having has p) f = if A p then 1 else 0

theorem Divided.of_has (h : Divided has A f) {i : Fin n} {p : ι} (hi : has (f i) = some p) :
    A p := by
  by_contra hnot
  have hzero := h p
  rw [if_neg hnot] at hzero
  have hi' := tally_eq_zero.mp hzero i
  rw [having, if_pos hi] at hi'
  cases hi'

theorem Divided.eq (h : Divided has A f) {i j : Fin n} {p : ι} (hi : has (f i) = some p)
    (hj : has (f j) = some p) : i = j := by
  have hone : tally (having has p) f ≤ 1 := by
    rw [h p]
    split <;> omega
  refine eq_of_tally_le_one hone ?_ ?_
  · rw [having, if_pos hi]
    exact Nat.one_ne_zero
  · rw [having, if_pos hj]
    exact Nat.one_ne_zero

theorem Divided.exists (h : Divided has A f) {p : ι} (hp : A p) : ∃ i, has (f i) = some p := by
  by_contra hnone
  have hzero : tally (having has p) f = 0 :=
    tally_eq_zero.mpr fun i => if_neg fun hi => hnone ⟨i, hi⟩
  rw [h p, if_pos hp] at hzero
  cases hzero

/-- One party takes up or lays down `p`, and nothing else changes hands. -/
theorem Divided.update (h : Divided has A f) {i : Fin n} {k : κ} {p : ι}
    (hold : has (f i) = if A p then some p else none) (hnew : has k = if B p then some p else none)
    (hother : ∀ q, q ≠ p → (B q ↔ A q)) : Divided has B (Function.update f i k) := by
  intro q
  have hmoved := tally_update (having has q) f i k
  rw [h q, having, having, hold, hnew] at hmoved
  by_cases hq : q = p
  · subst hq
    split_ifs at hmoved ⊢ <;> simp_all
  · have hne : some p ≠ some q := fun heq => hq (Option.some.inj heq).symm
    have hiff := hother q hq
    split_ifs at hmoved ⊢ <;> simp_all

/-- A party goes on with what it has. -/
theorem Divided.keep (h : Divided has A f) {i : Fin n} {k : κ} (hk : has k = has (f i)) :
    Divided has A (Function.update f i k) := by
  intro q
  have hmoved := tally_update (having has q) f i k
  rw [h q, having, having, hk] at hmoved
  exact Nat.add_right_cancel hmoved

end Having

/-- What holds between any two parties still does when one has changed, if it does between that
one and each of them. -/
theorem forall_pair_update {ι : Type} [DecidableEq ι] {R : ι → ι → κ → κ → Prop} {f : ι → κ} {i : ι}
    {k : κ} (h : ∀ j l, R j l (f j) (f l)) (hself : R i i k k) (hleft : ∀ l, l ≠ i → R i l k (f l))
    (hright : ∀ j, j ≠ i → R j i (f j) k) (j l : ι) :
    R j l (Function.update f i k j) (Function.update f i k l) := by
  by_cases hj : j = i
  · by_cases hl : l = i
    · rw [hj, hl, Function.update_self]
      exact hself
    · rw [hj, Function.update_self, Function.update_of_ne hl]
      exact hleft l hl
  · rw [Function.update_of_ne hj]
    by_cases hl : l = i
    · rw [hl, Function.update_self]
      exact hright j hj
    · rw [Function.update_of_ne hl]
      exact h j l

end Fastpath.Lib
