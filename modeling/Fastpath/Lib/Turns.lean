import Mathlib.Logic.Function.Basic
import Mathlib.Data.Nat.ModEq
import Mathlib.Tactic.ByContra
import Mathlib.Tactic.SplitIfs

/-!
# Places taken in turn

Places are numbered without end and lie in `size` cells, one behind the other and
round again. A writer claims the next place of `head` and a reader the next one
of `tail`, and a number beside each cell tells whose turn it is there: `p` while
the place `p` may be written, `p + 1` while it may be read, and `p + size`, the
next place in that cell, once it has been.

So a place waits, is written, is stored, is read and is released, in this order,
and in one cell no place is written before the one in front of it is released.
-/

namespace Fastpath.Lib

inductive Stage where
  /-- Not claimed by a writer. -/
  | waiting
  /-- Claimed by a writer, and not given away by it. -/
  | writing
  | stored
  /-- Claimed by a reader, and not given back by it. -/
  | reading
  | released
deriving DecidableEq, Repr

/-- Between the claim of the writer and the release of the reader. -/
def Stage.Busy (stage : Stage) : Prop := stage ≠ .waiting ∧ stage ≠ .released

structure Turns (size : Nat) where
  /-- The number beside the cell of a place. -/
  turn : Nat → Nat
  head : Nat
  tail : Nat

namespace Turns

variable {size : Nat} {r : Turns size} {p q : Nat}

def stage (r : Turns size) (p : Nat) : Stage :=
  if r.head ≤ p then .waiting
  else if r.turn p ≤ p then .writing
  else if r.tail ≤ p then .stored
  else if r.turn p ≤ p + 1 then .reading
  else .released

/-- A number is put beside the cell of `p`. -/
def setTurn (r : Turns size) (p turn : Nat) : Turns size :=
  { r with turn := fun q => if q % size = p % size then turn else r.turn q }

def claim (r : Turns size) : Turns size := { r with head := r.head + 1 }

def take (r : Turns size) : Turns size := { r with tail := r.tail + 1 }

@[simp] theorem head_setTurn {turn : Nat} : (r.setTurn p turn).head = r.head := rfl

@[simp] theorem tail_setTurn {turn : Nat} : (r.setTurn p turn).tail = r.tail := rfl

@[simp] theorem turn_claim : r.claim.turn = r.turn := rfl

@[simp] theorem head_claim : r.claim.head = r.head + 1 := rfl

@[simp] theorem tail_claim : r.claim.tail = r.tail := rfl

@[simp] theorem turn_take : r.take.turn = r.turn := rfl

@[simp] theorem head_take : r.take.head = r.head := rfl

@[simp] theorem tail_take : r.take.tail = r.tail + 1 := rfl

/-- What the numbers beside the cells can be. -/
structure Ordered (r : Turns size) : Prop where
  cell : ∀ p q, p % size = q % size → r.turn p = r.turn q
  form : ∀ p, ∃ q, q % size = p % size ∧ (r.turn p = q ∨ r.turn p = q + 1)
  claimed_le : ∀ p, p < r.head → p ≤ r.turn p
  taken_lt : ∀ p, p < r.tail → p < r.turn p
  lt_claimed : ∀ p, p < r.turn p → p < r.head
  lt_taken : ∀ p, p + 1 < r.turn p → p < r.tail

/-- Places in one cell are a round apart. -/
theorem apart (h : p % size = q % size) : p = q ∨ p + size ≤ q ∨ q + size ≤ p := by
  have hround : ∀ {a b : Nat}, a % size = b % size → a < b → a + size ≤ b := by
    intro a b hab hlt
    have hle := Nat.le_of_dvd (Nat.sub_pos_of_lt hlt)
      ((Nat.modEq_iff_dvd' (Nat.le_of_lt hlt)).mp hab)
    omega
  rcases Nat.lt_trichotomy p q with hlt | heq | hgt
  · exact .inr (.inl (hround h hlt))
  · exact .inl heq
  · exact .inr (.inr (hround h.symm hgt))

theorem stage_eq_waiting : r.stage p = .waiting ↔ r.head ≤ p := by
  rw [stage]
  split_ifs <;> simp_all

theorem stage_eq_writing : r.stage p = .writing ↔ p < r.head ∧ r.turn p ≤ p := by
  rw [stage]
  split_ifs <;> simp_all

theorem stage_eq_stored : r.stage p = .stored ↔ p < r.head ∧ p < r.turn p ∧ r.tail ≤ p := by
  rw [stage]
  split_ifs <;> simp_all

theorem stage_eq_reading :
    r.stage p = .reading ↔ p < r.head ∧ p < r.turn p ∧ p < r.tail ∧ r.turn p ≤ p + 1 := by
  rw [stage]
  split_ifs <;> simp_all

theorem stage_eq_released :
    r.stage p = .released ↔ p < r.head ∧ p + 1 < r.turn p ∧ p < r.tail := by
  rw [stage]
  split_ifs <;> simp_all
  omega

theorem turn_setTurn_of_ne {turn : Nat} (h : q % size ≠ p % size) :
    (r.setTurn p turn).turn q = r.turn q := if_neg h

theorem turn_setTurn_of_eq {turn : Nat} (h : q % size = p % size) :
    (r.setTurn p turn).turn q = turn := if_pos h

namespace Ordered

theorem tail_le (h : r.Ordered) : r.tail ≤ r.head := by
  by_contra hnot
  have hturn := h.taken_lt r.head (by omega)
  have hhead := h.lt_claimed r.head hturn
  omega

/-- The head is never more than a round before the tail. -/
theorem head_le (h : r.Ordered) (hsize : 2 ≤ size) : r.head ≤ r.tail + size := by
  by_contra hnot
  have hround : (r.head - 1) % size = (r.head - 1 - size) % size := by
    rw [← Nat.add_mod_right (r.head - 1 - size) size]
    congr 1
    omega
  have hturn := h.claimed_le (r.head - 1) (by omega)
  rw [h.cell _ _ hround] at hturn
  have htaken := h.lt_taken (r.head - 1 - size) (by omega)
  omega

theorem turn_of_busy (h : r.Ordered) (hbusy : (r.stage p).Busy) :
    r.turn p = p ∨ r.turn p = p + 1 := by
  have hclaimed : p < r.head := by
    by_contra hnot
    exact hbusy.1 (stage_eq_waiting.mpr (by omega))
  have hle := h.claimed_le p hclaimed
  by_contra hnot
  exact hbusy.2 (stage_eq_released.mpr ⟨hclaimed, by omega, h.lt_taken p (by omega)⟩)

/-- In a cell there is one place at a time. -/
theorem alone (h : r.Ordered) (hsize : 2 ≤ size) (hp : (r.stage p).Busy) (hq : (r.stage q).Busy)
    (hcell : p % size = q % size) : p = q := by
  have hturn := h.cell p q hcell
  have hp := h.turn_of_busy hp
  have hq := h.turn_of_busy hq
  rcases apart hcell with heq | hlt | hlt <;> omega

theorem turn_le (h : r.Ordered) (hsize : 2 ≤ size) : r.turn p ≤ r.head + size := by
  by_contra hnot
  obtain ⟨q, hcell, hq⟩ := h.form p
  have hround : (q - size) % size = p % size := by
    rw [← hcell, ← Nat.add_mod_right (q - size) size]
    congr 1
    omega
  have hlt := h.lt_claimed (q - size)
  rw [h.cell _ _ hround] at hlt
  omega

/-- The cell that is free for the head is not the one where somebody is busy. -/
theorem head_free (h : r.Ordered) (hsize : 2 ≤ size) (hp : (r.stage p).Busy)
    (hturn : r.turn r.head = r.head) : r.head % size ≠ p % size := by
  intro hcell
  have hclaimed : p < r.head := by
    by_contra hnot
    exact hp.1 (stage_eq_waiting.mpr (by omega))
  have hp := h.turn_of_busy hp
  rw [h.cell _ _ hcell] at hturn
  rcases apart hcell with heq | hlt | hlt <;> omega

/-- The cell where the tail is stored is not the one where somebody writes or reads. -/
theorem tail_stored (h : r.Ordered) (hsize : 2 ≤ size)
    (hp : r.stage p = .writing ∨ r.stage p = .reading) (hturn : r.turn r.tail = r.tail + 1) :
    r.tail % size ≠ p % size := by
  intro hcell
  have hstored : r.stage r.tail = .stored :=
    stage_eq_stored.mpr ⟨h.lt_claimed _ (by omega), by omega, Nat.le_refl _⟩
  have hbusy : (r.stage p).Busy := by
    rcases hp with hp | hp <;> rw [hp] <;> exact ⟨by decide, by decide⟩
  have heq : r.tail = p := h.alone hsize (by rw [hstored]; exact ⟨by decide, by decide⟩) hbusy hcell
  rw [← heq, hstored] at hp
  rcases hp with hp | hp <;> cases hp

/-- A writer finds the cell taken exactly at the head, while the place a round before it is not
released. -/
theorem turn_lt_iff (h : r.Ordered) (hsize : 2 ≤ size) (hq : q ≤ r.head) :
    r.turn q < q ↔ q = r.head ∧ size ≤ q ∧ r.stage (q - size) ≠ .released := by
  have hround : size ≤ q → (q - size) % size = q % size := fun hle => by
    rw [← Nat.add_mod_right (q - size) size, Nat.sub_add_cancel hle]
  constructor
  · intro hlt
    have heq : q = r.head := by
      by_contra hne
      have := h.claimed_le q (by omega)
      omega
    obtain ⟨q', hcell, hq'⟩ := h.form q
    have happart := apart hcell
    refine ⟨heq, by omega, fun hreleased => ?_⟩
    have hturn := (stage_eq_released.mp hreleased).2.1
    rw [h.cell _ _ (hround (by omega))] at hturn
    omega
  · intro hfull
    obtain ⟨heq, hle, hnot⟩ := hfull
    have hbusy : (r.stage (q - size)).Busy := by
      refine ⟨fun hwaiting => ?_, hnot⟩
      have := stage_eq_waiting.mp hwaiting
      omega
    have hturn := h.turn_of_busy hbusy
    rw [h.cell _ _ (hround hle)] at hturn
    omega

/-! Each of the four steps moves one place to its next stage, and no other. -/

theorem claim (h : r.Ordered) (hturn : r.turn r.head = r.head) :
    r.claim.Ordered ∧ r.claim.stage = Function.update r.stage r.head .writing := by
  have htail := h.tail_le
  refine ⟨⟨h.cell, h.form, fun p hp => ?_, h.taken_lt, fun p hp => ?_, h.lt_taken⟩, ?_⟩
  · rcases Nat.lt_or_eq_of_le (Nat.le_of_lt_succ hp) with hlt | heq
    · exact h.claimed_le p hlt
    · rw [heq]
      exact Nat.le_of_eq hturn.symm
  · exact Nat.lt_succ_of_lt (h.lt_claimed p hp)
  · funext q
    by_cases hq : q = r.head
    · rw [hq, Function.update_self]
      exact stage_eq_writing.mpr ⟨Nat.lt_succ_self _, Nat.le_of_eq hturn⟩
    · rw [Function.update_of_ne hq, stage, stage, head_claim, turn_claim, tail_claim]
      split_ifs <;> first | rfl | omega

theorem take (h : r.Ordered) (hturn : r.turn r.tail = r.tail + 1) :
    r.take.Ordered ∧ r.take.stage = Function.update r.stage r.tail .reading := by
  have hclaimed := h.lt_claimed r.tail (by omega)
  refine ⟨⟨h.cell, h.form, h.claimed_le, fun p hp => ?_, h.lt_claimed, fun p hp => ?_⟩, ?_⟩
  · rcases Nat.lt_or_eq_of_le (Nat.le_of_lt_succ hp) with hlt | heq
    · exact h.taken_lt p hlt
    · rw [heq, turn_take, hturn]
      exact Nat.lt_succ_self _
  · exact Nat.lt_succ_of_lt (h.lt_taken p hp)
  · funext q
    by_cases hq : q = r.tail
    · rw [hq, Function.update_self]
      exact stage_eq_reading.mpr ⟨hclaimed, by rw [turn_take]; omega, Nat.lt_succ_self _,
        Nat.le_of_eq hturn⟩
    · rw [Function.update_of_ne hq, stage, stage, head_take, turn_take, tail_take]
      split_ifs <;> first | rfl | omega

/-- A number changes, to one that the cell may have. -/
theorem setTurn (h : r.Ordered) {turn place : Nat} (hplace : place % size = p % size)
    (hturn : turn = place ∨ turn = place + 1)
    (hcell : ∀ q, (q = p ∨ q + size ≤ p ∨ p + size ≤ q) →
      (q < r.head → q ≤ r.turn p) ∧ (q < r.tail → q < r.turn p) ∧
        (q < r.turn p → q < r.head) ∧ (q + 1 < r.turn p → q < r.tail) →
      (q < r.head → q ≤ turn) ∧ (q < r.tail → q < turn) ∧
        (q < turn → q < r.head) ∧ (q + 1 < turn → q < r.tail)) :
    (r.setTurn p turn).Ordered := by
  have hall : ∀ q, (q < r.head → q ≤ (r.setTurn p turn).turn q) ∧
      (q < r.tail → q < (r.setTurn p turn).turn q) ∧
        (q < (r.setTurn p turn).turn q → q < r.head) ∧
          (q + 1 < (r.setTurn p turn).turn q → q < r.tail) := by
    intro q
    have hold := And.intro (h.claimed_le q)
      (And.intro (h.taken_lt q) (And.intro (h.lt_claimed q) (h.lt_taken q)))
    by_cases hq : q % size = p % size
    · rw [turn_setTurn_of_eq hq]
      rw [h.cell q p hq] at hold
      exact hcell q (apart hq) hold
    · rw [turn_setTurn_of_ne hq]
      exact hold
  refine ⟨fun q q' hq => ?_, fun q => ?_, fun q => (hall q).1, fun q => (hall q).2.1,
    fun q => (hall q).2.2.1, fun q => (hall q).2.2.2⟩
  · by_cases hp : q % size = p % size
    · rw [turn_setTurn_of_eq hp, turn_setTurn_of_eq (hq.symm.trans hp)]
    · rw [turn_setTurn_of_ne hp, turn_setTurn_of_ne (hq ▸ hp)]
      exact h.cell q q' hq
  · by_cases hp : q % size = p % size
    · rw [turn_setTurn_of_eq hp]
      exact ⟨place, hplace.trans hp.symm, hturn⟩
    · rw [turn_setTurn_of_ne hp]
      exact h.form q

/-- The other places of the cell are further off than the number that changes. -/
theorem stage_setTurn (h : r.Ordered) {turn : Nat}
    (hcell : q + size ≤ p ∨ p + size ≤ q → q < r.head →
      (r.turn p ≤ q ↔ turn ≤ q) ∧ (q < r.tail → (r.turn p ≤ q + 1 ↔ turn ≤ q + 1)))
    (hq : q ≠ p) : (r.setTurn p turn).stage q = r.stage q := by
  rw [stage, stage, head_setTurn, tail_setTurn]
  by_cases hsame : q % size = p % size
  · have happart := (apart hsame).resolve_left hq
    rw [turn_setTurn_of_eq hsame, h.cell q p hsame]
    split_ifs <;> first | rfl | omega
  · rw [turn_setTurn_of_ne hsame]

theorem publish (h : r.Ordered) (hsize : 2 ≤ size) (hp : r.stage p = .writing) :
    (r.setTurn p (p + 1)).Ordered ∧
      (r.setTurn p (p + 1)).stage = Function.update r.stage p .stored := by
  obtain ⟨hclaimed, hle⟩ := stage_eq_writing.mp hp
  have hturn : r.turn p = p := Nat.le_antisymm hle (h.claimed_le p hclaimed)
  have htaken := h.taken_lt p
  refine ⟨h.setTurn rfl (.inr rfl) fun q hq => by omega, ?_⟩
  funext q
  by_cases hq : q = p
  · rw [hq, Function.update_self]
    exact stage_eq_stored.mpr ⟨hclaimed, by rw [turn_setTurn_of_eq rfl]; omega,
      by rw [tail_setTurn]; omega⟩
  · rw [Function.update_of_ne hq]
    exact h.stage_setTurn (fun happart hlt => by omega) hq

theorem release (h : r.Ordered) (hsize : 2 ≤ size) (hp : r.stage p = .reading) :
    (r.setTurn p (p + size)).Ordered ∧
      (r.setTurn p (p + size)).stage = Function.update r.stage p .released := by
  obtain ⟨hclaimed, hlt, htaken, hle⟩ := stage_eq_reading.mp hp
  have hturn : r.turn p = p + 1 := by omega
  refine ⟨h.setTurn (Nat.add_mod_right p size) (.inl rfl) fun q hq => by omega, ?_⟩
  funext q
  by_cases hq : q = p
  · rw [hq, Function.update_self]
    exact stage_eq_released.mpr ⟨hclaimed, by rw [turn_setTurn_of_eq rfl]; omega, htaken⟩
  · rw [Function.update_of_ne hq]
    exact h.stage_setTurn (fun happart hlt => by omega) hq

end Ordered

end Turns

end Fastpath.Lib
