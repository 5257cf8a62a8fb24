import Mathlib.Logic.Function.Basic

/-!
# Reference counts

Objects that are given back with the last reference to them. A count and an object
are nothing but what the calls have made of them; who has the references is not
known here. That the counts are right is a statement about a state and the
references that there are, and each call keeps it if the references change with
it. To copy or to give up a reference to what is not there is a misuse.
-/

namespace Fastpath.Lib

structure RefCounts (δ : Type) where
  useCount : Nat → Nat
  /-- What is at an address, if anything is. -/
  content : Nat → Option δ
  misused : Bool

namespace RefCounts

variable {δ : Type}

def empty : RefCounts δ := ⟨fun _ => 0, fun _ => none, false⟩

/-- An object is made, and the first reference to it. -/
def make (a : Nat) (d : δ) (c : RefCounts δ) : RefCounts δ :=
  { c with
    useCount := Function.update c.useCount a 1
    content := Function.update c.content a (some d) }

def copy (a : Nat) (c : RefCounts δ) : RefCounts δ :=
  { c with
    useCount := Function.update c.useCount a (c.useCount a + 1)
    misused := c.misused || c.useCount a = 0 }

def drop (a : Nat) (c : RefCounts δ) : RefCounts δ where
  useCount := Function.update c.useCount a (c.useCount a - 1)
  content := if c.useCount a = 1 then Function.update c.content a none else c.content
  misused := c.misused || c.useCount a = 0

/-- The counts are those of the references, and what there is has been referred to. -/
structure Accounts (c : RefCounts δ) (references : Nat → Nat) : Prop where
  count : ∀ a, c.useCount a = references a
  there : ∀ a, c.content a ≠ none ↔ references a ≠ 0
  unharmed : c.misused = false

variable {c : RefCounts δ} {references references' : Nat → Nat} {a : Nat}

theorem accounts_empty : (empty : RefCounts δ).Accounts fun _ => 0 :=
  ⟨fun _ => rfl, fun _ => iff_of_false (fun h => h rfl) fun h => h rfl, rfl⟩

theorem Accounts.make (h : c.Accounts references) (hfree : c.content a = none) (d : δ)
    (hmore : ∀ b, references' b = references b + if b = a then 1 else 0) :
    (c.make a d).Accounts references' := by
  have hnone : references a = 0 := by
    by_contra hsome
    exact (h.there a).mpr hsome hfree
  refine ⟨fun b => ?_, fun b => ?_, h.unharmed⟩
  · rw [RefCounts.make, hmore]
    by_cases hb : b = a
    · simp only [hb, Function.update_self, hnone, if_true]
    · simp only [Function.update_of_ne hb, h.count b, if_neg hb, Nat.add_zero]
  · rw [RefCounts.make, hmore]
    by_cases hb : b = a
    · simp [hb]
    · simp only [Function.update_of_ne hb, if_neg hb, Nat.add_zero]
      exact h.there b

theorem Accounts.copy (h : c.Accounts references) (hthere : references a ≠ 0)
    (hmore : ∀ b, references' b = references b + if b = a then 1 else 0) :
    (c.copy a).Accounts references' := by
  refine ⟨fun b => ?_, fun b => (h.there b).trans ?_, ?_⟩
  · rw [RefCounts.copy, hmore]
    by_cases hb : b = a
    · simp only [hb, Function.update_self, h.count a, if_true]
    · simp only [Function.update_of_ne hb, h.count b, if_neg hb, Nat.add_zero]
  · rw [hmore]
    by_cases hb : b = a
    · rw [hb, if_pos rfl]
      exact iff_of_true hthere (Nat.succ_ne_zero _)
    · rw [if_neg hb, Nat.add_zero]
  · rw [RefCounts.copy, h.unharmed, h.count a, decide_eq_false hthere]
    rfl

theorem Accounts.drop (h : c.Accounts references)
    (hless : ∀ b, references b = references' b + if b = a then 1 else 0) :
    (c.drop a).Accounts references' := by
  have ha := hless a
  rw [if_pos rfl] at ha
  have hcount := h.count a
  refine ⟨fun b => ?_, fun b => ?_, ?_⟩
  · rw [RefCounts.drop]
    by_cases hb : b = a
    · simp only [hb, Function.update_self]
      omega
    · have hsame := hless b
      rw [if_neg hb] at hsame
      simp only [Function.update_of_ne hb, h.count b]
      exact hsame
  · have hbefore := h.there b
    have hb := hless b
    rw [RefCounts.drop]
    dsimp only
    by_cases heq : b = a
    · rw [heq] at hbefore ⊢
      split
      · rw [Function.update_self]
        exact iff_of_false (fun hne => hne rfl) (by omega)
      · exact hbefore.trans (by omega)
    · rw [if_neg heq] at hb
      rw [hb, Nat.add_zero] at hbefore
      split
      · rw [Function.update_of_ne heq]
        exact hbefore
      · exact hbefore
  · rw [RefCounts.drop, h.unharmed, decide_eq_false (by omega)]
    rfl

/-- What is still referred to is as it was. -/
theorem Accounts.content_drop (h : c.Accounts references)
    (hless : ∀ b, references b = references' b + if b = a then 1 else 0) {b : Nat}
    (hb : references' b ≠ 0) : (c.drop a).content b = c.content b := by
  rw [RefCounts.drop]
  dsimp only
  split
  · next hlast =>
      refine Function.update_of_ne (fun heq => hb ?_) _ _
      have ha := hless a
      have hcount := h.count a
      rw [if_pos rfl] at ha
      rw [heq]
      omega
  · rfl

theorem content_make_of_ne (d : δ) {b : Nat} (hb : b ≠ a) : (c.make a d).content b = c.content b :=
  Function.update_of_ne hb _ _

@[simp] theorem content_make_self (d : δ) : (c.make a d).content a = some d :=
  Function.update_self _ _ _

end RefCounts

end Fastpath.Lib
