import Mathlib.Data.List.Infix

/-!
# Two readers of one stream

A reader takes one piece after another off a stream and is at some position
after each of them. Two readers may stop at different pieces, so what they agree
on is that the positions of one, as far as it gets, begin with those of the
other. That is so exactly when they agree wherever both go on, among the places
they have come to in agreement.
-/

namespace Fastpath.Lib

variable {σ τ α : Type}

/-- Where a reader is after each of its first pieces. -/
def ends (step : σ → Option σ) (position : σ → α) : Nat → σ → List α
  | 0, _ => []
  | fuel + 1, s =>
      match step s with
      | some s' => position s' :: ends step position fuel s'
      | none => []

def Comparable (l l' : List α) : Prop := l <+: l' ∨ l' <+: l

section Together

variable (f : σ → Option σ) (g : τ → Option τ) (p : σ → α) (q : τ → α)

/-- The pairs of states two readers come to side by side. -/
inductive Together (s : σ) (t : τ) : σ → τ → Prop where
  | start : Together s t s t
  | next {s₁ s₂ : σ} {t₁ t₂ : τ} (h : Together s t s₁ t₁) (hf : f s₁ = some s₂)
      (hg : g t₁ = some t₂) (hat : p s₂ = q t₂) : Together s t s₂ t₂

variable {f g p q}

theorem Together.comparable {s s₁ : σ} {t t₁ : τ} (h : Together f g p q s t s₁ t₁)
    (hall : ∀ m n, Comparable (ends f p m s) (ends g q n t)) (m n : Nat) :
    Comparable (ends f p m s₁) (ends g q n t₁) := by
  induction h generalizing m n with
  | start => exact hall m n
  | next h hf hg hat ih =>
      have hnext := ih (m + 1) (n + 1)
      rw [ends, hf, ends, hg] at hnext
      dsimp only at hnext
      rw [hat, Comparable, List.cons_prefix_cons, List.cons_prefix_cons] at hnext
      exact hnext.imp And.right And.right

theorem comparable_ends_iff {s : σ} {t : τ} :
    (∀ m n, Comparable (ends f p m s) (ends g q n t)) ↔
      ∀ s₁ t₁, Together f g p q s t s₁ t₁ → ∀ s₂ t₂, f s₁ = some s₂ → g t₁ = some t₂ →
        p s₂ = q t₂ := by
  refine ⟨fun hall s₁ t₁ h s₂ t₂ hf hg => ?_, fun hagree m => ?_⟩
  · have hone := h.comparable hall 1 1
    rw [ends, hf, ends, hg] at hone
    dsimp only [ends] at hone
    rw [Comparable, List.cons_prefix_cons, List.cons_prefix_cons] at hone
    exact hone.elim And.left fun h => h.1.symm
  · suffices hfrom : ∀ s₁ t₁ n, Together f g p q s t s₁ t₁ →
        Comparable (ends f p m s₁) (ends g q n t₁) from fun n => hfrom s t n .start
    induction m with
    | zero => exact fun _ _ _ _ => .inl List.nil_prefix
    | succ m ih =>
        intro s₁ t₁ n h
        rw [ends]
        cases hf : f s₁ with
        | none => exact .inl List.nil_prefix
        | some s₂ =>
            cases n with
            | zero => exact .inr List.nil_prefix
            | succ n =>
                rw [ends]
                cases hg : g t₁ with
                | none => exact .inr List.nil_prefix
                | some t₂ =>
                    have hat := hagree s₁ t₁ h s₂ t₂ hf hg
                    dsimp only
                    rw [hat, Comparable, List.cons_prefix_cons, List.cons_prefix_cons]
                    exact (ih s₂ t₂ n (h.next hf hg hat)).imp (⟨rfl, ·⟩) (⟨rfl, ·⟩)

end Together

end Fastpath.Lib
