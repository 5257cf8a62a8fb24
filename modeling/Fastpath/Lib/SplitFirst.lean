import Mathlib.Data.List.Basic

/-!
# The first of its kind

A search from the front of a list, with what was passed over and what lies
behind, so that the element found can be put back changed.
-/

namespace Fastpath.Lib

variable {α : Type} {p : α → Bool}

/-- The first element that satisfies `p`, between those before it and those behind it. -/
def splitFirst (p : α → Bool) : List α → Option (List α × α × List α)
  | [] => none
  | a :: rest =>
      if p a then some ([], a, rest)
      else (splitFirst p rest).map fun (before, b, behind) => (a :: before, b, behind)

theorem splitFirst_eq_some {l before behind : List α} {a : α}
    (h : splitFirst p l = some (before, a, behind)) :
    l = before ++ a :: behind ∧ p a = true ∧ ∀ b ∈ before, p b = false := by
  induction l generalizing before with
  | nil => cases h
  | cons first rest ih =>
      rw [splitFirst] at h
      split at h
      · next hfirst =>
          cases h
          exact ⟨rfl, hfirst, fun b hb => (by cases hb)⟩
      · next hfirst =>
          obtain ⟨⟨before', b, behind'⟩, hrest, heq⟩ := Option.map_eq_some_iff.mp h
          cases heq
          obtain ⟨hsplit, ha, hbefore⟩ := ih hrest
          refine ⟨congrArg (first :: ·) hsplit, ha, fun c hc => ?_⟩
          rcases List.mem_cons.mp hc with rfl | hc
          · exact Bool.eq_false_iff.mpr hfirst
          · exact hbefore c hc

theorem splitFirst_eq_none {l : List α} (h : splitFirst p l = none) : ∀ a ∈ l, p a = false := by
  induction l with
  | nil => exact fun a ha => (by cases ha)
  | cons first rest ih =>
      rw [splitFirst] at h
      split at h
      · cases h
      · next hfirst =>
          exact List.forall_mem_cons.mpr
            ⟨Bool.eq_false_iff.mpr hfirst, ih (Option.map_eq_none_iff.mp h)⟩

/-- An element may be put back as another one that is related to the others as it was. -/
theorem pairwise_putBack {R : α → α → Prop} {before behind : List α} {a b : α}
    (h : (before ++ a :: behind).Pairwise R) (hleft : ∀ c, R c a → R c b)
    (hright : ∀ c, R a c → R b c) : (before ++ b :: behind).Pairwise R := by
  obtain ⟨hbefore, hfrom, hcross⟩ := List.pairwise_append.mp h
  obtain ⟨ha, hbehind⟩ := List.pairwise_cons.mp hfrom
  refine List.pairwise_append.mpr ⟨hbefore,
    List.pairwise_cons.mpr ⟨fun c hc => hright c (ha c hc), hbehind⟩, fun c hc d hd => ?_⟩
  rcases List.mem_cons.mp hd with rfl | hd
  · exact hleft c (hcross c hc a List.mem_cons_self)
  · exact hcross c hc d (List.mem_cons_of_mem _ hd)

end Fastpath.Lib
