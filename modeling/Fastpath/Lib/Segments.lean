import Fastpath.Lib.Scan

/-!
# The segments of a list

Cutting a list at a separator gives the segments between the separators, the
empty ones included. Each stands where it stands because of how many separators
are in front of it, and it ends where the next one is.
-/

namespace Fastpath.Lib

variable {α : Type} [DecidableEq α] {x : α} {l p : List α} {k : Nat}

/-- The longest segments of `l` that are free of `x`, in order. -/
structure Segments (x : α) (l : List α) (pieces : List (List α)) : Prop where
  free : ∀ p ∈ pieces, x ∉ p
  count : pieces.length = l.count x + 1
  joined : [x].intercalate pieces = l
  /-- The piece behind `k` separators begins behind the last of them and ends in front of the
  next one. -/
  placed : ∀ k p, pieces[k]? = some p → ∃ before behind, l = before ++ (p ++ behind) ∧
    before.count x = k ∧ (before = [] ∨ ∃ b, before = b ++ [x]) ∧
      (behind = [] ∨ ∃ b, behind = x :: b)

theorem length_splitOn (x : α) (l : List α) : (l.splitOn x).length = l.count x + 1 := by
  induction l with
  | nil => rfl
  | cons c l ih =>
      rw [List.splitOn_cons_eq_if_modifyHead, List.count_cons]
      split
      · rw [List.length_cons, ih]
      · rw [List.length_modifyHead, ih]

theorem getElem?_splitOn (h : (l.splitOn x)[k]? = some p) :
    x ∉ p ∧ ∃ before behind, l = before ++ (p ++ behind) ∧ before.count x = k ∧
      (before = [] ∨ ∃ b, before = b ++ [x]) ∧ (behind = [] ∨ ∃ b, behind = x :: b) := by
  induction k generalizing l with
  | zero =>
      obtain ⟨a, b, rfl, ha, hb⟩ := exists_scan (· = x) l
      rw [splitOn_scan ha hb] at h
      cases h
      refine ⟨fun hmem => by simpa using ha x hmem, [], b, rfl, rfl, .inl rfl, ?_⟩
      rcases hb.eq_nil_or_cons with rfl | ⟨c, b, rfl, hc⟩
      · exact .inl rfl
      · exact .inr ⟨b, by rw [of_decide_eq_true hc]⟩
  | succ k ih =>
      obtain ⟨a, b, rfl, ha, hb⟩ := exists_scan (· = x) l
      rw [splitOn_scan ha hb, List.getElem?_cons_succ] at h
      rcases hb.eq_nil_or_cons with rfl | ⟨c, b, rfl, hc⟩
      · cases h
      obtain rfl : c = x := of_decide_eq_true hc
      rw [if_neg (List.cons_ne_nil _ _), List.tail_cons] at h
      obtain ⟨hp, before, behind, rfl, hcount, hbefore, hbehind⟩ := ih h
      have hfree : c ∉ a := fun hmem => by simpa using ha c hmem
      refine ⟨hp, a ++ c :: before, behind, by simp, ?_, .inr ?_, hbehind⟩
      · rw [List.count_append, List.count_eq_zero.mpr hfree, List.count_cons_self, hcount]
        omega
      · rcases hbefore with rfl | ⟨b, rfl⟩
        · exact ⟨a, rfl⟩
        · exact ⟨a ++ c :: b, by simp⟩

theorem mem_of_mem_splitOn {c : α} (hp : p ∈ l.splitOn x) (hc : c ∈ p) : c ∈ l := by
  obtain ⟨k, hk⟩ := List.mem_iff_getElem?.mp hp
  obtain ⟨-, before, behind, rfl, -⟩ := getElem?_splitOn hk
  exact List.mem_append_right before (List.mem_append_left behind hc)

theorem segments_splitOn (x : α) (l : List α) : Segments x l (l.splitOn x) where
  free p hp := by
    obtain ⟨k, hk⟩ := List.mem_iff_getElem?.mp hp
    exact (getElem?_splitOn hk).1
  count := length_splitOn x l
  joined := List.intercalate_splitOn x
  placed _ _ h := (getElem?_splitOn h).2

end Fastpath.Lib
