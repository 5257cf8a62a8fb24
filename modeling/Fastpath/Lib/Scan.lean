import Mathlib.Data.List.TakeWhile

/-!
# Scanning a list

A search passes over a front in which nothing is what it looks for, and stops at
something that is, or at the end. A list is cut into these two for every search,
and to cut it at every separator is to do so again behind each.

`At s pos t` is what a position says about the list: `t` is there. Going on by
the length of what one has passed over gives the next position.
-/

namespace Fastpath.Lib

variable {α : Type} {p : α → Bool} {s a b t : List α} {c : α} {pos : Nat}

/-! ## What a search passes over, and where it stops -/

/-- A search for `p` in `t` is over at once. -/
def Stops (p : α → Bool) (t : List α) : Prop := ∀ c ∈ t.head?, p c = true

theorem stops_nil : Stops p [] := fun c hc => by cases hc

theorem stops_cons (h : p c = true) : Stops p (c :: t) := fun d hd => by
  cases hd
  exact h

theorem Stops.eq_nil_or_cons (h : Stops p t) : t = [] ∨ ∃ c t', t = c :: t' ∧ p c = true := by
  cases t with
  | nil => exact .inl rfl
  | cons c t' => exact .inr ⟨c, t', rfl, h c rfl⟩

theorem exists_scan (p : α → Bool) (t : List α) :
    ∃ a b, t = a ++ b ∧ (∀ c ∈ a, p c = false) ∧ Stops p b := by
  refine ⟨t.takeWhile fun c => !p c, t.dropWhile fun c => !p c,
    List.takeWhile_append_dropWhile.symm, fun c hc => ?_, fun c hc => ?_⟩
  · simpa using List.mem_takeWhile_imp hc
  · have := List.head?_dropWhile_not (fun c => !p c) t
    rw [Option.mem_def.mp hc] at this
    simpa using this

theorem takeWhile_scan (ha : ∀ c ∈ a, p c = false) (hb : Stops p b) :
    (a ++ b).takeWhile (fun c => !p c) = a := by
  rw [List.takeWhile_append_of_pos fun c hc => by rw [ha c hc]; rfl]
  cases b with
  | nil => exact List.append_nil a
  | cons c b => rw [List.takeWhile_cons, hb c rfl]; exact List.append_nil a

theorem dropWhile_scan (ha : ∀ c ∈ a, p c = false) (hb : Stops p b) :
    (a ++ b).dropWhile (fun c => !p c) = b := by
  rw [List.dropWhile_append_of_pos fun c hc => by rw [ha c hc]; rfl]
  cases b with
  | nil => rfl
  | cons c b => rw [List.dropWhile_cons, hb c rfl]; rfl

/-- The first piece, and the pieces behind the separator if there is one. -/
theorem splitOn_scan [DecidableEq α] {x : α} (ha : ∀ c ∈ a, decide (c = x) = false)
    (hb : Stops (· = x) b) :
    (a ++ b).splitOn x = a :: if b = [] then [] else b.tail.splitOn x := by
  have hfree : x ∉ a := fun hmem => by simpa using ha x hmem
  rcases hb.eq_nil_or_cons with rfl | ⟨d, b, rfl, hd⟩
  · rw [List.append_nil, List.splitOn_eq_singleton hfree, if_pos rfl]
  · rw [of_decide_eq_true hd, List.splitOn_append_cons_self_of_not_mem hfree,
      if_neg (List.cons_ne_nil _ _), List.tail_cons]

/-! ## Positions -/

/-- `pos` is in the list or at its end, and `t` is the rest of it from there. -/
structure At (s : List α) (pos : Nat) (t : List α) : Prop where
  inside : pos ≤ s.length
  rest : s.drop pos = t

theorem At.length (h : At s pos t) : pos + t.length = s.length := by
  have := h.inside
  rw [← h.rest, List.length_drop]
  omega

theorem At.append (a t : List α) : At (a ++ t) a.length t :=
  ⟨by simp, List.drop_left⟩

theorem At.last (s : List α) : At s s.length [] := ⟨Nat.le_refl _, List.drop_length⟩

theorem At.skip (h : At s pos (a ++ t)) : At s (pos + a.length) t := by
  have := h.length
  refine ⟨by rw [List.length_append] at this; omega, ?_⟩
  rw [← List.drop_drop, h.rest, List.drop_left]

theorem At.tail (h : At s pos (c :: t)) : At s (pos + 1) t := h.skip (a := [c])

theorem At.end_iff (h : At s pos t) : pos = s.length ↔ t = [] := by
  have := h.length
  rw [← List.length_eq_zero_iff]
  omega

theorem At.not_end (h : At s pos (c :: t)) : ¬ pos = s.length := by
  rw [h.end_iff]
  exact List.cons_ne_nil c t

end Fastpath.Lib
