import Mathlib.Data.List.Basic
import Fastpath.Lib.Exec

/-!
# Cutting a stream back into frames

A sender writes frames one after the other, `enc a` for each `a`; a receiver
finds some first part of that stream in its buffer and does not know where the
part ends. What it can rely on is a dichotomy. Either the next frame is there
in full, and behind it the same situation with one frame fewer; or what is
there is not yet a frame.

`untilSome_frames` turns this into the rule for a receive loop. The body must
take one frame off whenever one is there, and answer when there is none. Then
the loop stops, having taken exactly the frames that were complete.
-/

namespace Fastpath.Lib

variable {α β ε σ γ : Type} {enc : α → List β}

/-- What is in the buffer is not a whole frame: it stops short inside the next
one, or there is none to come and it is empty. -/
def Unfinished (enc : α → List β) : List α → List β → Prop
  | [], p => p = []
  | a :: _, p => ∃ r, r ≠ [] ∧ enc a = p ++ r

theorem Unfinished.nil (hne : ∀ a, enc a ≠ []) (todo : List α) : Unfinished enc todo [] := by
  cases todo with
  | nil => rfl
  | cons a rest => exact ⟨enc a, hne a, rfl⟩

theorem frame_cases {todo : List α} {p future : List β} (h : p ++ future = todo.flatMap enc) :
    Unfinished enc todo p ∨
      ∃ a rest t, todo = a :: rest ∧ p = enc a ++ t ∧ t ++ future = rest.flatMap enc := by
  cases todo with
  | nil => exact .inl (List.append_eq_nil_iff.mp h).1
  | cons a rest =>
      rw [List.flatMap_cons] at h
      rcases List.append_eq_append_iff.mp h with ⟨r, henc, hfuture⟩ | ⟨t, hp, hrest⟩
      · by_cases hr : r = []
        · subst hr
          rw [List.append_nil] at henc
          exact .inr ⟨a, rest, [], rfl, by rw [henc, List.append_nil], hfuture⟩
        · exact .inl ⟨r, hr, henc⟩
      · exact .inr ⟨a, rest, t, rfl, hp, hrest.symm⟩

theorem Unfinished.eq_nil {todo : List α} {p : List β} (hu : Unfinished enc todo p)
    (h : p = todo.flatMap enc) : todo = [] ∧ p = [] := by
  cases todo with
  | nil => exact ⟨rfl, hu⟩
  | cons a rest =>
      obtain ⟨r, hr, henc⟩ := hu
      exfalso
      rw [List.flatMap_cons, henc, List.append_assoc] at h
      have hnil : r ++ rest.flatMap enc = [] := List.self_eq_append_right.mp h
      exact hr (List.append_eq_nil_iff.mp hnil).1

/-- The frames that are there in full in a first part of their stream. -/
def complete (enc : α → List β) : List α → List β → List α
  | [], _ => []
  | a :: rest, p =>
      if (enc a).length ≤ p.length then a :: complete enc rest (p.drop (enc a).length) else []

theorem complete_prefix (l : List α) (p : List β) : complete enc l p <+: l := by
  induction l generalizing p with
  | nil => exact List.prefix_rfl
  | cons a l ih =>
      rw [complete]
      split
      · exact (List.prefix_cons_inj a).mpr (ih _)
      · exact List.nil_prefix

theorem complete_append (done l : List α) (p : List β) :
    complete enc (done ++ l) (done.flatMap enc ++ p) = done ++ complete enc l p := by
  induction done with
  | nil => rfl
  | cons a done ih =>
      have hle : (enc a).length ≤ ((a :: done).flatMap enc ++ p).length := by
        rw [List.flatMap_cons, List.append_assoc, List.length_append]
        exact Nat.le_add_right _ _
      rw [List.cons_append, complete, if_pos hle, List.flatMap_cons, List.append_assoc,
        List.drop_left, ih, List.cons_append]

theorem complete_eq {done todo : List α} {p : List β} (h : Unfinished enc todo p) :
    complete enc (done ++ todo) (done.flatMap enc ++ p) = done := by
  have hnone : complete enc todo p = [] := by
    cases todo with
    | nil => rfl
    | cons a rest =>
        obtain ⟨r, hr, henc⟩ := h
        have hpos := List.length_pos_iff.mpr hr
        rw [complete, if_neg]
        rw [henc, List.length_append]
        omega
  rw [complete_append, hnone, List.append_nil]

/-- The rule for a loop that takes frames off a buffer. `s₁` is the state in which
the body answers. -/
theorem Exec.untilSome_frames (spent : ε) {body : Exec ε σ (Option γ)} (view : σ → List β)
    (Inv : List α → σ → Prop) (hne : ∀ a, enc a ≠ [])
    (hstep : ∀ {a rest s t}, Inv (a :: rest) s → view s = enc a ++ t →
      ∃ s', body.run s = (.ok none, s') ∧ Inv rest s' ∧ view s' = t)
    (hstop : ∀ {todo s}, Inv todo s → Unfinished enc todo (view s) →
      ∃ c s', body.run s = (.ok (some c), s'))
    {todo : List α} {s : σ} {future : List β} {fuel : Nat} (hinv : Inv todo s)
    (h : view s ++ future = todo.flatMap enc) (hfuel : (view s).length < fuel) :
    ∃ todo' s₁ c s', Inv todo' s₁ ∧ view s₁ ++ future = todo'.flatMap enc ∧
      Unfinished enc todo' (view s₁) ∧ body.run s₁ = (.ok (some c), s') ∧
      (Exec.untilSome spent body fuel).run s = (.ok c, s') := by
  induction fuel generalizing todo s with
  | zero => exact absurd hfuel (Nat.not_lt_zero _)
  | succ fuel ih =>
      rcases frame_cases h with hu | ⟨a, rest, t, htodo, hview, hfuture⟩
      · obtain ⟨c, s', hrun⟩ := hstop hinv hu
        refine ⟨todo, s, c, s', hinv, h, hu, hrun, ?_⟩
        rw [Exec.untilSome, Exec.bind_ok hrun, Exec.pure_run]
      · subst htodo
        obtain ⟨s', hrun, hinv', hview'⟩ := hstep hinv hview
        -- the frame taken off is not empty, so the fuel still covers the rest
        have hlt : (view s').length < fuel := by
          have hpos := List.length_pos_iff.mpr (hne a)
          rw [hview, List.length_append] at hfuel
          rw [hview']
          omega
        obtain ⟨todo', s₁, c, s'', hinv₁, hfut₁, hu, hbody, hloop⟩ :=
          ih hinv' (by rw [hview']; exact hfuture) hlt
        refine ⟨todo', s₁, c, s'', hinv₁, hfut₁, hu, hbody, ?_⟩
        rw [Exec.untilSome, Exec.bind_ok hrun]
        exact hloop

end Fastpath.Lib
