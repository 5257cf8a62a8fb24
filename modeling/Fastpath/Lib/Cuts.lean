import Mathlib.Data.List.Basic

/-!
# Pieces cut from a stream

A reader goes over a stream from the front. Some of what it comes to it leaves
out, and some it takes as a piece; what it makes of a piece it reads where the
piece begins, and may read on behind it. Readings of one stretch after another
join, and a reading does not change when the stream goes on, if none of the
pieces is read differently then.
-/

namespace Fastpath.Lib

variable {α δ : Type}

/-- `ds` are cut from the front of a stream, one behind the other, and what comes last is left.
Each of them was read where it begins. -/
inductive Cuts (piece : δ → List α) (Reads : δ → List α → Prop) :
    List δ → List α → List α → Prop where
  | refl (l : List α) : Cuts piece Reads [] l l
  | skip {ds : List δ} {l left : List α} (gap : List α) (h : Cuts piece Reads ds l left) :
      Cuts piece Reads ds (gap ++ l) left
  | take {ds : List δ} {l left : List α} (d : δ) (hreads : Reads d (piece d ++ l))
      (h : Cuts piece Reads ds l left) : Cuts piece Reads (d :: ds) (piece d ++ l) left

namespace Cuts

variable {piece : δ → List α} {Reads : δ → List α → Prop} {ds es : List δ} {l m left : List α}

theorem trans (h : Cuts piece Reads ds l m) (h' : Cuts piece Reads es m left) :
    Cuts piece Reads (ds ++ es) l left := by
  induction h with
  | refl l => exact h'
  | skip gap h ih => exact .skip gap (ih h')
  | take d hreads h ih => exact .take d hreads (ih h')

theorem nil (gap left : List α) : Cuts piece Reads [] (gap ++ left) left := .skip gap (.refl left)

/-- What is left may be left out too. -/
theorem skip_left {gap : List α} (h : Cuts piece Reads ds l (gap ++ left)) :
    Cuts piece Reads ds l left := by
  have hall := h.trans (.nil gap left)
  rwa [List.append_nil] at hall

theorem append (hmore : ∀ d l more, Reads d l → Reads d (l ++ more))
    (h : Cuts piece Reads ds l left) (more : List α) :
    Cuts piece Reads ds (l ++ more) (left ++ more) := by
  induction h with
  | refl l => exact .refl _
  | skip gap h ih =>
      rw [List.append_assoc]
      exact .skip gap ih
  | take d hreads h ih =>
      have hlonger := hmore _ _ more hreads
      rw [List.append_assoc] at hlonger ⊢
      exact .take d hlonger ih

end Cuts

end Fastpath.Lib
