import Mathlib.Data.List.Basic

/-!
# Patterns over sequences

A pattern is a sequence of atoms: one element, any one element, or everything
that is left, which is one element at least. `Covers` says what that means.
`Fits` is the cheaper question a matcher can ask in one pass over the pattern:
whether the sequence agrees with the pattern as far as the pattern goes. The
two differ only by what is left over, so with the last atom where it belongs
nothing but the lengths has to be compared besides.
-/

namespace Fastpath.Lib

inductive Atom (α : Type) where
  | exact (a : α)
  | any
  | rest
deriving DecidableEq

variable {α β : Type}

def Atom.map (f : α → β) : Atom α → Atom β
  | .exact a => .exact (f a)
  | .any => .any
  | .rest => .rest

/-- An `exact` stands for the element it names, `any` for one element, `rest` for one or
more. -/
def Covers : List (Atom α) → List α → Prop
  | [], [] => True
  | [], _ :: _ => False
  | _ :: _, [] => False
  | .exact a :: p, b :: l => a = b ∧ Covers p l
  | .any :: p, _ :: l => Covers p l
  | .rest :: p, _ :: l => Covers p l ∨ Covers (.rest :: p) l

/-- The sequence has an element for every atom, and the one an `exact` names where it stands. -/
def Fits : List (Atom α) → List α → Prop
  | [], _ => True
  | _ :: _, [] => False
  | .exact a :: p, b :: l => a = b ∧ Fits p l
  | .any :: p, _ :: l => Fits p l
  | .rest :: p, _ :: l => Fits p l

/-- Nothing follows a `rest`. -/
def Terminal (p : List (Atom α)) : Prop := Atom.rest ∉ p.dropLast

theorem Terminal.tail {a : Atom α} {p : List (Atom α)} (h : Terminal (a :: p)) : Terminal p := by
  cases p with
  | nil => exact List.not_mem_nil
  | cons b p => exact fun hmem => h (List.mem_cons_of_mem a hmem)

theorem Terminal.rest {p : List (Atom α)} (h : Terminal (Atom.rest :: p)) : p = [] := by
  cases p with
  | nil => rfl
  | cons b p => exact absurd List.mem_cons_self h

theorem covers_rest (l : List α) : Covers [.rest] l ↔ l ≠ [] := by
  induction l with
  | nil => exact ⟨fun h => h.elim, fun h => absurd rfl h⟩
  | cons b l ih =>
      refine ⟨fun _ => List.cons_ne_nil b l, fun _ => ?_⟩
      cases l with
      | nil => exact .inl trivial
      | cons c l => exact .inr (ih.mpr (List.cons_ne_nil c l))

/-- One pass over the pattern, and a look at what is left over. -/
theorem covers_iff_fits {p : List (Atom α)} (hp : Terminal p) (l : List α) :
    Covers p l ↔ Fits p l ∧ (p.getLast? = some .rest ∨ l.length = p.length) := by
  induction p generalizing l with
  | nil =>
      cases l with
      | nil => exact ⟨fun _ => ⟨trivial, .inr rfl⟩, fun _ => trivial⟩
      | cons b l => simp [Covers]
  | cons a p ih =>
      cases l with
      | nil => exact ⟨fun h => h.elim, fun h => h.1⟩
      | cons b l =>
          -- the last atom of the pattern is the last one of its tail, if it has one
          have hlast (hne : a ≠ .rest) :
              (a :: p).getLast? = some .rest ↔ p.getLast? = some .rest := by
            cases p with
            | nil => simpa using hne
            | cons c p => rw [List.getLast?_cons_cons]
          cases a with
          | exact a =>
              rw [Covers, Fits, ih hp.tail, hlast (by simp), and_assoc]
              simp
          | any =>
              rw [Covers, Fits, ih hp.tail, hlast (by simp)]
              simp
          | rest =>
              have hnil := hp.rest
              subst hnil
              rw [covers_rest]
              simp [Fits]

theorem Fits.length_le {p : List (Atom α)} {l : List α} (h : Fits p l) : p.length ≤ l.length := by
  induction p generalizing l with
  | nil => exact Nat.zero_le _
  | cons a p ih =>
      cases l with
      | nil => exact h.elim
      | cons b l =>
          have htail : Fits p l := by
            cases a with
            | exact a => exact h.2
            | any => exact h
            | rest => exact h
          exact Nat.succ_le_succ (ih htail)

theorem Fits.map {p : List (Atom α)} {l : List α} (h : Fits p l) (f : α → β) :
    Fits (p.map (Atom.map f)) (l.map f) := by
  induction p generalizing l with
  | nil => trivial
  | cons a p ih =>
      cases l with
      | nil => exact h.elim
      | cons b l =>
          cases a with
          | exact a => exact ⟨congrArg f h.1, ih h.2⟩
          | any => exact ih h
          | rest => exact ih h

/-- What is told apart in the images was told apart before. -/
theorem Fits.of_map {p : List (Atom α)} {l : List α} {f : α → β}
    (hinj : ∀ a, .exact a ∈ p → ∀ b ∈ l, f a = f b → a = b)
    (h : Fits (p.map (Atom.map f)) (l.map f)) : Fits p l := by
  induction p generalizing l with
  | nil => trivial
  | cons a p ih =>
      cases l with
      | nil => exact h.elim
      | cons b l =>
          have htail (hfits : Fits (p.map (Atom.map f)) (l.map f)) : Fits p l :=
            ih (fun c hc d hd => hinj c (List.mem_cons_of_mem a hc) d (List.mem_cons_of_mem b hd))
              hfits
          cases a with
          | exact a =>
              exact ⟨hinj a List.mem_cons_self b List.mem_cons_self h.1, htail h.2⟩
          | any => exact htail h
          | rest => exact htail h

/-- A pattern without wildcards covers one sequence. -/
theorem covers_exact_iff {l l' : List α} : Covers (l.map .exact) l' ↔ l = l' := by
  induction l generalizing l' with
  | nil =>
      cases l' with
      | nil => exact ⟨fun _ => rfl, fun _ => trivial⟩
      | cons b l' => exact ⟨fun h => h.elim, fun h => by cases h⟩
  | cons a l ih =>
      cases l' with
      | nil => exact ⟨fun h => h.elim, fun h => by cases h⟩
      | cons b l' => rw [List.map_cons, Covers, ih, List.cons.injEq]

end Fastpath.Lib
