import Mathlib.Logic.Basic

/-!
# Computations over a state that may stop early

`Exec ε σ α` is a run over a state `σ` that either answers or stops with an
`ε`. Unlike `StateT σ (Except ε)` the state survives the stop: a C++ function
that throws has still moved every cursor it moved before throwing, and the
handler sees them.

The two `bind` lemmas are all the symbolic execution there is: a proof peels
one operation off a sequence by quoting what that operation does.
-/

namespace Fastpath.Lib

/-- A run over `σ` answering an `α`, or stopping with an `ε`; the state comes
back either way. -/
structure Exec (ε σ α : Type) where
  run : σ → Except ε α × σ

namespace Exec

variable {ε σ τ α β : Type}

instance : Monad (Exec ε σ) where
  pure a := ⟨fun s => (.ok a, s)⟩
  bind x f := ⟨fun s =>
    match x.run s with
    | (.ok a, s') => (f a).run s'
    | (.error e, s') => (.error e, s')⟩

def get : Exec ε σ σ := ⟨fun s => (.ok s, s)⟩

def modify (f : σ → σ) : Exec ε σ Unit := ⟨fun s => (.ok (), f s)⟩

def throw (e : ε) : Exec ε σ α := ⟨fun s => (.error e, s)⟩

def zoom (proj : σ → τ) (put : τ → σ → σ) (x : Exec ε τ α) : Exec ε σ α :=
  ⟨fun s => ((x.run (proj s)).1, put (x.run (proj s)).2 s)⟩

/-- Repeat `body` until it answers, at most `fuel` times. `spent` is what a run
that exhausts its fuel stops with. -/
def untilSome (spent : ε) (body : Exec ε σ (Option α)) : Nat → Exec ε σ α
  | 0 => throw spent
  | fuel + 1 => do
      match ← body with
      | some a => pure a
      | none => untilSome spent body fuel

@[simp] theorem pure_run (a : α) (s : σ) :
    (pure a : Exec ε σ α).run s = (.ok a, s) := rfl

@[simp] theorem get_run (s : σ) : (get : Exec ε σ σ).run s = (.ok s, s) := rfl

@[simp] theorem modify_run (f : σ → σ) (s : σ) :
    (modify f : Exec ε σ Unit).run s = (.ok (), f s) := rfl

@[simp] theorem throw_run (e : ε) (s : σ) :
    (throw e : Exec ε σ α).run s = (.error e, s) := rfl

theorem bind_ok {x : Exec ε σ α} {f : α → Exec ε σ β} {s s' : σ} {a : α}
    (h : x.run s = (.ok a, s')) : (x >>= f).run s = (f a).run s' := by
  show (match x.run s with
    | (.ok a, s') => (f a).run s'
    | (.error e, s') => (.error e, s')) = (f a).run s'
  rw [h]

theorem bind_error {x : Exec ε σ α} {f : α → Exec ε σ β} {s s' : σ} {e : ε}
    (h : x.run s = (.error e, s')) : (x >>= f).run s = (.error e, s') := by
  show (match x.run s with
    | (.ok a, s') => (f a).run s'
    | (.error e, s') => (.error e, s')) = (.error e, s')
  rw [h]

/-- A sequence that answers has answered at its first step. -/
theorem of_bind_ok {x : Exec ε σ α} {f : α → Exec ε σ β} {s s' : σ} {b : β}
    (h : (x >>= f).run s = (.ok b, s')) :
    ∃ a s₁, x.run s = (.ok a, s₁) ∧ (f a).run s₁ = (.ok b, s') := by
  cases hrun : x.run s with
  | mk answer s₁ =>
      cases answer with
      | ok a => exact ⟨a, s₁, rfl, (bind_ok hrun).symm.trans h⟩
      | error e =>
          rw [bind_error hrun] at h
          cases h

/-- Where nothing behind the first step stops with `e`, the first step decides. -/
theorem bind_stops_iff {x : Exec ε σ α} {f : α → Exec ε σ β} {s : σ} {e : ε}
    (hf : ∀ a s', ((f a).run s').1 ≠ .error e) :
    ((x >>= f).run s).1 = .error e ↔ (x.run s).1 = .error e := by
  cases hrun : x.run s with
  | mk answer s' =>
      cases answer with
      | ok a =>
          rw [bind_ok hrun]
          exact iff_of_false (hf a s') nofun
      | error e' =>
          rw [bind_error hrun]
          exact ⟨congrArg Except.error ∘ Except.error.inj, congrArg Except.error ∘ Except.error.inj⟩

/-- Two first steps with one outcome may be exchanged. -/
theorem bind_congr {x y : Exec ε σ α} {s : σ} (h : x.run s = y.run s) (f : α → Exec ε σ β) :
    (x >>= f).run s = (y >>= f).run s := by
  show (match x.run s with
    | (.ok a, s') => (f a).run s'
    | (.error e, s') => (.error e, s')) = _
  rw [h]
  rfl

theorem zoom_ok {proj : σ → τ} {put : τ → σ → σ} {x : Exec ε τ α} {s : σ}
    {t : τ} {a : α} (h : x.run (proj s) = (.ok a, t)) :
    (zoom proj put x).run s = (.ok a, put t s) := by
  simp only [zoom, h]

theorem zoom_error {proj : σ → τ} {put : τ → σ → σ} {x : Exec ε τ α} {s : σ}
    {t : τ} {e : ε} (h : x.run (proj s) = (.error e, t)) :
    (zoom proj put x).run s = (.error e, put t s) := by
  simp only [zoom, h]

/-- A sequence on a part is a sequence of steps on it. -/
theorem zoom_bind {proj : σ → τ} {put : τ → σ → σ} (hproj : ∀ t s, proj (put t s) = t)
    (hput : ∀ t t' s, put t (put t' s) = put t s) (x : Exec ε τ α) (f : α → Exec ε τ β) :
    zoom proj put (x >>= f) = zoom proj put x >>= fun a => zoom proj put (f a) := by
  refine congrArg Exec.mk (funext fun s => ?_)
  cases hrun : x.run (proj s) with
  | mk answer t =>
      cases answer with
      | ok a =>
          have hzoom : (zoom proj put x).run s = (.ok a, put t s) := zoom_ok hrun
          rw [bind_ok hrun]
          refine Eq.trans ?_ (bind_ok hzoom).symm
          simp only [zoom, hproj, hput]
      | error e =>
          have hzoom : (zoom proj put x).run s = (.error e, put t s) := zoom_error hrun
          rw [bind_error hrun]
          exact (bind_error hzoom).symm

/-- The run answers. -/
def Returns (x : Exec ε σ α) (s : σ) : Prop := ∃ a s', x.run s = (.ok a, s')

theorem Returns.of_ok {x : Exec ε σ α} {s s' : σ} {a : α} (h : x.run s = (.ok a, s')) :
    x.Returns s :=
  ⟨a, s', h⟩

theorem not_returns_of_error {x : Exec ε σ α} {s s' : σ} {e : ε}
    (h : x.run s = (.error e, s')) : ¬ x.Returns s := by
  intro h
  obtain ⟨a, t, hok⟩ := h
  rw [h] at hok
  cases hok

theorem returns_bind {x : Exec ε σ α} {f : α → Exec ε σ β} {s : σ} :
    (x >>= f).Returns s ↔ ∃ a s', x.run s = (.ok a, s') ∧ (f a).Returns s' := by
  cases hrun : x.run s with
  | mk answer s' =>
      cases answer with
      | ok a =>
          rw [Returns, bind_ok hrun]
          refine ⟨fun h => ⟨a, s', rfl, h⟩, fun ⟨a', t, heq, h⟩ => ?_⟩
          cases heq
          exact h
      | error e =>
          refine ⟨fun h => absurd h (not_returns_of_error (bind_error hrun)), ?_⟩
          intro h
          obtain ⟨a, t, heq, -⟩ := h
          cases heq

theorem returns_bind_pure {x : Exec ε σ α} {f : α → β} {s : σ} :
    (x >>= fun a => pure (f a)).Returns s ↔ x.Returns s := by
  rw [returns_bind]
  constructor
  · intro h
    obtain ⟨a, s', hrun, -⟩ := h
    exact ⟨a, s', hrun⟩
  · intro h
    obtain ⟨a, s', hrun⟩ := h
    exact ⟨a, s', hrun, f a, s', rfl⟩

theorem returns_zoom {proj : σ → τ} {put : τ → σ → σ} {x : Exec ε τ α} {s : σ} :
    (zoom proj put x).Returns s ↔ x.Returns (proj s) := by
  refine ⟨fun ⟨a, s', hrun⟩ => ?_, fun ⟨a, t, hrun⟩ => ⟨a, _, zoom_ok hrun⟩⟩
  have hanswer : (x.run (proj s)).1 = .ok a := congrArg Prod.fst hrun
  exact ⟨a, _, Prod.ext hanswer rfl⟩

/-- From a state of `P`, whatever is answered satisfies `Q` together with the state that is
left. -/
def Ensures (P : σ → Prop) (x : Exec ε σ α) (Q : α → σ → Prop) : Prop :=
  ∀ s a s', P s → x.run s = (.ok a, s') → Q a s'

section Ensures

variable {P : σ → Prop}

theorem Ensures.pure {Q : α → σ → Prop} {a : α} (h : ∀ s, P s → Q a s) :
    Ensures P (Pure.pure a : Exec ε σ α) Q := by
  intro s a' s' hs hrun
  cases hrun
  exact h s hs

theorem Ensures.throw {Q : α → σ → Prop} (e : ε) : Ensures P (Exec.throw e : Exec ε σ α) Q := by
  intro s a s' _ hrun
  cases hrun

theorem Ensures.get : Ensures P (Exec.get : Exec ε σ σ) fun _ => P := by
  intro s a s' hs hrun
  cases hrun
  exact hs

theorem Ensures.modify {f : σ → σ} {Q : Unit → σ → Prop} (h : ∀ s, P s → Q () (f s)) :
    Ensures P (Exec.modify f : Exec ε σ Unit) Q := by
  intro s a s' hs hrun
  cases hrun
  exact h s hs

theorem Ensures.bind {x : Exec ε σ α} {f : α → Exec ε σ β} {Q : α → σ → Prop} {Q' : β → σ → Prop}
    (hx : Ensures P x Q) (hf : ∀ a, Ensures (Q a) (f a) Q') : Ensures P (x >>= f) Q' := by
  intro s b s' hs hrun
  obtain ⟨a, s₁, hfirst, hrest⟩ := of_bind_ok hrun
  exact hf a s₁ b s' (hx s a s₁ hs hfirst) hrest

end Ensures

/-- From related states: unless `x` stops for a reason that is one of `limit`, `y` does what `x`
does, and the states are related again. -/
def Follows (R : σ → τ → Prop) (limit : ε → Prop) (x : Exec ε σ α) (y : Exec ε τ α) : Prop :=
  ∀ s t, R s t → (∃ e, limit e ∧ (x.run s).1 = .error e) ∨
    (x.run s).1 = (y.run t).1 ∧ R (x.run s).2 (y.run t).2

section Follows

variable {R : σ → τ → Prop} {limit : ε → Prop}

theorem Follows.refl (x : Exec ε σ α) : Follows Eq limit x x := by
  intro s t hst
  rw [hst]
  exact .inr ⟨rfl, rfl⟩

theorem Follows.pure (a : α) :
    Follows R limit (Pure.pure a : Exec ε σ α) (Pure.pure a : Exec ε τ α) :=
  fun _ _ h => .inr ⟨rfl, h⟩

theorem Follows.throw (e : ε) :
    Follows R limit (Exec.throw e : Exec ε σ α) (Exec.throw e : Exec ε τ α) :=
  fun _ _ h => .inr ⟨rfl, h⟩

theorem Follows.exhausted {e : ε} (he : limit e) (y : Exec ε τ α) :
    Follows R limit (Exec.throw e : Exec ε σ α) y :=
  fun _ _ _ => .inl ⟨e, he, rfl⟩

theorem Follows.modify {f : σ → σ} {g : τ → τ} (h : ∀ s t, R s t → R (f s) (g t)) :
    Follows R limit (Exec.modify f : Exec ε σ Unit) (Exec.modify g : Exec ε τ Unit) :=
  fun s t hst => .inr ⟨rfl, h s t hst⟩

/-- Each of the two looks at its own state. -/
theorem Follows.get {f : σ → Exec ε σ α} {g : τ → Exec ε τ α}
    (h : ∀ s t, R s t → Follows R limit (f s) (g t)) :
    Follows R limit (Exec.get >>= f) (Exec.get >>= g) :=
  fun s t hst => h s t hst s t hst

/-- On a part of either state. -/
theorem Follows.zoom {ρ υ : Type} {S : ρ → υ → Prop} {proj : σ → ρ} {put : ρ → σ → σ}
    {proj' : τ → υ} {put' : υ → τ → τ} {x : Exec ε ρ α} {y : Exec ε υ α}
    (h : Follows S limit x y) (hproj : ∀ s t, R s t → S (proj s) (proj' t))
    (hput : ∀ r u s t, R s t → S r u → R (put r s) (put' u t)) :
    Follows R limit (Exec.zoom proj put x) (Exec.zoom proj' put' y) := by
  intro s t hst
  obtain hlimit | ⟨hanswer, hstate⟩ := h _ _ (hproj s t hst)
  · exact .inl hlimit
  · exact .inr ⟨hanswer, hput _ _ s t hst hstate⟩

theorem Follows.part {proj : σ → τ} {put : τ → σ → σ} (hproj : ∀ t s, proj (put t s) = t)
    (x : Exec ε τ α) : Follows (fun s t => proj s = t) limit (Exec.zoom proj put x) x := by
  rintro s t rfl
  exact .inr ⟨rfl, hproj _ _⟩

theorem Follows.bind {x : Exec ε σ α} {y : Exec ε τ α} {f : α → Exec ε σ β} {g : α → Exec ε τ β}
    (hx : Follows R limit x y) (hf : ∀ a, Follows R limit (f a) (g a)) :
    Follows R limit (x >>= f) (y >>= g) := by
  intro s t hst
  have hfirst := hx s t hst
  cases hrun : x.run s with
  | mk answer s' =>
      cases hrun' : y.run t with
      | mk answer' t' =>
          rw [hrun, hrun'] at hfirst
          obtain ⟨e, he, hlimit⟩ | ⟨hanswer, hstate⟩ := hfirst
          · dsimp only at hlimit
            subst hlimit
            rw [bind_error hrun]
            exact .inl ⟨e, he, rfl⟩
          · dsimp only at hanswer hstate
            subst hanswer
            cases answer with
            | ok a =>
                rw [bind_ok hrun, bind_ok hrun']
                exact hf a s' t' hstate
            | error e =>
                rw [bind_error hrun, bind_error hrun']
                exact .inr ⟨rfl, hstate⟩

/-- A first step that `x` does not have. -/
theorem Follows.bind_right {x : Exec ε σ α} {z : Exec ε τ β} {g : β → Exec ε τ α}
    (hz : ∀ s t, R s t → ∃ b t', z.run t = (.ok b, t') ∧ R s t')
    (h : ∀ b, Follows R limit x (g b)) : Follows R limit x (z >>= g) := by
  intro s t hst
  obtain ⟨b, t', hrun, hst'⟩ := hz s t hst
  rw [bind_ok hrun]
  exact h b s t' hst'

end Follows

/-- From related states: the same answer or the same stop, and related states again. -/
def Matches (R : σ → τ → Prop) (x : Exec ε σ α) (y : Exec ε τ α) : Prop :=
  ∀ s t, R s t → (x.run s).1 = (y.run t).1 ∧ R (x.run s).2 (y.run t).2

section Matches

variable {R : σ → τ → Prop}

theorem Matches.pure (a : α) :
    Matches R (Pure.pure a : Exec ε σ α) (Pure.pure a : Exec ε τ α) :=
  fun _ _ h => ⟨rfl, h⟩

theorem Matches.modify {f : σ → σ} {g : τ → τ} (h : ∀ s t, R s t → R (f s) (g t)) :
    Matches R (Exec.modify f : Exec ε σ Unit) (Exec.modify g : Exec ε τ Unit) :=
  fun s t hst => ⟨rfl, h s t hst⟩

theorem matches_iff_follows {x : Exec ε σ α} {y : Exec ε τ α} :
    Matches R x y ↔ Follows R (fun _ => False) x y := by
  refine ⟨fun h s t hst => .inr (h s t hst), fun h s t hst => ?_⟩
  obtain ⟨_, hfalse, -⟩ | hmatches := h s t hst
  · exact hfalse.elim
  · exact hmatches

theorem Matches.bind {x : Exec ε σ α} {y : Exec ε τ α} {f : α → Exec ε σ β} {g : α → Exec ε τ β}
    (hx : Matches R x y) (hf : ∀ a, Matches R (f a) (g a)) : Matches R (x >>= f) (y >>= g) :=
  matches_iff_follows.mpr
    ((matches_iff_follows.mp hx).bind fun a => matches_iff_follows.mp (hf a))

/-- One computation on a part that related states have in common. -/
theorem Matches.zoom {ρ : Type} {proj : σ → ρ} {put : ρ → σ → σ} {proj' : τ → ρ}
    {put' : ρ → τ → τ} (hproj : ∀ s t, R s t → proj s = proj' t)
    (hput : ∀ r s t, R s t → R (put r s) (put' r t)) (x : Exec ε ρ α) :
    Matches R (Exec.zoom proj put x) (Exec.zoom proj' put' x) := by
  refine matches_iff_follows.mpr ((Follows.refl x).zoom hproj ?_)
  rintro r _ s t hst rfl
  exact hput r s t hst

theorem Matches.returns {x : Exec ε σ α} {y : Exec ε τ α} (h : Matches R x y) {s : σ} {t : τ}
    (hst : R s t) : x.Returns s ↔ y.Returns t := by
  obtain ⟨hanswer, -⟩ := h s t hst
  refine ⟨fun ⟨a, s', hrun⟩ => ?_, fun ⟨a, t', hrun⟩ => ?_⟩
  · rw [hrun] at hanswer
    exact ⟨a, _, Prod.ext hanswer.symm rfl⟩
  · rw [hrun] at hanswer
    exact ⟨a, _, Prod.ext hanswer rfl⟩

end Matches

/-- Every stop is of the kind `P`. -/
def Stops (P : ε → Prop) (x : Exec ε σ α) : Prop := ∀ s e s', x.run s = (.error e, s') → P e

section Stops

variable {P : ε → Prop}

theorem Stops.pure (a : α) : Stops P (Pure.pure a : Exec ε σ α) := by
  intro s e s' hrun
  cases hrun

theorem Stops.throw {e : ε} (h : P e) : Stops P (Exec.throw e : Exec ε σ α) := by
  intro s e' s' hrun
  cases hrun
  exact h

theorem Stops.get : Stops P (Exec.get : Exec ε σ σ) := by
  intro s e s' hrun
  cases hrun

theorem Stops.modify (f : σ → σ) : Stops P (Exec.modify f : Exec ε σ Unit) := by
  intro s e s' hrun
  cases hrun

theorem Stops.bind {x : Exec ε σ α} {f : α → Exec ε σ β} (hx : Stops P x)
    (hf : ∀ a, Stops P (f a)) : Stops P (x >>= f) := by
  intro s e s' hrun
  cases hfirst : x.run s with
  | mk answer s₁ =>
      cases answer with
      | ok a => exact hf a s₁ e s' ((bind_ok hfirst).symm.trans hrun)
      | error e' =>
          rw [bind_error hfirst] at hrun
          cases hrun
          exact hx s _ _ hfirst

theorem Stops.mono {P' : ε → Prop} {x : Exec ε σ α} (h : Stops P x) (hP : ∀ e, P e → P' e) :
    Stops P' x :=
  fun s e s' hrun => hP e (h s e s' hrun)

theorem Stops.zoom {proj : σ → τ} {put : τ → σ → σ} {x : Exec ε τ α} (h : Stops P x) :
    Stops P (Exec.zoom proj put x) := by
  intro s e s' hrun
  obtain ⟨hanswer, -⟩ := Prod.mk.inj hrun
  exact h (proj s) e _ (Prod.ext hanswer rfl)

end Stops

/-- From related states: either both answer, or both stop for one reason. `A` relates the
answers, `R` the states behind an answer and `E` those behind a stop. -/
def Relates {α β : Type} (R : σ → τ → Prop) (E : ε → σ → τ → Prop) (A : α → β → Prop)
    (x : Exec ε σ α) (y : Exec ε τ β) : Prop :=
  ∀ s t, R s t →
    (∃ a s' b t', x.run s = (.ok a, s') ∧ y.run t = (.ok b, t') ∧ A a b ∧ R s' t') ∨
      ∃ e s' t', x.run s = (.error e, s') ∧ y.run t = (.error e, t') ∧ E e s' t'

section Relates

variable {γ δ : Type} {R : σ → τ → Prop} {E : ε → σ → τ → Prop} {A : α → β → Prop}
  {B : γ → δ → Prop}

theorem Relates.pure {a : α} {b : β} (h : A a b) :
    Relates R E A (Pure.pure a : Exec ε σ α) (Pure.pure b : Exec ε τ β) :=
  fun s t hst => .inl ⟨a, s, b, t, rfl, rfl, h, hst⟩

theorem Relates.throw {e : ε} (h : ∀ s t, R s t → E e s t) :
    Relates R E A (Exec.throw e : Exec ε σ α) (Exec.throw e : Exec ε τ β) :=
  fun s t hst => .inr ⟨e, s, t, rfl, rfl, h s t hst⟩

theorem Relates.modify {f : σ → σ} {g : τ → τ} (h : ∀ s t, R s t → R (f s) (g t)) :
    Relates R E Eq (Exec.modify f : Exec ε σ Unit) (Exec.modify g : Exec ε τ Unit) :=
  fun s t hst => .inl ⟨(), f s, (), g t, rfl, rfl, rfl, h s t hst⟩

theorem Relates.bind {x : Exec ε σ α} {y : Exec ε τ β} {f : α → Exec ε σ γ} {g : β → Exec ε τ δ}
    (hx : Relates R E A x y) (hf : ∀ a b, A a b → Relates R E B (f a) (g b)) :
    Relates R E B (x >>= f) (y >>= g) := by
  intro s t hst
  obtain ⟨a, s', b, t', hxrun, hyrun, hab, hst'⟩ | ⟨e, s', t', hxrun, hyrun, he⟩ := hx s t hst
  · rw [bind_ok hxrun, bind_ok hyrun]
    exact hf a b hab s' t' hst'
  · exact .inr ⟨e, s', t', bind_error hxrun, bind_error hyrun, he⟩

/-- A first step that the other side does not have. -/
theorem Relates.bind_left {x : Exec ε σ α} {f : α → Exec ε σ γ} {y : Exec ε τ δ}
    (hx : ∀ s t, R s t → ∃ a s', x.run s = (.ok a, s') ∧ R s' t)
    (hf : ∀ a, Relates R E B (f a) y) : Relates R E B (x >>= f) y := by
  intro s t hst
  obtain ⟨a, s', hrun, hst'⟩ := hx s t hst
  rw [bind_ok hrun]
  exact hf a s' t hst'

/-- One computation on a part that related states have in common; its answers satisfy `Q`. -/
theorem Relates.zoom {ρ : Type} {proj : σ → ρ} {put : ρ → σ → σ} {proj' : τ → ρ}
    {put' : ρ → τ → τ} {x : Exec ε ρ α} {P : ε → Prop} {Q : α → Prop}
    (hproj : ∀ s t, R s t → proj s = proj' t) (hput : ∀ r s t, R s t → R (put r s) (put' r t))
    (hstop : ∀ e s t, P e → R s t → E e s t) (hx : Stops P x)
    (hq : ∀ s a s', x.run s = (.ok a, s') → Q a) :
    Relates R E (fun a b => a = b ∧ Q a) (Exec.zoom proj put x) (Exec.zoom proj' put' x) := by
  intro s t hst
  cases hrun : x.run (proj s) with
  | mk answer r =>
      have hrun' : x.run (proj' t) = (answer, r) := by rw [← hproj s t hst, hrun]
      cases answer with
      | ok a =>
          exact .inl ⟨a, _, a, _, zoom_ok hrun, zoom_ok hrun', ⟨rfl, hq _ a r hrun⟩,
            hput r s t hst⟩
      | error e =>
          exact .inr ⟨e, _, _, zoom_error hrun, zoom_error hrun',
            hstop e _ _ (hx _ e r hrun) (hput r s t hst)⟩

end Relates

/-- From a state of `P`: an answer satisfies `Q` together with the state that is left, and a stop
satisfies `E` with it. -/
def Triple (P : σ → Prop) (x : Exec ε σ α) (Q : α → σ → Prop) (E : ε → σ → Prop) : Prop :=
  ∀ s, P s →
    (∃ a s', x.run s = (.ok a, s') ∧ Q a s') ∨ ∃ e s', x.run s = (.error e, s') ∧ E e s'

section Triple

variable {P : σ → Prop} {E : ε → σ → Prop}

theorem Triple.pure {Q : α → σ → Prop} {a : α} (h : ∀ s, P s → Q a s) :
    Triple P (Pure.pure a : Exec ε σ α) Q E :=
  fun s hs => .inl ⟨a, s, rfl, h s hs⟩

theorem Triple.throw {Q : α → σ → Prop} {e : ε} (h : ∀ s, P s → E e s) :
    Triple P (Exec.throw e : Exec ε σ α) Q E :=
  fun s hs => .inr ⟨e, s, rfl, h s hs⟩

theorem Triple.get : Triple P (Exec.get : Exec ε σ σ) (fun a s => a = s ∧ P s) E :=
  fun s hs => .inl ⟨s, s, rfl, rfl, hs⟩

theorem Triple.modify {f : σ → σ} {Q : Unit → σ → Prop} (h : ∀ s, P s → Q () (f s)) :
    Triple P (Exec.modify f : Exec ε σ Unit) Q E :=
  fun s hs => .inl ⟨(), f s, rfl, h s hs⟩

theorem Triple.bind {x : Exec ε σ α} {f : α → Exec ε σ β} {Q : α → σ → Prop} {Q' : β → σ → Prop}
    (hx : Triple P x Q E) (hf : ∀ a, Triple (Q a) (f a) Q' E) : Triple P (x >>= f) Q' E := by
  intro s hs
  obtain ⟨a, s', hrun, ha⟩ | ⟨e, s', hrun, he⟩ := hx s hs
  · rw [bind_ok hrun]
    exact hf a s' ha
  · exact .inr ⟨e, s', bind_error hrun, he⟩

theorem Triple.mono {x : Exec ε σ α} {P' : σ → Prop} {Q Q' : α → σ → Prop} {E' : ε → σ → Prop}
    (h : Triple P x Q E) (hP : ∀ s, P' s → P s) (hQ : ∀ a s, Q a s → Q' a s)
    (hE : ∀ e s, E e s → E' e s) : Triple P' x Q' E' := by
  intro s hs
  obtain ⟨a, s', hrun, ha⟩ | ⟨e, s', hrun, he⟩ := h s (hP s hs)
  · exact .inl ⟨a, s', hrun, hQ a s' ha⟩
  · exact .inr ⟨e, s', hrun, hE e s' he⟩

/-- A part that an assertion does not speak of. -/
theorem Triple.zoom_frame {ρ : Type} {proj : σ → ρ} {put : ρ → σ → σ} (x : Exec ε ρ α)
    (hput : ∀ r s, P s → P (put r s)) :
    Triple P (Exec.zoom proj put x) (fun _ => P) fun _ => P := by
  intro s hs
  cases hrun : x.run (proj s) with
  | mk answer r =>
      cases answer with
      | ok a => exact .inl ⟨a, _, zoom_ok hrun, hput r s hs⟩
      | error e => exact .inr ⟨e, _, zoom_error hrun, hput r s hs⟩

end Triple

end Exec

/-! ## One after the other -/

/-- All of them answer, and what they answer is known. -/
theorem mapM_eq_iff {α β ε : Type} {f : α → Except ε β} {g : α → β} {l : List α} :
    l.mapM f = .ok (l.map g) ↔ ∀ a ∈ l, f a = .ok (g a) := by
  induction l with
  | nil => exact iff_of_true rfl fun a ha => absurd ha List.not_mem_nil
  | cons a l ih =>
      rw [List.forall_mem_cons, ← ih, List.mapM_cons]
      cases f a with
      | error e => exact iff_of_false (fun h => by cases h) fun h => by cases h.1
      | ok b =>
          cases l.mapM f with
          | error e => exact iff_of_false (fun h => by cases h) fun h => by cases h.2
          | ok bs =>
              show Except.ok (b :: bs) = Except.ok (g a :: l.map g) ↔ _
              simp only [Except.ok.injEq, List.cons.injEq]

end Fastpath.Lib
