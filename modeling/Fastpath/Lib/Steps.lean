import Mathlib.Tactic.ByContra

/-!
# Runs of a machine

A machine takes one step for each input, and an interleaving is nothing but the
order of the inputs. `Always` says something of every state of a run, `Along`
says something of every step of it.

An invariant that every guarded step keeps holds along a guarded run. If the
steps that break the guard also break what was to hold, the guard is exactly
what the run needs.
-/

namespace Fastpath.Lib

variable {σ ι : Type} (step : σ → ι → σ)

/-- The state after a run. -/
def after (s : σ) (inputs : List ι) : σ := inputs.foldl step s

/-- Every state of the run, the first and the last included, satisfies `P`. -/
def Always (P : σ → Prop) : σ → List ι → Prop
  | s, [] => P s
  | s, i :: inputs => P s ∧ Always P (step s i) inputs

/-- Every step of the run is taken from a state, and for an input, that satisfies `G`. -/
def Along (G : σ → ι → Prop) : σ → List ι → Prop
  | _, [] => True
  | s, i :: inputs => G s i ∧ Along G (step s i) inputs

variable {step}

instance decidableAlong (G : σ → ι → Prop) [∀ s i, Decidable (G s i)] (s : σ) (inputs : List ι) :
    Decidable (Along step G s inputs) :=
  match inputs with
  | [] => .isTrue trivial
  | i :: inputs =>
      have := decidableAlong G (step s i) inputs
      inferInstanceAs (Decidable (G s i ∧ Along step G (step s i) inputs))

instance decidableAlways (P : σ → Prop) [DecidablePred P] (s : σ) (inputs : List ι) :
    Decidable (Always step P s inputs) :=
  match inputs with
  | [] => inferInstanceAs (Decidable (P s))
  | i :: inputs =>
      have := decidableAlways P (step s i) inputs
      inferInstanceAs (Decidable (P s ∧ Always step P (step s i) inputs))

theorem Always.mono {P Q : σ → Prop} {s : σ} {inputs : List ι} (h : Always step P s inputs)
    (hpq : ∀ s, P s → Q s) : Always step Q s inputs := by
  induction inputs generalizing s with
  | nil => exact hpq s h
  | cons i inputs ih => exact ⟨hpq s h.1, ih h.2⟩

theorem Always.first {P : σ → Prop} {s : σ} {inputs : List ι} (h : Always step P s inputs) :
    P s := by
  cases inputs with
  | nil => exact h
  | cons i inputs => exact h.1

theorem Always.last {P : σ → Prop} {s : σ} {inputs : List ι} (h : Always step P s inputs) :
    P (after step s inputs) := by
  induction inputs generalizing s with
  | nil => exact h
  | cons i inputs ih => exact ih h.2

theorem after_append (s : σ) (inputs more : List ι) :
    after step s (inputs ++ more) = after step (after step s inputs) more := List.foldl_append

theorem along_append {G : σ → ι → Prop} {s : σ} {inputs more : List ι} :
    Along step G s (inputs ++ more) ↔
      Along step G s inputs ∧ Along step G (after step s inputs) more := by
  induction inputs generalizing s with
  | nil => exact ⟨fun h => ⟨trivial, h⟩, fun h => h.2⟩
  | cons i inputs ih => exact (and_congr_right fun _ => ih).trans and_assoc.symm

theorem Always.and {P Q : σ → Prop} {s : σ} {inputs : List ι} (hp : Always step P s inputs)
    (hq : Always step Q s inputs) : Always step (fun s => P s ∧ Q s) s inputs := by
  induction inputs generalizing s with
  | nil => exact ⟨hp, hq⟩
  | cons i inputs ih => exact ⟨⟨hp.1, hq.1⟩, ih hp.2 hq.2⟩

theorem Along.and {G K : σ → ι → Prop} {s : σ} {inputs : List ι} (hG : Along step G s inputs)
    (hK : Along step K s inputs) : Along step (fun s i => G s i ∧ K s i) s inputs := by
  induction inputs generalizing s with
  | nil => trivial
  | cons i inputs ih => exact ⟨⟨hG.1, hK.1⟩, ih hG.2 hK.2⟩

theorem Always.along {P : σ → Prop} {s : σ} {inputs : List ι} (h : Always step P s inputs) :
    Along step (fun s _ => P s) s inputs := by
  induction inputs generalizing s with
  | nil => trivial
  | cons i inputs ih => exact ⟨h.1, ih h.2⟩

/-- What no step makes true has held all along, if it holds in the end. -/
theorem always_of_after {P : σ → Prop} (hback : ∀ s i, P (step s i) → P s) {s : σ}
    {inputs : List ι} (h : P (after step s inputs)) : Always step P s inputs := by
  induction inputs generalizing s with
  | nil => exact h
  | cons i inputs ih => exact ⟨hback s i (ih h).first, ih h⟩

/-- The rule for an invariant. -/
theorem Along.always {G : σ → ι → Prop} {I : σ → Prop}
    (hstep : ∀ s i, I s → G s i → I (step s i)) {s : σ} {inputs : List ι}
    (h : Along step G s inputs) (hinit : I s) : Always step I s inputs := by
  induction inputs generalizing s with
  | nil => exact hinit
  | cons i inputs ih => exact ⟨hinit, ih h.2 (hstep s i hinit h.1)⟩

theorem always_of_step {I : σ → Prop} (hstep : ∀ s i, I s → I (step s i)) {s : σ}
    {inputs : List ι} (hinit : I s) : Always step I s inputs := by
  induction inputs generalizing s with
  | nil => exact hinit
  | cons i inputs ih => exact ⟨hinit, ih (hstep s i hinit)⟩

/-- Two guards that say the same of every step from a state of the invariant, which the one of
them keeps. -/
theorem along_iff_along {G K : σ → ι → Prop} {I : σ → Prop} (hiff : ∀ s i, I s → (K s i ↔ G s i))
    (hstep : ∀ s i, I s → G s i → I (step s i)) {s : σ} {inputs : List ι} (hinit : I s) :
    Along step K s inputs ↔ Along step G s inputs := by
  induction inputs generalizing s with
  | nil => exact Iff.rfl
  | cons i inputs ih =>
      refine ⟨fun h => ?_, fun h => ?_⟩
      · have hguard := (hiff s i hinit).mp h.1
        exact ⟨hguard, (ih (hstep s i hinit hguard)).mp h.2⟩
      · exact ⟨(hiff s i hinit).mpr h.1, (ih (hstep s i hinit h.1)).mpr h.2⟩

/-- The rule for an exact guard, which may be kept by a machine of its own that runs
beside. -/
theorem always_iff_along_of_sim {τ : Type} {spec : τ → ι → τ} {G : τ → ι → Prop} {P : σ → Prop}
    {R : σ → τ → Prop} (himp : ∀ s t, R s t → P s)
    (hstep : ∀ s t i, R s t → G t i → R (step s i) (spec t i))
    (hbreak : ∀ s t i, R s t → ¬ G t i → ¬ P (step s i)) {s : σ} {t : τ} {inputs : List ι}
    (hinit : R s t) : Always step P s inputs ↔ Along spec G t inputs := by
  induction inputs generalizing s t with
  | nil => exact ⟨fun _ => trivial, fun _ => himp s t hinit⟩
  | cons i inputs ih =>
      refine ⟨fun h => ?_, fun h => ⟨himp s t hinit, ?_⟩⟩
      · have hguard : G t i := by
          by_contra hnot
          exact hbreak s t i hinit hnot h.2.first
        exact ⟨hguard, (ih (hstep s t i hinit hguard)).mp h.2⟩
      · exact (ih (hstep s t i hinit h.1)).mpr h.2

/-- The rule for an exact guard on a run whose steps all satisfy something else. -/
theorem Along.always_iff {L G : σ → ι → Prop} {I P : σ → Prop} (himp : ∀ s, I s → P s)
    (hstep : ∀ s i, I s → L s i → G s i → I (step s i))
    (hbreak : ∀ s i, I s → L s i → ¬ G s i → ¬ P (step s i)) {s : σ} {inputs : List ι}
    (h : Along step L s inputs) (hinit : I s) : Always step P s inputs ↔ Along step G s inputs := by
  induction inputs generalizing s with
  | nil => exact ⟨fun _ => trivial, fun _ => himp s hinit⟩
  | cons i inputs ih =>
      refine ⟨fun hall => ?_, fun hall => ⟨himp s hinit, ?_⟩⟩
      · have hguard : G s i := by
          by_contra hnot
          exact hbreak s i hinit h.1 hnot hall.2.first
        exact ⟨hguard, (ih h.2 (hstep s i hinit h.1 hguard)).mp hall.2⟩
      · exact (ih h.2 (hstep s i hinit h.1 hall.1)).mpr hall.2

theorem always_iff_along {G : σ → ι → Prop} {I P : σ → Prop} (himp : ∀ s, I s → P s)
    (hstep : ∀ s i, I s → G s i → I (step s i))
    (hbreak : ∀ s i, I s → ¬ G s i → ¬ P (step s i)) {s : σ} {inputs : List ι} (hinit : I s) :
    Always step P s inputs ↔ Along step G s inputs := by
  refine always_iff_along_of_sim (R := fun s t => s = t ∧ I s) ?_ ?_ ?_ ⟨rfl, hinit⟩
  · intro s _ h
    obtain ⟨rfl, hI⟩ := h
    exact himp s hI
  · intro s _ i h hG
    obtain ⟨rfl, hI⟩ := h
    exact ⟨rfl, hstep s i hI hG⟩
  · intro s _ i h hG
    obtain ⟨rfl, hI⟩ := h
    exact hbreak s i hI hG

end Fastpath.Lib
