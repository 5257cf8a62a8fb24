import Fastpath.Lib.Patterns
import Fastpath.Proofs.Subscriptions

/-!
# What a wildcard subscription matches

A pattern is cut at the dots, and so is a subject, and a piece `*` stands for
one piece of the subject, a last piece `>` for all that is left of it. That is
`Covered`, and it speaks of pieces. `matches` sees only their hashes, so it can
match too much, but never too little: it asks whether the subject `Fits`, and
what fits still does when both are hashed. Its one loop runs over the pattern,
so it never looks at what a longer subject has left over.
-/

namespace Fastpath

open Fastpath.Lib

/-! ## What is meant -/

namespace Subscription

/-- What a whole piece of a pattern stands for. -/
def atom (piece : Bytes) : Atom Bytes :=
  if piece = [wildcardCompletion] then .rest
  else if piece = [wildcardElement] then .any
  else .exact piece

def atoms (pattern : CString) : List (Atom Bytes) := (pieces pattern).map atom

/-- The subject is one the pattern was meant for. -/
def Covered (pattern subject : CString) : Prop := Covers (atoms pattern) (pieces subject)

/-- Wildcards are whole pieces, and `>` is the last one if it is one at all. -/
structure Regular (pattern : CString) : Prop where
  whole : ∀ piece ∈ pieces pattern,
    (wildcardCompletion ∈ piece → piece = [wildcardCompletion]) ∧
      (wildcardElement ∈ piece → piece = [wildcardElement])
  last : [wildcardCompletion] ∉ (pieces pattern).dropLast

instance (pattern : CString) : Decidable (Regular pattern) :=
  decidable_of_iff (_ ∧ _) ⟨fun h => ⟨h.1, h.2⟩, fun h => ⟨h.whole, h.last⟩⟩

theorem atom_eq_rest {piece : Bytes} : atom piece = .rest ↔ piece = [wildcardCompletion] := by
  rw [atom]
  split
  · next hc => simp [hc]
  · next hc => split <;> simp [hc]

theorem Regular.terminal {pattern : CString} (h : Regular pattern) : Terminal (atoms pattern) := by
  rw [Terminal, atoms, ← List.map_dropLast]
  intro hmem
  obtain ⟨piece, hpiece, hrest⟩ := List.mem_map.mp hmem
  rw [atom_eq_rest] at hrest
  exact h.last (hrest ▸ hpiece)

/-- A pattern without wildcards is meant for the subject it spells. -/
theorem covered_plain_iff {pattern : CString} (hplain : scanWildcard pattern = false)
    (subject : CString) : Covered pattern subject ↔ pattern = subject := by
  have hatoms : atoms pattern = (pieces pattern).map .exact := by
    refine List.map_congr_left fun piece hpiece => ?_
    have hnot (c : UInt8) (hc : c = wildcardCompletion ∨ c = wildcardElement) : c ∉ piece := by
      intro hmem
      have hscan : scanWildcard pattern = true :=
        List.any_eq_true.mpr ⟨c, mem_of_mem_splitOn hpiece hmem, by simpa using hc⟩
      rw [hplain] at hscan
      cases hscan
    rw [atom, if_neg, if_neg]
    · rintro rfl
      exact hnot _ (.inr rfl) List.mem_cons_self
    · rintro rfl
      exact hnot _ (.inl rfl) List.mem_cons_self
  rw [Covered, hatoms, covers_exact_iff]
  refine ⟨fun hpieces => ?_, fun heq => heq ▸ rfl⟩
  have hjoin := congrArg [delimiter].intercalate hpieces
  rw [pieces, pieces, List.intercalate_splitOn, List.intercalate_splitOn] at hjoin
  cases pattern
  cases subject
  cases hjoin
  rfl

theorem covered_iff {pattern : CString} (h : Regular pattern) (subject : CString) :
    Covered pattern subject ↔ Fits (atoms pattern) (pieces subject) ∧
      ((pieces pattern).getLast? = some [wildcardCompletion] ∨
        (pieces subject).length = (pieces pattern).length) := by
  have hlast : (atoms pattern).getLast? = some .rest ↔
      (pieces pattern).getLast? = some [wildcardCompletion] := by
    rw [atoms, List.getLast?_map, Option.map_eq_some_iff]
    refine ⟨fun ⟨piece, hpiece, hrest⟩ => ?_, fun h => ⟨_, h, atom_eq_rest.mpr rfl⟩⟩
    rw [hpiece, atom_eq_rest.mp hrest]
  rw [Covered, covers_iff_fits h.terminal, hlast, atoms, List.length_map]

/-! ## What is asked -/

variable {R : Type}

/-- The two overloads of the functor hash a string alike. -/
def Agrees (h : Hasher R) : Prop := ∀ s : CString, h.cstr s = h.range s.bytes

theorem agrees_stringHash : Agrees stringHash := fun _ => rfl

/-- What a component asks of the hash at its place. -/
def asked (c : Component R) : Atom R :=
  match c.type with
  | .standard => .exact c.hash
  | .element => .any
  | .completion => .rest

/-- The first character decides what a piece stands for, and in a regular pattern it is the
only one of a wildcard. -/
theorem asked_component {h : Hasher R} (hh : Agrees h) {pattern : CString}
    (hregular : Regular pattern) {piece : Bytes} (hpiece : piece ∈ pieces pattern) :
    asked (component h piece) = (atom piece).map h.range := by
  obtain ⟨hcompletion, helement⟩ := hregular.whole piece hpiece
  rw [asked, component, atom]
  dsimp only
  by_cases hc : piece.head? = some wildcardCompletion
  · rw [if_pos hc, if_pos (hcompletion (List.mem_of_mem_head? hc))]
    rfl
  · have hnot : piece ≠ [wildcardCompletion] := by
      rintro rfl
      exact hc rfl
    rw [if_neg hc, if_neg hnot]
    by_cases he : piece.head? = some wildcardElement
    · rw [if_pos he, if_pos (helement (List.mem_of_mem_head? he))]
      rfl
    · have hnot : piece ≠ [wildcardElement] := by
        rintro rfl
        exact he rfl
      rw [if_neg he, if_neg hnot]
      show Atom.exact (h.cstr (CString.ofArray piece)) = Atom.exact (h.range piece)
      rw [hh, ofArray_piece hpiece]

variable [DecidableEq R]

theorem matchesFrom_iff_fits {subject : Subject R} {index : Nat} {components : List (Component R)}
    (hlen : index + components.length ≤ subject.components.length) :
    matchesFrom subject index components = true ↔
      Fits (components.map asked) (subject.components.drop index) := by
  induction components generalizing index with
  | nil => exact ⟨fun _ => trivial, fun _ => rfl⟩
  | cons c components ih =>
      rw [List.length_cons] at hlen
      have hlt : index < subject.components.length := by omega
      have ih := @ih (index + 1) (by omega)
      rw [matchesFrom, Bool.and_eq_true, ih, List.map_cons, List.drop_eq_getElem_cons hlt,
        List.getElem?_eq_getElem hlt]
      cases htype : c.type with
      | standard =>
          rw [asked, htype]
          simp only [Fits, decide_eq_true_eq, Option.some.injEq]
          exact and_congr_left fun _ => eq_comm
      | element =>
          rw [asked, htype]
          simp [Fits]
      | completion =>
          rw [asked, htype]
          simp [Fits]

theorem matchesWithin_eq {subject : Subject R} {index : Nat} {components : List (Component R)}
    (hlen : index + components.length ≤ subject.components.length) :
    matchesWithin subject index components = .ok (matchesFrom subject index components) := by
  induction components generalizing index with
  | nil => rfl
  | cons c components ih =>
      rw [List.length_cons] at hlen
      have hlt : index < subject.components.length := by omega
      have ih := @ih (index + 1) (by omega)
      rw [matchesWithin, matchesFrom, List.getElem?_eq_getElem hlt]
      cases htype : c.type with
      | standard =>
          dsimp only
          by_cases heq : c.hash = subject.components[index]
          · rw [if_pos heq, ih, heq]
            simp
          · rw [if_neg heq, decide_eq_false (by simpa using Ne.symm heq)]
            rfl
      | element =>
          rw [ih]
          rfl
      | completion =>
          rw [ih]
          rfl

/-- The size is compared first, so the loop stays in the subject's components. -/
theorem matchesReading_eq (s : Subscription R) (subject : Subject R) :
    s.matchesReading subject = .ok (s.matchesSubject subject) := by
  rw [matchesReading, matchesSubject]
  split
  · split
    · next hlen => exact matchesWithin_eq (by omega)
    · rfl
  · rfl

/-- With wildcards, a match is a fit of the hashes. -/
theorem matches_iff_fits {h : Hasher R} (hh : Agrees h) {pattern : CString}
    (hregular : Regular pattern) (hwild : scanWildcard pattern = true) (subject : CString) :
    (new h pattern).matchesSubject (.new h subject) = true ↔
      Fits ((atoms pattern).map (Atom.map h.range)) ((pieces subject).map h.range) := by
  have hcomponents : (new h pattern).components = (pieces pattern).map (component h) := by
    rw [new, hwild, if_pos rfl, split_eq]
  have hasked : (new h pattern).components.map asked = (atoms pattern).map (Atom.map h.range) := by
    rw [hcomponents, atoms, List.map_map, List.map_map]
    exact List.map_congr_left fun piece hpiece => asked_component hh hregular hpiece
  have hsubject : (Subject.new h subject).components = (pieces subject).map h.range :=
    Subject.hashElements_eq h subject
  have hwildcard : (new h pattern).containsWildcard = true := hwild
  rw [matchesSubject, if_pos hwildcard]
  split
  · next hlen =>
      rw [matchesFrom_iff_fits (by omega), hasked, List.drop_zero, hsubject]
  · next hlen =>
      refine ⟨fun hfalse => (by cases hfalse), fun hfits => absurd hfits.length_le ?_⟩
      rw [← hasked, ← hsubject, List.length_map]
      exact hlen

theorem matches_iff_hash {h : Hasher R} {pattern : CString} (hplain : scanWildcard pattern = false)
    (subject : CString) :
    (new h pattern).matchesSubject (.new h subject) = true ↔ h.cstr pattern = h.cstr subject := by
  rw [matchesSubject, new, hplain]
  exact decide_eq_true_iff

/-! ## Too much, and never too little -/

/-- A wildcard pattern that does not end in `>`, and that the front of the subject fits, leaves
nothing of the subject over. -/
def Exhausts (pattern subject : CString) : Prop :=
  scanWildcard pattern = true → Fits (atoms pattern) (pieces subject) →
    (pieces pattern).getLast? = some [wildcardCompletion] ∨
      (pieces subject).length ≤ (pieces pattern).length

/-- A functor that tells strings apart says of the pieces whether they fit. -/
theorem matches_iff_of_injective {h : Hasher R} (hh : Agrees h)
    (hinj : Function.Injective h.cstr) {pattern : CString} (hregular : Regular pattern)
    (hwild : scanWildcard pattern = true) (subject : CString) :
    (new h pattern).matchesSubject (.new h subject) = true ↔
      Fits (atoms pattern) (pieces subject) := by
  rw [matches_iff_fits hh hregular hwild]
  refine ⟨Fits.of_map fun a ha b hb hhash => ?_, fun hfits => hfits.map h.range⟩
  obtain ⟨piece, hpiece, hatom⟩ := List.mem_map.mp ha
  have hexact : piece = a := by
    rw [atom] at hatom
    split at hatom
    · cases hatom
    · split at hatom
      · cases hatom
      · exact Atom.exact.inj hatom
  subst hexact
  -- the functor is only known on strings, and the pieces are some
  have hstrings : CString.ofArray piece = CString.ofArray b := by
    apply hinj
    rw [hh, hh, ofArray_piece hpiece, ofArray_piece hb, hhash]
  rw [← ofArray_piece hpiece, hstrings, ofArray_piece hb]

/-- For a functor that tells strings apart, a match is a subject the pattern was meant for,
exactly where the pattern leaves nothing of it over. -/
theorem sound_iff_exhausts {h : Hasher R} (hh : Agrees h) (hinj : Function.Injective h.cstr)
    {pattern : CString} (hregular : Regular pattern) (subject : CString) :
    ((new h pattern).matchesSubject (.new h subject) = true → Covered pattern subject) ↔
      Exhausts pattern subject := by
  cases hwild : scanWildcard pattern with
  | false =>
      rw [matches_iff_hash hwild, covered_plain_iff hwild]
      refine ⟨fun _ htrue => ?_, fun _ hhash => hinj hhash⟩
      rw [hwild] at htrue
      cases htrue
  | true =>
      rw [matches_iff_of_injective hh hinj hregular hwild, covered_iff hregular]
      constructor
      · intro hsound _ hfits
        exact (hsound hfits).2.imp_right Nat.le_of_eq
      · intro hexhausts hfits
        refine ⟨hfits, (hexhausts hwild hfits).imp_right fun hle => Nat.le_antisymm hle ?_⟩
        have hlen := hfits.length_le
        rwa [atoms, List.length_map] at hlen

/-- A functor that keeps the whole string. -/
def verbatim : Hasher Bytes := ⟨CString.bytes, id⟩

theorem verbatim_injective : Function.Injective verbatim.cstr := by
  rintro ⟨a, _⟩ ⟨b, _⟩ hab
  cases (show a = b from hab)
  rfl

theorem sound_completion :
    Agrees verbatim ∧ Regular (.ofString "SECTION.>") ∧
      (((new verbatim (.ofString "SECTION.>")).matchesSubject
          (.new verbatim (.ofString "SECTION.ONE.TWO")) = true →
        Covered (.ofString "SECTION.>") (.ofString "SECTION.ONE.TWO")) ↔
        Exhausts (.ofString "SECTION.>") (.ofString "SECTION.ONE.TWO")) :=
  ⟨fun _ => rfl, by decide,
    sound_iff_exhausts (fun _ => rfl) verbatim_injective (by decide) (.ofString "SECTION.ONE.TWO")⟩

/-- `SECTION.*` also matches what has more pieces than it has. -/
theorem surplus_not_covered :
    Agrees verbatim ∧ Function.Injective verbatim.cstr ∧ Regular (.ofString "SECTION.*") ∧
      (new verbatim (.ofString "SECTION.*")).matchesSubject
          (.new verbatim (.ofString "SECTION.ONE.TWO")) = true ∧
      ¬ Covered (.ofString "SECTION.*") (.ofString "SECTION.ONE.TWO") := by
  have hregular : Regular (.ofString "SECTION.*") := by decide
  refine ⟨fun _ => rfl, verbatim_injective, hregular, by decide, fun hcovered => ?_⟩
  have hleft := ((covered_iff hregular _).mp hcovered).2
  revert hleft
  decide

/-- Every subject a pattern was meant for is matched, and the loop stays in its components. -/
theorem matches_of_covered {pattern subject : CString} (hregular : Regular pattern)
    (hcovered : Covered pattern subject) :
    (new stringHash pattern).matchesReading (.new stringHash subject) = .ok true := by
  rw [matchesReading_eq, Except.ok.injEq]
  cases hwild : scanWildcard pattern with
  | false =>
      rw [matches_iff_hash hwild, (covered_plain_iff hwild subject).mp hcovered]
  | true =>
      rw [matches_iff_fits agrees_stringHash hregular hwild]
      exact ((covered_iff hregular subject).mp hcovered).1.map stringHash.range

theorem matches_element :
    Regular (.ofString "SECTION.*.TWO") ∧
      Covered (.ofString "SECTION.*.TWO") (.ofString "SECTION.ONE.TWO") ∧
      (new stringHash (.ofString "SECTION.*.TWO")).matchesReading
        (.new stringHash (.ofString "SECTION.ONE.TWO")) = .ok true := by
  have hregular : Regular (.ofString "SECTION.*.TWO") := by decide
  have hcovered : Covered (.ofString "SECTION.*.TWO") (.ofString "SECTION.ONE.TWO") :=
    ⟨rfl, rfl, trivial⟩
  exact ⟨hregular, hcovered, matches_of_covered hregular hcovered⟩

end Subscription

end Fastpath
