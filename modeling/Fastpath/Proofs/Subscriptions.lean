import Mathlib.Data.List.Forall2
import Fastpath.Lib.Segments
import Fastpath.Model.Subject

/-!
# Matching by hash, and the subscriptions of a connection

Everything subjects and subscriptions decide, they decide on hashes. The first
part says so for each of the four places: they compare the pieces between the
dots, or the whole strings, and they compare nothing but `tf::string_hash` of
them. Where two strings share a hash the comparison cannot tell them apart, and
such strings are not far to seek.

The second part is about the list of a connection. What should be in it is the
list of patterns added and not removed, and a subscription `Serves` a pattern
if it matches as a new one would. Appending keeps this. Removing assigns every
later element to the place before it, and `operator=` appends the components of
a wildcard subscription to those that are left from whatever was there before.
That is right exactly when there are none.
-/

namespace Fastpath

open Fastpath.Lib

/-! ## Cutting at the dots -/

def pieces (s : CString) : List Bytes := s.bytes.splitOn delimiter

namespace Subscription

theorem splitFrom_eq {fuel : Nat} {s : Bytes} (h : s.length ≤ fuel) :
    splitFrom fuel s = s.splitOn delimiter := by
  induction fuel generalizing s with
  | zero =>
      rw [List.eq_nil_of_length_eq_zero (Nat.le_zero.mp h)]
      rfl
  | succ fuel ih =>
      obtain ⟨piece, rest, rfl, hpiece, hrest⟩ := exists_scan (· = delimiter) s
      have hbefore := takeWhile_scan hpiece hrest
      have hbehind := dropWhile_scan hpiece hrest
      simp only [splitFrom, ne_eq, decide_not, hbefore, hbehind]
      rw [splitOn_scan hpiece hrest]
      rcases hrest.eq_nil_or_cons with rfl | ⟨c, rest, rfl, -⟩
      · rw [List.append_nil, if_pos rfl]
      · rw [List.length_append, List.length_cons] at h
        rw [if_neg (List.cons_ne_nil _ _), List.tail_cons]
        exact congrArg (piece :: ·) (ih (by omega))

theorem split_eq (s : CString) : split s.bytes = pieces s := splitFrom_eq (Nat.le_refl _)

end Subscription

namespace Subject

theorem hashElementsFrom_eq {R : Type} (h : Hasher R) (piece : Bytes) (out : List R)
    (rest : Bytes) :
    hashElementsFrom h piece out rest =
      out ++ ((rest.splitOn delimiter).modifyHead (piece ++ ·)).map h.range := by
  induction rest generalizing piece out with
  | nil => simp [hashElementsFrom]
  | cons c rest ih =>
      obtain ⟨p, ps, hsplit⟩ := List.exists_cons_of_ne_nil (List.splitOn_ne_nil delimiter rest)
      rw [hashElementsFrom, List.splitOn_cons_eq_if_modifyHead, hsplit]
      by_cases hc : c = delimiter
      · rw [if_pos hc, ih, hsplit, if_pos (by simpa using hc)]
        simp
      · rw [if_neg hc, ih, hsplit, if_neg (by simpa using hc)]
        simp

theorem hashElements_eq {R : Type} (h : Hasher R) (s : CString) :
    hashElements h s = (pieces s).map h.range := by
  obtain ⟨p, ps, hsplit⟩ := List.exists_cons_of_ne_nil (List.splitOn_ne_nil delimiter s.bytes)
  rw [hashElements, hashElementsFrom_eq, pieces, hsplit]
  simp

end Subject

theorem ofArray_piece {s : CString} {p : Bytes} (hp : p ∈ pieces s) :
    (CString.ofArray p).bytes = p := by
  refine List.takeWhile_eq_self_iff.mpr fun c hc => decide_eq_true fun hzero => ?_
  rw [hzero] at hc
  exact s.noNul (mem_of_mem_splitOn hp hc)

/-! ## The four comparisons -/

namespace Subscription

def IsStandard (piece : Bytes) : Prop :=
  piece.head? ≠ some wildcardCompletion ∧ piece.head? ≠ some wildcardElement

theorem component_type {R : Type} (h : Hasher R) (piece : Bytes) :
    (component h piece).type = .standard ↔ IsStandard piece := by
  rw [component, IsStandard]
  dsimp only
  split
  · next hc => simp [hc]
  · next hc =>
      split
      · next he => simp [he]
      · next he => exact ⟨fun _ => ⟨hc, he⟩, fun _ => rfl⟩

theorem matchesFrom_iff {R : Type} [DecidableEq R] (subject : Subject R) (index : Nat)
    (components : List (Component R)) :
    matchesFrom subject index components = true ↔
      ∀ i c, components[i]? = some c → c.type = .standard →
        subject.components[index + i]? = some c.hash := by
  induction components generalizing index with
  | nil => simp [matchesFrom]
  | cons c rest ih =>
      have hcons : matchesFrom subject index (c :: rest) = true ↔
          (c.type = .standard → subject.components[index]? = some c.hash) ∧
            matchesFrom subject (index + 1) rest = true := by
        obtain ⟨hash, type⟩ := c
        cases type <;> simp [matchesFrom]
      rw [hcons, ih]
      constructor
      · intro h i d hd htype
        obtain ⟨hfirst, hrest⟩ := h
        cases i with
        | zero =>
            rw [List.getElem?_cons_zero, Option.some.injEq] at hd
            subst hd
            exact hfirst htype
        | succ i =>
            rw [List.getElem?_cons_succ] at hd
            rw [show index + (i + 1) = index + 1 + i by omega]
            exact hrest i d hd htype
      · intro h
        refine ⟨h 0 c rfl, fun i d hd htype => ?_⟩
        rw [show index + 1 + i = index + (i + 1) by omega]
        exact h (i + 1) d hd htype

theorem matches_plain_iff {p : CString} (hp : scanWildcard p = false) (s : CString) :
    (new stringHash p).matchesSubject (.new stringHash s) = true ↔
      stringHash.cstr p = stringHash.cstr s := by
  rw [matchesSubject, new, hp]
  exact decide_eq_true_iff

theorem matches_wildcard_iff {p : CString} (hp : scanWildcard p = true) (s : CString) :
    (new stringHash p).matchesSubject (.new stringHash s) = true ↔
      (pieces p).length ≤ (pieces s).length ∧
        ∀ (i : Nat) (c : Bytes), (pieces p)[i]? = some c → IsStandard c →
          ∃ d, (pieces s)[i]? = some d ∧ stringHash.hash c = stringHash.hash d := by
  have hcomponents : (new stringHash p).components = (pieces p).map (component stringHash) := by
    rw [new, hp, if_pos rfl, split_eq]
  have hsubject : (Subject.new stringHash s).components = (pieces s).map stringHash.hash :=
    Subject.hashElements_eq stringHash s
  have hwildcard : (new stringHash p).containsWildcard = true := hp
  rw [matchesSubject, if_pos hwildcard, hcomponents, hsubject, List.length_map, List.length_map]
  by_cases hlen : (pieces p).length ≤ (pieces s).length
  · rw [if_pos hlen, matchesFrom_iff]
    constructor
    · intro h
      refine ⟨hlen, fun i c hc hstd => ?_⟩
      have hi := h i (component stringHash c) (by rw [List.getElem?_map, hc]; rfl)
        ((component_type stringHash c).mpr hstd)
      rw [hsubject, Nat.zero_add, List.getElem?_map, Option.map_eq_some_iff] at hi
      obtain ⟨d, hd, hhash⟩ := hi
      refine ⟨d, hd, ?_⟩
      rw [hhash]
      show _ = stringHash.hash (CString.ofArray c).bytes
      rw [ofArray_piece (List.mem_of_getElem? hc)]
    · intro h i c hc hstd
      obtain ⟨-, h⟩ := h
      rw [List.getElem?_map, Option.map_eq_some_iff] at hc
      obtain ⟨piece, hpiece, rfl⟩ := hc
      obtain ⟨d, hd, hhash⟩ := h i piece hpiece ((component_type stringHash piece).mp hstd)
      rw [hsubject, Nat.zero_add, List.getElem?_map, hd, Option.map_some, ← hhash]
      show _ = some (stringHash.hash (CString.ofArray piece).bytes)
      rw [ofArray_piece (List.mem_of_getElem? hpiece)]
  · rw [if_neg hlen]
    exact ⟨fun h => absurd h Bool.false_ne_true, fun h => absurd h.1 hlen⟩

end Subscription

namespace Subject

theorem isAdmin_iff (s : CString) :
    (new stringHash s).isAdmin = true ↔
      ∃ first rest, pieces s = first :: rest ∧
        stringHash.hash first = stringHash.cstr (.ofString "_FP") := by
  obtain ⟨first, rest, hsplit⟩ := List.exists_cons_of_ne_nil
    (List.splitOn_ne_nil delimiter s.bytes)
  have hpieces : pieces s = first :: rest := hsplit
  rw [new, hashElements_eq, hpieces]
  simp only [List.map_cons, List.getElem?_cons_zero, Option.some.injEq, decide_eq_true_eq]
  constructor
  · intro h
    exact ⟨first, rest, rfl, h⟩
  · intro h
    obtain ⟨first', rest', hcons, h⟩ := h
    rw [(List.cons.inj hcons).1]
    exact h

end Subject

/-! ## Removal -/

namespace Subscriptions

theorem removeSubscription_cons (s : Subscription UInt64) (rest : Subscriptions) (q : CString) :
    removeSubscription (s :: rest) q =
      if s.subjectHash = stringHash.cstr q then shiftDown (s :: rest)
      else s :: removeSubscription rest q := by
  rw [removeSubscription, List.findIdx?_cons]
  by_cases hs : s.subjectHash = stringHash.cstr q
  · rw [if_pos hs, decide_eq_true hs]
    rfl
  · rw [if_neg hs, decide_eq_false hs, removeSubscription]
    cases List.findIdx? (fun x => decide (x.subjectHash = stringHash.cstr q)) rest <;> rfl

theorem map_subjectHash_shiftDown (s : Subscription UInt64) (rest : Subscriptions) :
    (shiftDown (s :: rest)).map Subscription.subjectHash = rest.map Subscription.subjectHash := by
  induction rest generalizing s with
  | nil => rfl
  | cons other rest ih =>
      rw [shiftDown, List.map_cons, ih, List.map_cons]
      rfl

theorem map_subjectHash_remove (patterns : List CString) (q : CString) :
    (removeSubscription (patterns.map (Subscription.new stringHash)) q).map
        Subscription.subjectHash =
      (patterns.eraseP fun p => stringHash.cstr p = stringHash.cstr q).map stringHash.cstr := by
  induction patterns with
  | nil => rfl
  | cons p patterns ih =>
      rw [List.map_cons, removeSubscription_cons, List.eraseP_cons]
      by_cases hp : stringHash.cstr p = stringHash.cstr q
      · rw [if_pos (show (Subscription.new stringHash p).subjectHash = _ from hp),
          map_subjectHash_shiftDown, decide_eq_true hp, cond_true, List.map_map]
        rfl
      · rw [if_neg (show (Subscription.new stringHash p).subjectHash ≠ _ from hp), List.map_cons,
          ih, decide_eq_false hp, cond_false, List.map_cons]
        rfl

end Subscriptions

/-- The four comparisons are comparisons of hashes: of the whole string for a
subscription without wildcards, of pieces for the standard components of one with,
of the pattern for a removal, and of the first piece for an admin subject. Equal
strings therefore always compare equal, and different ones exactly when their
hashes collide. -/
theorem comparisons_are_by_hash :
    (∀ p s : CString, Subscription.scanWildcard p = false →
      ((Subscription.new stringHash p).matchesSubject (.new stringHash s) = true ↔
        stringHash.cstr p = stringHash.cstr s)) ∧
    (∀ p s : CString, Subscription.scanWildcard p = true →
      ((Subscription.new stringHash p).matchesSubject (.new stringHash s) = true ↔
        (pieces p).length ≤ (pieces s).length ∧
          ∀ (i : Nat) (c : Bytes), (pieces p)[i]? = some c → Subscription.IsStandard c →
            ∃ d, (pieces s)[i]? = some d ∧ stringHash.hash c = stringHash.hash d)) ∧
    (∀ (patterns : List CString) (q : CString),
      (Subscriptions.removeSubscription (patterns.map (Subscription.new stringHash)) q).map
          Subscription.subjectHash =
        (patterns.eraseP fun p => stringHash.cstr p = stringHash.cstr q).map stringHash.cstr) ∧
    (∀ s : CString, (Subject.new stringHash s).isAdmin = true ↔
      ∃ first rest, pieces s = first :: rest ∧
        stringHash.hash first = stringHash.cstr (.ofString "_FP")) :=
  ⟨fun _ s hp => Subscription.matches_plain_iff hp s,
    fun _ s hp => Subscription.matches_wildcard_iff hp s,
    Subscriptions.map_subjectHash_remove, Subject.isAdmin_iff⟩

/-- Two short strings with one hash, and a first component that passes for `_FP`. -/
theorem hash_collisions :
    (Subscription.new stringHash (.ofString "Aa")).matchesSubject
        (.new stringHash (.ofString "BB")) = true ∧
      (Subscription.new stringHash (.ofString "Aa.*")).matchesSubject
        (.new stringHash (.ofString "BB.x")) = true ∧
      Subscriptions.removeSubscription [.new stringHash (.ofString "Aa")] (.ofString "BB") = [] ∧
      (Subject.new stringHash (.ofString "_Eo.x")).isAdmin = true := by
  decide

/-! ## Runs of additions and removals -/

namespace Subscriptions

inductive Call where
  | add (pattern : CString)
  | remove (pattern : CString)

def handle (subscriptions : Subscriptions) : Call → Subscriptions
  | .add pattern => subscriptions.addSubscription pattern
  | .remove pattern => subscriptions.removeSubscription pattern

/-- The patterns added and not removed since. A removal drops the first one with an
equal hash. -/
def outstanding (patterns : List CString) : Call → List CString
  | .add pattern => patterns ++ [pattern]
  | .remove pattern => patterns.eraseP fun p => stringHash.cstr p = stringHash.cstr pattern

/-- No wildcard subscription is about to be assigned to a place that has components. -/
def SafeToShift : Subscriptions → Prop
  | [] => True
  | [_] => True
  | s :: other :: rest =>
      (other.containsWildcard = true → s.components = []) ∧ SafeToShift (other :: rest)

def SafeToRemove (q : CString) : Subscriptions → Prop
  | [] => True
  | s :: rest =>
      if s.subjectHash = stringHash.cstr q then SafeToShift (s :: rest) else SafeToRemove q rest

def SafeCall (subscriptions : Subscriptions) : Call → Prop
  | .add _ => True
  | .remove pattern => SafeToRemove pattern subscriptions

def SafeRun : Subscriptions → List Call → Prop
  | _, [] => True
  | subscriptions, call :: calls =>
      subscriptions.SafeCall call ∧ SafeRun (subscriptions.handle call) calls

/-- A subscription that does what a new one for the pattern would. Without a wildcard
its components are never looked at, and anything may be left in them. -/
structure Serves (s : Subscription UInt64) (p : CString) : Prop where
  wildcard : s.containsWildcard = Subscription.scanWildcard p
  hash : s.subjectHash = stringHash.cstr p
  components : s.containsWildcard = true →
    s.components = (Subscription.new stringHash p).components

theorem Serves.matches_eq {s : Subscription UInt64} {p : CString} (h : Serves s p)
    (subject : Subject UInt64) :
    s.matchesSubject subject = (Subscription.new stringHash p).matchesSubject subject := by
  have hnew : (Subscription.new stringHash p).containsWildcard = Subscription.scanWildcard p := rfl
  have hhash : (Subscription.new stringHash p).subjectHash = stringHash.cstr p := rfl
  rw [Subscription.matchesSubject, Subscription.matchesSubject, hnew, hhash, h.wildcard, h.hash]
  split
  · next hwild => rw [h.components (h.wildcard.trans hwild)]
  · rfl

theorem shiftDown_serves {s : Subscription UInt64} {p : CString} {rest : Subscriptions}
    {patterns : List CString} (h : List.Forall₂ Serves (s :: rest) (p :: patterns))
    (hsafe : SafeToShift (s :: rest)) :
    List.Forall₂ Serves (shiftDown (s :: rest)) patterns := by
  induction rest generalizing s p patterns with
  | nil =>
      obtain ⟨-, hnil⟩ := List.forall₂_cons.mp h
      rw [List.forall₂_nil_left_iff.mp hnil]
      exact .nil
  | cons other rest ih =>
      obtain ⟨hs, hrest⟩ := List.forall₂_cons.mp h
      cases hrest with
      | cons hother hlater =>
          obtain ⟨hempty, hsafe'⟩ := hsafe
          refine .cons ⟨hother.wildcard, hother.hash, fun hwild => ?_⟩
            (ih (.cons hother hlater) hsafe')
          show s.components ++ other.components = _
          rw [hempty hwild, List.nil_append]
          exact hother.components hwild

theorem removeSubscription_serves {subscriptions : Subscriptions} {patterns : List CString}
    (h : List.Forall₂ Serves subscriptions patterns) {q : CString}
    (hsafe : SafeToRemove q subscriptions) :
    List.Forall₂ Serves (removeSubscription subscriptions q)
      (patterns.eraseP fun p => stringHash.cstr p = stringHash.cstr q) := by
  induction h with
  | nil => exact .nil
  | @cons s p rest patterns hs hrest ih =>
      rw [removeSubscription_cons, List.eraseP_cons]
      rw [SafeToRemove, hs.hash] at hsafe
      rw [hs.hash]
      by_cases hp : stringHash.cstr p = stringHash.cstr q
      · rw [if_pos hp] at hsafe ⊢
        rw [decide_eq_true hp]
        exact shiftDown_serves (.cons hs hrest) hsafe
      · rw [if_neg hp] at hsafe ⊢
        rw [decide_eq_false hp]
        exact .cons hs (ih hsafe)

theorem addSubscription_serves {subscriptions : Subscriptions} {patterns : List CString}
    (h : List.Forall₂ Serves subscriptions patterns) (q : CString) :
    List.Forall₂ Serves (addSubscription subscriptions q) (patterns ++ [q]) :=
  List.rel_append h (.cons ⟨rfl, rfl, fun _ => rfl⟩ .nil)

theorem run_serves {subscriptions : Subscriptions} {patterns : List CString}
    (h : List.Forall₂ Serves subscriptions patterns) {calls : List Call}
    (hsafe : SafeRun subscriptions calls) :
    List.Forall₂ Serves (calls.foldl handle subscriptions) (calls.foldl outstanding patterns) := by
  induction calls generalizing subscriptions patterns with
  | nil => exact h
  | cons call calls ih =>
      obtain ⟨hcall, hrest⟩ := hsafe
      refine ih ?_ hrest
      cases call with
      | add pattern => exact addSubscription_serves h pattern
      | remove pattern => exact removeSubscription_serves h hcall

/-- After a run of safe calls every subscription matches as its pattern does, and the
connection is interested in exactly what the patterns outstanding match. -/
theorem interested_iff_of_safe {calls : List Call} (hsafe : SafeRun [] calls) :
    List.Forall₂
        (fun s p => ∀ subject, s.matchesSubject subject =
          (Subscription.new stringHash p).matchesSubject subject)
        (calls.foldl handle []) (calls.foldl outstanding []) ∧
      ∀ subject, isInterested (calls.foldl handle []) subject = true ↔
        ∃ p ∈ calls.foldl outstanding [],
          (Subscription.new stringHash p).matchesSubject subject = true := by
  have hserves := run_serves List.Forall₂.nil hsafe
  have hmatches := hserves.imp fun _ _ h subject => h.matches_eq subject
  refine ⟨hmatches, fun subject => ?_⟩
  rw [isInterested]
  generalize calls.foldl handle [] = subscriptions at hmatches
  generalize calls.foldl outstanding [] = patterns at hmatches
  induction hmatches with
  | nil => simp
  | cons hs _ ih => simp [hs subject, ih]

/-- A wildcard subscription takes the place of one without. -/
theorem interested_after_remove :
    let calls : List Call := [.add (.ofString "x"), .add (.ofString "b.*"), .remove (.ofString "x")]
    SafeRun [] calls ∧
      ∀ subject, isInterested (calls.foldl handle []) subject = true ↔
        ∃ p ∈ calls.foldl outstanding [],
          (Subscription.new stringHash p).matchesSubject subject = true := by
  intro calls
  have hsafe : SafeRun [] calls := by
    refine ⟨trivial, trivial, ?_, trivial⟩
    show SafeToRemove (.ofString "x")
      [.new stringHash (.ofString "x"), .new stringHash (.ofString "b.*")]
    rw [SafeToRemove, if_pos (by decide)]
    exact ⟨fun _ => rfl, trivial⟩
  exact ⟨hsafe, (interested_iff_of_safe hsafe).2⟩

/-- A wildcard subscription takes the place of another one, and no longer matches what
its pattern does. -/
theorem not_interested_after_remove :
    let calls : List Call :=
      [.add (.ofString "a.*"), .add (.ofString "b.*"), .remove (.ofString "a.*")]
    ¬ (isInterested (calls.foldl handle []) (.new stringHash (.ofString "b.x")) = true ↔
      ∃ p ∈ calls.foldl outstanding [],
        (Subscription.new stringHash p).matchesSubject
          (.new stringHash (.ofString "b.x")) = true) := by
  decide

end Subscriptions

end Fastpath
