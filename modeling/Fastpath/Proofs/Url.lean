import Fastpath.Lib.Scan
import Fastpath.Model.Url

/-!
# The URL parser and the end of the string

Behind a position lies a text, and the scanning is told in terms of that text:
what a search passes over, what a copy takes, what the next position has behind
it. With this the two loops lose their positions. The loop behind the host
consumes a port or a path and goes on with the rest, and the loop behind a `?`
enters the pieces between the `&`.

A piece has to have a first character, because the search for its `=` starts at
the second one. A piece that is empty sends that search off from behind its own
end, and this is the one way out of the string.
-/

namespace Fastpath.Url

open Fastpath.Lib

variable {s t a b rest key : Bytes} {pos fuel : Nat} {c : UInt8} {p : UInt8 → Bool}
  {m : OrderedMap Bytes Bytes} {u : Url}

theorem ok_bind {α β : Type} {x : α} {f : α → Except UrlStop β} : (Except.ok x >>= f) = f x := rfl

theorem error_bind {α β : Type} {e : UrlStop} {f : α → Except UrlStop β} :
    (Except.error e >>= f) = .error e := rfl

/-! ## A position and what lies behind it -/

theorem advance_ok (h : At s pos (c :: t)) : advance s pos 1 = .ok (pos + 1) := by
  have := h.length
  rw [List.length_cons] at this
  exact if_pos (by omega)

theorem deref_ok (h : At s pos (c :: t)) : deref s pos = .ok c := by
  have hget : s[pos]? = some c := by rw [← List.head?_drop, h.rest, List.head?_cons]
  rw [Url.deref, hget]

theorem range_ok (h : At s pos (a ++ t)) : range s pos (pos + a.length) = .ok a := by
  have := h.length
  rw [List.length_append] at this
  rw [Url.range, if_pos (by omega), h.rest, Nat.add_sub_cancel_left, List.take_left]

/-- A search in a range finds the first of its kind, or the end of the range. -/
theorem findIf_within (h : At s pos (a ++ (b ++ t))) (ha : ∀ c ∈ a, p c = false)
    (hb : Stops p b) : findIf s pos (pos + (a ++ b).length) p = .ok (pos + a.length) := by
  have hrange : Url.range s pos (pos + (a ++ b).length) = .ok (a ++ b) :=
    range_ok (t := t) (by rwa [List.append_assoc])
  rw [findIf, hrange, ok_bind, takeWhile_scan ha hb]
  rfl

theorem findIf_ok (h : At s pos (a ++ t)) (ha : ∀ c ∈ a, p c = false) (ht : Stops p t) :
    findIf s pos s.length p = .ok (pos + a.length) := by
  rw [← h.length]
  exact findIf_within (t := []) (by rwa [List.append_nil]) ha ht

/-! ## The loop behind a `?` -/

/-- What the loop does with the pieces between the `&`. -/
def enter : List Bytes → OrderedMap Bytes Bytes → Except UrlStop (OrderedMap Bytes Bytes)
  | [], m => .ok m
  | [] :: _, _ => .error .outOfRange
  | (c :: piece) :: pieces, m =>
      enter pieces (m.insert (c :: piece.takeWhile (· ≠ equals))
        (piece.dropWhile (· ≠ equals)).tail).2

theorem enter_cons {pieces : List Bytes} (hkey : ∀ c ∈ key, decide (c = equals) = false)
    (hrest : Stops (· = equals) rest) :
    enter ((c :: (key ++ rest)) :: pieces) m = enter pieces (m.insert (c :: key) rest.tail).2 := by
  have hkeys := takeWhile_scan hkey hrest
  have hvalue := dropWhile_scan hkey hrest
  simp only [enter, ne_eq, decide_not, hkeys, hvalue]

theorem queryLoop_end (h : At s pos []) : queryLoop s fuel pos m = .ok m := by
  cases fuel <;> exact if_pos (h.end_iff.mpr rfl)

/-- Nothing between two separators: the search for the `=` has no range. -/
theorem queryLoop_empty (h : At s pos (c :: t)) (ht : Stops (· = ampersand) t) :
    queryLoop s (fuel + 1) pos m = .error .outOfRange := by
  rw [queryLoop, if_neg h.not_end, advance_ok h, ok_bind,
    findIf_ok (a := []) h.tail (List.forall_mem_nil _) ht, ok_bind, List.length_nil, Nat.add_zero]
  -- one past the position is behind where the piece ends, or behind the end of the string
  rcases ht.eq_nil_or_cons with rfl | ⟨d, t', rfl, -⟩
  · have := h.tail.length
    rw [List.length_nil] at this
    rw [advance, if_neg (by omega), error_bind]
  · rw [advance_ok h.tail, ok_bind, findIf, range, if_neg (by omega), error_bind, error_bind]

/-- A piece with a first character: its key, and a value if there is an `=`. -/
theorem queryLoop_piece {d : UInt8} (h : At s pos (c :: (d :: (key ++ rest) ++ t)))
    (hpiece : ∀ c ∈ d :: (key ++ rest), decide (c = ampersand) = false)
    (ht : Stops (· = ampersand) t) (hkey : ∀ c ∈ key, decide (c = equals) = false)
    (hrest : Stops (· = equals) rest) :
    queryLoop s (fuel + 1) pos m =
      queryLoop s fuel (pos + 1 + (d :: (key ++ rest)).length)
        (m.insert (d :: key) rest.tail).2 := by
  have hfirst : At s (pos + 1) (d :: (key ++ (rest ++ t))) := by
    simpa only [List.cons_append, List.append_assoc] using h.tail
  have hlast : pos + 1 + (d :: (key ++ rest)).length = pos + 1 + 1 + (key ++ rest).length := by
    rw [List.length_cons]
    omega
  have hkeyEnd : At s (pos + 1 + 1 + key.length) (rest ++ t) := hfirst.tail.skip
  rw [queryLoop, if_neg h.not_end, advance_ok h, ok_bind,
    findIf_ok h.tail hpiece ht, ok_bind, advance_ok hfirst, ok_bind, hlast,
    findIf_within hfirst.tail hkey hrest, ok_bind]
  have hrangeKey : range s (pos + 1) (pos + 1 + 1 + key.length) = .ok (d :: key) := by
    have := range_ok (a := d :: key) hfirst
    rwa [List.length_cons, Nat.add_comm key.length, ← Nat.add_assoc] at this
  rcases hrest.eq_nil_or_cons with rfl | ⟨e, value, rfl, -⟩
  · rw [List.append_nil, if_neg (by simp), pure_bind, hrangeKey]
    rfl
  · have hvalue : pos + 1 + 1 + (key ++ e :: value).length =
        pos + 1 + 1 + key.length + 1 + value.length := by
      rw [List.length_append, List.length_cons]
      omega
    rw [if_pos (by omega), advance_ok hkeyEnd, ok_bind, hvalue, range_ok hkeyEnd.tail, ok_bind,
      hrangeKey]
    rfl

/-- The loop enters the pieces between the `&`. -/
theorem queryLoop_eq (h : At s pos (c :: t)) (hfuel : t.length < fuel) :
    queryLoop s fuel pos m = enter (t.splitOn ampersand) m := by
  induction fuel generalizing pos c t m with
  | zero => omega
  | succ fuel ih =>
      obtain ⟨piece, tail, rfl, hpiece, htail⟩ := exists_scan (· = ampersand) t
      rw [splitOn_scan hpiece htail]
      cases piece with
      | nil => rw [List.nil_append] at h; exact queryLoop_empty h htail
      | cons d piece =>
          obtain ⟨key, rest, rfl, hkey, hrest⟩ := exists_scan (· = equals) piece
          have hloop : queryLoop s (fuel + 1) pos m = _ :=
            queryLoop_piece h hpiece htail hkey hrest
          rw [hloop, enter_cons hkey hrest]
          have hnext : At s (pos + 1 + (d :: (key ++ rest)).length) tail := h.tail.skip
          rcases htail.eq_nil_or_cons with rfl | ⟨e, tail', rfl, -⟩
          · rw [if_pos rfl]
            exact queryLoop_end hnext
          · rw [if_neg (List.cons_ne_nil _ _), List.tail_cons]
            refine ih hnext ?_
            simp only [List.length_append, List.length_cons] at hfuel
            omega

/-! ## The loop behind the host -/

/-- What the constructor returns once all but the text behind the `?` is read. -/
def finish (u : Url) : Option Bytes → Except UrlStop Url
  | none => .ok u
  | some text => (enter (text.splitOn ampersand) u.query).map fun m => { u with query := m }

theorem partsLoop_end (h : At s pos []) : partsLoop s fuel pos u = .ok u := by
  cases fuel <;> exact if_pos (h.end_iff.mpr rfl)

theorem partsLoop_port {port : Bytes} (h : At s pos (colon :: (port ++ t)))
    (hport : ∀ c ∈ port, isSeparator c = false) (ht : Stops isSeparator t) :
    partsLoop s (fuel + 1) pos u =
      partsLoop s fuel (pos + 1 + port.length) { u with port := u.port ++ port } := by
  rw [partsLoop, if_neg h.not_end, deref_ok h, ok_bind, if_pos rfl, advance_ok h, ok_bind,
    findSeparator, findIf_ok h.tail hport ht, ok_bind, range_ok h.tail, ok_bind]

theorem partsLoop_path {path : Bytes} (h : At s pos (slash :: (path ++ t)))
    (hpath : ∀ c ∈ path, decide (c = question) = false) (ht : Stops (· = question) t) :
    partsLoop s (fuel + 1) pos u =
      partsLoop s fuel (pos + 1 + path.length) { u with path := u.path ++ path } := by
  rw [partsLoop, if_neg h.not_end, deref_ok h, ok_bind, if_neg (by decide), if_pos rfl,
    advance_ok h, ok_bind, findIf_ok h.tail hpath ht, ok_bind, range_ok h.tail, ok_bind]

/-- Behind a `?` there is nothing but the query. -/
theorem partsLoop_query (h : At s pos (question :: t)) :
    partsLoop s (fuel + 1) pos u = finish u (some t) := by
  have hfuel : t.length < s.length := by
    have := h.length
    rw [List.length_cons] at this
    omega
  rw [partsLoop, if_neg h.not_end, deref_ok h, ok_bind, if_neg (by decide),
    if_neg (by decide), if_pos rfl, queryLoop_eq h hfuel, finish]
  cases enter (t.splitOn ampersand) u.query with
  | error e => rfl
  | ok m => exact partsLoop_end (At.last s)

/-- The text behind the first `needle`, if there is one. -/
def behind (needle : Bytes) : Bytes → Option Bytes
  | [] => none
  | c :: rest =>
      if needle.isPrefixOf (c :: rest) then some ((c :: rest).drop needle.length)
      else behind needle rest

theorem behind_question (t : Bytes) : behind [question] (question :: t) = some t := by
  rw [behind, if_pos (by simp)]
  rfl

theorem behind_append (ha : ∀ c ∈ a, c ≠ question) (t : Bytes) :
    behind [question] (a ++ t) = behind [question] t := by
  induction a with
  | nil => rfl
  | cons c a ih =>
      obtain ⟨hc, ha⟩ := List.forall_mem_cons.mp ha
      rw [List.cons_append, behind, if_neg (by simpa using Ne.symm hc), ih ha]

theorem ne_question (h : isSeparator c = false) : c ≠ question := by
  rintro rfl
  cases h

/-- Ports and paths are read up to the query, however many of them there are. -/
theorem partsLoop_eq (h : At s pos t) (ht : Stops isSeparator t) (hfuel : t.length ≤ fuel) :
    ∃ v : Url, v.query = u.query ∧ partsLoop s fuel pos u = finish v (behind [question] t) := by
  induction fuel generalizing pos t u with
  | zero =>
      obtain rfl := List.eq_nil_of_length_eq_zero (Nat.le_zero.mp hfuel)
      exact ⟨u, rfl, partsLoop_end h⟩
  | succ fuel ih =>
      rcases ht.eq_nil_or_cons with rfl | ⟨c, t, rfl, hc⟩
      · exact ⟨u, rfl, partsLoop_end h⟩
      rw [List.length_cons] at hfuel
      simp only [isSeparator, decide_eq_true_eq] at hc
      rcases hc with rfl | rfl | rfl
      · obtain ⟨path, t, rfl, hpath, ht⟩ := exists_scan (· = question) t
        rw [List.length_append] at hfuel
        have hsep : Stops isSeparator t := fun c hc => by
          rw [of_decide_eq_true (ht c hc)]
          rfl
        have hnot : ∀ c ∈ slash :: path, c ≠ question :=
          List.forall_mem_cons.mpr ⟨by decide, fun c hc => of_decide_eq_false (hpath c hc)⟩
        rw [partsLoop_path h hpath ht, ← List.cons_append, behind_append hnot]
        exact ih (u := { u with path := u.path ++ path }) (At.skip h.tail) hsep (by omega)
      · obtain ⟨port, t, rfl, hport, ht⟩ := exists_scan isSeparator t
        rw [List.length_append] at hfuel
        have hnot : ∀ c ∈ colon :: port, c ≠ question :=
          List.forall_mem_cons.mpr ⟨by decide, fun c hc => ne_question (hport c hc)⟩
        rw [partsLoop_port h hport ht, ← List.cons_append, behind_append hnot]
        exact ih (u := { u with port := u.port ++ port }) (At.skip h.tail) ht (by omega)
      · rw [partsLoop_query h, behind_question]
        exact ⟨u, rfl, rfl⟩

/-! ## The constructor -/

theorem search_behind (needle s : Bytes) :
    (behind needle s = none ∧ search needle s = s.length) ∨
      ∃ a b, s = a ++ (needle ++ b) ∧ search needle s = a.length ∧ behind needle s = some b := by
  induction s with
  | nil => exact .inl ⟨rfl, rfl⟩
  | cons c rest ih =>
      rw [behind, search]
      split
      · next hprefix =>
          obtain ⟨b, hb⟩ := List.isPrefixOf_iff_prefix.mp hprefix
          exact .inr ⟨[], b, hb.symm, rfl, by rw [← hb, List.drop_left]⟩
      · obtain ⟨hnone, hlength⟩ | ⟨a, b, rfl, hlength, hsome⟩ := ih
        · exact .inl ⟨hnone, congrArg (· + 1) hlength⟩
        · exact .inr ⟨c :: a, b, rfl, congrArg (· + 1) hlength, hsome⟩

theorem range_zero {n : Nat} (h : n ≤ s.length) : range s 0 n = .ok (s.take n) := by
  rw [range, if_pos ⟨Nat.zero_le n, h⟩]
  rfl

theorem parse_of_none (h : behind protEnd s = none) :
    parse s = .error (.invalidArgument "Invalid URL - no protocol") := by
  obtain ⟨-, hlength⟩ | ⟨a, b, -, -, hsome⟩ := search_behind protEnd s
  · rw [parse, hlength, range_zero (Nat.le_refl _), ok_bind, if_pos rfl]
  · cases h.symm.trans hsome

/-- A string with a protocol is in the loop as soon as the host is read. -/
theorem parse_eq {protocol host : Bytes} (hs : s = protocol ++ (protEnd ++ (host ++ t)))
    (hsearch : search protEnd s = protocol.length) (hhost : ∀ c ∈ host, isSeparator c = false)
    (ht : Stops isSeparator t) :
    ∃ pos, At s pos t ∧
      parse s = partsLoop s s.length pos
        ⟨protocol.map tolower, host.map tolower, [], [], .empty⟩ := by
  have hafter : At s protocol.length (protEnd ++ (host ++ t)) := by
    rw [hs]
    exact At.append _ _
  have hpos : At s (protocol.length + protEnd.length) (host ++ t) := hafter.skip
  refine ⟨_, hpos.skip, ?_⟩
  have hadvance : advance s protocol.length protEnd.length =
      .ok (protocol.length + protEnd.length) := if_pos hpos.inside
  rw [parse, hsearch, range_zero hafter.inside, ok_bind, if_neg hafter.not_end, hadvance, ok_bind,
    findSeparator, findIf_ok hpos hhost ht, ok_bind, range_ok hpos, ok_bind, hs, List.take_left]

theorem enter_of_not_mem {pieces : List Bytes} (h : [] ∉ pieces) (m : OrderedMap Bytes Bytes) :
    ∃ m', enter pieces m = .ok m' := by
  induction pieces generalizing m with
  | nil => exact ⟨m, rfl⟩
  | cons piece pieces ih =>
      cases piece with
      | nil => exact absurd List.mem_cons_self h
      | cons c piece => exact ih (fun hrest => h (List.mem_cons_of_mem _ hrest)) _

theorem enter_of_mem {pieces : List Bytes} (h : [] ∈ pieces) (m : OrderedMap Bytes Bytes) :
    enter pieces m = .error .outOfRange := by
  induction pieces generalizing m with
  | nil => cases h
  | cons piece pieces ih =>
      cases piece with
      | nil => rfl
      | cons c piece => exact ih ((List.mem_cons.mp h).resolve_left (by simp)) _

/-- The constructor returns, or it throws what it throws on purpose. -/
def Settles (s : Bytes) : Prop :=
  (∃ u, parse s = .ok u) ∨ ∃ what, parse s = .error (.invalidArgument what)

/-- The query, the text behind the first `?` that is behind the first `://`, has something
at its front, at its end and between any two `&`. -/
def Filled (s : Bytes) : Prop :=
  ∀ rest query, behind protEnd s = some rest → behind [question] rest = some query →
    [] ∉ query.splitOn ampersand

theorem settles_iff (s : Bytes) : Settles s ↔ Filled s := by
  obtain ⟨hnone, -⟩ | ⟨protocol, rest, hs, hsearch, hsome⟩ := search_behind protEnd s
  · refine ⟨fun _ rest query hrest => ?_, fun _ => .inr ⟨_, parse_of_none hnone⟩⟩
    cases hnone.symm.trans hrest
  obtain ⟨host, t, rfl, hhost, ht⟩ := exists_scan isSeparator rest
  obtain ⟨pos, hat, hparse⟩ := parse_eq hs hsearch hhost ht
  have hlength : t.length ≤ s.length := by
    have := hat.length
    omega
  obtain ⟨v, hquery, hloop⟩ := partsLoop_eq hat ht hlength
  rw [hloop] at hparse
  have hbehind : behind [question] (host ++ t) = behind [question] t :=
    behind_append (fun c hc => ne_question (hhost c hc)) t
  cases htext : behind [question] t with
  | none =>
      rw [htext] at hparse
      refine ⟨fun _ rest query hrest hq => ?_, fun _ => .inl ⟨v, hparse⟩⟩
      cases hsome.symm.trans hrest
      cases (hbehind.trans htext).symm.trans hq
  | some text =>
      rw [htext, finish] at hparse
      constructor
      · intro hsettles rest query hrest hq hempty
        cases hsome.symm.trans hrest
        cases (hbehind.trans htext).symm.trans hq
        rw [enter_of_mem hempty] at hparse
        obtain ⟨u, hu⟩ | ⟨what, hwhat⟩ := hsettles
        · cases hparse.symm.trans hu
        · cases hparse.symm.trans hwhat
      · intro hfilled
        have hpieces := hfilled _ _ hsome (hbehind.trans htext)
        obtain ⟨m, hm⟩ := enter_of_not_mem hpieces v.query
        rw [hm] at hparse
        exact .inl ⟨_, hparse⟩

/-- `p://h?` -/
theorem not_settles_bare : ¬ Settles [112, 58, 47, 47, 104, 63] := by
  have hparse : parse [112, 58, 47, 47, 104, 63] = .error .outOfRange := by rfl
  rintro (⟨u, hu⟩ | ⟨what, hwhat⟩)
  · cases hparse.symm.trans hu
  · cases hparse.symm.trans hwhat

end Fastpath.Url
