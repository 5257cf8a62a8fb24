import Fastpath.Proofs.Url

/-!
# URLs round trip

The parts a URL is written from, each free of what would end it, and the text
they are written as. The parser reads the parts back, in whatever combination
they are there, and it does so whatever stands in a path or in a value: those
are searched for one character only, and separators of the other parts are
ordinary characters in them.

A `?` with no pair behind it is the one text of this form that the parser does
not come through.
-/

namespace Fastpath

open Fastpath.Lib Fastpath.Url

/-- An ASCII character other than a capital. -/
def IsLower (c : UInt8) : Prop := c < 128 ∧ ¬ (65 ≤ c ∧ c ≤ 90)

instance : DecidablePred IsLower := fun c =>
  inferInstanceAs (Decidable (c < 128 ∧ ¬ (65 ≤ c ∧ c ≤ 90)))

/-- What a URL is written from. A value may be left out, and so may its `=`. -/
structure UrlParts where
  protocol : Bytes
  host : Bytes
  port : Option Bytes
  path : Option Bytes
  query : Option (List (Bytes × Option Bytes))
  protocol_lower : ∀ c ∈ protocol, IsLower c
  protocol_free : ¬ protEnd <:+: protocol
  host_lower : ∀ c ∈ host, IsLower c
  host_free : ∀ c ∈ host, isSeparator c = false
  port_free : ∀ text ∈ port, ∀ c ∈ text, isSeparator c = false
  path_free : ∀ text ∈ path, question ∉ text
  keys_distinct : ∀ pairs ∈ query, (pairs.map Prod.fst).Nodup
  keys_filled : ∀ pairs ∈ query, ∀ e ∈ pairs, e.1 ≠ []
  keys_free : ∀ pairs ∈ query, ∀ e ∈ pairs, ampersand ∉ e.1 ∧ equals ∉ e.1
  values_free : ∀ pairs ∈ query, ∀ e ∈ pairs, ∀ value ∈ e.2, ampersand ∉ value

namespace UrlParts

/-- A part that may be left out, behind the character it begins with. -/
def part (c : UInt8) : Option Bytes → Bytes
  | none => []
  | some text => c :: text

def pairText (e : Bytes × Option Bytes) : Bytes := e.1 ++ part equals e.2

def queryText (pairs : List (Bytes × Option Bytes)) : Bytes :=
  [ampersand].intercalate (pairs.map pairText)

/-- `protocol://host:port/path?key=value&key` -/
def text (p : UrlParts) : Bytes :=
  p.protocol ++ (protEnd ++ (p.host ++ (part colon p.port ++ (part slash p.path ++
    part question (p.query.map queryText)))))

/-- A value that is left out is an empty one. -/
def entry (e : Bytes × Option Bytes) : Bytes × Bytes := (e.1, e.2.getD [])

theorem keys_entry (pairs : List (Bytes × Option Bytes)) :
    (pairs.map entry).map Prod.fst = pairs.map Prod.fst := by
  rw [List.map_map]
  rfl

theorem distinct (p : UrlParts) : (((p.query.getD []).map entry).map Prod.fst).Nodup := by
  rw [keys_entry]
  cases hquery : p.query with
  | none => exact List.nodup_nil
  | some pairs => exact p.keys_distinct pairs hquery

/-- The parts as the parser is to return them. -/
def url (p : UrlParts) : Url where
  protocol := p.protocol
  host := p.host
  port := p.port.getD []
  path := p.path.getD []
  query := ⟨(p.query.getD []).map entry, p.distinct⟩

/-! ## The parts of the text -/

theorem map_tolower {t : Bytes} (h : ∀ c ∈ t, IsLower c) : t.map tolower = t := by
  have hid : ∀ c ∈ t, tolower c = c := fun c hc => if_neg (h c hc).2
  rw [List.map_congr_left hid, List.map_id']

/-- A `://` does not overlap with another one, so the first is the one that is written. -/
theorem search_protEnd {a t : Bytes} (h : ¬ protEnd <:+: a) :
    search protEnd (a ++ (protEnd ++ t)) = a.length := by
  induction a with
  | nil => rfl
  | cons c a ih =>
      have hprefix : ¬ protEnd <+: c :: a ++ (protEnd ++ t) := by
        intro hprefix
        rcases a with _ | ⟨d, _ | ⟨e, a⟩⟩
        · simp [protEnd, colon, slash] at hprefix
        · simp [protEnd, colon, slash] at hprefix
        · refine h (List.IsPrefix.isInfix ?_)
          simpa [protEnd] using hprefix
      rw [List.cons_append, search, if_neg (by rwa [List.isPrefixOf_iff_prefix]),
        ih fun ha => h (ha.trans (List.suffix_cons c a).isInfix)]
      rfl

theorem stops_part {c : UInt8} {p : UInt8 → Bool} {t : Bytes} (hc : p c = true) (ht : Stops p t)
    (o : Option Bytes) : Stops p (part c o ++ t) := by
  cases o with
  | none => exact ht
  | some text => exact stops_cons hc

theorem stops_query {p : UInt8 → Bool} (hp : p question = true) (o : Option Bytes) :
    Stops p (part question o) := by
  cases o with
  | none => exact stops_nil
  | some text => exact stops_cons hp

variable {s t : Bytes} {pos fuel : Nat} {u : Url} {o : Option Bytes}

theorem partsLoop_port? (h : At s pos (part colon o ++ t))
    (ho : ∀ text ∈ o, ∀ c ∈ text, isSeparator c = false) (ht : Stops isSeparator t)
    (hfuel : (part colon o ++ t).length ≤ fuel) :
    ∃ pos' fuel', At s pos' t ∧ t.length ≤ fuel' ∧ partsLoop s fuel pos u =
      partsLoop s fuel' pos' { u with port := u.port ++ o.getD [] } := by
  cases o with
  | none => exact ⟨pos, fuel, h, hfuel, by rw [Option.getD_none, List.append_nil]⟩
  | some port =>
      rw [part, List.cons_append] at h hfuel
      rw [List.length_cons, List.length_append] at hfuel
      cases fuel with
      | zero => omega
      | succ fuel => exact ⟨_, fuel, h.tail.skip, by omega, partsLoop_port h (ho port rfl) ht⟩

theorem partsLoop_path? (h : At s pos (part slash o ++ t)) (ho : ∀ text ∈ o, question ∉ text)
    (ht : Stops (· = question) t) (hfuel : (part slash o ++ t).length ≤ fuel) :
    ∃ pos' fuel', At s pos' t ∧ t.length ≤ fuel' ∧ partsLoop s fuel pos u =
      partsLoop s fuel' pos' { u with path := u.path ++ o.getD [] } := by
  cases o with
  | none => exact ⟨pos, fuel, h, hfuel, by rw [Option.getD_none, List.append_nil]⟩
  | some path =>
      rw [part, List.cons_append] at h hfuel
      rw [List.length_cons, List.length_append] at hfuel
      have hpath : ∀ c ∈ path, decide (c = question) = false := by
        intro c hc
        refine decide_eq_false ?_
        rintro rfl
        exact ho path rfl hc
      cases fuel with
      | zero => omega
      | succ fuel => exact ⟨_, fuel, h.tail.skip, by omega, partsLoop_path h hpath ht⟩

theorem partsLoop_query? (h : At s pos (part question o))
    (hfuel : (part question o).length ≤ fuel) : partsLoop s fuel pos u = finish u o := by
  cases o with
  | none => exact partsLoop_end h
  | some query =>
      cases fuel with
      | zero => cases hfuel
      | succ fuel => exact partsLoop_query h

/-- All of the text but the query is read back, whatever the query is. -/
theorem parse_text (p : UrlParts) :
    parse p.text =
      finish ⟨p.protocol, p.host, p.port.getD [], p.path.getD [], .empty⟩
        (p.query.map queryText) := by
  have hpath : Stops isSeparator (part slash p.path ++ part question (p.query.map queryText)) :=
    stops_part (by decide) (stops_query (by decide) _) _
  obtain ⟨pos₀, hat₀, hparse⟩ := parse_eq (s := p.text) rfl (search_protEnd p.protocol_free)
    p.host_free (stops_part (by decide) hpath _)
  have hfuel₀ := Nat.le_trans (Nat.le_add_left _ pos₀) (Nat.le_of_eq hat₀.length)
  obtain ⟨pos₁, fuel₁, hat₁, hfuel₁, hloop₁⟩ :=
    partsLoop_port? hat₀ p.port_free hpath hfuel₀
  obtain ⟨pos₂, fuel₂, hat₂, hfuel₂, hloop₂⟩ :=
    partsLoop_path? hat₁ p.path_free (stops_query (by decide) _) hfuel₁
  rw [hparse, hloop₁, hloop₂, partsLoop_query? hat₂ hfuel₂, map_tolower p.protocol_lower,
    map_tolower p.host_lower]
  rfl

/-! ## The pairs -/

theorem enter_pair {e : Bytes × Option Bytes} {pieces : List Bytes} {m : OrderedMap Bytes Bytes}
    (hfilled : e.1 ≠ []) (hfree : equals ∉ e.1) :
    enter (pairText e :: pieces) m = enter pieces (m.insert e.1 (e.2.getD [])).2 := by
  obtain ⟨key, value⟩ := e
  obtain ⟨c, key, rfl⟩ := List.exists_cons_of_ne_nil hfilled
  have hkey : ∀ d ∈ key, decide (d = equals) = false := by
    intro d hd
    refine decide_eq_false ?_
    rintro rfl
    exact hfree (List.mem_cons_of_mem _ hd)
  rw [pairText, List.cons_append]
  cases value with
  | none => exact enter_cons hkey stops_nil
  | some value => exact enter_cons hkey (stops_cons (by decide))

/-- Pairs whose keys are all different go in one behind the other. -/
theorem enter_pairs {pairs : List (Bytes × Option Bytes)} {m : OrderedMap Bytes Bytes}
    (hfilled : ∀ e ∈ pairs, e.1 ≠ []) (hfree : ∀ e ∈ pairs, equals ∉ e.1)
    (hdistinct : (m.keys ++ pairs.map Prod.fst).Nodup) :
    ∃ m', enter (pairs.map pairText) m = .ok m' ∧ m'.entries = m.entries ++ pairs.map entry := by
  induction pairs generalizing m with
  | nil => exact ⟨m, rfl, (List.append_nil _).symm⟩
  | cons e pairs ih =>
      obtain ⟨hfilledHead, hfilled⟩ := List.forall_mem_cons.mp hfilled
      obtain ⟨hfreeHead, hfree⟩ := List.forall_mem_cons.mp hfree
      have hnew : e.1 ∉ m.keys := by
        intro hold
        exact (List.nodup_append.mp hdistinct).2.2 _ hold _ List.mem_cons_self rfl
      rw [List.map_cons, List.append_cons, ← OrderedMap.keys_insert_new hnew (e.2.getD [])]
        at hdistinct
      obtain ⟨m', hm', hentries⟩ := ih hfilled hfree hdistinct
      refine ⟨m', by rw [List.map_cons, enter_pair hfilledHead hfreeHead, hm'], ?_⟩
      rw [hentries, (OrderedMap.insert_new hnew _).2, List.map_cons, List.append_assoc]
      rfl

/-- The pairs are the pieces between the `&`. -/
theorem splitOn_queryText {pairs : List (Bytes × Option Bytes)} (hne : pairs ≠ [])
    (hkeys : ∀ e ∈ pairs, ampersand ∉ e.1)
    (hvalues : ∀ e ∈ pairs, ∀ value ∈ e.2, ampersand ∉ value) :
    (queryText pairs).splitOn ampersand = pairs.map pairText := by
  refine List.splitOn_intercalate ampersand (fun piece hpiece => ?_) (by simpa using hne)
  obtain ⟨e, he, rfl⟩ := List.mem_map.mp hpiece
  rw [pairText, List.mem_append, not_or]
  refine ⟨hkeys e he, ?_⟩
  cases hvalue : e.2 with
  | none => exact List.not_mem_nil
  | some value =>
      rw [part, List.mem_cons, not_or]
      exact ⟨by decide, hvalues e he value hvalue⟩

/-! ## The round trip -/

theorem parse_eq_url {p : UrlParts} (hquery : p.query ≠ some []) : parse p.text = .ok p.url := by
  rw [parse_text]
  have hurl : ∀ m : OrderedMap Bytes Bytes, m.entries = (p.query.getD []).map entry →
      (⟨p.protocol, p.host, p.port.getD [], p.path.getD [], m⟩ : Url) = p.url := by
    intro m hm
    have hmap : m = p.url.query := OrderedMap.eq_of_entries hm
    rw [hmap]
    rfl
  cases hpairs : p.query with
  | none => exact congrArg Except.ok (hurl .empty (by rw [hpairs]; rfl))
  | some pairs =>
      have hne : pairs ≠ [] := fun hnil => hquery (by rw [hpairs, hnil])
      obtain ⟨m, hm, hentries⟩ := enter_pairs (m := .empty) (p.keys_filled pairs hpairs)
        (fun e he => (p.keys_free pairs hpairs e he).2) (p.keys_distinct pairs hpairs)
      rw [Option.map_some, finish, splitOn_queryText hne
        (fun e he => (p.keys_free pairs hpairs e he).1) (p.values_free pairs hpairs), hm]
      exact congrArg Except.ok (hurl m (by rw [hentries, hpairs]; rfl))

/-- With no pair the `?` has an empty piece behind it. -/
theorem parse_bare {p : UrlParts} (hquery : p.query = some []) :
    parse p.text = .error .outOfRange := by
  rw [parse_text, hquery]
  rfl

/-- The parts say the same. What is left out and what is empty is not told apart, and the
pairs are a map. -/
def Agree (p q : UrlParts) : Prop :=
  p.protocol = q.protocol ∧ p.host = q.host ∧ p.port.getD [] = q.port.getD [] ∧
    p.path.getD [] = q.path.getD [] ∧
    ∀ e, e ∈ (p.query.getD []).map entry ↔ e ∈ (q.query.getD []).map entry

theorem eq_iff (p q : UrlParts) : eq p.url q.url = true ↔ p.Agree q := by
  have hquery : queryEq p.url.query q.url.query = true ↔
      ∀ e, e ∈ (p.query.getD []).map entry ↔ e ∈ (q.query.getD []).map entry := by
    rw [queryEq, decide_eq_true_iff]
    exact OrderedMap.agree_iff
  rw [Url.eq, decide_eq_true_iff, hquery]
  rfl

/-- Both texts are read back, and the two URLs are equal just when their parts agree. -/
def ReadsBack (p q : UrlParts) : Prop :=
  parse p.text = .ok p.url ∧ parse q.text = .ok q.url ∧ (eq p.url q.url = true ↔ p.Agree q)

theorem readsBack_iff (p q : UrlParts) :
    p.ReadsBack q ↔ p.query ≠ some [] ∧ q.query ≠ some [] := by
  constructor
  · intro h
    obtain ⟨hp, hq, -⟩ := h
    refine ⟨fun hbare => ?_, fun hbare => ?_⟩
    · cases (parse_bare hbare).symm.trans hp
    · cases (parse_bare hbare).symm.trans hq
  · intro h
    obtain ⟨hp, hq⟩ := h
    exact ⟨parse_eq_url hp, parse_eq_url hq, eq_iff p q⟩

/-- `p://h?` -/
def bare : UrlParts where
  protocol := [112]
  host := [104]
  port := none
  path := none
  query := some []
  protocol_lower := List.forall_mem_singleton.mpr (by decide)
  protocol_free := by decide
  host_lower := List.forall_mem_singleton.mpr (by decide)
  host_free := List.forall_mem_singleton.mpr (by decide)
  port_free := fun _ h => by cases h
  path_free := fun _ h => by cases h
  keys_distinct := fun pairs h => by cases h; exact List.nodup_nil
  keys_filled := fun pairs h => by cases h; exact List.forall_mem_nil _
  keys_free := fun pairs h => by cases h; exact List.forall_mem_nil _
  values_free := fun pairs h => by cases h; exact List.forall_mem_nil _

theorem not_readsBack_bare : ¬ bare.ReadsBack bare := by
  intro h
  obtain ⟨hparse, -⟩ := h
  cases (parse_bare rfl).symm.trans hparse

end UrlParts

end Fastpath
