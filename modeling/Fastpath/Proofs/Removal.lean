import Mathlib.Data.List.Nodup
import Fastpath.Lib.Steps
import Fastpath.Proofs.Built

/-!
# Removing a field

`removeField` takes a place out of the payload and leaves the positions in
`m_keys` as they are, so everything behind that place is found one place too
early from then on, and what was last is not found at all. It also reads the
place from an entry it has just erased.

So it is right for the last field of a message, and as long as the entry still
reads as it did: then the positions are `0` to `n - 1` again, one shorter. The
first removal that is not of this kind breaks what it promises.
-/

namespace Fastpath.Allocated

open Fastpath.Lib

variable {s : Allocated}

/-- What a call promises. An identifier that is there is gone afterwards, one element is gone
with it, and every other identifier stands for the field it stood for; anything else
changes nothing. -/
def Kept (s : Allocated) : Edit → Prop
  | .add _ => True
  | .removeField field freed =>
      match field.bind s.message.find with
      | none => (MutableMessage.removeField field freed).run s.message = (.ok false, s.message)
      | some _ =>
          ((MutableMessage.removeField field freed).run s.message).1 = .ok true ∧
          ((s.step (.removeField field freed)).message.size + 1) % UInt32.size =
            s.message.size ∧
          (∀ identifier ∈ field,
            (s.step (.removeField field freed)).message.find identifier = none) ∧
          ∀ other ∉ field,
            (s.step (.removeField field freed)).resolve other = s.resolve other

/-- The field to be removed, if there is one, is the last of the payload, and its erased entry
still reads as its position. -/
def Last (s : Allocated) : Edit → Prop
  | .add _ => True
  | .removeField field freed => ∀ index ∈ field.bind s.message.find,
      freed = index ∧ index + 1 = s.message.payload.length

/-- The keys number the payload, in order. -/
structure Consistent (s : Allocated) : Prop where
  positions : s.message.keys.map (·.2) = List.range s.message.payload.length
  distinct : (s.message.keys.map (·.1)).Nodup
  length : s.addresses.length = s.message.payload.length
  addresses : s.addresses.Nodup
  created : ∀ address ∈ s.addresses, address < s.created

theorem consistent_new : new.Consistent :=
  ⟨rfl, List.nodup_nil, rfl, List.nodup_nil, fun _ h => (by cases h)⟩

end Fastpath.Allocated

namespace Fastpath.Message

variable {m : Message} {identifier other : CString} {index : Nat}

theorem mem_of_find (h : m.find identifier = some index) : (identifier, index) ∈ m.keys := by
  rw [find, Option.map_eq_some_iff] at h
  obtain ⟨⟨key, position⟩, hfound, rfl⟩ := h
  have hkey := List.find?_some hfound
  rw [← of_decide_eq_true hkey]
  exact List.mem_of_find?_eq_some hfound

theorem find_of_mem (hdistinct : (m.keys.map (·.1)).Nodup) (h : (identifier, index) ∈ m.keys) :
    m.find identifier = some index := by
  rw [find]
  generalize m.keys = keys at hdistinct h
  induction keys with
  | nil => cases h
  | cons entry keys ih =>
      rw [List.map_cons, List.nodup_cons] at hdistinct
      rcases List.mem_cons.mp h with rfl | hmem
      · rw [List.find?_cons_of_pos (by simp)]
        rfl
      · have hne : entry.1 ≠ identifier := by
          rintro rfl
          exact hdistinct.1 (List.mem_map.mpr ⟨_, hmem, rfl⟩)
        rw [List.find?_cons_of_neg (by simpa using hne)]
        exact ih hdistinct.2 hmem

theorem find_eraseKey_self : (m.eraseKey identifier).find identifier = none := by
  rw [find, eraseKey, Option.map_eq_none_iff, List.find?_eq_none]
  intro entry hmem
  have hne := (List.mem_filter.mp hmem).2
  simpa using hne

theorem find_eraseKey_of_ne (hne : other ≠ identifier) :
    (m.eraseKey identifier).find other = m.find other := by
  rw [find, find, eraseKey]
  generalize m.keys = keys
  induction keys with
  | nil => rfl
  | cons entry keys ih =>
      by_cases hentry : entry.1 = other
      · rw [List.filter_cons_of_pos (by simpa [hentry] using hne),
          List.find?_cons_of_pos (by simpa using hentry),
          List.find?_cons_of_pos (by simpa using hentry)]
      · rw [List.find?_cons_of_neg (by simpa using hentry), ← ih, List.filter_cons]
        split
        · rw [List.find?_cons_of_neg (by simpa using hentry)]
        · rfl

end Fastpath.Message

namespace Fastpath.Allocated

open Fastpath.Lib

variable {s : Allocated} {identifier other : CString} {index freed : Nat}

section Step

theorem step_removeField (hfind : s.message.find identifier = some index)
    (hfreed : freed < s.message.payload.length) :
    (MutableMessage.removeField (some identifier) freed).run s.message =
        (.ok true, { s.message.eraseKey identifier with
          payload := s.message.payload.eraseIdx freed }) ∧
      s.step (.removeField (some identifier) freed) =
        { s with
          message := { s.message.eraseKey identifier with
            payload := s.message.payload.eraseIdx freed }
          addresses := s.addresses.eraseIdx freed } := by
  have hrun : (MutableMessage.removeField (some identifier) freed).run s.message =
      (.ok true, { s.message.eraseKey identifier with
        payload := s.message.payload.eraseIdx freed }) := by
    rw [MutableMessage.removeField]
    dsimp only
    rw [hfind]
    exact if_pos hfreed
  refine ⟨hrun, ?_⟩
  rw [step, hrun]

theorem resolve_of_find (hfind : s.message.find identifier = some index) :
    s.resolve identifier = s.addresses[index]? := by
  rw [resolve, hfind]
  rfl

end Step

namespace Consistent

theorem index_lt (h : s.Consistent) (hfind : s.message.find identifier = some index) :
    index < s.message.payload.length := by
  have hmem : index ∈ s.message.keys.map (·.2) :=
    List.mem_map.mpr ⟨_, Message.mem_of_find hfind, rfl⟩
  rw [h.positions] at hmem
  exact List.mem_range.mp hmem

/-- Every place of the payload has its identifier. -/
theorem exists_find (h : s.Consistent) (hindex : index < s.message.payload.length) :
    ∃ identifier, s.message.find identifier = some index := by
  have hmem := List.mem_range.mpr hindex
  rw [← h.positions] at hmem
  obtain ⟨⟨identifier, position⟩, hentry, rfl⟩ := List.mem_map.mp hmem
  exact ⟨identifier, Message.find_of_mem h.distinct hentry⟩

/-- The entry of the last field is the last entry. -/
theorem keys_last (h : s.Consistent) (hfind : s.message.find identifier = some index)
    (hlast : index + 1 = s.message.payload.length) :
    ∃ entries, s.message.keys = entries ++ [(identifier, index)] ∧
      entries.map (·.2) = List.range index := by
  have hmem := Message.mem_of_find hfind
  have hpositions := h.positions
  rw [← hlast, List.range_succ] at hpositions
  rcases List.eq_nil_or_concat s.message.keys with hnil | ⟨entries, entry, hkeys⟩
  · rw [hnil] at hmem
    cases hmem
  · rw [hkeys, List.concat_eq_append] at hmem hpositions ⊢
    rw [List.map_append] at hpositions
    obtain ⟨hentries, hentry⟩ := List.append_inj' hpositions rfl
    refine ⟨entries, ?_, hentries⟩
    rcases List.mem_append.mp hmem with hearly | hlate
    · have hrange : index ∈ entries.map (·.2) := List.mem_map.mpr ⟨_, hearly, rfl⟩
      rw [hentries] at hrange
      exact absurd (List.mem_range.mp hrange) (Nat.lt_irrefl _)
    · rw [List.mem_singleton.mp hlate]

theorem find_inj (h : s.Consistent) (hfind : s.message.find identifier = some index)
    (hother : s.message.find other = some index) : other = identifier := by
  have hnodup : (s.message.keys.map (·.2)).Nodup := by
    rw [h.positions]
    exact List.nodup_range
  have hentry := List.inj_on_of_nodup_map hnodup (Message.mem_of_find hother)
    (Message.mem_of_find hfind) rfl
  exact congrArg Prod.fst hentry

theorem add (h : s.Consistent) (e : Field) : (s.step (.add e)).Consistent := by
  rw [step]
  split
  · next message hrun =>
      obtain ⟨-, ⟨hfalse, -⟩ | ⟨-, hnew, rfl⟩⟩ := MutableMessage.add_cases hrun
      · cases hfalse
      · refine ⟨?_, ?_, ?_, ?_, ?_⟩
        · show (s.message.keys ++ [(e.identifier, s.message.payload.length)]).map (·.2) =
            List.range (s.message.payload ++ [e]).length
          rw [List.map_append, h.positions, List.length_append, List.length_singleton,
            List.range_succ]
          rfl
        · show ((s.message.keys ++ [(e.identifier, s.message.payload.length)]).map (·.1)).Nodup
          rw [List.map_append, List.nodup_append]
          refine ⟨h.distinct, List.nodup_singleton _, fun a ha b hb heq => ?_⟩
          obtain ⟨⟨key, position⟩, hentry, rfl⟩ := List.mem_map.mp ha
          rw [List.mem_singleton.mp hb] at heq
          change key = e.identifier at heq
          rw [← heq, Message.find_of_mem h.distinct hentry] at hnew
          cases hnew
        · show (s.addresses ++ [s.created]).length = (s.message.payload ++ [e]).length
          rw [List.length_append, List.length_append, h.length]
          rfl
        · show (s.addresses ++ [s.created]).Nodup
          rw [List.nodup_append]
          refine ⟨h.addresses, List.nodup_singleton _, fun a ha b hb heq => ?_⟩
          rw [List.mem_singleton.mp hb] at heq
          exact absurd (h.created a ha) (by omega)
        · intro address hmem
          show address < s.created + 1
          rcases List.mem_append.mp hmem with hmem | hmem
          · exact Nat.lt_succ_of_lt (h.created address hmem)
          · rw [List.mem_singleton.mp hmem]
            exact Nat.lt_succ_self _
  · next answer message hnot hrun =>
      -- the field was created and destroyed again, or its identifier did not fit
      have hsame : message = s.message := by
        cases answer with
        | error fault => exact MutableMessage.add_error hrun
        | ok accepted =>
            obtain ⟨-, ⟨-, rfl⟩ | ⟨rfl, -, -⟩⟩ := MutableMessage.add_cases hrun
            · rfl
            · exact (hnot rfl).elim
      rw [hsame]
      exact ⟨h.positions, h.distinct, h.length, h.addresses,
        fun address hmem => Nat.lt_succ_of_lt (h.created address hmem)⟩

theorem removeField_last (h : s.Consistent) (hfind : s.message.find identifier = some index)
    (hlast : index + 1 = s.message.payload.length) :
    (s.step (.removeField (some identifier) index)).Consistent := by
  obtain ⟨entries, hkeys, hentries⟩ := h.keys_last hfind hlast
  have hdistinct := h.distinct
  rw [hkeys, List.map_append, List.nodup_append] at hdistinct
  have herased : (s.message.eraseKey identifier).keys = entries := by
    rw [Message.eraseKey, hkeys, List.filter_append, List.filter_cons_of_neg (by simp),
      List.filter_nil, List.append_nil, List.filter_eq_self]
    intro entry hmem
    exact decide_eq_true (hdistinct.2.2 _ (List.mem_map.mpr ⟨_, hmem, rfl⟩) _
      (List.mem_singleton.mpr rfl))
  have hlength : (s.message.payload.eraseIdx index).length = index := by
    rw [List.length_eraseIdx_of_lt (by omega)]
    omega
  rw [(step_removeField hfind (by omega)).2]
  refine ⟨?_, ?_, ?_, h.addresses.sublist (List.eraseIdx_sublist ..), fun address hmem => ?_⟩
  · show (s.message.eraseKey identifier).keys.map (·.2) =
      List.range (s.message.payload.eraseIdx index).length
    rw [herased, hlength, hentries]
  · show ((s.message.eraseKey identifier).keys.map (·.1)).Nodup
    rw [herased]
    exact hdistinct.1
  · show (s.addresses.eraseIdx index).length = (s.message.payload.eraseIdx index).length
    have haddresses := h.length
    rw [hlength, List.length_eraseIdx_of_lt (by omega)]
    omega
  · exact h.created address (List.mem_of_mem_eraseIdx hmem)

theorem kept_last (h : s.Consistent) (hfind : s.message.find identifier = some index)
    (hlast : index + 1 = s.message.payload.length) :
    s.Kept (.removeField (some identifier) index) := by
  have hindex := h.index_lt hfind
  obtain ⟨hrun, hstep⟩ := step_removeField hfind hindex
  simp only [Kept, Option.bind_some, hfind, hrun, hstep, Option.mem_some_iff]
  refine ⟨trivial, ?_, ?_, ?_⟩
  · show ((s.message.payload.eraseIdx index).length % 2 ^ 32 + 1) % UInt32.size =
      s.message.payload.length % 2 ^ 32
    rw [List.length_eraseIdx_of_lt (by omega), ← hlast, Nat.add_sub_cancel]
    exact Nat.mod_add_mod _ _ _
  · rintro _ rfl
    exact Message.find_eraseKey_self
  · intro other hother
    have hkeys : (s.message.eraseKey identifier).find other = s.message.find other :=
      Message.find_eraseKey_of_ne fun heq => hother heq.symm
    show ((s.message.eraseKey identifier).find other).bind ((s.addresses.eraseIdx index)[·]?) =
      s.resolve other
    rw [hkeys, resolve]
    cases hposition : s.message.find other with
    | none => rfl
    | some position =>
        have hne : position ≠ index := by
          rintro rfl
          exact hother (h.find_inj hfind hposition).symm
        have hlt := h.index_lt hposition
        exact List.getElem?_eraseIdx_of_lt (by omega)

/-- Another identifier has lost its field: the last one if it was not to go, and otherwise the
one that went instead. -/
theorem last_of_kept (h : s.Consistent) (hfind : s.message.find identifier = some index)
    (hkept : s.Kept (.removeField (some identifier) freed)) :
    freed = index ∧ index + 1 = s.message.payload.length := by
  have hindex := h.index_lt hfind
  have haddresses := h.length
  simp only [Kept, Option.bind_some, hfind] at hkept
  obtain ⟨hrun, -, -, hothers⟩ := hkept
  have hfreed : freed < s.message.payload.length := by
    by_contra hnot
    rw [MutableMessage.removeField] at hrun
    dsimp only at hrun
    rw [hfind] at hrun
    rw [show (s.message.eraseKey identifier).payload = s.message.payload from rfl,
      if_neg hnot] at hrun
    cases hrun
  -- what the other identifiers stand for
  have hresolve : ∀ other position, other ≠ identifier → s.message.find other = some position →
      (s.addresses.eraseIdx freed)[position]? = s.addresses[position]? := by
    intro other position hne hposition
    have hsame := hothers other fun hmem => hne (Option.mem_some_iff.mp hmem).symm
    rw [(step_removeField hfind hfreed).2, resolve_of_find hposition,
      resolve_of_find ((Message.find_eraseKey_of_ne hne).trans hposition)] at hsame
    exact hsame
  have hlast : index + 1 = s.message.payload.length := by
    by_contra hnot
    have hend : s.message.payload.length - 1 < s.message.payload.length := by omega
    obtain ⟨other, hother⟩ := h.exists_find hend
    have hne : other ≠ identifier := by
      rintro rfl
      rw [hfind, Option.some_inj] at hother
      omega
    have hsame := hresolve other _ hne hother
    rw [List.getElem?_eq_none (by rw [List.length_eraseIdx_of_lt (by omega)]; omega),
      List.getElem?_eq_getElem (by omega)] at hsame
    cases hsame
  refine ⟨?_, hlast⟩
  by_contra hnot
  obtain ⟨other, hother⟩ := h.exists_find hfreed
  have hne : other ≠ identifier := by
    rintro rfl
    rw [hfind, Option.some_inj] at hother
    exact hnot hother.symm
  have hsame := hresolve other _ hne hother
  rw [List.getElem?_eraseIdx_of_ge (Nat.le_refl _), List.getElem?_eq_getElem (by omega),
    List.getElem?_eq_getElem (by omega), Option.some_inj, h.addresses.getElem_inj_iff] at hsame
  omega

theorem kept_iff (h : s.Consistent) (edit : Edit) : s.Kept edit ↔ s.Last edit := by
  cases edit with
  | add e => exact Iff.rfl
  | removeField field freed =>
      cases hfind : field.bind s.message.find with
      | none =>
          refine ⟨fun _ => ?_, fun _ => ?_⟩
          · simp only [Last, hfind]
            intro index hmem
            cases hmem
          · simp only [Kept, hfind]
            rw [MutableMessage.removeField]
            cases field with
            | none => rfl
            | some identifier =>
                dsimp only
                rw [Option.bind_some] at hfind
                rw [hfind]
      | some index =>
          obtain ⟨identifier, rfl, hindex⟩ := Option.bind_eq_some_iff.mp hfind
          refine ⟨fun hkept => ?_, fun hlast => ?_⟩
          · simp only [Last, hfind, Option.mem_some_iff]
            rintro _ rfl
            exact h.last_of_kept hindex hkept
          · obtain ⟨rfl, hlength⟩ := hlast index hfind
            exact h.kept_last hindex hlength

protected theorem step (h : s.Consistent) {edit : Edit} (hlast : s.Last edit) :
    (s.step edit).Consistent := by
  cases edit with
  | add e => exact h.add e
  | removeField field freed =>
      cases hfind : field.bind s.message.find with
      | none =>
          have hkept := (h.kept_iff (.removeField field freed)).mpr hlast
          simp only [Kept, hfind] at hkept
          rw [step, hkept]
          exact h
      | some index =>
          obtain ⟨identifier, rfl, hindex⟩ := Option.bind_eq_some_iff.mp hfind
          obtain ⟨rfl, hlength⟩ := hlast index hfind
          exact h.removeField_last hindex hlength

end Consistent

/-- Every `removeField` of a run keeps what it promises if and only if each one that finds its
identifier removes the last field of the payload, and its erased entry still reads as
that field's position. -/
theorem kept_iff_last (edits : List Edit) : Along step Kept new edits ↔ Along step Last new edits :=
  along_iff_along (fun _ edit h => h.kept_iff edit) (fun _ _ h hlast => h.step hlast)
    consistent_new

/-- Two fields, of which the first is removed and its entry reads as it did. -/
def shifting : List Edit :=
  [.add (.scalar (.ofString "A") .boolean [1]), .add (.scalar (.ofString "B") .boolean [0]),
    .removeField (some (.ofString "A")) 0]

theorem shifting_not_kept :
    (after step new (shifting.take 2)).resolve (.ofString "B") = some 1 ∧
      (after step new shifting).resolve (.ofString "B") = none ∧
      ¬ Along step Kept new shifting := by
  have hbefore : (after step new (shifting.take 2)).resolve (.ofString "B") = some 1 := by
    decide +kernel
  have hafter : (after step new shifting).resolve (.ofString "B") = none := by
    decide +kernel
  refine ⟨hbefore, hafter, fun h => ?_⟩
  have hothers := h.2.2.1.2.2.2 (.ofString "B") (by decide +kernel)
  exact absurd (hafter.symm.trans (hothers.trans hbefore)) (by simp)

end Fastpath.Allocated
