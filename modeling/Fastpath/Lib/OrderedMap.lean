import Mathlib.Data.List.Nodup
import Mathlib.Data.List.Perm.Subperm

/-!
# Maps that remember an order

A map whose entries keep the order they came in. A key that is there already is
not put in again, so the keys are distinct, and an entry never moves.
-/

namespace Fastpath.Lib

structure OrderedMap (κ ν : Type) where
  entries : List (κ × ν)
  distinct : (entries.map Prod.fst).Nodup

namespace OrderedMap

variable {κ ν : Type}

def empty : OrderedMap κ ν := ⟨[], List.nodup_nil⟩

def keys (o : OrderedMap κ ν) : List κ := o.entries.map Prod.fst

theorem eq_of_entries {o o' : OrderedMap κ ν} (h : o.entries = o'.entries) : o = o' := by
  cases o
  cases o'
  cases h
  rfl

variable [DecidableEq κ]

/-- Put an entry at the end unless its key is there, and say whether it went in. -/
def insert (o : OrderedMap κ ν) (k : κ) (v : ν) : Bool × OrderedMap κ ν :=
  if h : k ∈ o.keys then (false, o)
  else
    (true, ⟨o.entries ++ [(k, v)], by
      rw [List.map_append, List.map_singleton]
      refine List.nodup_append.mpr ⟨o.distinct, List.nodup_singleton k, fun a ha b hb => ?_⟩
      rw [List.mem_singleton.mp hb]
      rintro rfl
      exact h ha⟩)

def lookup (o : OrderedMap κ ν) (k : κ) : Option ν :=
  (o.entries.find? (·.1 = k)).map Prod.snd

theorem insert_old {o : OrderedMap κ ν} {k : κ} (h : k ∈ o.keys) (v : ν) :
    o.insert k v = (false, o) := dif_pos h

theorem insert_new {o : OrderedMap κ ν} {k : κ} (h : k ∉ o.keys) (v : ν) :
    (o.insert k v).1 = true ∧ (o.insert k v).2.entries = o.entries ++ [(k, v)] := by
  rw [insert, dif_neg h]
  exact ⟨rfl, rfl⟩

theorem keys_insert_new {o : OrderedMap κ ν} {k : κ} (h : k ∉ o.keys) (v : ν) :
    (o.insert k v).2.keys = o.keys ++ [k] := by
  rw [keys, (insert_new h v).2, List.map_append]
  rfl

/-- The place of a key, and what is there. -/
theorem lookup_eq (o : OrderedMap κ ν) (k : κ) :
    o.lookup k = ((o.keys.findIdx? (· = k)).bind (o.entries[·]?)).map Prod.snd := by
  rw [lookup, keys, List.find?_eq_bind_findIdx?_getElem?, List.findIdx?_map]
  rfl

theorem lookup_eq_some_iff {o : OrderedMap κ ν} {k : κ} {v : ν} :
    o.lookup k = some v ↔ (k, v) ∈ o.entries := by
  constructor
  · intro h
    obtain ⟨e, he, rfl⟩ := Option.map_eq_some_iff.mp h
    have hkey : e.1 = k := by simpa using List.find?_some he
    rw [← hkey]
    exact List.mem_of_find?_eq_some he
  · intro h
    obtain ⟨e, he⟩ : ∃ e, o.entries.find? (·.1 = k) = some e :=
      Option.isSome_iff_exists.mp (List.find?_isSome.mpr ⟨_, h, by simp⟩)
    have hkey : e.1 = k := by simpa using List.find?_some he
    -- the keys are distinct, so what the search finds is the entry
    have heq : e = (k, v) :=
      List.inj_on_of_nodup_map o.distinct (List.mem_of_find?_eq_some he) h hkey
    rw [lookup, he, heq, Option.map_some]

/-- To compare two maps it is enough to look up the entries of the one in the other,
when there are as many of them. -/
theorem agree_iff {o o' : OrderedMap κ ν} :
    (o.entries.length = o'.entries.length ∧ ∀ e ∈ o.entries, o'.lookup e.1 = some e.2) ↔
      ∀ e, e ∈ o.entries ↔ e ∈ o'.entries := by
  have hnodup : o.entries.Nodup := List.Nodup.of_map Prod.fst o.distinct
  have hnodup' : o'.entries.Nodup := List.Nodup.of_map Prod.fst o'.distinct
  constructor
  · intro h e
    obtain ⟨hlength, hall⟩ := h
    have hsub : o.entries ⊆ o'.entries := fun e he => lookup_eq_some_iff.mp (hall e he)
    have hperm : o.entries.Perm o'.entries :=
      (List.subperm_of_subset hnodup hsub).perm_of_length_le (Nat.le_of_eq hlength.symm)
    exact hperm.mem_iff
  · intro h
    exact ⟨((List.perm_ext_iff_of_nodup hnodup hnodup').mpr h).length_eq,
      fun e he => lookup_eq_some_iff.mpr ((h e).mp he)⟩

end OrderedMap

/-- Numbered entries are found by their number. -/
theorem find?_zipIdx {κ : Type} [DecidableEq κ] (l : List κ) (k : κ) :
    (l.zipIdx.find? (·.1 = k)).map Prod.snd = l.findIdx? (· = k) := by
  suffices hfrom : ∀ n, ((l.zipIdx n).find? (·.1 = k)).map Prod.snd =
      (l.findIdx? (· = k)).map (· + n) by
    rw [hfrom 0]
    simp
  intro n
  induction l generalizing n with
  | nil => rfl
  | cons a l ih =>
      rw [List.zipIdx_cons, List.findIdx?_cons]
      by_cases ha : a = k
      · rw [List.find?_cons_of_pos (by simpa using ha), if_pos (by simpa using ha)]
        simp
      · rw [List.find?_cons_of_neg (by simpa using ha), if_neg (by simpa using ha), ih]
        cases l.findIdx? (· = k) with
        | none => rfl
        | some i => simp [Nat.add_comm, Nat.add_left_comm]

end Fastpath.Lib
