import Mathlib.Data.List.Perm.Basic
import Mathlib.Data.List.Nodup
import Fastpath.Lib.Steps
import Fastpath.Model.Pool

/-!
# A pool and the objects that are out

The free objects and those that are out are, together and in some order, all
the objects of the cache, each of them once. Handing out an object moves it from
the one list to the other and taking it back moves it again; growth puts the
objects behind the cache into both the cache and the free list. What users
write into the objects plays no part in any of that, and it is gone from an
object by the time somebody gets it.
-/

namespace Fastpath

open Fastpath.Lib

namespace Pool

variable {T : Type} [Reusable T]

/-- As many objects are free as the cache has beside those that are out. -/
def Accounts (p : Pool T) (outstanding : List Nat) : Prop :=
  p.freeAllocations.length + outstanding.length = p.objectCache.length ∧
    p.objectCache.length = p.poolSize

end Pool

namespace Message

/-- No fields, no subject, and the flags of a new message. -/
structure Fresh (m : Message) : Prop where
  fields : m.payload = [] ∧ m.keys = []
  subject : m.subjectString.length = 0
  flags : m.flags = Message.new.flags

theorem fresh_clear (m : Message) : m.clear.Fresh where
  fields := ⟨rfl, rfl⟩
  subject := by
    cases hsubject : m.subject with
    | nil => simp [subjectString, clear, copyFront, CString.ofArray, CString.length]
    | cons b rest => simp [subjectString, clear, copyFront, CString.ofArray, CString.length]
  flags := rfl

end Message

/-- A pool, and the addresses its users have. -/
structure Leases (T : Type) where
  pool : Pool T
  outstanding : List Nat

namespace Leases

variable {T : Type} [Reusable T]

inductive Use (T : Type) where
  | allocate
  | release (i : Nat)
  /-- Anything at all is done to the object. -/
  | store (i : Nat) (value : T)

def step (s : Leases T) : Use T → Leases T
  | .allocate =>
      match Pool.allocate.run s.pool with
      | (.ok i, p) => ⟨p, i :: s.outstanding⟩
      | (.error _, p) => { s with pool := p }
  | .release i => ⟨s.pool.release i, s.outstanding.erase i⟩
  | .store i value => { s with pool := s.pool.store i value }

/-- Only an object that is out is released. -/
def Returns (s : Leases T) : Use T → Prop
  | .release i => i ∈ s.outstanding
  | .allocate | .store .. => True

omit [Reusable T] in
instance decidableReturns (s : Leases T) (u : Use T) : Decidable (s.Returns u) :=
  match u with
  | .release i => inferInstanceAs (Decidable (i ∈ s.outstanding))
  | .allocate | .store .. => .isTrue trivial

def new (poolSize : Nat) (h : 0 < poolSize) : Leases T := ⟨Pool.new poolSize h, []⟩

/-- Free or out: every object of the cache, once. -/
structure Whole (s : Leases T) : Prop where
  cache : s.pool.objectCache = List.range s.pool.poolSize
  split : (s.pool.freeAllocations ++ s.outstanding).Perm (List.range s.pool.poolSize)

theorem whole_new (poolSize : Nat) (h : 0 < poolSize) : (new poolSize h : Leases T).Whole where
  cache := rfl
  split := by
    rw [new, Pool.new, List.append_nil]
    exact List.reverse_perm _

omit [Reusable T] in
theorem Whole.accounts {s : Leases T} (h : s.Whole) : s.pool.Accounts s.outstanding := by
  have hcount := h.split.length_eq
  rw [List.length_append, List.length_range] at hcount
  rw [Pool.Accounts, h.cache, List.length_range]
  exact ⟨hcount, rfl⟩

omit [Reusable T] in
theorem Whole.nodup {s : Leases T} (h : s.Whole) :
    (s.pool.freeAllocations ++ s.outstanding).Nodup :=
  h.split.nodup_iff.mpr List.nodup_range

/-- The objects of a grown pool are those there were and those that are free now. -/
theorem Whole.grow {s : Leases T} (h : s.Whole) (hempty : s.pool.freeAllocations = []) :
    Whole { s with pool := s.pool.grow } := by
  have hcache : s.pool.grow.objectCache = List.range (s.pool.poolSize * 2) := by
    show s.pool.objectCache ++ List.range' s.pool.objectCache.length s.pool.poolSize = _
    rw [h.cache, List.length_range, List.range_eq_range', List.range_eq_range', Nat.mul_two,
      ← List.range'_append_1, Nat.zero_add]
  have hfree : s.pool.grow.freeAllocations =
      (s.pool.grow.objectCache.drop s.pool.poolSize).reverse := by
    show (s.pool.grow.objectCache.drop s.pool.poolSize).reverse ++ s.pool.freeAllocations = _
    rw [hempty, List.append_nil]
  have hout : s.outstanding.Perm (s.pool.grow.objectCache.take s.pool.poolSize) := by
    have hsplit := h.split
    rw [hempty, List.nil_append] at hsplit
    rwa [hcache, List.take_range, Nat.min_eq_left (by omega)]
  refine ⟨hcache, ?_⟩
  show (s.pool.grow.freeAllocations ++ s.outstanding).Perm (List.range (s.pool.poolSize * 2))
  rw [hfree, ← hcache]
  refine ((List.reverse_perm _).append hout).trans (List.perm_append_comm.trans ?_)
  rw [List.take_append_drop]

/-- What `allocate` does: the pool it takes the object from, grown if need be, is whole as well. -/
theorem Whole.allocate {s : Leases T} (h : s.Whole) :
    ∃ i p old, Pool.allocate.run s.pool = (.ok i, p) ∧ i ∉ s.outstanding ∧
      p.object i = Reusable.prepareForReuse old ∧ Whole ⟨p, i :: s.outstanding⟩ := by
  have hgrown : Whole { s with
      pool := if s.pool.freeAllocations.isEmpty then s.pool.grow else s.pool } := by
    split
    · next hempty => exact h.grow (List.isEmpty_iff.mp hempty)
    · exact h
  have hpos : (if s.pool.freeAllocations.isEmpty then s.pool.grow else s.pool).freeAllocations
      ≠ [] := by
    have hcached := s.pool.cached
    rw [h.cache, List.length_range] at hcached
    split
    · next hempty =>
        intro hnil
        have hcount := (h.grow (List.isEmpty_iff.mp hempty)).accounts
        have hcount' := h.accounts
        rw [Pool.Accounts, hnil] at hcount
        rw [Pool.Accounts, List.isEmpty_iff.mp hempty] at hcount'
        have hsize : s.pool.grow.poolSize = s.pool.poolSize * 2 := rfl
        simp only [List.length_nil] at hcount hcount'
        omega
    · next hsome => exact fun hnil => hsome (List.isEmpty_iff.mpr hnil)
  obtain ⟨i, rest, hcons⟩ := List.exists_cons_of_ne_nil hpos
  have hnodup := hgrown.nodup
  have hsplit := hgrown.split
  dsimp only at hnodup hsplit
  rw [hcons, List.cons_append, List.nodup_cons, List.mem_append, not_or] at hnodup
  rw [hcons] at hsplit
  simp only [Pool.allocate, hcons]
  refine ⟨i, _, _, rfl, hnodup.1.2, Function.update_self _ _ _, hgrown.cache, ?_⟩
  exact List.perm_middle.trans hsplit

/-- What is out is what it was. -/
theorem Whole.allocate_keeps {s : Leases T} (h : s.Whole) {i j : Nat} {p : Pool T}
    (hrun : Pool.allocate.run s.pool = (.ok i, p)) (hj : j ∈ s.outstanding) (hne : j ≠ i) :
    p.object j = s.pool.object j := by
  have hlt : j < s.pool.poolSize :=
    List.mem_range.mp (h.split.subset (List.mem_append_right _ hj))
  have hgrown : (if s.pool.freeAllocations.isEmpty then s.pool.grow else s.pool).object j =
      s.pool.object j := by
    split
    · refine if_neg fun hfresh => ?_
      have hle := (List.mem_range'_1.mp hfresh).1
      rw [h.cache, List.length_range] at hle
      omega
    · rfl
  simp only [Pool.allocate] at hrun
  split at hrun
  · cases hrun
  · simp only [Prod.mk.injEq, Except.ok.injEq] at hrun
    obtain ⟨hi, rfl⟩ := hrun
    exact (Function.update_of_ne (hi ▸ hne) _ _).trans hgrown

theorem Whole.step {s : Leases T} (h : s.Whole) {u : Use T} (hu : s.Returns u) :
    (s.step u).Whole := by
  cases u with
  | allocate =>
      obtain ⟨i, p, old, hrun, -, -, hwhole⟩ := h.allocate
      rw [Leases.step, hrun]
      exact hwhole
  | release i =>
      have hback := (List.perm_cons_erase hu).symm
      refine ⟨h.cache, ?_⟩
      exact List.perm_middle.symm.trans ((hback.append_left _).trans h.split)
  | store i value => exact ⟨h.cache, h.split⟩

/-- What is to hold between any two calls. -/
structure Exclusive (s : Leases Message) : Prop where
  nodup : s.pool.freeAllocations.Nodup
  accounts : s.pool.Accounts s.outstanding
  /-- Growth is what the next `allocate` starts with. -/
  grown : s.pool.freeAllocations = [] → s.pool.grow.Accounts s.outstanding
  next : ∃ i p, Pool.allocate.run s.pool = (.ok i, p) ∧ i ∉ s.outstanding ∧ (p.object i).Fresh

theorem Whole.exclusive {s : Leases Message} (h : s.Whole) : s.Exclusive where
  nodup := (List.nodup_append.mp h.nodup).1
  accounts := h.accounts
  grown hempty := (h.grow hempty).accounts
  next := by
    obtain ⟨i, p, old, hrun, hout, hobject, -⟩ := h.allocate
    refine ⟨i, p, hrun, hout, ?_⟩
    rw [hobject]
    exact old.fresh_clear

/-- Objects are handed out to one user at a time, and as good as new. -/
theorem always_exclusive (poolSize : Nat) (h : 0 < poolSize) (uses : List (Use Message))
    (hreturns : Along step Returns (new poolSize h) uses) :
    Always step Exclusive (new poolSize h) uses :=
  (hreturns.always (fun _ _ hs hu => hs.step hu) (whole_new poolSize h)).mono
    fun _ hs => hs.exclusive

theorem reused_exclusive :
    Always step Exclusive (new 1 (by decide))
      [.allocate, .store 0 { Message.new with subject := [65, 0] }, .allocate, .release 0,
        .allocate] :=
  always_exclusive 1 (by decide) _ (by decide)

end Leases

end Fastpath
