import Fastpath.Lib.Steps
import Fastpath.Lib.Tally
import Fastpath.Lib.Turns
import Fastpath.Model.MultiRing

/-!
# The sequence numbers are turns

While the indices have not come to the end of the signed numbers, the sequence
numbers of the cells are turns: the place `p` may be written in its cell when the
number there is `p`, and read when it is `p + 1`. A `push` claims the place at
the head and a `pop` the one at the tail, and every place in between that is
being written or read is in the hands of exactly one thread. So the data of a
cell is touched by one thread at a time, and what a `pop` returns is what the
`push` that claimed the same place was given. Each access is taken in turn.
-/

namespace Fastpath

open Fastpath.Lib

namespace MultiRing

variable {α : Type} {k n : Nat} {s : MultiRing α k n} {t u : Fin n} {pos seq : UInt64}

/-! The arithmetic of the indices. -/

theorem toNat_mask (hk : k ≤ 64) : (mask k).toNat = 2 ^ k - 1 := by
  have hle : 2 ^ k ≤ 2 ^ 64 := Nat.pow_le_pow_right (by decide) hk
  have hpos := Nat.two_pow_pos k
  exact Nat.mod_eq_of_lt (by omega)

/-- The cell of a place. -/
def place (k p : Nat) : Fin (2 ^ k) := ⟨p % 2 ^ k, Nat.mod_lt p (Nat.two_pow_pos k)⟩

theorem index_eq (hk : k ≤ 64) : index k pos = place k pos.toNat := by
  refine Fin.ext ?_
  show (pos &&& mask k).toNat = pos.toNat % 2 ^ k
  rw [UInt64.toNat_and, toNat_mask hk, Nat.and_two_pow_sub_one_eq_mod]

theorem place_eq_iff {p q : Nat} : place k p = place k q ↔ p % 2 ^ k = q % 2 ^ k := by
  rw [place, place, Fin.mk.injEq]

theorem dif_eq (hseq : seq.toNat < 2 ^ 63) (hpos : pos.toNat < 2 ^ 63) :
    dif seq pos = (seq.toNat : Int) - pos.toNat := by
  have hint : ∀ {v : UInt64}, v.toNat < 2 ^ 63 → v.toInt64.toInt = (v.toNat : Int) := by
    intro v hv
    refine BitVec.toInt_eq_toNat_of_lt ?_
    show 2 * v.toNat < 2 ^ 64
    omega
  rw [dif, hint hseq, hint hpos]

theorem toNat_succ (hpos : pos.toNat < 2 ^ 63) : (pos + 1).toNat = pos.toNat + 1 := by
  rw [UInt64.toNat_add]
  exact Nat.mod_eq_of_lt (by show pos.toNat + 1 < 2 ^ 64; omega)

theorem toNat_round (hk : k ≤ 64) (hpos : pos.toNat + 2 ^ k < 2 ^ 64) :
    (pos + mask k + 1).toNat = pos.toNat + 2 ^ k := by
  have hpow := Nat.two_pow_pos k
  have hsum : (pos + mask k).toNat = pos.toNat + (2 ^ k - 1) := by
    rw [UInt64.toNat_add, toNat_mask hk]
    exact Nat.mod_eq_of_lt (by omega)
  rw [UInt64.toNat_add, hsum]
  show (pos.toNat + (2 ^ k - 1) + 1) % 2 ^ 64 = _
  rw [Nat.mod_eq_of_lt (by omega)]
  omega

/-- The sequence numbers as turns. -/
def turns (s : MultiRing α k n) : Turns (2 ^ k) where
  turn p := (s.cells (place k p)).sequence.toNat
  head := s.head.toNat
  tail := s.tail.toNat

end MultiRing

namespace MultiOp

variable {α : Type}

/-- The place that a `push` has claimed and not given away. -/
def writes : MultiOp α → Option Nat
  | .writing _ pos | .publishing pos => some pos.toNat
  | _ => none

/-- The place that a `pop` has claimed and not given back. -/
def reads : MultiOp α → Option Nat
  | .copying pos | .releasing pos _ => some pos.toNat
  | _ => none

end MultiOp

namespace MultiRing

variable {α : Type} {k n : Nat} {s : MultiRing α k n} {t u : Fin n} {pos seq : UInt64}

/-- The element that the place `p` was claimed for is in its cell. -/
def Filled (s : MultiRing α k n) (p : Nat) : Prop :=
  ∃ a, s.accepted[p]? = some a ∧ (s.cells (place k p)).data = some a

/-- What a thread has found out and done. -/
def Fits (s : MultiRing α k n) : MultiOp α → Prop
  | .idle | .loadingHead _ | .loadingTail | .copying _ => True
  | .readingFree _ pos => pos.toNat ≤ s.turns.head
  | .claiming _ pos =>
      pos.toNat ≤ s.turns.head ∧
        (pos.toNat = s.turns.head → s.turns.turn s.turns.head = s.turns.head)
  | .writing data pos => s.accepted[pos.toNat]? = some data
  | .publishing pos => s.Filled pos.toNat
  | .readingStored pos => pos.toNat ≤ s.turns.tail
  | .taking pos =>
      pos.toNat ≤ s.turns.tail ∧
        (pos.toNat = s.turns.tail → s.turns.turn s.turns.tail = s.turns.tail + 1)
  | .releasing pos data => ∃ a, s.accepted[pos.toNat]? = some a ∧ data = some a

/-- The places a thread has popped. -/
def placesOf (t : Fin n) (s : MultiRing α k n) : List Nat :=
  (s.popped.filter (·.thread = t)).map (·.pos)

structure Sound (s : MultiRing α k n) : Prop where
  ordered : s.turns.Ordered
  length : s.accepted.length = s.turns.head
  writes : Divided MultiOp.writes (fun p => s.turns.stage p = .writing) s.ops
  reads : Divided MultiOp.reads (fun p => s.turns.stage p = .reading) s.ops
  fits : ∀ t, s.Fits (s.ops t)
  filled : ∀ p, s.turns.stage p = .stored ∨ s.turns.stage p = .reading → s.Filled p
  count : ∀ p, (s.popped.map (·.pos)).count p = if s.turns.stage p = .released then 1 else 0
  popped : ∀ x ∈ s.popped, ∃ a, s.accepted[x.pos]? = some a ∧ x.data = some a
  /-- A thread pops its places in their order. -/
  sorted : ∀ t, (s.placesOf t).Pairwise (· < ·)
  last : ∀ t p, (s.ops t).reads = some p → ∀ q ∈ s.placesOf t, q < p

/-- There is room for the indices to go on. -/
def Room (s : MultiRing α k n) : Prop := s.accepted.length + 2 ^ k < 2 ^ 63

instance decidableRoom (s : MultiRing α k n) : Decidable s.Room :=
  inferInstanceAs (Decidable (s.accepted.length + 2 ^ k < 2 ^ 63))

/-! What the accesses do to the turns. -/

@[simp] theorem cells_setCell (pos : UInt64) (cell : MultiCell α) :
    (s.setCell pos cell).cells = Function.update s.cells (index k pos) cell := rfl

@[simp] theorem ops_goTo (op : MultiOp α) : (s.goTo t op).ops = Function.update s.ops t op := rfl

theorem turns_setCell_data {data : Option α} :
    (s.setCell pos { s.cell pos with data := data }).turns = s.turns := by
  rw [turns, turns, Turns.mk.injEq]
  refine ⟨funext fun p => ?_, rfl, rfl⟩
  rw [cells_setCell]
  by_cases hp : place k p = index k pos
  · rw [hp, Function.update_self]
    rfl
  · rw [Function.update_of_ne hp]

theorem turns_setCell_sequence (hk : k ≤ 64) :
    (s.setCell pos { s.cell pos with sequence := seq }).turns =
      s.turns.setTurn pos.toNat seq.toNat := by
  rw [turns, turns, Turns.setTurn, Turns.mk.injEq]
  refine ⟨funext fun p => ?_, rfl, rfl⟩
  rw [cells_setCell]
  by_cases hp : place k p = index k pos
  · rw [hp, Function.update_self]
    rw [index_eq hk, place_eq_iff] at hp
    rw [if_pos hp]
  · rw [Function.update_of_ne hp]
    rw [index_eq hk, place_eq_iff] at hp
    rw [if_neg hp]

theorem data_setCell_sequence (p : Nat) :
    ((s.setCell pos { s.cell pos with sequence := seq }).cells (place k p)).data =
      (s.cells (place k p)).data := by
  rw [cells_setCell]
  by_cases hp : place k p = index k pos
  · rw [hp, Function.update_self]
    rfl
  · rw [Function.update_of_ne hp]

theorem cell_setCell (hk : k ≤ 64) (cell : MultiCell α) :
    (s.setCell pos cell).cells (place k pos.toNat) = cell := by
  rw [cells_setCell, ← index_eq hk, Function.update_self]

theorem cell_setCell_of_ne (hk : k ≤ 64) {cell : MultiCell α} {p : Nat}
    (hp : p % 2 ^ k ≠ pos.toNat % 2 ^ k) :
    (s.setCell pos cell).cells (place k p) = s.cells (place k p) := by
  rw [cells_setCell, Function.update_of_ne]
  rw [index_eq hk, ne_eq, place_eq_iff]
  exact hp

theorem getElem?_of_prefix {l l' : List α} {i : Nat} {a : α} (h : l <+: l') (ha : l[i]? = some a) :
    l'[i]? = some a := by
  obtain ⟨more, rfl⟩ := h
  rw [List.getElem?_append_left (List.getElem?_eq_some_iff.mp ha).1]
  exact ha

theorem Filled.mono {s' : MultiRing α k n} {p : Nat} (h : s.Filled p)
    (haccepted : s.accepted <+: s'.accepted)
    (hdata : (s'.cells (place k p)).data = (s.cells (place k p)).data) : s'.Filled p := by
  obtain ⟨a, ha, hcell⟩ := h
  exact ⟨a, getElem?_of_prefix haccepted ha, hdata.trans hcell⟩

/-- Another thread has moved. -/
theorem Fits.frame {s' : MultiRing α k n} {op : MultiOp α} (h : s.Fits op)
    (hhead : s.turns.head ≤ s'.turns.head) (htail : s.turns.tail ≤ s'.turns.tail)
    (hclaim : s'.turns.head = s.turns.head → s.turns.turn s.turns.head = s.turns.head →
      s'.turns.turn s.turns.head = s.turns.head)
    (htake : s'.turns.tail = s.turns.tail → s.turns.turn s.turns.tail = s.turns.tail + 1 →
      s'.turns.turn s.turns.tail = s.turns.tail + 1)
    (haccepted : s.accepted <+: s'.accepted)
    (hfilled : ∀ p, op.writes = some p → s.Filled p → s'.Filled p) : s'.Fits op := by
  cases op with
  | idle | loadingHead data | loadingTail | copying pos => trivial
  | readingFree data pos => exact Nat.le_trans h hhead
  | claiming data pos =>
      refine ⟨Nat.le_trans h.1 hhead, fun heq => ?_⟩
      have hsame : s'.turns.head = s.turns.head := Nat.le_antisymm (heq ▸ h.1) hhead
      rw [hsame] at heq ⊢
      exact hclaim hsame (h.2 heq)
  | writing data pos => exact getElem?_of_prefix haccepted h
  | publishing pos => exact hfilled pos.toNat rfl h
  | readingStored pos => exact Nat.le_trans h htail
  | taking pos =>
      refine ⟨Nat.le_trans h.1 htail, fun heq => ?_⟩
      have hsame : s'.turns.tail = s.turns.tail := Nat.le_antisymm (heq ▸ h.1) htail
      rw [hsame] at heq ⊢
      exact htake hsame (h.2 heq)
  | releasing pos data =>
      obtain ⟨a, ha, hdata⟩ := h
      exact ⟨a, getElem?_of_prefix haccepted ha, hdata⟩

theorem fits_goTo {op op' : MultiOp α} (h : s.Fits op') : (s.goTo t op).Fits op' := by
  cases op' <;> exact h

theorem turns_new (hk : k ≤ 63) (p : Nat) : (new : MultiRing α k n).turns.turn p = p % 2 ^ k := by
  have hlt := Nat.mod_lt p (Nat.two_pow_pos k)
  have hle : 2 ^ k ≤ 2 ^ 63 := Nat.pow_le_pow_right (by decide) hk
  show (p % 2 ^ k) % 2 ^ 64 = _
  exact Nat.mod_eq_of_lt (by omega)

theorem stage_new (p : Nat) : (new : MultiRing α k n).turns.stage p = .waiting :=
  Turns.stage_eq_waiting.mpr (Nat.zero_le p)

theorem sound_new (hk : k ≤ 63) : (new : MultiRing α k n).Sound where
  ordered := by
    refine ⟨fun p q hpq => ?_, fun p => ⟨p % 2 ^ k, ?_, .inl (turns_new hk p)⟩, fun p hp => ?_,
      fun p hp => ?_, fun p hp => ?_, fun p hp => ?_⟩
    · rw [turns_new hk, turns_new hk, hpq]
    · exact Nat.mod_mod p _
    · exact absurd hp (Nat.not_lt_zero p)
    · exact absurd hp (Nat.not_lt_zero p)
    · rw [turns_new hk] at hp
      exact absurd (Nat.mod_le p (2 ^ k)) (by omega)
    · rw [turns_new hk] at hp
      exact absurd (Nat.mod_le p (2 ^ k)) (by omega)
  length := rfl
  writes p := by
    have hstage := stage_new (α := α) (k := k) (n := n) p
    rw [if_neg (by simp [hstage])]
    exact tally_eq_zero.mpr fun _ => rfl
  reads p := by
    have hstage := stage_new (α := α) (k := k) (n := n) p
    rw [if_neg (by simp [hstage])]
    exact tally_eq_zero.mpr fun _ => rfl
  fits _ := trivial
  filled p hp := by
    rw [stage_new] at hp
    rcases hp with hp | hp <;> cases hp
  count p := by
    rw [if_neg (by rw [stage_new]; decide)]
    rfl
  popped x hx := by cases hx
  sorted _ := .nil
  last _ _ hp := by cases hp

namespace Sound

variable {op : MultiOp α} {p : Nat}

/-- The places that have been popped lie before the tail. -/
theorem popped_lt (h : s.Sound) {q : Nat} (hq : q ∈ s.placesOf t) : q < s.turns.tail := by
  obtain ⟨x, hx, rfl⟩ := List.mem_map.mp hq
  have hmem : x.pos ∈ s.popped.map (·.pos) := List.mem_map.mpr ⟨x, (List.mem_filter.mp hx).1, rfl⟩
  have hcount := h.count x.pos
  by_cases hreleased : s.turns.stage x.pos = .released
  · exact (Turns.stage_eq_released.mp hreleased).2.2
  · rw [if_neg hreleased] at hcount
    exact absurd hmem (List.count_eq_zero.mp hcount)

/-- The thread goes on with what it has, and nothing else changes. -/
theorem goesOn (h : s.Sound) (hwrites : op.writes = (s.ops t).writes)
    (hreads : op.reads = (s.ops t).reads) (hfits : s.Fits op) : (s.goTo t op).Sound where
  ordered := h.ordered
  length := h.length
  writes := h.writes.keep hwrites
  reads := h.reads.keep hreads
  fits u := by
    refine fits_goTo ?_
    by_cases hu : u = t
    · rw [hu, ops_goTo, Function.update_self]
      exact hfits
    · rw [ops_goTo, Function.update_of_ne hu]
      exact h.fits u
  filled := h.filled
  count := h.count
  popped := h.popped
  sorted := h.sorted
  last u q hq := by
    by_cases hu : u = t
    · rw [hu, ops_goTo, Function.update_self, hreads] at hq
      rw [hu]
      exact h.last t q hq
    · rw [ops_goTo, Function.update_of_ne hu] at hq
      exact h.last u q hq

/-- A place has come to its next stage, in the hands of the thread or out of them. -/
theorem moved (h : s.Sound) {s' : MultiRing α k n} {stage : Stage}
    (hops : s'.ops = Function.update s.ops t op) (hordered : s'.turns.Ordered)
    (hstage : s'.turns.stage = Function.update s.turns.stage p stage)
    (hlength : s'.accepted.length = s'.turns.head) (haccepted : s.accepted <+: s'.accepted)
    (hwrote : (s.ops t).writes = if s.turns.stage p = .writing then some p else none)
    (hwrites : op.writes = if stage = .writing then some p else none)
    (hread : (s.ops t).reads = if s.turns.stage p = .reading then some p else none)
    (hreads : op.reads = if stage = .reading then some p else none)
    (hfits : s'.Fits op) (hothers : ∀ u, u ≠ t → s'.Fits (s.ops u))
    (hfilled : stage = .stored ∨ stage = .reading → s'.Filled p)
    (hkept : ∀ q, q ≠ p → s.turns.stage q = .stored ∨ s.turns.stage q = .reading → s'.Filled q)
    (hreleased : stage ≠ .released ∧ s.turns.stage p ≠ .released)
    (hpopped : s'.popped = s.popped)
    (hlast : op.reads = some p → ∀ q ∈ s.placesOf t, q < p) : s'.Sound where
  ordered := hordered
  length := hlength
  writes := by
    rw [hops]
    refine h.writes.update hwrote (by rw [hstage, Function.update_self]; exact hwrites)
      fun q hq => ?_
    rw [hstage, Function.update_of_ne hq]
  reads := by
    rw [hops]
    refine h.reads.update hread (by rw [hstage, Function.update_self]; exact hreads)
      fun q hq => ?_
    rw [hstage, Function.update_of_ne hq]
  fits u := by
    by_cases hu : u = t
    · rw [hu, hops, Function.update_self]
      exact hfits
    · rw [hops, Function.update_of_ne hu]
      exact hothers u hu
  filled q hq := by
    by_cases heq : q = p
    · rw [hstage, heq, Function.update_self] at hq
      rw [heq]
      exact hfilled hq
    · rw [hstage, Function.update_of_ne heq] at hq
      exact hkept q heq hq
  count q := by
    rw [hpopped, h.count q, hstage]
    by_cases heq : q = p
    · rw [heq, Function.update_self, if_neg hreleased.1, if_neg hreleased.2]
    · rw [Function.update_of_ne heq]
  popped x hx := by
    rw [hpopped] at hx
    obtain ⟨a, ha, hdata⟩ := h.popped x hx
    exact ⟨a, getElem?_of_prefix haccepted ha, hdata⟩
  sorted u := by
    rw [placesOf, hpopped]
    exact h.sorted u
  last u q hq := by
    rw [placesOf, hpopped]
    by_cases hu : u = t
    · rw [hu, hops, Function.update_self] at hq
      rw [hu]
      have hp : some p = some q := by
        rw [hreads] at hq
        split_ifs at hq
        exact hq
      rw [← Option.some.inj hp] at hq ⊢
      exact hlast hq
    · rw [hops, Function.update_of_ne hu] at hq
      exact h.last u q hq

/-! The accesses that are more than going on. -/

theorem round_lt (h : s.Sound) (hroom : s.Room) : s.head.toNat + 2 ^ k < 2 ^ 63 := by
  rw [Room, h.length] at hroom
  exact hroom

theorem head_lt (h : s.Sound) (hroom : s.Room) : s.head.toNat < 2 ^ 63 :=
  Nat.lt_of_le_of_lt (Nat.le_add_right _ _) (h.round_lt hroom)

theorem claim (h : s.Sound) (hroom : s.Room) {data : α}
    (ht : s.ops t = .claiming data s.head) :
    (goTo t (.writing data s.head)
      { s with head := s.head + 1, accepted := s.accepted ++ [data] }).Sound := by
  have hfits := h.fits t
  rw [ht] at hfits
  obtain ⟨hordered, hstage⟩ := h.ordered.claim (hfits.2 rfl)
  have hturns : (goTo t (.writing data s.head)
      { s with head := s.head + 1, accepted := s.accepted ++ [data] }).turns = s.turns.claim := by
    rw [turns, goTo, turns, Turns.claim, Turns.mk.injEq]
    exact ⟨rfl, toNat_succ (h.head_lt hroom), rfl⟩
  have hwaiting : s.turns.stage s.turns.head = .waiting :=
    Turns.stage_eq_waiting.mpr (Nat.le_refl _)
  have hprefix : s.accepted <+: s.accepted ++ [data] := List.prefix_append _ _
  refine h.moved (p := s.turns.head) rfl (hturns ▸ hordered) (by rw [hturns, hstage]) ?_ hprefix
    ?_ rfl ?_ rfl ?_ (fun u _ => ?_) (fun hstored => ?_) (fun q _ hq => ?_) ?_ rfl
    (fun hreads => by cases hreads)
  · rw [hturns, Turns.head_claim, ← h.length]
    exact List.length_append
  · rw [ht, hwaiting]
    rfl
  · rw [ht, hwaiting]
    rfl
  · show (s.accepted ++ [data])[s.head.toNat]? = some data
    rw [show s.head.toNat = s.accepted.length from h.length.symm]
    exact List.getElem?_concat_length
  · exact (h.fits u).frame (by rw [hturns]; exact Nat.le_succ _)
      (by rw [hturns]; exact Nat.le_refl _)
      (fun heq => by rw [hturns, Turns.head_claim] at heq; omega)
      (fun _ htake => by rw [hturns]; exact htake) hprefix fun p _ hp => hp.mono hprefix rfl
  · rcases hstored with hstored | hstored <;> cases hstored
  · exact (h.filled q hq).mono hprefix rfl
  · rw [hwaiting]
    exact ⟨by decide, by decide⟩

theorem take (h : s.Sound) (hroom : s.Room) (ht : s.ops t = .taking s.tail) :
    (goTo t (.copying s.tail) { s with tail := s.tail + 1 }).Sound := by
  have hfits := h.fits t
  rw [ht] at hfits
  have hturn := hfits.2 rfl
  obtain ⟨hordered, hstage⟩ := h.ordered.take hturn
  have htail : s.tail.toNat ≤ s.head.toNat := h.ordered.tail_le
  have hlt := h.head_lt hroom
  have hturns : (goTo t (.copying s.tail) { s with tail := s.tail + 1 }).turns = s.turns.take := by
    rw [turns, goTo, turns, Turns.take, Turns.mk.injEq]
    exact ⟨rfl, rfl, toNat_succ (by omega)⟩
  have hstored : s.turns.stage s.turns.tail = .stored :=
    Turns.stage_eq_stored.mpr ⟨h.ordered.lt_claimed _ (by omega), by omega, Nat.le_refl _⟩
  refine h.moved (p := s.turns.tail) rfl (hturns ▸ hordered) (by rw [hturns, hstage])
    (by rw [hturns]; exact h.length) List.prefix_rfl ?_ rfl ?_ rfl trivial (fun u _ => ?_)
    (fun _ => ?_) (fun q _ hq => (h.filled q hq).mono List.prefix_rfl rfl) ?_ rfl
    fun _ q hq => h.popped_lt hq
  · rw [ht, hstored]
    rfl
  · rw [ht, hstored]
    rfl
  · exact (h.fits u).frame (by rw [hturns]; exact Nat.le_refl _)
      (by rw [hturns]; exact Nat.le_succ _)
      (fun _ hclaim => by rw [hturns]; exact hclaim)
      (fun heq => by rw [hturns, Turns.tail_take] at heq; omega) List.prefix_rfl
      fun p _ hp => hp.mono List.prefix_rfl rfl
  · exact (h.filled _ (.inl hstored)).mono List.prefix_rfl rfl
  · rw [hstored]
    exact ⟨by decide, by decide⟩

theorem two_le (hk : 1 ≤ k) : 2 ≤ 2 ^ k := Nat.pow_le_pow_right (by decide : 0 < 2) hk

theorem busy_of_writing (hp : s.turns.stage p = .writing) : (s.turns.stage p).Busy := by
  rw [hp]
  exact ⟨by decide, by decide⟩

theorem busy_of_reading (hp : s.turns.stage p = .reading) : (s.turns.stage p).Busy := by
  rw [hp]
  exact ⟨by decide, by decide⟩

theorem publish (h : s.Sound) (hk : 1 ≤ k) (hk' : k ≤ 64) (hroom : s.Room)
    (ht : s.ops t = .publishing pos) :
    (goTo t .idle (s.setCell pos { s.cell pos with sequence := pos + 1 })).Sound := by
  have hfits := h.fits t
  rw [ht] at hfits
  have hwriting : s.turns.stage pos.toNat = .writing := h.writes.of_has (by rw [ht]; rfl)
  have hlt := h.head_lt hroom
  have hpos : pos.toNat < s.head.toNat := (Turns.stage_eq_writing.mp hwriting).1
  obtain ⟨hordered, hstage⟩ := h.ordered.publish (two_le hk) hwriting
  have hturns : (goTo t .idle (s.setCell pos { s.cell pos with sequence := pos + 1 })).turns =
      s.turns.setTurn pos.toNat (pos.toNat + 1) := by
    have hpos' : pos.toNat < 2 ^ 63 := by omega
    rw [← toNat_succ hpos']
    exact turns_setCell_sequence hk'
  refine h.moved (p := pos.toNat) rfl (hturns ▸ hordered) (by rw [hturns, hstage])
    (by rw [hturns]; exact h.length) List.prefix_rfl ?_ rfl ?_ rfl trivial (fun u _ => ?_)
    (fun _ => hfits.mono List.prefix_rfl (data_setCell_sequence _))
    (fun q _ hq => (h.filled q hq).mono List.prefix_rfl (data_setCell_sequence _)) ?_ rfl
    (fun hreads => by cases hreads)
  · rw [ht, hwriting]
    rfl
  · rw [ht, hwriting]
    rfl
  · refine (h.fits u).frame (by rw [hturns]; exact Nat.le_refl _)
      (by rw [hturns]; exact Nat.le_refl _) (fun _ hclaim => ?_) (fun _ htake => ?_) List.prefix_rfl
      fun p _ hp => hp.mono List.prefix_rfl (data_setCell_sequence _)
    · rw [hturns, Turns.turn_setTurn_of_ne
        (h.ordered.head_free (two_le hk) (busy_of_writing hwriting) hclaim)]
      exact hclaim
    · rw [hturns, Turns.turn_setTurn_of_ne
        (h.ordered.tail_stored (two_le hk) (.inl hwriting) htake)]
      exact htake
  · rw [hwriting]
    exact ⟨by decide, by decide⟩

/-- The data is written, and it is in no other thread's way. -/
theorem write (h : s.Sound) (hk : 1 ≤ k) (hk' : k ≤ 64) {data : α}
    (ht : s.ops t = .writing data pos) :
    (goTo t (.publishing pos) (s.setCell pos { s.cell pos with data := some data })).Sound := by
  have hfits := h.fits t
  rw [ht] at hfits
  have hhas : (s.ops t).writes = some pos.toNat := by rw [ht]; rfl
  have hwriting : s.turns.stage pos.toNat = .writing := h.writes.of_has hhas
  have hturns : (goTo t (.publishing pos)
      (s.setCell pos { s.cell pos with data := some data })).turns = s.turns := turns_setCell_data
  have hother : ∀ q, (s.turns.stage q).Busy → q ≠ pos.toNat → s.Filled q →
      (goTo t (.publishing pos)
        (s.setCell pos { s.cell pos with data := some data })).Filled q := by
    intro q hbusy hne hq
    refine hq.mono List.prefix_rfl (congrArg _ (cell_setCell_of_ne hk' fun hcell => hne ?_))
    exact h.ordered.alone (two_le hk) hbusy (busy_of_writing hwriting) hcell
  refine ⟨hturns ▸ h.ordered, by rw [hturns]; exact h.length, ?_, ?_, fun u => ?_, fun q hq => ?_,
    fun q => by rw [hturns]; exact h.count q, h.popped, h.sorted, fun u q hq => ?_⟩
  · rw [hturns]
    exact h.writes.keep hhas.symm
  · rw [hturns]
    exact h.reads.keep (by rw [ht]; rfl)
  · rw [ops_goTo]
    by_cases hu : u = t
    · rw [hu, Function.update_self]
      exact ⟨data, hfits, congrArg _ (cell_setCell hk' _)⟩
    · rw [Function.update_of_ne hu]
      refine (h.fits u).frame (by rw [hturns]) (by rw [hturns]) (fun _ hclaim => ?_)
        (fun _ htake => ?_) List.prefix_rfl fun q hq => ?_
      · rw [hturns]
        exact hclaim
      · rw [hturns]
        exact htake
      · refine hother q (busy_of_writing (h.writes.of_has hq)) fun heq => hu ?_
        rw [heq] at hq
        exact h.writes.eq hq hhas
  · rw [hturns] at hq
    have hne : q ≠ pos.toNat := fun heq => by
      rw [heq, hwriting] at hq
      rcases hq with hq | hq <;> cases hq
    refine hother q ?_ hne (h.filled q hq)
    rcases hq with hq | hq <;> rw [hq] <;> exact ⟨by decide, by decide⟩
  · rw [ops_goTo] at hq
    by_cases hu : u = t
    · rw [hu, Function.update_self] at hq
      cases hq
    · rw [Function.update_of_ne hu] at hq
      exact h.last u q hq

/-- The place that a thread has popped is the last of its own. -/
theorem placesOf_append {s' : MultiRing α k n} {data : Option α}
    (hpopped : s'.popped = s.popped ++ [⟨t, p, data⟩]) (u : Fin n) :
    s'.placesOf u = if u = t then s.placesOf u ++ [p] else s.placesOf u := by
  rw [placesOf, hpopped, List.filter_append, List.map_append]
  by_cases hu : u = t
  · simp [hu, placesOf]
  · simp [hu, Ne.symm hu, placesOf]

theorem release (h : s.Sound) (hk : 1 ≤ k) (hk' : k ≤ 64) (hroom : s.Room) {data : Option α}
    (ht : s.ops t = .releasing pos data) :
    (goTo t .idle
      { s.setCell pos { s.cell pos with sequence := pos + mask k + 1 } with
        popped := s.popped ++ [⟨t, pos.toNat, data⟩] }).Sound := by
  have hfits := h.fits t
  rw [ht] at hfits
  have hhas : (s.ops t).reads = some pos.toNat := by rw [ht]; rfl
  have hreading : s.turns.stage pos.toNat = .reading := h.reads.of_has hhas
  have hlt := h.round_lt hroom
  have hpos : pos.toNat < s.head.toNat := (Turns.stage_eq_reading.mp hreading).1
  obtain ⟨hordered, hstage⟩ := h.ordered.release (two_le hk) hreading
  generalize hs' : goTo t .idle
    { s.setCell pos { s.cell pos with sequence := pos + mask k + 1 } with
      popped := s.popped ++ [⟨t, pos.toNat, data⟩] } = s'
  have hturns : s'.turns = s.turns.setTurn pos.toNat (pos.toNat + 2 ^ k) := by
    rw [← toNat_round hk' (by omega), ← hs']
    exact turns_setCell_sequence hk'
  have hpopped : s'.popped = s.popped ++ [⟨t, pos.toNat, data⟩] := by rw [← hs']; rfl
  have hops : s'.ops = Function.update s.ops t .idle := by rw [← hs']; rfl
  have haccepted : s'.accepted = s.accepted := by rw [← hs']; rfl
  have hprefix : s.accepted <+: s'.accepted := by rw [haccepted]
  have hdata : ∀ q, (s'.cells (place k q)).data = (s.cells (place k q)).data := fun q => by
    rw [← hs']
    exact data_setCell_sequence q
  refine ⟨hturns ▸ hordered, by rw [hturns, haccepted]; exact h.length, ?_, ?_, fun u => ?_,
    fun q hq => ?_, fun q => ?_, fun x hx => ?_, fun u => ?_, fun u q hq => ?_⟩
  · rw [hops, hturns, hstage]
    refine h.writes.update (p := pos.toNat) ?_ ?_ fun q hq => by rw [Function.update_of_ne hq]
    · rw [ht, hreading]
      rfl
    · rw [Function.update_self]
      rfl
  · rw [hops, hturns, hstage]
    refine h.reads.update (p := pos.toNat) ?_ ?_ fun q hq => by rw [Function.update_of_ne hq]
    · rw [ht, hreading]
      rfl
    · rw [Function.update_self]
      rfl
  · rw [hops]
    by_cases hu : u = t
    · rw [hu, Function.update_self]
      trivial
    · rw [Function.update_of_ne hu]
      refine (h.fits u).frame (by rw [hturns]; exact Nat.le_refl _)
        (by rw [hturns]; exact Nat.le_refl _) (fun _ hclaim => ?_) (fun _ htake => ?_) hprefix
        fun p _ hp => hp.mono hprefix (hdata p)
      · rw [hturns, Turns.turn_setTurn_of_ne
          (h.ordered.head_free (two_le hk) (busy_of_reading hreading) hclaim)]
        exact hclaim
      · rw [hturns, Turns.turn_setTurn_of_ne
          (h.ordered.tail_stored (two_le hk) (.inr hreading) htake)]
        exact htake
  · rw [hturns, hstage] at hq
    by_cases heq : q = pos.toNat
    · rw [heq, Function.update_self] at hq
      rcases hq with hq | hq <;> cases hq
    · rw [Function.update_of_ne heq] at hq
      exact (h.filled q hq).mono hprefix (hdata q)
  · rw [hpopped, List.map_append, List.count_append, h.count q, hturns, hstage]
    by_cases heq : q = pos.toNat
    · rw [heq, Function.update_self, hreading]
      simp
    · rw [Function.update_of_ne heq]
      simp [Ne.symm heq]
  · rw [hpopped] at hx
    rw [haccepted]
    rcases List.mem_append.mp hx with hx | hx
    · exact h.popped x hx
    · rw [List.mem_singleton.mp hx]
      exact hfits
  · rw [placesOf_append hpopped]
    split
    · next hu =>
        refine List.pairwise_append.mpr ⟨h.sorted u, List.pairwise_singleton _ _, ?_⟩
        intro q hq q' hq'
        rw [List.mem_singleton.mp hq']
        exact h.last t pos.toNat hhas q (hu ▸ hq)
    · exact h.sorted u
  · rw [hops] at hq
    by_cases hu : u = t
    · rw [hu, Function.update_self] at hq
      cases hq
    · rw [Function.update_of_ne hu] at hq
      rw [placesOf_append hpopped, if_neg hu]
      exact h.last u q hq

/-! What a thread makes of a sequence number. -/

theorem turn_eq (hk' : k ≤ 64) : (s.cell pos).sequence.toNat = s.turns.turn pos.toNat := by
  rw [cell, index_eq hk']
  rfl

theorem dif_push (h : s.Sound) (hk : 1 ≤ k) (hk' : k ≤ 64) (hroom : s.Room)
    (hpos : pos.toNat ≤ s.turns.head) :
    dif (s.cell pos).sequence pos = (s.turns.turn pos.toNat : Int) - pos.toNat := by
  have hlt := h.round_lt hroom
  have hhead : s.turns.head < 2 ^ 63 := h.head_lt hroom
  have hturn := h.ordered.turn_le (p := pos.toNat) (two_le hk)
  rw [dif_eq, turn_eq hk']
  · rw [turn_eq hk']
    exact Nat.lt_of_le_of_lt hturn hlt
  · omega

theorem dif_pop (h : s.Sound) (hk : 1 ≤ k) (hk' : k ≤ 64) (hroom : s.Room)
    (hpos : pos.toNat ≤ s.turns.tail) :
    dif (s.cell pos).sequence (pos + 1) = (s.turns.turn pos.toNat : Int) - (pos.toNat + 1) := by
  have hlt := h.round_lt hroom
  have htail : s.tail.toNat ≤ s.head.toNat := h.ordered.tail_le
  have htwo := two_le hk
  have hpos' : pos.toNat ≤ s.tail.toNat := hpos
  have hturn := h.ordered.turn_le (p := pos.toNat) htwo
  have hsucc : (pos + 1).toNat = pos.toNat + 1 := toNat_succ (by omega)
  rw [dif_eq, turn_eq hk', hsucc]
  · rfl
  · rw [turn_eq hk']
    exact Nat.lt_of_le_of_lt hturn hlt
  · omega

theorem advance (h : s.Sound) (hk : 1 ≤ k) (hk' : k ≤ 64) (hroom : s.Room) (t : Fin n)
    (spurious : Bool) : (s.advance t spurious).Sound := by
  have hfits := h.fits t
  cases ht : s.ops t with
  | idle =>
      rw [MultiRing.advance, ht]
      exact h
  | loadingHead data =>
      rw [MultiRing.advance, ht]
      exact h.goesOn (by rw [ht]; rfl) (by rw [ht]; rfl) (Nat.le_refl _)
  | readingFree data pos =>
      rw [ht] at hfits
      have hdif := h.dif_push hk hk' hroom hfits
      rw [MultiRing.advance, ht]
      dsimp only
      split_ifs with hzero hneg
      · refine h.goesOn (by rw [ht]; rfl) (by rw [ht]; rfl) ⟨hfits, fun heq => ?_⟩
        rw [← heq]
        omega
      · exact h.goesOn (by rw [ht]; rfl) (by rw [ht]; rfl) trivial
      · exact h.goesOn (by rw [ht]; rfl) (by rw [ht]; rfl) trivial
  | claiming data pos =>
      rw [MultiRing.advance, ht]
      dsimp only
      split_ifs with hclaim
      · obtain ⟨rfl, -⟩ := hclaim
        exact h.claim hroom ht
      · exact h.goesOn (by rw [ht]; rfl) (by rw [ht]; rfl) (Nat.le_refl _)
  | writing data pos =>
      rw [MultiRing.advance, ht]
      exact h.write hk hk' ht
  | publishing pos =>
      rw [MultiRing.advance, ht]
      exact h.publish hk hk' hroom ht
  | loadingTail =>
      rw [MultiRing.advance, ht]
      exact h.goesOn (by rw [ht]; rfl) (by rw [ht]; rfl) (Nat.le_refl _)
  | readingStored pos =>
      rw [ht] at hfits
      have hdif := h.dif_pop hk hk' hroom hfits
      rw [MultiRing.advance, ht]
      dsimp only
      split_ifs with hzero hneg
      · refine h.goesOn (by rw [ht]; rfl) (by rw [ht]; rfl) ⟨hfits, fun heq => ?_⟩
        rw [← heq]
        omega
      · exact h.goesOn (by rw [ht]; rfl) (by rw [ht]; rfl) trivial
      · exact h.goesOn (by rw [ht]; rfl) (by rw [ht]; rfl) trivial
  | taking pos =>
      rw [MultiRing.advance, ht]
      dsimp only
      split_ifs with htake
      · obtain ⟨rfl, -⟩ := htake
        exact h.take hroom ht
      · exact h.goesOn (by rw [ht]; rfl) (by rw [ht]; rfl) (Nat.le_refl _)
  | copying pos =>
      have hreading : s.turns.stage pos.toNat = .reading :=
        h.reads.of_has (i := t) (by rw [ht]; rfl)
      rw [MultiRing.advance, ht]
      refine h.goesOn (by rw [ht]; rfl) (by rw [ht]; rfl) ?_
      rw [cell, index_eq hk']
      exact h.filled pos.toNat (.inr hreading)
  | releasing pos data =>
      rw [MultiRing.advance, ht]
      exact h.release hk hk' hroom ht

protected theorem step (h : s.Sound) (hk : 1 ≤ k) (hk' : k ≤ 64) (hroom : s.Room) (i : Step α n) :
    (s.step i).Sound := by
  cases i with
  | advance t spurious => exact h.advance hk hk' hroom t spurious
  | push t data =>
      rw [MultiRing.step]
      split
      · next ht => exact h.goesOn (by rw [ht]; rfl) (by rw [ht]; rfl) trivial
      · exact h
  | pop t =>
      rw [MultiRing.step]
      split
      · next ht => exact h.goesOn (by rw [ht]; rfl) (by rw [ht]; rfl) trivial
      · exact h

end Sound

end MultiRing

end Fastpath
