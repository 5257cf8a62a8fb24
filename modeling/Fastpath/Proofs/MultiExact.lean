import Fastpath.Proofs.MultiRing

/-!
# Every element once, in the order of the claims

What the invariant means to those who use the ring of many threads. Every
element is popped once, or is still there, and a consumer gets what it gets in
the order in which the producers claimed their places. No cell is in the hands of
two threads.

A call answers `false` where the cell in question is not free, or not filled,
yet. That is so when the buffer is full or empty, and also when the thread that
is to free or fill that very cell is still at it.
-/

namespace Fastpath

open Fastpath.Lib

namespace MultiRing

variable {α : Type} {k n : Nat} {s : MultiRing α k n} {t : Fin n} {pos : UInt64}

theorem accepted_step (i : Step α n) : s.accepted <+: (s.step i).accepted := by
  cases i with
  | push t data =>
      rw [step]
      split <;> exact List.prefix_rfl
  | pop t =>
      rw [step]
      split <;> exact List.prefix_rfl
  | advance t spurious =>
      rw [step, advance]
      split
      all_goals try split_ifs
      all_goals first
        | exact List.prefix_rfl
        | exact List.prefix_append _ _

theorem room_of_step (i : Step α n) (h : (s.step i).Room) : s.Room := by
  have hle := (accepted_step (s := s) i).length_le
  rw [Room] at h ⊢
  omega

theorem le_of_room (h : s.Room) : k ≤ 63 := by
  rw [Room] at h
  by_contra hnot
  have hle : 2 ^ 63 ≤ 2 ^ k := Nat.pow_le_pow_right (by decide) (by omega)
  omega

theorem sound_always (hk : 1 ≤ k) {steps : List (Step α n)}
    (hroom : (after step (new : MultiRing α k n) steps).Room) :
    Always step (fun s => s.Sound ∧ s.Room) (new : MultiRing α k n) steps := by
  have hle := le_of_room hroom
  have hrooms : Always step Room (new : MultiRing α k n) steps :=
    always_of_after (fun s i => room_of_step (s := s) i) hroom
  have hsound : Always step Sound (new : MultiRing α k n) steps :=
    hrooms.along.always (fun s i h hroom => h.step hk (by omega) hroom i) (sound_new hle)
  exact hsound.and hrooms

/-- Every element claimed for is popped once, or is still there. -/
structure Exact (s : MultiRing α k n) : Prop where
  bounded : s.tail.toNat ≤ s.accepted.length ∧ s.accepted.length ≤ s.tail.toNat + 2 ^ k
  popped : ∀ x ∈ s.popped, ∃ a, s.accepted[x.pos]? = some a ∧ x.data = some a
  once : (s.popped.map (·.pos)).Nodup
  /-- What has been claimed by a `pop` has been returned by it, or will be. -/
  taken : ∀ p, p < s.tail.toNat ↔
    p ∈ s.popped.map (·.pos) ∨ ∃ t, (s.ops t).reads = some p
  /-- A thread pops in the order of the claims. -/
  ordered : ∀ t, List.Sublist (s.poppedBy t) (s.accepted.map some)
  /-- When nobody is in a call, the buffer holds the rest. -/
  held : (∀ t, s.ops t = .idle) → ∀ p, s.tail.toNat ≤ p → p < s.accepted.length →
    (s.cells (place k p)).data = s.accepted[p]?

/-- What is found at places in their order is a part of the list, in its order. -/
theorem sublist_of_places {β γ : Type} {pos : β → Nat} {val : β → γ} {xs : List β} {l : List γ}
    (hsorted : (xs.map pos).Pairwise (· < ·)) (hval : ∀ x ∈ xs, l[pos x]? = some (val x)) :
    List.Sublist (xs.map val) l := by
  -- What is left of the list begins behind the place that was found last.
  have hfrom : ∀ b, (∀ x ∈ xs, b ≤ pos x) → List.Sublist (xs.map val) (l.drop b) := by
    induction xs with
    | nil => exact fun b _ => List.nil_sublist _
    | cons x xs ih =>
        intro b hb
        rw [List.map_cons, List.pairwise_cons] at hsorted
        obtain ⟨hlt, hx⟩ := List.getElem?_eq_some_iff.mp (hval x List.mem_cons_self)
        have hrest := ih hsorted.2 (fun y hy => hval y (List.mem_cons_of_mem _ hy)) (pos x + 1)
          fun y hy => hsorted.1 _ (List.mem_map.mpr ⟨y, hy, rfl⟩)
        have hdrop : List.Sublist (l.drop (pos x)) (l.drop b) :=
          List.drop_sublist_drop_left l (hb x List.mem_cons_self)
        rw [List.drop_eq_getElem_cons hlt, hx] at hdrop
        exact (hrest.cons_cons _).trans hdrop
  exact hfrom 0 fun _ _ => Nat.zero_le _

namespace Sound

theorem taken_iff (h : s.Sound) (p : Nat) : p < s.tail.toNat ↔
    p ∈ s.popped.map (·.pos) ∨ ∃ t, (s.ops t).reads = some p := by
  have hmem : p ∈ s.popped.map (·.pos) ↔ s.turns.stage p = .released := by
    rw [← List.count_pos_iff, h.count p]
    split_ifs with hreleased <;> simp [hreleased]
  have hreading : (∃ t, (s.ops t).reads = some p) ↔ s.turns.stage p = .reading :=
    ⟨fun ⟨t, ht⟩ => h.reads.of_has ht, fun hp => h.reads.exists hp⟩
  rw [hmem, hreading, Turns.stage_eq_released, Turns.stage_eq_reading]
  have htail : s.tail.toNat ≤ s.turns.head := h.ordered.tail_le
  have htaken := h.ordered.taken_lt p
  change p < s.turns.tail ↔ _
  change s.turns.tail ≤ _ at htail
  omega

protected theorem exact (h : s.Sound) (hk : 1 ≤ k) : s.Exact where
  bounded := by
    rw [h.length]
    exact ⟨h.ordered.tail_le, h.ordered.head_le (two_le hk)⟩
  popped := h.popped
  once := List.nodup_iff_count_le_one.mpr fun p => by
    rw [h.count p]
    split <;> omega
  taken := h.taken_iff
  ordered t := by
    refine sublist_of_places (h.sorted t) fun x hx => ?_
    obtain ⟨a, ha, hdata⟩ := h.popped x (List.mem_filter.mp hx).1
    rw [List.getElem?_map, ha, hdata]
    rfl
  held hidle p hle hlt := by
    have hstored : s.turns.stage p = .stored := by
      have hwriting : s.turns.stage p ≠ .writing := fun hp => by
        obtain ⟨t, ht⟩ := h.writes.exists hp
        rw [hidle t] at ht
        cases ht
      rw [h.length] at hlt
      have hclaimed := h.ordered.claimed_le p hlt
      rw [ne_eq, Turns.stage_eq_writing] at hwriting
      exact Turns.stage_eq_stored.mpr ⟨hlt, by omega, hle⟩
    obtain ⟨a, ha, hdata⟩ := h.filled p (.inl hstored)
    rw [ha, hdata]

end Sound

/-- Whatever the threads do, in whatever order. -/
theorem exact_always (hk : 1 ≤ k) {steps : List (Step α n)}
    (hroom : (after step (new : MultiRing α k n) steps).Room) :
    Always step Exact (new : MultiRing α k n) steps :=
  (sound_always hk hroom).mono fun _ h => h.1.exact hk

/-- A producer fills a cell, a consumer empties another one, and a third call finds nothing. -/
def shared (t u : Fin n) : List (Step Nat n) :=
  [.push t 7, .pop u, .advance t false, .advance u false, .advance t false, .advance t true,
    .advance t false, .advance t false, .advance t false, .advance t false, .advance u false,
    .advance u false, .advance u false, .advance u false, .pop t, .advance t false,
    .advance t false]

theorem exact_shared : (after step (new : MultiRing Nat 1 2) (shared 0 1)).Room ∧
    (after step (new : MultiRing Nat 1 2) (shared 0 1)).popped = [⟨1, 0, some 7⟩] ∧
      Always step Exact (new : MultiRing Nat 1 2) (shared 0 1) :=
  ⟨by decide, by decide, exact_always (by decide) (by decide)⟩

/-- The cell that is in a thread's hands. -/
def cellOf (t : Fin n) (s : MultiRing α k n) : Option (Fin (2 ^ k)) :=
  match s.ops t with
  | .writing _ pos | .publishing pos | .copying pos | .releasing pos _ => some (index k pos)
  | _ => none

theorem Sound.busy_of_cellOf (h : s.Sound) (hk' : k ≤ 64) {i : Fin (2 ^ k)}
    (ht : s.cellOf t = some i) :
    ∃ p, i = place k p ∧ (s.turns.stage p).Busy ∧
      ((s.ops t).writes = some p ∨ (s.ops t).reads = some p) := by
  rw [cellOf] at ht
  split at ht
  · next hop =>
      have hwriting := h.writes.of_has (i := t) (by rw [hop]; rfl)
      exact ⟨_, by rw [← index_eq hk']; exact (Option.some.inj ht).symm, busy_of_writing hwriting,
        .inl (by rw [hop]; rfl)⟩
  · next hop =>
      have hwriting := h.writes.of_has (i := t) (by rw [hop]; rfl)
      exact ⟨_, by rw [← index_eq hk']; exact (Option.some.inj ht).symm, busy_of_writing hwriting,
        .inl (by rw [hop]; rfl)⟩
  · next hop =>
      have hreading := h.reads.of_has (i := t) (by rw [hop]; rfl)
      exact ⟨_, by rw [← index_eq hk']; exact (Option.some.inj ht).symm, busy_of_reading hreading,
        .inr (by rw [hop]; rfl)⟩
  · next hop =>
      have hreading := h.reads.of_has (i := t) (by rw [hop]; rfl)
      exact ⟨_, by rw [← index_eq hk']; exact (Option.some.inj ht).symm, busy_of_reading hreading,
        .inr (by rw [hop]; rfl)⟩
  · cases ht

/-- No cell is ever in the hands of two threads. -/
def Exclusive (s : MultiRing α k n) : Prop :=
  ∀ t u i, s.cellOf t = some i → s.cellOf u = some i → t = u

theorem Sound.exclusive (h : s.Sound) (hk : 1 ≤ k) (hk' : k ≤ 64) : s.Exclusive := by
  intro t u i ht hu
  obtain ⟨p, hp, hbusy, ht⟩ := h.busy_of_cellOf hk' ht
  obtain ⟨q, hq, hbusy', hu⟩ := h.busy_of_cellOf hk' hu
  have heq : p = q := h.ordered.alone (two_le hk) hbusy hbusy' (place_eq_iff.mp (hp ▸ hq))
  subst heq
  rcases ht with ht | ht <;> rcases hu with hu | hu
  · exact h.writes.eq ht hu
  · exact absurd ((h.writes.of_has ht).symm.trans (h.reads.of_has hu)) (by decide)
  · exact absurd ((h.writes.of_has hu).symm.trans (h.reads.of_has ht)) (by decide)
  · exact h.reads.eq ht hu

theorem exclusive_always (hk : 1 ≤ k) {steps : List (Step α n)}
    (hroom : (after step (new : MultiRing α k n) steps).Room) :
    Always step Exclusive (new : MultiRing α k n) steps :=
  (sound_always hk hroom).mono fun _ h =>
    h.1.exclusive hk (Nat.le_succ_of_le (le_of_room h.2))

theorem exclusive_shared : (after step (new : MultiRing Nat 1 2) (shared 0 1)).Room ∧
    Always step Exclusive (new : MultiRing Nat 1 2) (shared 0 1) :=
  ⟨by decide, exclusive_always (by decide) (by decide)⟩

/-- The buffer is full, or a `pop` has still to give back the cell that the next `push` needs. -/
def NoRoom (s : MultiRing α k n) : Prop :=
  s.head.toNat = s.tail.toNat + 2 ^ k ∨
    2 ^ k ≤ s.head.toNat ∧ ∃ u, (s.ops u).reads = some (s.head.toNat - 2 ^ k)

/-- The buffer is empty, or a `push` has still to fill the cell that the next `pop` needs. -/
def NoElement (s : MultiRing α k n) : Prop :=
  s.tail.toNat = s.head.toNat ∨ ∃ u, (s.ops u).writes = some s.tail.toNat

theorem Sound.noRoom_iff (h : s.Sound) (hk : 1 ≤ k) :
    s.turns.turn s.head.toNat < s.head.toNat ↔ s.NoRoom := by
  have hreading : (∃ u, (s.ops u).reads = some (s.head.toNat - 2 ^ k)) ↔
      s.turns.stage (s.head.toNat - 2 ^ k) = .reading :=
    ⟨fun ⟨u, hu⟩ => h.reads.of_has hu, fun hp => h.reads.exists hp⟩
  have hturn := h.ordered.turn_lt_iff (two_le hk) (Nat.le_refl s.turns.head)
  have htwo := two_le hk
  have htail : s.tail.toNat ≤ s.head.toNat := h.ordered.tail_le
  have hhead : s.head.toNat ≤ s.tail.toNat + 2 ^ k := h.ordered.head_le htwo
  have htaken := h.ordered.taken_lt (s.head.toNat - 2 ^ k)
  change s.turns.turn s.head.toNat < s.head.toNat ↔ s.head.toNat = s.head.toNat ∧
    2 ^ k ≤ s.head.toNat ∧ s.turns.stage (s.head.toNat - 2 ^ k) ≠ .released at hturn
  change _ < s.tail.toNat → _ at htaken
  rw [hturn, NoRoom, hreading, ne_eq, Turns.stage_eq_released, Turns.stage_eq_reading]
  change _ ∧ _ ∧ ¬ (_ < s.head.toNat ∧ _ ∧ _ < s.tail.toNat) ↔
    _ ∨ _ ∧ _ < s.head.toNat ∧ _ ∧ _ < s.tail.toNat ∧ _
  omega

theorem Sound.noElement_iff (h : s.Sound) :
    s.turns.turn s.tail.toNat ≤ s.tail.toNat ↔ s.NoElement := by
  have hwriting : (∃ u, (s.ops u).writes = some s.tail.toNat) ↔
      s.turns.stage s.tail.toNat = .writing :=
    ⟨fun ⟨u, hu⟩ => h.writes.of_has hu, fun hp => h.writes.exists hp⟩
  have htail : s.tail.toNat ≤ s.head.toNat := h.ordered.tail_le
  have hclaimed := h.ordered.lt_claimed s.tail.toNat
  rw [NoElement, hwriting, Turns.stage_eq_writing]
  change _ → _ < s.head.toNat at hclaimed
  change _ ↔ _ ∨ _ < s.head.toNat ∧ _
  omega

/-- Why a call returns `false`, and that it does not otherwise. -/
structure Refusals (s : MultiRing α k n) : Prop where
  push : ∀ t data pos, s.ops t = .readingFree data pos →
    (s.Refuses t ↔ pos = s.head ∧ s.NoRoom)
  pop : ∀ t pos, s.ops t = .readingStored pos → (s.Refuses t ↔ pos = s.tail ∧ s.NoElement)

theorem Sound.refusals (h : s.Sound) (hk : 1 ≤ k) (hk' : k ≤ 64) (hroom : s.Room) :
    s.Refusals where
  push t data pos ht := by
    have hfits := h.fits t
    rw [ht] at hfits
    have hdif := h.dif_push hk hk' hroom hfits
    have hclaimed := h.ordered.claimed_le pos.toNat
    have hle : pos.toNat ≤ s.head.toNat := hfits
    rw [Refuses, ht, ← h.noRoom_iff hk, ← UInt64.toNat_inj]
    dsimp only
    rw [hdif]
    constructor
    · intro hneg
      have heq : pos.toNat = s.head.toNat := by
        by_contra hne
        have := hclaimed (show pos.toNat < s.head.toNat by omega)
        omega
      refine ⟨heq, ?_⟩
      rw [← heq]
      omega
    · intro hnot
      obtain ⟨heq, hlt⟩ := hnot
      rw [heq]
      omega
  pop t pos ht := by
    have hfits := h.fits t
    rw [ht] at hfits
    have hdif := h.dif_pop hk hk' hroom hfits
    have htaken := h.ordered.taken_lt pos.toNat
    have hle : pos.toNat ≤ s.tail.toNat := hfits
    rw [Refuses, ht, ← h.noElement_iff, ← UInt64.toNat_inj]
    dsimp only
    rw [hdif]
    constructor
    · intro hneg
      have heq : pos.toNat = s.tail.toNat := by
        by_contra hne
        have := htaken (show pos.toNat < s.tail.toNat by omega)
        omega
      refine ⟨heq, ?_⟩
      rw [← heq]
      omega
    · intro hnot
      obtain ⟨heq, hlt⟩ := hnot
      rw [heq]
      omega

theorem refusals_always (hk : 1 ≤ k) {steps : List (Step α n)}
    (hroom : (after step (new : MultiRing α k n) steps).Room) :
    Always step Refusals (new : MultiRing α k n) steps :=
  (sound_always hk hroom).mono fun _ h =>
    h.1.refusals hk (Nat.le_succ_of_le (le_of_room h.2)) h.2

theorem refusals_shared : (after step (new : MultiRing Nat 1 2) (shared 0 1)).Room ∧
    Always step Refusals (new : MultiRing Nat 1 2) (shared 0 1) :=
  ⟨by decide, refusals_always (by decide) (by decide)⟩

end MultiRing

end Fastpath
