import Fastpath.Proofs.MultiExact

/-!
# No thread of the ring waits for another

A thread that is left alone finishes its call in five accesses, whatever the
others are in the middle of, and the call does then what it does with a bounded
queue: it is refused, and nothing has changed, or the element is in the buffer,
or out of it.

When the threads interfere, a call may have to begin again, but only because
another one has claimed a place in the meantime: without that, and as long as no
`compare_exchange_weak` fails for no reason, every access brings a thread nearer
to a claim or to the end of its call.
-/

namespace Fastpath

open Fastpath.Lib

namespace MultiRing

variable {α : Type} {k n : Nat} {s : MultiRing α k n} {t u : Fin n}

/-- How many accesses a thread is from a claim or from the end of its call, as long as the
indices stay where they are. -/
def distance (head tail : UInt64) : MultiOp α → Nat
  | .idle => 0
  | .loadingHead _ | .loadingTail => 3
  | .readingFree _ pos => if pos = head then 2 else 4
  | .claiming _ pos => if pos = head then 1 else 3
  | .readingStored pos => if pos = tail then 2 else 4
  | .taking pos => if pos = tail then 1 else 3
  | .writing .. | .copying _ => 2
  | .publishing _ | .releasing .. => 1

theorem distance_le (head tail : UInt64) (op : MultiOp α) : distance head tail op ≤ 4 := by
  cases op
  all_goals rw [distance]
  all_goals try split
  all_goals omega

/-- The access claims a place or ends a call. -/
def Completes (s : MultiRing α k n) (t : Fin n) : Prop :=
  (s.advance t false).head ≠ s.head ∨ (s.advance t false).tail ≠ s.tail ∨
    (s.advance t false).ops t = .idle

instance decidableCompletes [DecidableEq α] (s : MultiRing α k n) (t : Fin n) :
    Decidable (s.Completes t) :=
  inferInstanceAs (Decidable ((s.advance t false).head ≠ s.head ∨
    (s.advance t false).tail ≠ s.tail ∨ (s.advance t false).ops t = .idle))

/-- A thread in a call makes an access, with no spurious failure, that completes nothing. -/
def Futile (s : MultiRing α k n) (i : Step α n) : Prop :=
  ∃ t, i = .advance t false ∧ s.ops t ≠ .idle ∧ ¬ s.Completes t

/-- How far all of them are. -/
def distances (s : MultiRing α k n) : Nat := tally (distance s.head s.tail) s.ops

/-- An access that completes nothing only moves the thread. -/
theorem Sound.nearer (h : s.Sound) (hk : 1 ≤ k) (hk' : k ≤ 64) (hroom : s.Room)
    (ht : s.ops t ≠ .idle) (hnot : ¬ s.Completes t) :
    (s.advance t false).head = s.head ∧ (s.advance t false).tail = s.tail ∧
      ∃ op, (s.advance t false).ops = Function.update s.ops t op ∧
        distance s.head s.tail op + 1 ≤ distance s.head s.tail (s.ops t) := by
  have hfits := h.fits t
  simp only [Completes, ne_eq, not_or, not_not] at hnot
  obtain ⟨hhead, htail, hidle⟩ := hnot
  refine ⟨hhead, htail, ?_⟩
  cases hop : s.ops t with
  | idle => exact absurd hop ht
  | loadingHead data =>
      rw [MultiRing.advance, hop]
      exact ⟨_, rfl, by simp [distance]⟩
  | loadingTail =>
      rw [MultiRing.advance, hop]
      exact ⟨_, rfl, by simp [distance]⟩
  | readingFree data pos =>
      rw [hop] at hfits
      have hdif := h.dif_push hk hk' hroom hfits
      have hclaimed := h.ordered.lt_claimed pos.toNat
      rw [MultiRing.advance, hop] at hidle ⊢
      dsimp only at hidle ⊢
      by_cases hzero : dif (s.cell pos).sequence pos = 0
      · rw [if_pos hzero]
        exact ⟨_, rfl, by rw [distance, distance]; split <;> omega⟩
      · rw [if_neg hzero] at hidle ⊢
        by_cases hneg : dif (s.cell pos).sequence pos < 0
        · rw [if_pos hneg, ops_goTo, Function.update_self] at hidle
          exact absurd rfl hidle
        · rw [if_neg hneg]
          have hne : pos ≠ s.head := fun heq => by
            have hlt := hclaimed (by omega)
            rw [heq] at hlt
            exact absurd hlt (Nat.lt_irrefl _)
          exact ⟨_, rfl, by rw [distance, distance, if_neg hne]⟩
  | claiming data pos =>
      rw [MultiRing.advance, hop] at hhead ⊢
      dsimp only at hhead ⊢
      by_cases heq : s.head = pos
      · rw [if_pos ⟨heq, rfl⟩] at hhead
        exact absurd hhead (by subst heq; exact fun h => by simp [goTo] at h)
      · rw [if_neg (fun h => heq h.1)]
        exact ⟨_, rfl, by rw [distance, distance, if_pos rfl, if_neg (Ne.symm heq)]⟩
  | writing data pos =>
      rw [MultiRing.advance, hop]
      exact ⟨_, rfl, by simp [distance]⟩
  | publishing pos =>
      rw [MultiRing.advance, hop, ops_goTo, Function.update_self] at hidle
      exact absurd rfl hidle
  | readingStored pos =>
      rw [hop] at hfits
      have hdif := h.dif_pop hk hk' hroom hfits
      have htaken := h.ordered.lt_taken pos.toNat
      rw [MultiRing.advance, hop] at hidle ⊢
      dsimp only at hidle ⊢
      by_cases hzero : dif (s.cell pos).sequence (pos + 1) = 0
      · rw [if_pos hzero]
        exact ⟨_, rfl, by rw [distance, distance]; split <;> omega⟩
      · rw [if_neg hzero] at hidle ⊢
        by_cases hneg : dif (s.cell pos).sequence (pos + 1) < 0
        · rw [if_pos hneg, ops_goTo, Function.update_self] at hidle
          exact absurd rfl hidle
        · rw [if_neg hneg]
          have hne : pos ≠ s.tail := fun heq => by
            have hlt := htaken (by omega)
            rw [heq] at hlt
            exact absurd hlt (Nat.lt_irrefl _)
          exact ⟨_, rfl, by rw [distance, distance, if_neg hne]⟩
  | taking pos =>
      rw [MultiRing.advance, hop] at htail ⊢
      dsimp only at htail ⊢
      by_cases heq : s.tail = pos
      · rw [if_pos ⟨heq, rfl⟩] at htail
        exact absurd htail (by subst heq; exact fun h => by simp [goTo] at h)
      · rw [if_neg (fun h => heq h.1)]
        exact ⟨_, rfl, by rw [distance, distance, if_pos rfl, if_neg (Ne.symm heq)]⟩
  | copying pos =>
      rw [MultiRing.advance, hop]
      exact ⟨_, rfl, by simp [distance]⟩
  | releasing pos data =>
      rw [MultiRing.advance, hop, ops_goTo, Function.update_self] at hidle
      exact absurd rfl hidle

theorem Sound.distances_lt (h : s.Sound) (hk : 1 ≤ k) (hk' : k ≤ 64) (hroom : s.Room)
    (ht : s.ops t ≠ .idle) (hnot : ¬ s.Completes t) :
    (s.advance t false).Room ∧ (s.advance t false).distances + 1 ≤ s.distances := by
  obtain ⟨hhead, htail, op, hops, hlt⟩ := h.nearer hk hk' hroom ht hnot
  constructor
  · have hlength : (s.advance t false).accepted.length = (s.advance t false).head.toNat :=
      (h.advance hk hk' hroom t false).length
    have hlength' : s.accepted.length = s.head.toNat := h.length
    rw [Room] at hroom ⊢
    rwa [hlength, hhead, ← hlength']
  · have hmoved := tally_update (distance s.head s.tail) s.ops t op
    rw [distances, distances, hhead, htail, hops]
    omega

/-- Of so many accesses one claims a place or ends a call. -/
theorem futile_le (hk : 1 ≤ k) {steps futile : List (Step α n)}
    (hroom : (after step (new : MultiRing α k n) steps).Room)
    (hfutile : Along step Futile (after step (new : MultiRing α k n) steps) futile) :
    futile.length ≤ n * 4 := by
  obtain ⟨hsound, -⟩ := (sound_always hk hroom).last
  have hk' : k ≤ 64 := Nat.le_succ_of_le (le_of_room hroom)
  generalize after step (new : MultiRing α k n) steps = s at hroom hfutile hsound
  refine Nat.le_trans (m := s.distances) ?_ (tally_le_mul (distance_le _ _))
  induction futile generalizing s with
  | nil => exact Nat.zero_le _
  | cons i futile ih =>
      obtain ⟨⟨t, rfl, ht, hnot⟩, hrest⟩ := hfutile
      obtain ⟨hroom', hlt⟩ := hsound.distances_lt hk hk' hroom ht hnot
      have hle := ih _ hroom' hrest (hsound.advance hk hk' hroom t false)
      exact Nat.le_trans (Nat.succ_le_succ hle) hlt

/-- A `push` begins. -/
def begun (t u : Fin n) : List (Step Nat n) := shared t u ++ [.push t 8]

theorem futile_begun :
    Along step Futile (after step (new : MultiRing Nat 1 2) (begun 0 1)) [.advance 0 false] ∧
      1 ≤ 2 * 4 :=
  have hfutile : Along step Futile (after step (new : MultiRing Nat 1 2) (begun 0 1))
      [.advance 0 false] := ⟨⟨0, rfl, by decide, by decide⟩, trivial⟩
  ⟨hfutile, futile_le (by decide) (by decide) hfutile⟩

/-! A thread that is left alone. -/

/-- A call, and five accesses of the thread. -/
def alone (t : Fin n) (call : Step α n) (s : MultiRing α k n) : MultiRing α k n :=
  after step (s.step call) (List.replicate 5 (.advance t false))

/-- What has been claimed for by a `push` and not by a `pop`. -/
def queue (s : MultiRing α k n) : List α := s.accepted.drop s.tail.toNat

theorem goTo_goTo (op op' : MultiOp α) : (s.goTo t op).goTo t op' = s.goTo t op' := by
  rw [goTo, goTo, goTo, MultiRing.mk.injEq]
  exact ⟨rfl, rfl, rfl, Function.update_idem _ _ _, rfl, rfl⟩

theorem goTo_idle (ht : s.ops t = .idle) : s.goTo t .idle = s := by
  rw [goTo, ← ht, Function.update_eq_self]

theorem alone_eq (call : Step α n) : s.alone t call =
    ((((((s.step call).advance t false).advance t false).advance t false).advance t false).advance t
      false) := rfl

theorem advance_idle (ht : s.ops t = .idle) : s.advance t false = s := by
  rw [advance, ht]

theorem ops_self (op : MultiOp α) : (s.goTo t op).ops t = op := by
  rw [ops_goTo, Function.update_self]

theorem cell_setCell_self (pos : UInt64) (cell : MultiCell α) :
    (s.setCell pos cell).cell pos = cell := by
  rw [MultiRing.cell, cells_setCell, Function.update_self]

theorem setCell_setCell (pos : UInt64) (cell cell' : MultiCell α) :
    (s.setCell pos cell).setCell pos cell' = s.setCell pos cell' := by
  rw [setCell, setCell, setCell, MultiRing.mk.injEq]
  exact ⟨Function.update_idem _ _ _, rfl, rfl, rfl, rfl, rfl⟩

/-- What a `push` that is not refused does. -/
def pushed (data : α) (s : MultiRing α k n) : MultiRing α k n :=
  setCell s.head ⟨s.head + 1, some data⟩
    { s with head := s.head + 1, accepted := s.accepted ++ [data] }

/-- What a `pop` that is not refused does. -/
def taken (t : Fin n) (s : MultiRing α k n) : MultiRing α k n :=
  setCell s.tail ⟨s.tail + mask k + 1, (s.cell s.tail).data⟩
    { s with
      tail := s.tail + 1
      popped := s.popped ++ [⟨t, s.tail.toNat, (s.cell s.tail).data⟩] }

theorem alone_push_refused (ht : s.ops t = .idle) (data : α)
    (hdif : dif (s.cell s.head).sequence s.head < 0) : s.alone t (.push t data) = s := by
  have hcall : s.step (.push t data) = s.goTo t (.loadingHead data) := by
    rw [step, ht]
  have hload : (s.goTo t (.loadingHead data)).advance t false =
      s.goTo t (.readingFree data s.head) := by
    rw [advance, ops_self]
    exact goTo_goTo _ _
  have hread : (s.goTo t (.readingFree data s.head)).advance t false = s := by
    rw [advance, ops_self]
    dsimp only
    rw [show (s.goTo t (.readingFree data s.head)).cell s.head = s.cell s.head from rfl,
      if_neg (by omega), if_pos hdif, goTo_goTo, goTo_idle ht]
  rw [alone_eq, hcall, hload, hread, advance_idle ht, advance_idle ht, advance_idle ht]

theorem alone_push (ht : s.ops t = .idle) (data : α)
    (hdif : dif (s.cell s.head).sequence s.head = 0) :
    s.alone t (.push t data) = s.pushed data := by
  have hcall : s.step (.push t data) = s.goTo t (.loadingHead data) := by
    rw [step, ht]
  have hload : (s.goTo t (.loadingHead data)).advance t false =
      s.goTo t (.readingFree data s.head) := by
    rw [advance, ops_self]
    exact goTo_goTo _ _
  have hread : (s.goTo t (.readingFree data s.head)).advance t false =
      s.goTo t (.claiming data s.head) := by
    rw [advance, ops_self]
    dsimp only
    rw [show (s.goTo t (.readingFree data s.head)).cell s.head = s.cell s.head from rfl,
      if_pos hdif, goTo_goTo]
  let s₁ : MultiRing α k n := { s with head := s.head + 1, accepted := s.accepted ++ [data] }
  have hclaim : (s.goTo t (.claiming data s.head)).advance t false =
      s₁.goTo t (.writing data s.head) := by
    rw [advance, ops_self]
    dsimp only
    rw [if_pos ⟨rfl, rfl⟩]
    exact goTo_goTo (s := s₁) _ _
  let s₂ : MultiRing α k n := s₁.setCell s.head { s₁.cell s.head with data := some data }
  have hwrite : (s₁.goTo t (.writing data s.head)).advance t false =
      s₂.goTo t (.publishing s.head) := by
    rw [advance, ops_self]
    exact goTo_goTo (s := s₂) _ _
  have hset : s₂.setCell s.head { s₂.cell s.head with sequence := s.head + 1 } = s.pushed data := by
    rw [cell_setCell_self]
    exact setCell_setCell _ _ _
  have hpublish : (s₂.goTo t (.publishing s.head)).advance t false = s.pushed data := by
    rw [advance, ops_self]
    refine (goTo_goTo (s := s₂.setCell s.head { s₂.cell s.head with sequence := s.head + 1 })
      _ _).trans ?_
    rw [hset]
    exact goTo_idle ht
  rw [alone_eq, hcall, hload, hread, hclaim, hwrite, hpublish]

theorem alone_pop_refused (ht : s.ops t = .idle)
    (hdif : dif (s.cell s.tail).sequence (s.tail + 1) < 0) : s.alone t (.pop t) = s := by
  have hcall : s.step (.pop t) = s.goTo t .loadingTail := by
    rw [step, ht]
  have hload : (s.goTo t .loadingTail).advance t false = s.goTo t (.readingStored s.tail) := by
    rw [advance, ops_self]
    exact goTo_goTo _ _
  have hread : (s.goTo t (.readingStored s.tail)).advance t false = s := by
    rw [advance, ops_self]
    dsimp only
    rw [show (s.goTo t (.readingStored s.tail)).cell s.tail = s.cell s.tail from rfl,
      if_neg (by omega), if_pos hdif, goTo_goTo, goTo_idle ht]
  rw [alone_eq, hcall, hload, hread, advance_idle ht, advance_idle ht, advance_idle ht]

theorem alone_pop (ht : s.ops t = .idle)
    (hdif : dif (s.cell s.tail).sequence (s.tail + 1) = 0) :
    s.alone t (.pop t) = s.taken t := by
  have hcall : s.step (.pop t) = s.goTo t .loadingTail := by
    rw [step, ht]
  have hload : (s.goTo t .loadingTail).advance t false = s.goTo t (.readingStored s.tail) := by
    rw [advance, ops_self]
    exact goTo_goTo _ _
  have hread : (s.goTo t (.readingStored s.tail)).advance t false =
      s.goTo t (.taking s.tail) := by
    rw [advance, ops_self]
    dsimp only
    rw [show (s.goTo t (.readingStored s.tail)).cell s.tail = s.cell s.tail from rfl,
      if_pos hdif, goTo_goTo]
  let s₁ : MultiRing α k n := { s with tail := s.tail + 1 }
  have htake : (s.goTo t (.taking s.tail)).advance t false = s₁.goTo t (.copying s.tail) := by
    rw [advance, ops_self]
    dsimp only
    rw [if_pos ⟨rfl, rfl⟩]
    exact goTo_goTo (s := s₁) _ _
  have hcopy : (s₁.goTo t (.copying s.tail)).advance t false =
      s₁.goTo t (.releasing s.tail (s.cell s.tail).data) := by
    rw [advance, ops_self]
    exact goTo_goTo (s := s₁) _ _
  have hrelease : (s₁.goTo t (.releasing s.tail (s.cell s.tail).data)).advance t false =
      s.taken t := by
    rw [advance, ops_self]
    refine (goTo_goTo (s := s.taken t) _ _).trans (goTo_idle ?_)
    exact ht
  rw [alone_eq, hcall, hload, hread, htake, hcopy, hrelease]

/-- What the calls of a thread in no call come to when it is left alone. -/
structure Alone (s : MultiRing α k n) (t : Fin n) : Prop where
  bounded : s.queue.length ≤ 2 ^ k
  push_refused : ∀ data, s.NoRoom → s.alone t (.push t data) = s
  push : ∀ data, ¬ s.NoRoom →
    (s.alone t (.push t data)).queue = s.queue ++ [data] ∧
      (s.alone t (.push t data)).popped = s.popped ∧ (s.alone t (.push t data)).ops = s.ops
  pop_refused : s.NoElement → s.alone t (.pop t) = s
  pop : ¬ s.NoElement → ∃ a, s.queue = a :: (s.alone t (.pop t)).queue ∧
    (s.alone t (.pop t)).popped = s.popped ++ [⟨t, s.tail.toNat, some a⟩] ∧
      (s.alone t (.pop t)).ops = s.ops
  /-- Nobody is in the way when the others are in no call. -/
  quiet : (∀ u, s.ops u = .idle) →
    (s.NoRoom ↔ s.queue.length = 2 ^ k) ∧ (s.NoElement ↔ s.queue = [])

theorem Sound.length_queue (h : s.Sound) : s.queue.length = s.head.toNat - s.tail.toNat := by
  have hlength : s.accepted.length = s.head.toNat := h.length
  rw [queue, List.length_drop, hlength]

theorem Sound.alone (h : s.Sound) (hk : 1 ≤ k) (hk' : k ≤ 64) (hroom : s.Room)
    (ht : s.ops t = .idle) : s.Alone t := by
  have htail : s.tail.toNat ≤ s.head.toNat := h.ordered.tail_le
  have hhead : s.head.toNat ≤ s.tail.toNat + 2 ^ k := h.ordered.head_le (two_le hk)
  have hlength : s.accepted.length = s.head.toNat := h.length
  have hlt := h.head_lt hroom
  have hpush := h.dif_push hk hk' hroom (Nat.le_refl s.head.toNat)
  have hpop := h.dif_pop hk hk' hroom (Nat.le_refl s.tail.toNat)
  have hclaimed : s.head.toNat < s.turns.turn s.head.toNat → s.head.toNat < s.head.toNat :=
    h.ordered.lt_claimed s.head.toNat
  have htaken : s.tail.toNat + 1 < s.turns.turn s.tail.toNat → s.tail.toNat < s.tail.toNat :=
    h.ordered.lt_taken s.tail.toNat
  refine ⟨by rw [h.length_queue]; omega, fun data hfull => ?_, fun data hfree => ?_,
    fun hempty => ?_, fun hsome => ?_, fun hidle => ⟨?_, ?_⟩⟩
  · have hturn := (h.noRoom_iff hk).mpr hfull
    exact alone_push_refused ht data (by omega)
  · have hturn := mt (h.noRoom_iff hk).mp hfree
    rw [alone_push ht data (by omega)]
    refine ⟨?_, rfl, rfl⟩
    show (s.accepted ++ [data]).drop s.tail.toNat = _
    exact List.drop_append_of_le_length (by omega)
  · have hturn := h.noElement_iff.mpr hempty
    exact alone_pop_refused ht (by omega)
  · have hturn := mt h.noElement_iff.mp hsome
    have hlt' : s.tail.toNat < s.head.toNat := by
      by_contra hnot
      exact hsome (.inl (by omega))
    have hstored : s.turns.stage s.tail.toNat = .stored :=
      Turns.stage_eq_stored.mpr ⟨hlt', by omega, Nat.le_refl _⟩
    obtain ⟨a, ha, hdata⟩ := h.filled _ (.inl hstored)
    rw [← index_eq hk'] at hdata
    rw [alone_pop ht (by omega)]
    refine ⟨a, ?_, ?_, rfl⟩
    · obtain ⟨hlt'', rfl⟩ := List.getElem?_eq_some_iff.mp ha
      have hroom' : s.tail.toNat < 2 ^ 63 := by omega
      rw [queue, List.drop_eq_getElem_cons hlt'', queue, ← toNat_succ hroom']
      rfl
    · exact congrArg (fun data => s.popped ++ [⟨t, s.tail.toNat, data⟩]) hdata
  · have hnone : ¬ ∃ u, (s.ops u).reads = some (s.head.toNat - 2 ^ k) := by
      intro hreads
      obtain ⟨u, hu⟩ := hreads
      rw [hidle u] at hu
      cases hu
    rw [NoRoom, h.length_queue]
    constructor
    · intro hfull
      rcases hfull with hfull | hfull
      · omega
      · exact absurd hfull.2 hnone
    · intro hfull
      exact .inl (by omega)
  · have hnone : ¬ ∃ u, (s.ops u).writes = some s.tail.toNat := by
      intro hwrites
      obtain ⟨u, hu⟩ := hwrites
      rw [hidle u] at hu
      cases hu
    rw [NoElement, ← List.length_eq_zero_iff, h.length_queue]
    constructor
    · intro hempty
      rcases hempty with hempty | hempty
      · omega
      · exact absurd hempty hnone
    · intro hempty
      exact .inl (by omega)

/-- In every state of every run. -/
theorem alone_always (hk : 1 ≤ k) {steps : List (Step α n)}
    (hroom : (after step (new : MultiRing α k n) steps).Room) :
    Always step (fun s => ∀ t, s.ops t = .idle → s.Alone t) (new : MultiRing α k n) steps :=
  (sound_always hk hroom).mono fun _ h _ ht =>
    h.1.alone hk (Nat.le_succ_of_le (le_of_room h.2)) h.2 ht

theorem alone_shared : (after step (new : MultiRing Nat 1 2) (shared 0 1)).Room ∧
    Always step (fun s => ∀ t, s.ops t = .idle → s.Alone t) (new : MultiRing Nat 1 2)
      (shared 0 1) :=
  ⟨by decide, alone_always (by decide) (by decide)⟩

end MultiRing

end Fastpath
