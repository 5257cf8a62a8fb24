import Mathlib.Algebra.Order.Ring.Nat
import Fastpath.Model.Socket

/-!
# What a block is sent as

A block is sent as it is when every byte is taken once and in order, and when
nothing beside it is ever offered. A system call that takes the whole block does
that. After one that takes less, the next is offered what lies behind the block,
as much of it as was left.
-/

namespace Fastpath.Socket

/-- Each system call answers `-1` or takes no more than it was offered. -/
def Honest : Nat → List (Option Nat) → Prop
  | _, [] => True
  | length, some result :: results => result ≤ length ∧ Honest (length - result) results
  | _, none :: _ => True

/-- The bytes of the block, once each and in order, and never another one. -/
structure Exact (run : Sending) (length : Nat) : Prop where
  taken : run.answer = some true → run.calls.flatMap SystemCall.taken = List.range length
  shown : ∀ call ∈ run.calls, ∀ position ∈ call.shown, position < length

/-- The first system call takes some of the block, and not all of it. -/
def Short (s : Socket) (length : Nat) (results : List (Option Nat)) : Prop :=
  s.connected = true ∧ ∃ result, results.head? = some (some result) ∧ result ≠ length

variable {s : Socket} {closes : Bool} {length : Nat} {results : List (Option Nat)}

/-- The first system call of a connected socket is made where the block begins. -/
theorem head_calls (hconnected : s.connected = true) (closes : Bool) (offset length : Nat)
    (results : List (Option Nat)) :
    ∃ call ∈ (send closes offset length results s).calls,
      call.offset = offset ∧ call.offered = length := by
  rw [send.eq_def, if_pos hconnected]
  split
  · exact ⟨_, List.mem_cons_self, rfl, rfl⟩
  · split
    · exact ⟨_, List.mem_cons_self, rfl, rfl⟩
    · exact ⟨_, List.mem_cons_self, rfl, rfl⟩
  · exact ⟨_, List.mem_cons_self, rfl, rfl⟩

theorem exact_of_not_short (h : ¬ Short s length results) :
    Exact (send closes 0 length results s) length := by
  have hshown (accepted : Nat) (answer : Option Bool) (socket : Socket)
      (htaken : answer = some true → accepted = length) :
      Exact ⟨answer, [⟨0, length, accepted⟩], socket⟩ length := by
    refine ⟨fun hanswer => ?_, fun call hcall position hposition => ?_⟩
    · rw [List.flatMap_singleton, SystemCall.taken, htaken hanswer, List.range_eq_range']
    · rw [List.mem_singleton.mp hcall, SystemCall.shown, List.mem_range'_1] at hposition
      simpa using hposition
  rw [send.eq_def]
  split
  · next hconnected =>
      split
      · exact hshown 0 none s fun hnone => (by cases hnone)
      · next result rest =>
          split
          · next hwhole => exact hshown result (some true) s fun _ => hwhole
          · next hshort => exact absurd ⟨hconnected, result, rfl, hshort⟩ h
      · exact hshown 0 (some false) _ fun hfalse => (by cases hfalse)
  · exact ⟨fun hfalse => (by cases hfalse), fun _ hcall => (by cases hcall)⟩

/-- What the second system call is offered lies behind the block. -/
theorem not_exact_of_short (hhonest : Honest length results) (h : Short s length results) :
    ¬ Exact (send closes 0 length results s) length := by
  obtain ⟨hconnected, result, hhead, hshort⟩ := h
  obtain ⟨rest, rfl⟩ : ∃ rest, results = some result :: rest :=
    ⟨results.tail, List.eq_cons_of_mem_head? hhead⟩
  obtain ⟨call, hcall, hoffset, hoffered⟩ :=
    head_calls hconnected closes (0 + length) (length - result) rest
  have hsome : result < length := Nat.lt_of_le_of_ne hhonest.1 hshort
  intro hexact
  have hmem : call ∈ (send closes 0 length (some result :: rest) s).calls := by
    rw [send, if_pos hconnected]
    dsimp only
    rw [if_neg hshort]
    exact List.mem_cons_of_mem _ hcall
  have hlt := hexact.shown call hmem length (by
    rw [SystemCall.shown, List.mem_range'_1]
    omega)
  omega

/-- A block is sent as it is, or not at all, if and only if the first system call does not take
a part of it. -/
theorem exact_iff_not_short (closes : Bool) (s : Socket) (hhonest : Honest length results) :
    Exact (send closes 0 length results s) length ↔ ¬ Short s length results :=
  ⟨fun hexact hshort => not_exact_of_short hhonest hshort hexact, exact_of_not_short⟩

theorem exact_whole :
    Honest 3 [some 3] ∧
      (Exact (send true 0 3 [some 3] ⟨true, false, []⟩) 3 ↔ ¬ Short ⟨true, false, []⟩ 3 [some 3]) :=
  ⟨⟨Nat.le_refl 3, trivial⟩, exact_iff_not_short true _ ⟨Nat.le_refl 3, trivial⟩⟩

/-- Of two bytes the first is taken; the one behind the block follows it, and `true` is the
answer. -/
theorem short_not_exact :
    Honest 2 [some 1, some 1] ∧
      (send true 0 2 [some 1, some 1] ⟨true, false, []⟩).answer = some true ∧
      (send true 0 2 [some 1, some 1] ⟨true, false, []⟩).calls.flatMap SystemCall.taken = [0, 2] ∧
      ¬ Exact (send true 0 2 [some 1, some 1] ⟨true, false, []⟩) 2 := by
  refine ⟨⟨by decide, by decide, trivial⟩, rfl, rfl, fun hexact => ?_⟩
  have htaken := hexact.taken rfl
  revert htaken
  decide

/-! ## Vectors -/

/-- How many bytes there are in all the vectors. -/
def total (vecs : List IoVec) : Nat := (vecs.map IoVec.length).sum

theorem total_cons (vec : IoVec) (vecs : List IoVec) :
    total (vec :: vecs) = vec.length + total vecs := by
  rw [total, List.map_cons, List.sum_cons, total]

/-- What is left and what was taken are all there was. -/
theorem consume_ok (vecs : List IoVec) (bytes : Nat) (h : bytes ≤ total vecs) :
    ∃ left, consume vecs bytes = .ok left ∧ total left + bytes = total vecs := by
  induction vecs generalizing bytes with
  | nil =>
      rw [Nat.le_zero.mp h]
      exact ⟨[], rfl, rfl⟩
  | cons vec vecs ih =>
      cases bytes with
      | zero => exact ⟨vec :: vecs, rfl, rfl⟩
      | succ bytes =>
          rw [total_cons] at h
          rw [consume]
          split
          · next hwhole =>
              obtain ⟨left, hleft, hsum⟩ := ih (bytes + 1 - vec.length) (by omega)
              refine ⟨left, hleft, ?_⟩
              rw [total_cons]
              omega
          · next hpart =>
              refine ⟨_, rfl, ?_⟩
              rw [total_cons, total_cons]
              dsimp only
              omega

/-- Every byte is accounted for: no vector behind the last is looked at, `true` is answered only
when all the vectors were taken whole, and an error disconnects. -/
structure Accounts (closes : Bool) (vecs : List IoVec) (result : Int64) (s : Socket) : Prop where
  inside : ∃ answer s', sendVectors closes vecs result s = .ok (answer, s')
  whole : ∀ s', sendVectors closes vecs result s = .ok (true, s') → result.toInt = total vecs
  failed : result = -1 → sendVectors closes vecs result s = .ok (false, (s.disconnect closes).2)

theorem accounts_of_refused {vecs : List IoVec} {result : Int64}
    (h : sendVectors closes vecs result s = .ok (false, (s.disconnect closes).2)) :
    Accounts closes vecs result s where
  inside := ⟨_, _, h⟩
  whole s' htrue := by
    rw [h] at htrue
    cases htrue
  failed _ := h

/-- After an error the answer is not `false`, if there is one. -/
theorem not_accounts_failed {vecs : List IoVec} (hconnected : s.connected = true) :
    ¬ Accounts closes vecs (-1) s := by
  intro h
  have hfailed := h.failed rfl
  rw [sendVectors, if_pos hconnected, if_pos (by decide)] at hfailed
  split at hfailed
  · cases hfailed
  · cases hfailed

theorem sendVectors_taken {vecs : List IoVec} {result : Int64} (hconnected : s.connected = true)
    (hresult : result ≠ 0) (hlow : 0 ≤ result.toInt) (hhigh : result.toInt ≤ total vecs) :
    sendVectors closes vecs result s = .ok (true, s) := by
  have hbytes : result.toUInt64.toNat = result.toInt.toNat := by
    rw [Int64.toNat_toUInt64_of_le (Int64.le_iff_toInt_le.mpr hlow), Int64.toNat_toInt]
  obtain ⟨left, hleft, -⟩ := consume_ok vecs result.toUInt64.toNat (by omega)
  rw [sendVectors, if_pos hconnected, if_pos hresult, hleft]

/-- `send` accounts for every byte exactly if `writev` is not called, or takes nothing, or takes
everything. -/
theorem accounts_iff {vecs : List IoVec} {result : Int64}
    (hresult : result = -1 ∨ 0 ≤ result.toInt ∧ result.toInt ≤ total vecs) :
    Accounts closes vecs result s ↔
      (s.connected = true → result = 0 ∨ result.toInt = total vecs) := by
  by_cases hconnected : s.connected = true
  · by_cases hzero : result = 0
    · refine iff_of_true (accounts_of_refused ?_) fun _ => .inl hzero
      rw [sendVectors, if_pos hconnected, if_neg (not_not.mpr hzero)]
    · rcases hresult with rfl | ⟨hlow, hhigh⟩
      · refine iff_of_false (not_accounts_failed hconnected) fun h => ?_
        have htotal := (h hconnected).resolve_left hzero
        have hneg : (-1 : Int64).toInt = -1 := by decide
        omega
      · have hrun : sendVectors closes vecs result s = .ok (true, s) :=
          sendVectors_taken hconnected hzero hlow hhigh
        refine ⟨fun h _ => .inr (h.whole s hrun), fun h => ⟨⟨_, _, hrun⟩, fun _ _ => ?_, ?_⟩⟩
        · exact (h hconnected).resolve_left hzero
        · rintro rfl
          exact absurd hlow (by decide)
  · refine iff_of_true (accounts_of_refused ?_) fun h => absurd h hconnected
    rw [sendVectors, if_neg hconnected]

/-- Three bytes in two vectors, all of them taken. -/
theorem accounts_taken :
    Accounts true [⟨1000, 1⟩, ⟨2000, 2⟩] 3 ⟨true, true, []⟩ :=
  (accounts_iff (.inr (by decide))).mpr fun _ => .inr (by decide)

/-- Two bytes of the three are taken and `true` is answered; after an error the loop runs off the
end of the array. -/
theorem partial_not_accounts :
    sendVectors true [⟨1000, 1⟩, ⟨2000, 2⟩] 2 ⟨true, true, []⟩ = .ok (true, ⟨true, true, []⟩) ∧
      sendVectors true [⟨1000, 1⟩, ⟨2000, 2⟩] (-1) ⟨true, true, []⟩ = .error .outOfBounds ∧
      ¬ Accounts true [⟨1000, 1⟩, ⟨2000, 2⟩] 2 ⟨true, true, []⟩ ∧
      ¬ Accounts true [⟨1000, 1⟩, ⟨2000, 2⟩] (-1) ⟨true, true, []⟩ := by
  refine ⟨by rfl, by rfl, fun h => ?_, not_accounts_failed rfl⟩
  exact absurd (h.whole _ rfl) (by decide)

end Fastpath.Socket
