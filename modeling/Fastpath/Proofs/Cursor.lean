import Fastpath.Model.Codec

/-!
# Reading, in terms of what is left

Every reader looks at the bytes between the cursor and the end, so every fact
about one is a fact about `rest`. A read inside it answers what stands there
and the cursor moves on; the position itself never matters. `read_le` is the
form the decoders use: in front of the image of a scalar, `readScalar` answers
the scalar.
-/

namespace Fastpath.ByteStorage

open Fastpath.Lib

@[simp] theorem rest_ofBytes (l : Bytes) : (ofBytes l).rest = l := rfl

@[simp] theorem rest_advanceRead (s : ByteStorage) (n : Nat) :
    (s.advanceRead n).rest = s.rest.drop n := by
  simp only [rest, advanceRead, List.drop_drop]

@[simp] theorem advanceRead_advanceRead (s : ByteStorage) (a b : Nat) :
    (s.advanceRead a).advanceRead b = s.advanceRead (a + b) := by
  simp only [advanceRead, Nat.add_assoc]

theorem rest_advanceRead_append {s : ByteStorage} {p t : Bytes} (h : s.rest = p ++ t) :
    (s.advanceRead p.length).rest = t := by
  rw [rest_advanceRead, h, List.drop_left]

theorem length_rest (s : ByteStorage) : s.rest.length = s.bytes.length - s.read := by
  rw [rest, List.length_drop]

theorem remaining_eq {s : ByteStorage} (h : s.read ≤ s.bytes.length) :
    s.remainingReadLength = s.rest.length := by
  rw [remainingReadLength, if_pos h, length_rest]

/-- Out of range the difference has wrapped, so it is never an underestimate. -/
theorem le_remaining {s : ByteStorage} {n : Nat} (h : n ≤ s.rest.length) :
    n ≤ s.remainingReadLength := by
  rw [length_rest] at h
  rw [remainingReadLength]
  split <;> omega

theorem peekBytes_ok {s : ByteStorage} {offset n : Nat} (h : offset + n ≤ s.rest.length) :
    (peekBytes offset n).run s = (.ok ((s.rest.drop offset).take n), s) := by
  rw [length_rest] at h
  simp only [peekBytes]
  rw [if_pos (by omega)]

theorem peekScalar_ok {s : ByteStorage} {offset w : Nat} (h : offset + w ≤ s.rest.length) :
    (peekScalar offset w).run s = (.ok (leNat ((s.rest.drop offset).take w)), s) := by
  rw [peekScalar, Exec.bind_ok (peekBytes_ok h), Exec.pure_run]

theorem readScalar_ok {s : ByteStorage} {w : Nat} (h : w ≤ s.rest.length) :
    (readScalar w).run s = (.ok (leNat (s.rest.take w)), s.advanceRead w) := by
  rw [readScalar, Exec.bind_ok (peekScalar_ok (by omega)), List.drop_zero,
    Exec.bind_ok (Exec.modify_run _ _), Exec.pure_run]

theorem readScalar_behind {s : ByteStorage} {n w : Nat} (h : n + w ≤ s.rest.length) :
    (readScalar w).run (s.advanceRead n) =
      (.ok (leNat ((s.rest.drop n).take w)), s.advanceRead (n + w)) := by
  rw [readScalar_ok (by rw [rest_advanceRead, List.length_drop]; omega), rest_advanceRead,
    advanceRead_advanceRead]

theorem peekBytes_append {s : ByteStorage} {p a t : Bytes} (h : s.rest = p ++ (a ++ t)) :
    (peekBytes p.length a.length).run s = (.ok a, s) := by
  rw [peekBytes_ok (by rw [h]; simp only [List.length_append]; omega), h,
    List.drop_left, List.take_left]

theorem peekScalar_le {s : ByteStorage} {p t : Bytes} {offset w v : Nat}
    (h : s.rest = p ++ (leBytes w v ++ t)) (hp : p.length = offset) :
    (peekScalar offset w).run s = (.ok (v % 256 ^ w), s) := by
  have hb := peekBytes_append h
  rw [leBytes_length, hp] at hb
  rw [peekScalar, Exec.bind_ok hb, leNat_leBytes, Exec.pure_run]

/-- In front of the image of a scalar, `readScalar` answers the scalar. -/
theorem read_le {s : ByteStorage} {t : Bytes} {w v : Nat} (h : s.rest = leBytes w v ++ t) :
    (readScalar w).run s = (.ok (v % 256 ^ w), s.advanceRead w) := by
  have hpeek : (peekScalar 0 w).run s = (.ok (v % 256 ^ w), s) :=
    peekScalar_le (p := []) h rfl
  rw [readScalar, Exec.bind_ok hpeek, Exec.bind_ok (Exec.modify_run _ _), Exec.pure_run]

theorem rest_after_le {s : ByteStorage} {t : Bytes} {w v : Nat}
    (h : s.rest = leBytes w v ++ t) : (s.advanceRead w).rest = t := by
  rw [rest_advanceRead, h, List.drop_left' (leBytes_length w v)]

/-- Copying from a kept pointer reads what the cursor would have read there. -/
theorem copyFrom_append {s : ByteStorage} {k : Nat} {a t : Bytes}
    (h : s.rest.drop k = a ++ t) (d : Nat) :
    (copyFrom (s.read + k) a.length).run (s.advanceRead d) =
      (.ok a, s.advanceRead d) := by
  have hrest : ({ s.advanceRead d with read := s.read + k } : ByteStorage).rest = a ++ t := by
    rw [← h]
    exact rest_advanceRead s k
  have hpeek := peekBytes_append (p := []) hrest
  rw [List.length_nil] at hpeek
  simp only [copyFrom, hpeek]

/-! ## What an answer was read from -/

theorem of_peekBytes_ok {offset n : Nat} {b b' : ByteStorage} {data : Bytes}
    (h : (peekBytes offset n).run b = (.ok data, b')) :
    data = (b.rest.drop offset).take n ∧ data.length = n ∧ b' = b := by
  rw [peekBytes] at h
  dsimp only at h
  split at h
  · cases h
    refine ⟨rfl, ?_, rfl⟩
    rw [List.length_take, List.length_drop, length_rest]
    omega
  · cases h

theorem of_peekScalar_ok {offset w n : Nat} {b b' : ByteStorage}
    (h : (peekScalar offset w).run b = (.ok n, b')) :
    n = leNat ((b.rest.drop offset).take w) ∧ b' = b := by
  obtain ⟨raw, b₁, hraw, h⟩ := Exec.of_bind_ok h
  cases h
  obtain ⟨rfl, -, rfl⟩ := of_peekBytes_ok hraw
  exact ⟨rfl, rfl⟩

theorem of_readScalar_ok {w n : Nat} {b b' : ByteStorage}
    (h : (readScalar w).run b = (.ok n, b')) :
    n = leNat (b.rest.take w) ∧ b' = b.advanceRead w := by
  obtain ⟨value, b₁, hpeek, h⟩ := Exec.of_bind_ok h
  rw [Exec.bind_ok (Exec.modify_run _ _)] at h
  cases h
  obtain ⟨rfl, rfl⟩ := of_peekScalar_ok hpeek
  exact ⟨rfl, rfl⟩

end Fastpath.ByteStorage
