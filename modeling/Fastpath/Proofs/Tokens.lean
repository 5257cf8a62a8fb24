import Fastpath.Model.Tokens
import Fastpath.Proofs.Subscriptions

/-!
# The two tokenisers agree

Each of the two loops is followed in terms of what lies behind its position. For
`split` this is the rest of the string from `start` on, and a round takes its
first piece off. For `hash_elements` it is the piece between the two pointers
and the rest behind the second, and a round moves one character over.

Both come to the list of pieces between the dots, and a piece has the same hash
by its length as by its terminator, since no piece has a NUL in it.
-/

namespace Fastpath.Tokens

open Fastpath.Lib

variable {subject memory piece rest t : Bytes} {start i len : UInt64} {startPtr fuel : Nat}
  {out : List Bytes} {hashes : List UInt64}

/-! ## The two overloads -/

theorem hashCString_eq (h : (0 : UInt8) ∉ piece) (result : UInt64) :
    hashCString result (piece ++ [0]) = .ok (piece.foldl stringHash.step result) := by
  induction piece generalizing result with
  | nil => rfl
  | cons c piece ih =>
      have hc : c ≠ 0 := fun hzero => h (by rw [hzero]; exact List.mem_cons_self)
      rw [List.cons_append, hashCString, if_pos hc, List.foldl_cons]
      exact ih (fun hmem => h (List.mem_cons_of_mem _ hmem)) _

theorem hashLength_eq (piece memory : Bytes) (result : UInt64) :
    hashLength result piece.length (piece ++ memory) =
      .ok (piece.foldl stringHash.step result) := by
  induction piece generalizing result with
  | nil => rw [List.length_nil, hashLength]; rfl
  | cons c piece ih => exact ih _

theorem strlen_eq (h : (0 : UInt8) ∉ subject) :
    strlen (subject ++ [0]) = .ok (UInt64.ofNat subject.length) := by
  induction subject with
  | nil => rfl
  | cons c subject ih =>
      have hc : c ≠ 0 := fun hzero => h (by rw [hzero]; exact List.mem_cons_self)
      rw [List.cons_append, strlen, if_pos hc, ih fun hmem => h (List.mem_cons_of_mem _ hmem),
        List.length_cons, UInt64.ofNat_add]
      rfl

/-- What is between two pointers is hashed as a whole. -/
theorem hashTo_eq (h : At memory startPtr (piece ++ rest)) (hfits : piece.length < 2 ^ 63) :
    hashTo memory startPtr (startPtr + piece.length) = .ok (stringHash.hash piece) := by
  have hl : (UInt64.ofInt ((startPtr + piece.length : Nat) - startPtr : Int)).toNat =
      piece.length := by
    rw [UInt64.ofInt, UInt64.toNat_ofNat']
    omega
  rw [hashTo, hl, h.rest]
  exact hashLength_eq piece rest 0

/-! ## `hash_elements` -/

theorem elementsLoop_eq (h : At memory startPtr (piece ++ (rest ++ [0])))
    (hi : i.toNat = startPtr + piece.length) (hlen : len.toNat = i.toNat + rest.length)
    (hfits : len.toNat < 2 ^ 63) (hfuel : rest.length < fuel) :
    elementsLoop memory len fuel i startPtr hashes =
      .ok (Subject.hashElementsFrom stringHash piece hashes rest) := by
  induction rest generalizing piece i startPtr fuel hashes with
  | nil =>
      cases fuel with
      | zero => cases hfuel
      | succ fuel =>
          rw [List.length_nil, Nat.add_zero] at hlen
          have hlast : ¬ i < len := by
            rw [UInt64.lt_iff_toNat_lt]
            omega
          rw [elementsLoop, if_neg hlast, hlen, hi, hashTo_eq h (by omega)]
          rfl
  | cons c rest ih =>
      cases fuel with
      | zero => cases hfuel
      | succ fuel =>
          rw [List.length_cons] at hlen hfuel
          have hmore : i < len := by
            rw [UInt64.lt_iff_toNat_lt]
            omega
          have hnext : (i + 1).toNat = i.toNat + 1 := by
            rw [UInt64.toNat_add]
            exact Nat.mod_eq_of_lt (by show i.toNat + 1 < 2 ^ 64; omega)
          have hat : At memory i.toNat (c :: (rest ++ [0])) := by
            rw [hi]
            exact h.skip
          have hc : memory[i.toNat]? = some c := by
            rw [← List.head?_drop, hat.rest, List.head?_cons]
          rw [elementsLoop, if_pos hmore, hc, Subject.hashElementsFrom]
          dsimp only
          split
          · -- the piece ends here, and the next one is empty so far
            have hhash : hashTo memory startPtr i.toNat = .ok (stringHash.hash piece) := by
              rw [hi]
              exact hashTo_eq h (by omega)
            have hempty : At memory (i.toNat + 1) ([] ++ (rest ++ [0])) := hat.tail
            rw [hhash]
            exact ih hempty hnext (by omega) (by omega)
          · refine ih (by simpa using h) ?_ (by omega) (by omega)
            rw [hnext, hi, List.length_append]
            rfl

/-- `hash_elements` hashes the pieces between the dots. -/
theorem hashElements_eq (s : Text) :
    hashElements s.terminated = .ok (Subject.hashElements stringHash s.toCString) := by
  have hlen : (UInt64.ofNat s.bytes.length).toNat = s.bytes.length :=
    UInt64.toNat_ofNat_of_lt' (by have := s.fits; show _ < 2 ^ 64; omega)
  rw [hashElements, CString.terminated, strlen_eq s.noNul]
  have hat : At (s.bytes ++ [0]) 0 ([] ++ (s.bytes ++ [0])) := At.append [] _
  refine elementsLoop_eq hat rfl ?_ ?_ ?_
  · rw [hlen]
    exact (Nat.zero_add _).symm
  · rw [hlen]
    exact s.fits
  · rw [hlen]
    exact Nat.lt_succ_self _

/-! ## `split` -/

theorem npos_toNat : npos.toNat = 2 ^ 64 - 1 := rfl

theorem le_npos (stop : UInt64) : stop ≤ npos := by
  rw [UInt64.le_iff_toNat_le, npos_toNat]
  have := stop.toNat_lt
  omega

theorem findFirstOf_none (h : At subject start.toNat piece)
    (hpiece : ∀ c ∈ piece, decide (c = delimiter) = false) : findFirstOf subject start = npos := by
  rw [findFirstOf, h.rest, List.findIdx?_eq_none_iff.mpr hpiece]

theorem findFirstOf_some (h : At subject start.toNat (piece ++ delimiter :: t))
    (hpiece : ∀ c ∈ piece, decide (c = delimiter) = false) :
    findFirstOf subject start = start + UInt64.ofNat piece.length := by
  rw [findFirstOf, h.rest, List.findIdx?_append, List.findIdx?_eq_none_iff.mpr hpiece,
    List.findIdx?_cons, if_pos (decide_eq_true rfl)]
  show start + UInt64.ofNat (0 + piece.length) = _
  rw [Nat.zero_add]

theorem substr_eq {n : UInt64} (h : At subject start.toNat (piece ++ t))
    (hn : n.toNat = piece.length ∨ t = [] ∧ piece.length ≤ n.toNat) :
    substr subject start n = .ok piece := by
  rw [substr, if_pos h.inside, h.rest]
  rcases hn with hn | ⟨rfl, hn⟩
  · rw [hn, List.take_left]
  · rw [List.append_nil, List.take_of_length_le hn]

theorem splitLoop_eq (h : At subject start.toNat t) (hfits : subject.length < 2 ^ 63)
    (hfuel : t.length < fuel) :
    splitLoop subject fuel start (findFirstOf subject start) out =
      .ok (out ++ t.splitOn delimiter) := by
  induction fuel generalizing start t out with
  | zero => omega
  | succ fuel ih =>
      have hlength := h.length
      obtain ⟨piece, tail, rfl, hpiece, htail⟩ := exists_scan (· = delimiter) t
      rw [List.length_append] at hlength hfuel
      rw [splitLoop, if_pos (le_npos _), splitOn_scan hpiece htail]
      rcases htail.eq_nil_or_cons with rfl | ⟨c, t, rfl, hc⟩
      · -- there is no dot: `npos - start` is more than what is left
        have hn : (npos - start).toNat = npos.toNat - start.toNat :=
          UInt64.toNat_sub_of_le _ _ (le_npos start)
        rw [npos_toNat] at hn
        have hlast : findFirstOf subject start = npos :=
          findFirstOf_none (by simpa using h) hpiece
        rw [hlast, substr_eq h (.inr ⟨rfl, by omega⟩)]
        rfl
      · obtain rfl : c = delimiter := of_decide_eq_true hc
        have hnext : At subject (start.toNat + piece.length + 1) t := h.skip.tail
        rw [List.length_cons] at hlength hfuel
        have hofNat : (UInt64.ofNat piece.length).toNat = piece.length :=
          UInt64.toNat_ofNat_of_lt' (by show _ < 2 ^ 64; omega)
        have hstop : (start + UInt64.ofNat piece.length).toNat = start.toNat + piece.length := by
          rw [UInt64.toNat_add, hofNat]
          exact Nat.mod_eq_of_lt (by show _ < 2 ^ 64; omega)
        have hstart : (start + UInt64.ofNat piece.length + 1).toNat =
            start.toNat + piece.length + 1 := by
          rw [UInt64.toNat_add, hstop]
          exact Nat.mod_eq_of_lt (by show start.toNat + piece.length + 1 < 2 ^ 64; omega)
        have hne : start + UInt64.ofNat piece.length ≠ npos := by
          intro heq
          rw [heq, npos_toNat] at hstop
          omega
        have hn : start + UInt64.ofNat piece.length - start = UInt64.ofNat piece.length := by
          rw [UInt64.add_comm, UInt64.add_sub_cancel]
        rw [findFirstOf_some h hpiece, hn, substr_eq h (.inl hofNat)]
        show (if start + UInt64.ofNat piece.length = npos then _ else _) = _
        rw [if_neg hne, ih (hstart ▸ hnext) (by omega), if_neg (List.cons_ne_nil _ _),
          List.tail_cons, List.append_assoc]
        rfl

theorem split_eq (s : Text) : split s.bytes = .ok (pieces s.toCString) :=
  splitLoop_eq ⟨Nat.zero_le _, rfl⟩ s.fits (Nat.lt_succ_self _)

/-! ## Both -/

/-- The pieces that the one hashes one by one give the list of the other, and they are what is
between the dots. -/
theorem tokenisers_agree (s : Text) :
    ∃ pieces hashes, split s.bytes = .ok pieces ∧ hashElements s.terminated = .ok hashes ∧
      pieces.mapM (fun piece => hashCString 0 (piece ++ [0])) = .ok hashes ∧
        Segments delimiter s.bytes pieces := by
  refine ⟨pieces s.toCString, (pieces s.toCString).map stringHash.hash, split_eq s, ?_, ?_,
    segments_splitOn delimiter s.bytes⟩
  · rw [hashElements_eq, Subject.hashElements_eq]
    rfl
  · refine mapM_eq_iff.mpr fun piece hpiece => hashCString_eq (fun hzero => ?_) 0
    exact s.noNul (mem_of_mem_splitOn hpiece hzero)

end Fastpath.Tokens
