import Fastpath.Proofs.Bounds

/-!
# The decoder is stable in fuel

`decodeFields` is given as much fuel as there are unread bytes, and says that
this is bookkeeping. Here is the proof. Every field that is read takes its
header's six bytes, so whatever is decoded behind a header, a nested body or the
next field, has fewer bytes in front of it than before and needs less fuel.
Where the fuel does run out there is no byte left, and the next header is out of
bounds with any budget.
-/

namespace Fastpath

open Fastpath.Lib

/-! ## What is left behind a field -/

theorem valueExtent_shrinks {body : Bytes → Extent (List Entry)}
    (hbody : ∀ {r entries rest}, body r = .within entries rest → rest.length ≤ r.length)
    {header : FieldHeader} {r rest : Bytes} {entry : Entry}
    (h : valueExtent body header r = .within entry rest) : rest.length ≤ r.length := by
  have hdrop : ∀ n, (r.drop n).length ≤ r.length := by
    intro n
    rw [List.length_drop]
    omega
  rw [valueExtent] at h
  split at h
  · cases h
    exact hdrop _
  · cases h
    exact hdrop _
  · split at h
    · cases h
      exact hdrop _
    · cases h
  · cases hnested : body r with
    | within entries rest' =>
        rw [hnested] at h
        cases h
        exact hbody hnested
    | refused =>
        rw [hnested] at h
        cases h
    | past =>
        rw [hnested] at h
        cases h
  · split at h
    · cases h
      exact hdrop _
    · cases h

theorem fieldExtent_shrinks {body : Bytes → Extent (List Entry)}
    (hbody : ∀ {r entries rest}, body r = .within entries rest → rest.length ≤ r.length)
    {r rest : Bytes} {entry : Entry} (h : fieldExtent body r = .within entry rest) :
    rest.length + MsgField.size ≤ r.length := by
  rw [fieldExtent, headerExtent] at h
  split at h
  · cases h
  · next hsize =>
      split at h
      · cases h
      · have hvalue := valueExtent_shrinks hbody h
        rw [List.length_drop] at hvalue
        omega

theorem bodyExtent_shrinks {fields : Nat → Bytes → Extent (List Entry)}
    (hfields : ∀ {count r entries rest}, fields count r = .within entries rest →
      rest.length ≤ r.length)
    {r rest : Bytes} {entries : List Entry} (h : bodyExtent fields r = .within entries rest) :
    rest.length ≤ r.length := by
  rw [bodyExtent] at h
  split at h
  · cases h
    exact Nat.le_refl _
  · split at h
    · cases h
    · have hrest := hfields h
      rw [List.length_drop] at hrest
      omega

theorem fieldsExtent_shrinks (fuel : Nat) : ∀ {count : Nat} {r rest : Bytes} {entries : List Entry},
    fieldsExtent fuel count r = .within entries rest → rest.length ≤ r.length := by
  induction fuel with
  | zero =>
      intro count r rest entries h
      cases count with
      | zero =>
          cases h
          exact Nat.le_refl _
      | succ count => cases h
  | succ fuel ih =>
      intro count r rest entries h
      cases count with
      | zero =>
          cases h
          exact Nat.le_refl _
      | succ count =>
          rw [fieldsExtent] at h
          cases hfield : fieldExtent (bodyExtent (fieldsExtent fuel)) r with
          | within entry rest' =>
              have hshrinks := fieldExtent_shrinks (bodyExtent_shrinks ih) hfield
              rw [hfield, Extent.bind] at h
              cases hlater : fieldsExtent fuel count rest' with
              | within entries' rest'' =>
                  have hrest := ih hlater
                  rw [hlater] at h
                  cases h
                  omega
              | refused =>
                  rw [hlater] at h
                  cases h
              | past =>
                  rw [hlater] at h
                  cases h
          | refused =>
              rw [hfield] at h
              cases h
          | past =>
              rw [hfield] at h
              cases h

/-! ## Budgets that agree -/

theorem decodeBody_congr {fields fields' : Nat → Exec Fault DecodeState Unit} {s : DecodeState}
    (hin : s.buffer.InRange)
    (h : ∀ count, 5 < s.buffer.rest.length →
      (fields count).run ⟨s.msg, s.buffer.advanceRead 5⟩ =
        (fields' count).run ⟨s.msg, s.buffer.advanceRead 5⟩) :
    (decodeBody fields).run s = (decodeBody fields').run s := by
  by_cases hsize : s.buffer.rest.length ≤ MsgHeader.size
  · rw [decodeBody_absent hin hsize, decodeBody_absent hin hsize]
  · have hbehind := Nat.lt_of_not_le hsize
    by_cases hflag : leNat (s.buffer.rest.take 1) ≠ bodyFlag
    · rw [decodeBody_corrupt hin hbehind hflag, decodeBody_corrupt hin hbehind hflag]
    · rw [decodeBody_counted hin hbehind hflag, decodeBody_counted hin hbehind hflag]
      exact Exec.bind_congr (h _ hbehind) _

/-- Only a body behind a header is decoded with the budget. -/
theorem decodeField_congr {body body' : Exec Fault DecodeState Bool} {s : DecodeState}
    (hin : s.buffer.InRange)
    (h : ∀ n, MsgField.size ≤ n → n ≤ s.buffer.rest.length →
      body.run ⟨Message.new, s.buffer.advanceRead n⟩ =
        body'.run ⟨Message.new, s.buffer.advanceRead n⟩) :
    (decodeField body).run s = (decodeField body').run s := by
  by_cases hsize : MsgField.size ≤ s.buffer.rest.length
  · have hpeek := DecodeState.onBuffer_ok (s := s) (peekFieldHeader_ok hsize)
    rw [decodeField, decodeField, Exec.bind_ok hpeek, Exec.bind_ok hpeek]
    dsimp only
    generalize StorageType.ofCode _ = type
    cases type with
    | message =>
        obtain ⟨header, n, -, hheader, hn, hfit, -⟩ | ⟨-, n, -, hheader⟩ :=
          readFieldHeader_run hin hsize
        · have hfresh : (DecodeState.onFresh body).run ⟨s.msg, s.buffer.advanceRead n⟩ =
              (DecodeState.onFresh body').run ⟨s.msg, s.buffer.advanceRead n⟩ := by
            simp only [DecodeState.onFresh, h n hn (by omega)]
          dsimp only
          rw [createMessageField, createMessageField,
            Exec.bind_ok (DecodeState.onBuffer_ok hheader),
            Exec.bind_ok (DecodeState.onBuffer_ok hheader)]
          exact Exec.bind_congr hfresh _
        · dsimp only
          rw [createMessageField, createMessageField,
            Exec.bind_error (DecodeState.onBuffer_error hheader),
            Exec.bind_error (DecodeState.onBuffer_error hheader)]
    | _ => rfl
  · have hpeek := DecodeState.onBuffer_error (s := s) (peekFieldHeader_past (by omega))
    rw [decodeField, decodeField, Exec.bind_error hpeek, Exec.bind_error hpeek]

/-- With a fuel that covers the unread bytes, one more changes nothing. -/
theorem decodeFields_succ (fuel : Nat) : ∀ (count : Nat) {s : DecodeState}, s.buffer.InRange →
    s.buffer.rest.length ≤ fuel →
    (decodeFields (fuel + 1) count).run s = (decodeFields fuel count).run s := by
  induction fuel with
  | zero =>
      intro count s hin hcovers
      cases count with
      | zero => rfl
      | succ count =>
          have hpeek := DecodeState.onBuffer_error (s := s)
            (peekFieldHeader_past (b := s.buffer) (by rw [MsgField.size]; omega))
          exact Exec.bind_error (Exec.bind_error hpeek)
  | succ fuel ih =>
      intro count s hin hcovers
      cases count with
      | zero => rfl
      | succ count =>
          -- the nested bodies have lost a header, so the smaller budget covers them
          have hfield : (decodeField (decodeBody (decodeFields (fuel + 1)))).run s =
              (decodeField (decodeBody (decodeFields fuel))).run s := by
            refine decodeField_congr hin fun n hn hle => ?_
            rw [MsgField.size] at hn
            refine decodeBody_congr (hin.advanceRead hle) fun count hroom => ?_
            refine ih count (ByteStorage.InRange.advanceRead (hin.advanceRead hle) hroom.le) ?_
            rw [ByteStorage.rest_advanceRead, ByteStorage.rest_advanceRead, List.drop_drop,
              List.length_drop]
            omega
          have hbody : ReadsBody (decodeBody (decodeFields fuel))
              (bodyExtent (fieldsExtent fuel)) :=
            fun s hin => (decodeBody_tracks (decodeFields_tracks fuel) hin).mono
              fun _ _ _ _ => trivial
          have htracks := decodeField_tracks hbody hin
          rw [decodeFields, decodeFields, Exec.bind_congr hfield]
          cases hext : fieldExtent (bodyExtent (fieldsExtent fuel)) s.buffer.rest with
          | within entry rest =>
              have hshrinks :=
                fieldExtent_shrinks (bodyExtent_shrinks (fieldsExtent_shrinks fuel)) hext
              rw [hext] at htracks
              obtain ⟨field, msg, n, hrun, hn, rfl, -⟩ := htracks
              rw [MsgField.size] at hshrinks
              rw [Exec.bind_ok hrun, Exec.bind_ok hrun, Exec.bind_ok (Exec.modify_run _ _),
                Exec.bind_ok (Exec.modify_run _ _)]
              refine ih count (hin.advanceRead hn) ?_
              show (s.buffer.advanceRead n).rest.length ≤ fuel
              rw [ByteStorage.rest_advanceRead]
              omega
          | refused =>
              rw [hext] at htracks
              obtain ⟨what, msg, n, hrun, -⟩ := htracks
              rw [Exec.bind_error hrun, Exec.bind_error hrun]
          | past =>
              rw [hext] at htracks
              obtain ⟨e, s', hrun, -⟩ := htracks
              rw [Exec.bind_error hrun, Exec.bind_error hrun]

theorem decodeFields_stable {fuel fuel' : Nat} {s : DecodeState} (hin : s.buffer.InRange)
    (hcovers : s.buffer.rest.length ≤ fuel) (hle : fuel ≤ fuel') (count : Nat) :
    (decodeFields fuel' count).run s = (decodeFields fuel count).run s := by
  induction fuel', hle using Nat.le_induction with
  | base => rfl
  | succ k hk ih => rw [decodeFields_succ k count hin (hcovers.trans hk), ih]

end Fastpath
