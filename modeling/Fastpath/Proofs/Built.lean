import Fastpath.Proofs.RoundTrip

/-!
# Messages built by calls

Whatever sequence of `MutableMessage` calls made a message, its fields are
formed and its subject is a C string short enough for its slot. Both are
invariants of the calls: `setSubject` refuses what is too long, and every
`add*` either keeps its new field at the end of the payload or changes nothing.
-/

namespace Fastpath

open Fastpath.Lib

theorem fieldsFormed_append {fields : List Field} {field : Field} (h : FieldsFormed fields)
    (hfield : field.Formed) : FieldsFormed (fields ++ [field]) := by
  induction fields with
  | nil => exact ⟨hfield, trivial⟩
  | cons _ _ ih => exact ⟨h.1, ih h.2⟩

namespace MutableMessage

/-- The identifier is copied, or does not fit. -/
theorem add_run (e : Field) (m : Message) :
    (add e).run m =
      if e.identifier.length < Field.identifierSize then (.ok (addField e m).2, (addField e m).1)
      else (.error .overrun, m) := by
  rw [add]
  split
  · next hid =>
      have hcopy : (Field.copyIdentifier e.identifier : Exec Fault Message Unit).run m =
          (.ok (), m) := by
        rw [Field.copyIdentifier, if_pos hid, Exec.pure_run]
      rw [Exec.bind_ok hcopy]
  · next hid =>
      have hcopy : (Field.copyIdentifier e.identifier : Exec Fault Message Unit).run m =
          (.error .overrun, m) := by
        rw [Field.copyIdentifier, if_neg hid, Exec.throw_run]
      rw [Exec.bind_error hcopy]

/-- What one `add*` call can do. -/
theorem add_cases {e : Field} {m m' : Message} {accepted : Bool}
    (h : (add e).run m = (.ok accepted, m')) :
    e.identifier.length < Field.identifierSize ∧
      ((accepted = false ∧ m' = m) ∨
        (accepted = true ∧ m.find e.identifier = none ∧
          m' = { m with
            payload := m.payload ++ [e]
            keys := m.keys ++ [(e.identifier, m.payload.length)] })) := by
  rw [add_run] at h
  split at h
  · next hid =>
      refine ⟨hid, ?_⟩
      obtain ⟨hacc, hm⟩ := Prod.mk.inj h
      simp only [Except.ok.injEq] at hacc
      rw [addField, Message.insertKey] at hacc hm
      cases hfind : m.find e.identifier with
      | none =>
          rw [hfind] at hacc hm
          exact .inr ⟨hacc.symm, rfl, hm.symm⟩
      | some index =>
          rw [hfind] at hacc hm
          exact .inl ⟨hacc.symm, hm.symm⟩
  · cases (Prod.mk.inj h).1

theorem add_error {e : Field} {m m' : Message} {fault : Fault}
    (h : (add e).run m = (.error fault, m')) : m' = m := by
  rw [add_run] at h
  split at h
  · cases (Prod.mk.inj h).1
  · exact (Prod.mk.inj h).2.symm

theorem add_formed {e : Field} {m m' : Message} {accepted : Bool}
    (h : (add e).run m = (.ok accepted, m')) (hm : FieldsFormed m.payload)
    (he : e.identifier.length < Field.identifierSize → e.Formed) : FieldsFormed m'.payload := by
  obtain ⟨hid, ⟨-, rfl⟩ | ⟨-, -, rfl⟩⟩ := add_cases h
  · exact hm
  · exact fieldsFormed_append hm (he hid)

theorem add_subject {e : Field} {m m' : Message} {accepted : Bool}
    (h : (add e).run m = (.ok accepted, m')) : m'.subject = m.subject := by
  obtain ⟨-, ⟨-, rfl⟩ | ⟨-, -, rfl⟩⟩ := add_cases h
  · rfl
  · rfl

end MutableMessage

theorem Scalar.formed (field : CString) (value : Scalar)
    (hid : field.length < Field.identifierSize) :
    (Field.scalar field value.type value.raw).Formed := by
  refine ⟨hid, ?_, ?_⟩
  · cases value <;> simp only [Scalar.raw, leBytes_length, Field.rawSize] <;> omega
  · cases value <;> simp only [Scalar.type] <;> decide

theorem Field.createData_formed {field : CString} {type : StorageType} {value : Bytes}
    (hid : field.length < Field.identifierSize) (htype : type = .string ∨ type = .data) :
    (Field.createData field type value).Formed := by
  rw [Field.createData]
  split
  · exact ⟨hid, htype⟩
  · exact ⟨hid, htype⟩

theorem Field.createData_identifier (field : CString) (type : StorageType) (value : Bytes) :
    (Field.createData field type value).identifier = field := by
  rw [Field.createData]
  split <;> rfl

theorem Built.formed {m : Message} (h : Built m) : FieldsFormed m.payload := by
  induction h with
  | new => trivial
  | setSubject subject _ ih =>
      rw [MutableMessage.setSubject]
      split <;> exact ih
  | addScalarField _ hadd ih =>
      exact MutableMessage.add_formed hadd ih fun hid => Scalar.formed _ _ hid
  | addStringField _ hadd ih =>
      refine MutableMessage.add_formed hadd ih fun hid => ?_
      rw [Field.createData_identifier] at hid
      exact Field.createData_formed hid (.inl rfl)
  | addDataField _ hadd ih =>
      refine MutableMessage.add_formed hadd ih fun hid => ?_
      rw [Field.createData_identifier] at hid
      exact Field.createData_formed hid (.inr rfl)
  | addDateTimeField _ hadd ih => exact MutableMessage.add_formed hadd ih fun hid => hid
  | addMicroseconds _ hadd ih => exact MutableMessage.add_formed hadd ih fun hid => hid
  | addTimePoint _ hadd ih => exact MutableMessage.add_formed hadd ih fun hid => hid
  | @addMessageField _ _ sub _ _ _ _ hadd ih ihsub =>
      obtain ⟨flags, subject, payload, keys⟩ := sub
      exact MutableMessage.add_formed hadd ih fun hid => ⟨hid, ihsub⟩

/-- The subject of a built message is a C string that `setSubject` accepted. -/
theorem Built.subject {m : Message} (h : Built m) :
    ∃ (s : CString) (t : Bytes),
      s.length < Message.maxSubjectLength ∧ m.subject = s.bytes ++ 0 :: t := by
  induction h with
  | new => exact ⟨⟨[], by simp⟩, [], by decide, rfl⟩
  | @setSubject m subject _ ih =>
      rw [MutableMessage.setSubject]
      split
      · next hlt =>
          refine ⟨subject, m.subject.drop subject.terminated.length, hlt, ?_⟩
          simp only [Message.copyFront, CString.terminated, List.append_assoc,
            List.singleton_append]
      · exact ih
  | addScalarField _ hadd ih | addStringField _ hadd ih | addDataField _ hadd ih
  | addDateTimeField _ hadd ih | addMicroseconds _ hadd ih | addTimePoint _ hadd ih =>
      rw [MutableMessage.add_subject hadd]
      exact ih
  | addMessageField _ _ hadd ih _ =>
      rw [MutableMessage.add_subject hadd]
      exact ih

theorem Built.subject_lt {m : Message} (h : Built m) :
    m.subjectString.length < Message.maxSubjectLength := by
  obtain ⟨s, t, hlt, hm⟩ := h.subject
  rw [Message.subjectString, hm, CString.ofArray_append_nul]
  exact hlt

end Fastpath
