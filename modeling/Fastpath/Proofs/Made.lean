import Fastpath.Proofs.Cursor
import Fastpath.Spec.Reach

/-!
# What a round of the field loop makes

The loop looks at a header, goes by its type and its length, and leaves it to a
constructor, which reads the header again. Both see the same bytes, so the class
of a field goes with its type, and the class of a data field with the length of
its value. Until the field is pushed, the message is left alone.
-/

namespace Fastpath

open Fastpath.Lib

theorem DecodeState.of_onBuffer_ok {α : Type} {x : Exec Fault ByteStorage α} {s s' : DecodeState}
    {a : α} (h : (DecodeState.onBuffer x).run s = (.ok a, s')) :
    x.run s.buffer = (.ok a, s'.buffer) ∧ s'.msg = s.msg := by
  obtain ⟨hanswer, rfl⟩ := Prod.mk.inj h
  exact ⟨Prod.ext hanswer rfl, rfl⟩

theorem DecodeState.of_onFresh_ok {α : Type} {x : Exec Fault DecodeState α} {s s' : DecodeState}
    {msg : Message} (h : (DecodeState.onFresh x).run s = (.ok msg, s')) :
    s'.msg = s.msg ∧ ∃ a, x.run ⟨Message.new, s.buffer⟩ = (.ok a, ⟨msg, s'.buffer⟩) := by
  rw [DecodeState.onFresh] at h
  dsimp only at h
  cases hrun : x.run ⟨Message.new, s.buffer⟩ with
  | mk answer sub =>
      rw [hrun] at h
      cases answer with
      | ok a =>
          cases h
          exact ⟨rfl, a, rfl⟩
      | error e => cases h

/-! ## The header, seen twice -/

/-- What the switch looks at. -/
theorem of_peekFieldHeader_ok {b b' : ByteStorage} {type : StorageType}
    {identifierLength dataSize : Nat}
    (h : peekFieldHeader.run b = (.ok (type, identifierLength, dataSize), b')) :
    type = typeAt b.rest ∧ dataSize = dataLengthAt b.rest ∧ b' = b := by
  obtain ⟨code, b₁, hcode, h⟩ := Exec.of_bind_ok h
  obtain ⟨length, b₂, hlength, h⟩ := Exec.of_bind_ok h
  obtain ⟨size, b₃, hsize, h⟩ := Exec.of_bind_ok h
  cases h
  obtain ⟨rfl, rfl⟩ := ByteStorage.of_peekScalar_ok hcode
  obtain ⟨-, rfl⟩ := ByteStorage.of_peekScalar_ok hlength
  obtain ⟨rfl, rfl⟩ := ByteStorage.of_peekScalar_ok hsize
  exact ⟨rfl, rfl, rfl⟩

/-- What the constructor reads. -/
theorem of_readFieldHeader_ok {b b' : ByteStorage} {header : FieldHeader}
    (h : readFieldHeader.run b = (.ok header, b')) :
    header.type = typeAt b.rest ∧ header.dataLength = dataLengthAt b.rest := by
  rw [readFieldHeader, Exec.bind_ok (Exec.get_run _)] at h
  split at h
  · obtain ⟨code, b₁, hcode, h⟩ := Exec.of_bind_ok h
    obtain ⟨length, b₂, hlength, h⟩ := Exec.of_bind_ok h
    obtain ⟨size, b₃, hsize, h⟩ := Exec.of_bind_ok h
    obtain ⟨rfl, rfl⟩ := ByteStorage.of_readScalar_ok hcode
    obtain ⟨-, rfl⟩ := ByteStorage.of_readScalar_ok hlength
    obtain ⟨rfl, -⟩ := ByteStorage.of_readScalar_ok hsize
    rw [Exec.bind_ok (Exec.get_run _)] at h
    split at h
    · obtain ⟨identifier, b₄, -, h⟩ := Exec.of_bind_ok h
      rw [Exec.bind_ok (Exec.modify_run _ _), Exec.bind_ok (Exec.get_run _)] at h
      split at h
      · cases h
        refine ⟨rfl, ?_⟩
        rw [ByteStorage.advanceRead_advanceRead, ByteStorage.rest_advanceRead, dataLengthAt]
      · cases h
    · cases h
  · cases h

/-! ## Fields -/

/-- The class of a field is the one for its type and, if it is a data field, for the length of its
value. -/
def Field.Made : Field → Prop
  | .scalar _ type _ => type ≠ .string ∧ type ≠ .data ∧ type ≠ .dateTime ∧ type ≠ .message
  | .smallData _ type value => (type = .string ∨ type = .data) ∧ value.length ≤ Field.smallDataMax
  | .largeData _ type value => (type = .string ∨ type = .data) ∧ Field.smallDataMax < value.length
  | .dateTime .. => True
  | .message .. => True

theorem createScalarField_ok {b b' : ByteStorage} {field : Field}
    (h : createScalarField.run b = (.ok field, b')) :
    ∃ header data b₁, readFieldHeader.run b = (.ok header, b₁) ∧
      field = .scalar header.identifier header.type data := by
  obtain ⟨header, b₁, hheader, h⟩ := Exec.of_bind_ok h
  obtain ⟨data, b₂, -, h⟩ := Exec.of_bind_ok h
  refine ⟨header, data, b₁, hheader, ?_⟩
  split at h
  · rw [Exec.bind_ok (Exec.modify_run _ _)] at h
    cases h
    rfl
  · cases h

theorem createDataField_ok {size : Nat} {b b' : ByteStorage} {field : Field}
    (h : (createDataField size).run b = (.ok field, b')) :
    ∃ header value b₁, readFieldHeader.run b = (.ok header, b₁) ∧
      value.length = header.dataLength ∧
      ((size ≤ Field.smallDataMax ∧ field = .smallData header.identifier header.type value) ∨
        Field.smallDataMax < size ∧ field = .largeData header.identifier header.type value) := by
  obtain ⟨header, b₁, hheader, h⟩ := Exec.of_bind_ok h
  obtain ⟨value, b₂, hvalue, h⟩ := Exec.of_bind_ok h
  refine ⟨header, value, b₁, hheader, (ByteStorage.of_peekBytes_ok hvalue).2.1, ?_⟩
  split at h
  · next hsmall =>
      split at h
      · rw [Exec.bind_ok (Exec.modify_run _ _)] at h
        cases h
        exact .inl ⟨hsmall, rfl⟩
      · cases h
  · next hlarge =>
      rw [Exec.bind_ok (Exec.modify_run _ _)] at h
      cases h
      exact .inr ⟨Nat.lt_of_not_le hlarge, rfl⟩

theorem createDateTimeField_ok {b b' : ByteStorage} {field : Field}
    (h : createDateTimeField.run b = (.ok field, b')) :
    ∃ identifier length seconds microseconds,
      field = .dateTime identifier length seconds microseconds := by
  obtain ⟨header, b₁, -, h⟩ := Exec.of_bind_ok h
  obtain ⟨seconds, b₂, -, h⟩ := Exec.of_bind_ok h
  obtain ⟨microseconds, b₃, -, h⟩ := Exec.of_bind_ok h
  cases h
  exact ⟨_, _, _, _, rfl⟩

/-- The size that the switch has seen is the length of the value. -/
theorem createDataField_made {b b' : ByteStorage} {field : Field}
    (htype : typeAt b.rest = .string ∨ typeAt b.rest = .data)
    (h : (createDataField (dataLengthAt b.rest)).run b = (.ok field, b')) : field.Made := by
  obtain ⟨header, value, b₁, hheader, hlength, hfield⟩ := createDataField_ok h
  obtain ⟨htype', hsize⟩ := of_readFieldHeader_ok hheader
  rw [← htype'] at htype
  rw [← hsize, ← hlength] at hfield
  obtain ⟨hsmall, rfl⟩ | ⟨hlarge, rfl⟩ := hfield
  · exact ⟨htype, hsmall⟩
  · exact ⟨htype, hlarge⟩

/-- One round of the loop. -/
theorem decodeField_made {body : Exec Fault DecodeState Bool} {s s' : DecodeState}
    {field : Field} (h : (decodeField body).run s = (.ok field, s')) :
    field.Made ∧ s'.msg = s.msg := by
  obtain ⟨⟨type, identifierLength, dataSize⟩, s₁, hpeek, h⟩ := Exec.of_bind_ok h
  obtain ⟨hpeek, hmsg⟩ := DecodeState.of_onBuffer_ok hpeek
  obtain ⟨htype, hsize, hbuffer⟩ := of_peekFieldHeader_ok hpeek
  rw [← hbuffer] at htype hsize
  rw [← hmsg]
  dsimp only at h
  split at h
  · obtain ⟨h, hsame⟩ := DecodeState.of_onBuffer_ok h
    rw [hsize] at h
    exact ⟨createDataField_made (.inl htype.symm) h, hsame⟩
  · obtain ⟨h, hsame⟩ := DecodeState.of_onBuffer_ok h
    rw [hsize] at h
    exact ⟨createDataField_made (.inr htype.symm) h, hsame⟩
  · obtain ⟨h, hsame⟩ := DecodeState.of_onBuffer_ok h
    obtain ⟨identifier, length, seconds, microseconds, rfl⟩ := createDateTimeField_ok h
    exact ⟨trivial, hsame⟩
  · obtain ⟨header, s₂, hheader, h⟩ := Exec.of_bind_ok h
    obtain ⟨msg, s₃, hfresh, h⟩ := Exec.of_bind_ok h
    cases h
    exact ⟨trivial, (DecodeState.of_onFresh_ok hfresh).1.trans
      (DecodeState.of_onBuffer_ok hheader).2⟩
  · next hstring hdata htime hmessage =>
      obtain ⟨h, hsame⟩ := DecodeState.of_onBuffer_ok h
      obtain ⟨header, data, b₁, hheader, rfl⟩ := createScalarField_ok h
      refine ⟨?_, hsame⟩
      rw [htype, ← (of_readFieldHeader_ok hheader).1] at hstring hdata htime hmessage
      exact ⟨hstring, hdata, htime, hmessage⟩

/-- An invariant that a new field keeps is kept by the loop. -/
theorem decodeFields_ensures {I : Message → Prop}
    (hpush : ∀ m field, I m → field.Made → I (m.pushDecoded field)) (fuel count : Nat) :
    Exec.Ensures (fun s => I s.msg) (decodeFields fuel count) fun _ s => I s.msg := by
  induction fuel generalizing count with
  | zero =>
      cases count with
      | zero => exact .pure fun _ h => h
      | succ count => exact .throw _
  | succ fuel ih =>
      cases count with
      | zero => exact .pure fun _ h => h
      | succ count =>
          have hfield : Exec.Ensures (fun s : DecodeState => I s.msg)
              (decodeField (decodeBody (decodeFields fuel)))
              fun field s => I s.msg ∧ field.Made := by
            intro s field s' hs hrun
            obtain ⟨hmade, hsame⟩ := decodeField_made hrun
            exact ⟨hsame ▸ hs, hmade⟩
          exact hfield.bind fun field => .bind (.modify fun s h => hpush s.msg field h.1 h.2)
            fun _ => ih count

theorem decodeBody_ensures {I : Message → Prop}
    (hpush : ∀ m field, I m → field.Made → I (m.pushDecoded field)) (fuel : Nat) :
    Exec.Ensures (fun s => I s.msg) (decodeBody (decodeFields fuel)) fun _ s => I s.msg := by
  have hbuffer {α : Type} (x : Exec Fault ByteStorage α) :
      Exec.Ensures (fun s : DecodeState => I s.msg) (DecodeState.onBuffer x)
        fun _ s => I s.msg := by
    intro s a s' hs hrun
    show I s'.msg
    rw [(DecodeState.of_onBuffer_ok hrun).2]
    exact hs
  refine .bind .get fun s => ?_
  split
  · refine .bind (hbuffer _) fun chk => ?_
    split
    · exact .throw _
    · exact .bind (hbuffer _) fun count =>
        .bind (decodeFields_ensures hpush fuel count) fun _ => .pure fun _ h => h
  · exact .pure fun _ h => h

end Fastpath
