import Fastpath.Proofs.Cursor
import Fastpath.Proofs.Encode

/-!
# Decoding an image

In front of the image of a field the decoder builds that field and leaves the
cursor behind the image. What follows the image does not matter, which is what
makes the statement fit into itself: a sub-message is decoded on the cursor of
the message around it, and the fields behind it are just what follows.

The induction is over the nested payload, one lemma per field class, and the
fuel of the field loop is asked only to cover the unread bytes.
-/

namespace Fastpath

open Fastpath.Lib

/-! ## Small pieces -/

theorem CString.ofArray_append_nul (s : CString) (t : Bytes) :
    CString.ofArray (s.bytes ++ 0 :: t) = s := by
  have hall : ∀ b ∈ s.bytes, decide (b ≠ 0) = true := by
    intro b hb
    refine decide_eq_true fun h => ?_
    rw [h] at hb
    exact s.noNul hb
  cases s with
  | mk bytes noNul =>
      simp only [CString.ofArray, CString.mk.injEq]
      rw [List.takeWhile_append_of_pos hall, List.takeWhile_cons_of_neg (by simp), List.append_nil]

theorem CString.ofArray_bytes (s : CString) : CString.ofArray s.bytes = s := by
  have hall : ∀ b ∈ s.bytes, decide (b ≠ 0) = true := by
    intro b hb
    refine decide_eq_true fun h => ?_
    rw [h] at hb
    exact s.noNul hb
  cases s with
  | mk bytes noNul =>
      simp only [CString.ofArray, CString.mk.injEq]
      exact List.takeWhile_eq_self_iff.mpr hall

theorem CString.length_terminated (s : CString) : s.terminated.length = s.length + 1 := by
  simp only [CString.terminated, List.length_append, List.length_cons, List.length_nil,
    CString.length]

theorem StorageType.ofNat_code (type : StorageType) :
    UInt8.ofNat (type.code.toNat % 256 ^ 1) = type.code := by
  have h := type.code.toNat_lt
  rw [pow_one, Nat.mod_eq_of_lt h, UInt8.ofNat_toNat]

theorem DecodeState.onBuffer_ok {α : Type} {x : Exec Fault ByteStorage α} {s : DecodeState}
    {a : α} {b : ByteStorage} (h : x.run s.buffer = (.ok a, b)) :
    (DecodeState.onBuffer x).run s = (.ok a, ⟨s.msg, b⟩) :=
  Exec.zoom_ok h

/-! ## Field headers -/

section Header

variable {s : ByteStorage} {identifier : CString} {type : StorageType} {value t : Bytes}

theorem peekFieldHeader_wire (h : s.rest = fieldWire identifier type value ++ t) :
    peekFieldHeader.run s =
      (.ok (.ofCode type.code, identifier.length % 256 ^ 1, value.length % 256 ^ 4), s) := by
  simp only [fieldWire, List.append_assoc] at h
  have h1 : (ByteStorage.peekScalar 0 1).run s = (.ok (type.code.toNat % 256 ^ 1), s) :=
    ByteStorage.peekScalar_le (p := []) h rfl
  have h2 : (ByteStorage.peekScalar 1 1).run s = (.ok (identifier.length % 256 ^ 1), s) :=
    ByteStorage.peekScalar_le h (leBytes_length 1 _)
  have h3 : (ByteStorage.peekScalar 2 4).run s = (.ok (value.length % 256 ^ 4), s) := by
    rw [← List.append_assoc] at h
    exact ByteStorage.peekScalar_le h (by simp)
  rw [peekFieldHeader, Exec.bind_ok h1, Exec.bind_ok h2, Exec.bind_ok h3, Exec.pure_run,
    StorageType.ofNat_code]

theorem readFieldHeader_wire (h : s.rest = fieldWire identifier type value ++ t)
    (hid : identifier.length < Field.identifierSize) (hval : value.length < 2 ^ 32) :
    readFieldHeader.run s =
        (.ok ⟨.ofCode type.code, identifier, value.length⟩,
          s.advanceRead (MsgField.size + identifier.length)) ∧
      (s.advanceRead (MsgField.size + identifier.length)).rest = value ++ t := by
  have hroom : MsgField.size ≤ s.remainingReadLength := by
    apply ByteStorage.le_remaining
    rw [h, List.length_append, length_fieldWire]
    omega
  simp only [fieldWire, List.append_assoc] at h
  have h1 := ByteStorage.read_le h
  have hr1 := ByteStorage.rest_after_le h
  have h2 := ByteStorage.read_le hr1
  have hr2 := ByteStorage.rest_after_le hr1
  have h3 := ByteStorage.read_le hr2
  have hr3 := ByteStorage.rest_after_le hr2
  simp only [ByteStorage.advanceRead_advanceRead] at h2 h3 hr2 hr3
  have hidlen : identifier.length % 256 ^ 1 = identifier.length := by
    rw [pow_one]
    exact Nat.mod_eq_of_lt hid
  have hvallen : value.length % 256 ^ 4 = value.length :=
    Nat.mod_eq_of_lt (by rw [show 256 ^ 4 = 2 ^ 32 by norm_num]; exact hval)
  rw [hidlen] at h2
  rw [hvallen] at h3
  have h4 : (ByteStorage.peekBytes 0 identifier.length).run (s.advanceRead 6) =
      (.ok identifier.bytes, s.advanceRead 6) :=
    ByteStorage.peekBytes_append (p := []) hr3
  have hr4 := ByteStorage.rest_advanceRead_append hr3
  rw [ByteStorage.advanceRead_advanceRead] at hr4
  have hroom3 : identifier.length ≤ (s.advanceRead 6).remainingReadLength := by
    apply ByteStorage.le_remaining
    rw [hr3, List.length_append, CString.length]
    omega
  have hroom4 : value.length ≤ (s.advanceRead (6 + identifier.length)).remainingReadLength := by
    apply ByteStorage.le_remaining
    rw [CString.length, hr4, List.length_append]
    omega
  refine ⟨?_, hr4⟩
  rw [readFieldHeader, Exec.bind_ok (Exec.get_run s), if_pos hroom, Exec.bind_ok h1,
    Exec.bind_ok h2, Exec.bind_ok h3, Exec.bind_ok (Exec.get_run _), if_pos hroom3,
    Exec.bind_ok h4, Exec.bind_ok (Exec.modify_run _ _), Exec.bind_ok (Exec.get_run _),
    ByteStorage.advanceRead_advanceRead, if_pos hroom4, Exec.pure_run, StorageType.ofNat_code,
    CString.ofArray_bytes, MsgField.size]

/-! ## The field classes -/

theorem createScalarField_wire (h : s.rest = fieldWire identifier type value ++ t)
    (hid : identifier.length < Field.identifierSize) (hval : value.length ≤ Field.rawSize) :
    createScalarField.run s =
      (.ok (.scalar identifier (.ofCode type.code) value),
        s.advanceRead (fieldWire identifier type value).length) := by
  have hsmall : value.length < 2 ^ 32 := by
    rw [Field.rawSize] at hval
    omega
  obtain ⟨hhead, hrest⟩ := readFieldHeader_wire h hid hsmall
  have hdata : (ByteStorage.peekBytes 0 value.length).run
      (s.advanceRead (MsgField.size + identifier.length)) = (.ok value, _) :=
    ByteStorage.peekBytes_append (p := []) hrest
  rw [createScalarField, Exec.bind_ok hhead, Exec.bind_ok hdata, if_pos hval,
    Exec.bind_ok (Exec.modify_run _ _), Exec.pure_run, ByteStorage.advanceRead_advanceRead,
    length_fieldWire]

theorem createDataField_wire (h : s.rest = fieldWire identifier type value ++ t)
    (hid : identifier.length < Field.identifierSize) (hval : value.length < 2 ^ 32) :
    (createDataField value.length).run s =
      (.ok (Field.createData identifier (.ofCode type.code) value),
        s.advanceRead (fieldWire identifier type value).length) := by
  obtain ⟨hhead, hrest⟩ := readFieldHeader_wire h hid hval
  have hdata : (ByteStorage.peekBytes 0 value.length).run
      (s.advanceRead (MsgField.size + identifier.length)) = (.ok value, _) :=
    ByteStorage.peekBytes_append (p := []) hrest
  rw [createDataField, Exec.bind_ok hhead, Exec.bind_ok hdata, Field.createData]
  split
  · rw [Exec.bind_ok (Exec.modify_run _ _), Exec.pure_run, ByteStorage.advanceRead_advanceRead,
      length_fieldWire]
  · rw [Exec.bind_ok (Exec.modify_run _ _), Exec.pure_run, ByteStorage.advanceRead_advanceRead,
      length_fieldWire]

theorem int64_of_leBytes (v : Int64) :
    (UInt64.ofNat (v.toUInt64.toNat % 256 ^ 8)).toInt64 = v := by
  have h : v.toUInt64.toNat < 256 ^ 8 := by
    have := v.toUInt64.toNat_lt
    norm_num at this ⊢
    exact this
  rw [Nat.mod_eq_of_lt h, UInt64.ofNat_toNat, Int64.toInt64_toUInt64]

theorem createDateTimeField_wire {seconds microseconds : Int64}
    (h : s.rest = fieldWire identifier type (Field.timeBytes seconds microseconds) ++ t)
    (hid : identifier.length < Field.identifierSize) :
    createDateTimeField.run s =
      (.ok (.dateTime identifier MutableMessage.dateTimeSize seconds microseconds),
        s.advanceRead (fieldWire identifier type
          (Field.timeBytes seconds microseconds)).length) := by
  have hlen : (Field.timeBytes seconds microseconds).length = MutableMessage.dateTimeSize := by
    simp only [Field.timeBytes, List.length_append, leBytes_length, MutableMessage.dateTimeSize]
  have hval : (Field.timeBytes seconds microseconds).length < 2 ^ 32 := by
    rw [hlen, MutableMessage.dateTimeSize]
    norm_num
  obtain ⟨hhead, hrest⟩ := readFieldHeader_wire h hid hval
  rw [Field.timeBytes, List.append_assoc] at hrest
  have hsec := ByteStorage.read_le hrest
  have husec := ByteStorage.read_le (ByteStorage.rest_after_le hrest)
  rw [createDateTimeField, Exec.bind_ok hhead, Exec.bind_ok hsec, Exec.bind_ok husec,
    Exec.pure_run, int64_of_leBytes, int64_of_leBytes, length_fieldWire, hlen,
    ByteStorage.advanceRead_advanceRead, ByteStorage.advanceRead_advanceRead]
  rfl

end Header

/-! ## Bodies and payloads -/

theorem size_le_length_wire (field : Field) : MsgField.size ≤ field.wire.length := by
  cases field <;> simp only [Field.wire, length_fieldWire] <;> omega

theorem length_le_fieldsWire (fields : List Field) :
    fields.length ≤ (fieldsWire fields).length := by
  induction fields with
  | nil => exact Nat.le_refl _
  | cons field rest ih =>
      have hfield := size_le_length_wire field
      rw [MsgField.size] at hfield
      rw [fieldsWire, List.length_cons, List.length_append]
      omega

/-- In front of a body, the marker and the count are read and the loop is run, unless the buffer
ends there. -/
theorem decodeBody_wire {loop : Nat → Exec Fault DecodeState Unit} {s s' : DecodeState}
    {fields t : Bytes} {count : Nat}
    (h : s.buffer.rest = bodyWire count fields ++ t) (hcount : count < 2 ^ 32)
    (hne : fields ++ t ≠ [])
    (hloop : (loop count).run ⟨s.msg, s.buffer.advanceRead MsgHeader.size⟩ = (.ok (), s')) :
    (decodeBody loop).run s = (.ok (decide (0 < count)), s') := by
  have hroom : MsgHeader.size < s.buffer.remainingReadLength := by
    have hpos := List.length_pos_iff.mpr hne
    rw [List.length_append] at hpos
    apply ByteStorage.le_remaining
    rw [h, List.length_append, length_bodyWire]
    omega
  simp only [bodyWire, List.append_assoc] at h
  have hmark : (DecodeState.onBuffer (ByteStorage.readScalar 1)).run s =
      (.ok bodyFlag, ⟨s.msg, s.buffer.advanceRead 1⟩) :=
    DecodeState.onBuffer_ok (ByteStorage.read_le h)
  have hread : (DecodeState.onBuffer (ByteStorage.readScalar 4)).run
      ⟨s.msg, s.buffer.advanceRead 1⟩ =
        (.ok count, ⟨s.msg, s.buffer.advanceRead MsgHeader.size⟩) := by
    have hmod : count % 256 ^ 4 = count :=
      Nat.mod_eq_of_lt (by rw [show 256 ^ 4 = 2 ^ 32 by norm_num]; exact hcount)
    have hle := DecodeState.onBuffer_ok (s := ⟨s.msg, s.buffer.advanceRead 1⟩)
      (ByteStorage.read_le (ByteStorage.rest_after_le h))
    rwa [hmod, ByteStorage.advanceRead_advanceRead] at hle
  rw [decodeBody, Exec.bind_ok (Exec.get_run s), if_pos hroom, Exec.bind_ok hmark,
    if_neg (fun hne => hne rfl), Exec.bind_ok hread, Exec.bind_ok hloop, Exec.pure_run]

/-- A body that is all that is left, and empty, is not looked at. -/
theorem decodeBody_empty {loop : Nat → Exec Fault DecodeState Unit} {s : DecodeState}
    (h : s.buffer.rest = bodyWire 0 []) : (decodeBody loop).run s = (.ok false, s) := by
  have hin : s.buffer.read ≤ s.buffer.bytes.length := by
    by_contra hpast
    have hnil : s.buffer.rest = [] := List.drop_eq_nil_of_le (by omega)
    rw [hnil] at h
    exact absurd (congrArg List.length h) (by rw [length_bodyWire, MsgHeader.size]; simp)
  have hlen : s.buffer.remainingReadLength = MsgHeader.size := by
    have hrest := congrArg List.length h
    rw [ByteStorage.rest, List.length_drop, length_bodyWire] at hrest
    rw [ByteStorage.remainingReadLength, if_pos hin, hrest]
    rfl
  rw [decodeBody, Exec.bind_ok (Exec.get_run s), if_neg (by omega), Exec.pure_run]

/-- What is left of an image that ends with an empty body, if nothing follows it. -/
def unread (t : Bytes) (endsEmpty : Bool) : Nat :=
  if t.isEmpty && endsEmpty then MsgHeader.size else 0

@[simp] theorem unread_false (t : Bytes) : unread t false = 0 := by
  rw [unread, Bool.and_false, if_neg Bool.false_ne_true]

theorem unread_of_ne_nil {t : Bytes} (h : t ≠ []) (endsEmpty : Bool) : unread t endsEmpty = 0 := by
  rw [unread, List.isEmpty_eq_false_iff.mpr h, Bool.false_and, if_neg Bool.false_ne_true]

theorem unread_le (t : Bytes) (endsEmpty : Bool) : unread t endsEmpty ≤ MsgHeader.size := by
  rw [unread]
  split
  · exact Nat.le_refl _
  · exact Nat.zero_le _

/-- The field loop in front of a payload, for any fuel that covers the unread bytes. -/
def LeavesPayload (fields : List Field) : Prop :=
  ∀ (fuel : Nat) (s : DecodeState) (t : Bytes),
    s.buffer.rest = fieldsWire fields ++ t → s.buffer.rest.length ≤ fuel →
    (decodeFields fuel fields.length).run s =
      (.ok (), ⟨(receivedAll fields).foldl Message.pushDecoded s.msg,
        s.buffer.advanceRead ((fieldsWire fields).length - unread t (fieldsEndEmpty fields))⟩)

/-- One round of the loop in front of a field, likewise. -/
def LeavesField (field : Field) : Prop :=
  ∀ (fuel : Nat) (s : DecodeState) (t : Bytes),
    s.buffer.rest = field.wire ++ t → s.buffer.rest.length ≤ fuel + 1 →
    (decodeField (decodeBody (decodeFields fuel))).run s =
      (.ok field.received,
        ⟨s.msg, s.buffer.advanceRead (field.wire.length - unread t field.endsEmpty)⟩)

theorem leavesPayload_nil : LeavesPayload [] := by
  intro fuel s t _ _
  rw [fieldsEndEmpty, unread_false]
  cases fuel <;> rfl

theorem leavesPayload_cons {field : Field} {rest : List Field} (hfield : LeavesField field)
    (hrest : LeavesPayload rest) : LeavesPayload (field :: rest) := by
  intro fuel s t h hfuel
  have hpos := size_le_length_wire field
  rw [MsgField.size] at hpos
  rw [fieldsWire, List.append_assoc] at h
  have hlen : field.wire.length ≤ s.buffer.rest.length := by
    rw [h, List.length_append]
    omega
  obtain ⟨fuel, rfl⟩ : ∃ k, fuel = k + 1 := ⟨fuel - 1, by omega⟩
  have hround := hfield fuel s _ h hfuel
  cases rest with
  | nil =>
      -- the last field: what it leaves is what the payload leaves
      rw [fieldsWire, List.nil_append] at hround
      have hloop (s : DecodeState) : (decodeFields fuel ([] : List Field).length).run s =
          (.ok (), s) := by cases fuel <;> rfl
      rw [List.length_cons, decodeFields, Exec.bind_ok hround,
        Exec.bind_ok (Exec.modify_run _ _), hloop]
      simp only [DecodeState.push, receivedAll, fieldsWire, List.append_nil, List.foldl_cons,
        List.foldl_nil, fieldsEndEmpty, List.isEmpty_nil, if_true]
  | cons second rest =>
      have hsecond := size_le_length_wire second
      rw [MsgField.size] at hsecond
      have hsome : fieldsWire (second :: rest) ++ t ≠ [] := by
        rw [fieldsWire, List.append_assoc]
        exact List.append_ne_nil_of_left_ne_nil (List.ne_nil_of_length_pos (by omega)) _
      rw [unread_of_ne_nil hsome, Nat.sub_zero] at hround
      have hafter := ByteStorage.rest_advanceRead_append h
      have hloop := hrest fuel
        (DecodeState.push field.received ⟨s.msg, s.buffer.advanceRead field.wire.length⟩) t hafter
        (by
          show (s.buffer.advanceRead field.wire.length).rest.length ≤ fuel
          rw [ByteStorage.rest_advanceRead, List.length_drop]
          omega)
      have hleft := unread_le t (fieldsEndEmpty (second :: rest))
      have htail : MsgHeader.size ≤ (fieldsWire (second :: rest)).length := by
        rw [fieldsWire, List.length_append, MsgHeader.size]
        omega
      rw [List.length_cons, decodeFields, Exec.bind_ok hround,
        Exec.bind_ok (Exec.modify_run _ _), hloop]
      have hends : fieldsEndEmpty (field :: second :: rest) = fieldsEndEmpty (second :: rest) := by
        rw [fieldsEndEmpty, List.isEmpty_cons, if_neg Bool.false_ne_true]
      rw [hends]
      generalize unread t (fieldsEndEmpty (second :: rest)) = left at hleft
      simp only [DecodeState.push, ByteStorage.advanceRead_advanceRead, receivedAll,
        List.foldl_cons]
      rw [fieldsWire.eq_def (field :: second :: rest), List.length_append,
        Nat.add_sub_assoc (hleft.trans htail)]

/-- A body, on the cursor of whatever is around it. -/
theorem decodeBody_leaves {payload : List Field} (hpayload : LeavesPayload payload)
    (hcount : payload.length < 2 ^ 32) {fuel : Nat} {s : DecodeState} {t : Bytes}
    (h : s.buffer.rest = bodyWire payload.length (fieldsWire payload) ++ t)
    (hfuel : s.buffer.rest.length ≤ fuel + MsgHeader.size) :
    (decodeBody (decodeFields fuel)).run s =
      (.ok (decide (0 < payload.length)),
        ⟨(receivedAll payload).foldl Message.pushDecoded s.msg,
          s.buffer.advanceRead ((bodyWire payload.length (fieldsWire payload)).length -
            unread t (payload.isEmpty || fieldsEndEmpty payload))⟩) := by
  by_cases hne : fieldsWire payload ++ t = []
  · -- the buffer ends with this body, and it is empty
    obtain ⟨hfields, rfl⟩ := List.append_eq_nil_iff.mp hne
    have hempty : payload = [] := by
      have hlen := length_le_fieldsWire payload
      rw [hfields] at hlen
      exact List.eq_nil_of_length_eq_zero (Nat.le_zero.mp hlen)
    subst hempty
    rw [List.append_nil] at h
    rw [decodeBody_empty h]
    rfl
  · have hrest : (s.buffer.advanceRead MsgHeader.size).rest = fieldsWire payload ++ t := by
      rw [ByteStorage.rest_advanceRead, h, bodyWire, List.append_assoc,
        List.drop_left' (by simp [MsgHeader.size])]
    have hloop := hpayload fuel ⟨s.msg, s.buffer.advanceRead MsgHeader.size⟩ t hrest (by
      rw [ByteStorage.rest_advanceRead, List.length_drop]
      omega)
    have hends : unread t (payload.isEmpty || fieldsEndEmpty payload) =
        unread t (fieldsEndEmpty payload) := by
      cases payload with
      | nil =>
          rw [fieldsWire, List.nil_append] at hne
          rw [unread_of_ne_nil hne, unread_of_ne_nil hne]
      | cons field rest => rfl
    have hleft : unread t (fieldsEndEmpty payload) ≤ (fieldsWire payload).length := by
      cases payload with
      | nil =>
          rw [fieldsEndEmpty, unread_false]
          exact Nat.zero_le _
      | cons field rest =>
          have hwire := size_le_length_wire field
          have hle := unread_le t (fieldsEndEmpty (field :: rest))
          rw [MsgField.size] at hwire
          rw [MsgHeader.size] at hle
          rw [fieldsWire, List.length_append]
          omega
    rw [decodeBody_wire h hcount hne hloop, hends, length_bodyWire]
    simp only [ByteStorage.advanceRead_advanceRead]
    rw [Nat.add_sub_assoc hleft]

/-- The two data classes: the size decides, on the way in as on the way out. -/
theorem decodeData_wire {body : Exec Fault DecodeState Bool} {s : DecodeState}
    {identifier : CString} {type : StorageType} {value t : Bytes}
    (h : s.buffer.rest = fieldWire identifier type value ++ t)
    (hid : identifier.length < Field.identifierSize) (htype : type = .string ∨ type = .data)
    (hval : value.length < 2 ^ 32) :
    (decodeField body).run s =
      (.ok (Field.createData identifier type value),
        ⟨s.msg, s.buffer.advanceRead (fieldWire identifier type value).length⟩) := by
  have hmod : value.length % 256 ^ 4 = value.length :=
    Nat.mod_eq_of_lt (by rw [show 256 ^ 4 = 2 ^ 32 by norm_num]; exact hval)
  have hpeek := DecodeState.onBuffer_ok (peekFieldHeader_wire h)
  have hcreate := DecodeState.onBuffer_ok (createDataField_wire h hid hval)
  rw [hmod] at hpeek
  rw [decodeField, Exec.bind_ok hpeek]
  rcases htype with rfl | rfl
  · exact hcreate
  · exact hcreate

/-- A message field, given its payload: the sub-message is decoded into a message
of its own on the same cursor. -/
theorem leavesField_message (identifier : CString) (msg : Message)
    (hid : identifier.length < Field.identifierSize) (hbody : msg.body.length < 2 ^ 32)
    (hpayload : LeavesPayload msg.payload) : LeavesField (.message identifier msg) := by
  intro fuel s t h hfuel
  obtain ⟨flags, subject, payload, keys⟩ := msg
  have hwire : Field.wire (.message identifier ⟨flags, subject, payload, keys⟩) =
      fieldWire identifier .message (bodyWire payload.length (fieldsWire payload)) := by
    rw [Field.wire]
  rw [hwire] at h ⊢
  have hpeek := DecodeState.onBuffer_ok (peekFieldHeader_wire h)
  obtain ⟨hhead, hrest⟩ := readFieldHeader_wire h hid hbody
  have hlen := length_bodyWire payload.length (fieldsWire payload)
  replace hbody : (bodyWire payload.length (fieldsWire payload)).length < 2 ^ 32 := hbody
  have hcount : payload.length < 2 ^ 32 := by
    have := length_le_fieldsWire payload
    omega
  -- the fuel still covers what is behind the header
  have hcover : (s.buffer.advanceRead (MsgField.size + identifier.length)).rest.length ≤
      fuel + MsgHeader.size := by
    rw [ByteStorage.rest_advanceRead, List.length_drop, MsgField.size]
    omega
  have hdecode := decodeBody_leaves hpayload hcount (s := ⟨Message.new, s.buffer.advanceRead
    (MsgField.size + identifier.length)⟩) hrest hcover
  have hfresh : (DecodeState.onFresh (decodeBody (decodeFields fuel))).run
      ⟨s.msg, s.buffer.advanceRead (MsgField.size + identifier.length)⟩ =
      (.ok ((receivedAll payload).foldl Message.pushDecoded Message.new),
        ⟨s.msg, (s.buffer.advanceRead (MsgField.size + identifier.length)).advanceRead
          ((bodyWire payload.length (fieldsWire payload)).length -
            unread t (payload.isEmpty || fieldsEndEmpty payload))⟩) := by
    simp only [DecodeState.onFresh, hdecode]
  have hleft : unread t (payload.isEmpty || fieldsEndEmpty payload) ≤
      (bodyWire payload.length (fieldsWire payload)).length := by
    rw [hlen]
    exact (unread_le t _).trans (Nat.le_add_right _ _)
  rw [decodeField, Exec.bind_ok hpeek]
  show (createMessageField _).run s = _
  rw [createMessageField, Exec.bind_ok (DecodeState.onBuffer_ok hhead), Exec.bind_ok hfresh,
    Exec.pure_run, Field.received, Field.endsEmpty, length_fieldWire,
    ByteStorage.advanceRead_advanceRead, Nat.add_sub_assoc hleft]

mutual

theorem leavesField : ∀ field : Field, field.Formed → field.Measured → LeavesField field
  | .scalar identifier type data, hform, _ => by
      obtain ⟨hid, hlen, hcode, hstring, hdata, hdate, hmsg⟩ := hform
      intro fuel s t h _
      rw [Field.wire] at h ⊢
      have hpeek := DecodeState.onBuffer_ok (peekFieldHeader_wire h)
      have hcreate := DecodeState.onBuffer_ok (createScalarField_wire h hid hlen)
      rw [hcode] at hpeek hcreate
      rw [decodeField, Exec.bind_ok hpeek, Field.endsEmpty, unread_false]
      -- every type but the four excluded ones takes the `default` branch
      cases type <;> first | exact absurd rfl hstring | exact absurd rfl hdata |
        exact absurd rfl hdate | exact absurd rfl hmsg | exact hcreate
  | .dateTime identifier dataLength seconds microseconds, hform, _ => by
      intro fuel s t h _
      rw [Field.wire] at h ⊢
      have hpeek := DecodeState.onBuffer_ok (peekFieldHeader_wire h)
      rw [decodeField, Exec.bind_ok hpeek, Field.endsEmpty, unread_false]
      exact DecodeState.onBuffer_ok (createDateTimeField_wire h hform)
  | .smallData identifier type value, hform, hbound => by
      intro fuel s t h _
      rw [Field.wire] at h ⊢
      rw [Field.endsEmpty, unread_false]
      exact decodeData_wire h hform.1 hform.2 hbound
  | .largeData identifier type value, hform, hbound => by
      intro fuel s t h _
      rw [Field.wire] at h ⊢
      rw [Field.endsEmpty, unread_false]
      exact decodeData_wire h hform.1 hform.2 hbound
  | .message identifier ⟨flags, subject, payload, keys⟩, hform, hbound =>
      leavesField_message identifier ⟨flags, subject, payload, keys⟩ hform.1 hbound.1
        (leavesPayload payload hform.2 hbound.2)
termination_by structural field => field

theorem leavesPayload :
    ∀ fields : List Field, FieldsFormed fields → FieldsMeasured fields → LeavesPayload fields
  | [], _, _ => leavesPayload_nil
  | field :: rest, hform, hbound =>
      leavesPayload_cons (leavesField field hform.1 hbound.1)
        (leavesPayload rest hform.2 hbound.2)
termination_by structural fields => fields

end

/-! ## Without empty bodies -/

mutual

theorem Field.Bounded.measured : ∀ field : Field,
    field.Bounded → field.Measured ∧ field.endsEmpty = false
  | .scalar _ _ _, _ => ⟨trivial, rfl⟩
  | .dateTime _ _ _ _, _ => ⟨trivial, rfl⟩
  | .smallData _ _ _, h => ⟨h, rfl⟩
  | .largeData _ _ _, h => ⟨h, rfl⟩
  | .message identifier ⟨_, _, payload, _⟩, h => by
      obtain ⟨hmeasured, hends⟩ := FieldsBounded.measured payload h.2.2
      refine ⟨⟨h.2.1, hmeasured⟩, ?_⟩
      rw [Field.endsEmpty, hends, Bool.or_false]
      exact List.isEmpty_eq_false_iff.mpr h.1
termination_by structural field => field

theorem FieldsBounded.measured : ∀ fields : List Field,
    FieldsBounded fields → FieldsMeasured fields ∧ fieldsEndEmpty fields = false
  | [], _ => ⟨trivial, rfl⟩
  | field :: rest, h => by
      obtain ⟨hfield, hends⟩ := Field.Bounded.measured field h.1
      obtain ⟨hrest, hends'⟩ := FieldsBounded.measured rest h.2
      refine ⟨⟨hfield, hrest⟩, ?_⟩
      rw [fieldsEndEmpty, hends, hends', ite_self]
termination_by structural fields => fields

end

/-- The field loop in front of a payload without empty bodies. -/
def DecodesPayload (fields : List Field) : Prop :=
  ∀ (fuel : Nat) (s : DecodeState) (t : Bytes),
    s.buffer.rest = fieldsWire fields ++ t → s.buffer.rest.length ≤ fuel →
    (decodeFields fuel fields.length).run s =
      (.ok (), ⟨(receivedAll fields).foldl Message.pushDecoded s.msg,
        s.buffer.advanceRead (fieldsWire fields).length⟩)

theorem decodesPayload (fields : List Field) (hform : FieldsFormed fields)
    (hbound : FieldsBounded fields) : DecodesPayload fields := by
  obtain ⟨hmeasured, hends⟩ := FieldsBounded.measured fields hbound
  intro fuel s t h hfuel
  rw [leavesPayload fields hform hmeasured fuel s t h hfuel, hends, unread_false, Nat.sub_zero]

end Fastpath
