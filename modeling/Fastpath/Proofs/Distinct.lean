import Fastpath.Proofs.Typed

/-!
# Names in a decoded message

An `add*` call looks at the result of `m_keys.insert` and drops the field if the
name is taken. The decoder inserts too, and keeps the field either way. What it
makes of a body is therefore keyed as a built message is exactly if the body has
no name twice, and a name ends at its first zero byte.
-/

namespace Fastpath

open Fastpath.Lib

/-! ## Key discipline -/

/-- One key for each field, and each field is what its name finds. -/
structure Message.Keyed (m : Message) : Prop where
  count : m.keys.length = m.payload.length
  found : ∀ index field, m.payload[index]? = some field →
    m.find field.identifier = some index

mutual

/-- Every message inside the field is keyed. -/
def Field.Disciplined : Field → Prop
  | .scalar _ _ _ => True
  | .dateTime _ _ _ _ => True
  | .smallData _ _ _ => True
  | .largeData _ _ _ => True
  | .message _ ⟨flags, subject, payload, keys⟩ =>
      Message.Keyed ⟨flags, subject, payload, keys⟩ ∧ FieldsDisciplined payload
termination_by structural f => f

def FieldsDisciplined : List Field → Prop
  | [] => True
  | field :: rest => field.Disciplined ∧ FieldsDisciplined rest
termination_by structural fields => fields

end

/-- The message is keyed, and so is every message inside it. -/
structure Message.Disciplined (m : Message) : Prop where
  keyed : m.Keyed
  fields : FieldsDisciplined m.payload

def Message.names (m : Message) : List CString := m.payload.map Field.identifier

theorem Message.names_pushDecoded (m : Message) (field : Field) :
    (m.pushDecoded field).names = m.names ++ [field.identifier] := by
  rw [names, pushDecoded_payload, List.map_append, List.map_singleton, names]

theorem fieldsDisciplined_concat (fields : List Field) (field : Field) :
    FieldsDisciplined (fields ++ [field]) ↔ FieldsDisciplined fields ∧ field.Disciplined := by
  induction fields with
  | nil => exact ⟨fun h => ⟨trivial, h.1⟩, fun h => ⟨h.2, trivial⟩⟩
  | cons first rest ih => rw [List.cons_append, FieldsDisciplined, FieldsDisciplined, ih, and_assoc]

theorem Field.disciplined_message (identifier : CString) (msg : Message) :
    (Field.message identifier msg).Disciplined ↔ msg.Disciplined := by
  obtain ⟨flags, subject, payload, keys⟩ := msg
  exact ⟨fun h => ⟨h.1, h.2⟩, fun h => ⟨h.keyed, h.fields⟩⟩

theorem Field.disciplined_of_value {field : Field}
    (h : ∀ identifier msg, field ≠ .message identifier msg) :
    field.Disciplined := by
  cases field with
  | message identifier msg => exact absurd rfl (h identifier msg)
  | _ => trivial

namespace Message

theorem Indexed.find_eq_none {m : Message} (h : m.Indexed) {identifier : CString}
    (hnew : identifier ∉ m.names) : m.find identifier = none := by
  rw [h identifier, List.findIdx?_eq_none_iff]
  intro field hfield
  refine decide_eq_false fun heq => hnew ?_
  exact List.mem_map.mpr ⟨field, hfield, heq⟩

theorem Indexed.find_lt {m : Message} (h : m.Indexed) {identifier : CString}
    (htaken : identifier ∈ m.names) :
    ∃ index < m.payload.length, m.find identifier = some index := by
  obtain ⟨field, hfield, heq⟩ := List.mem_map.mp htaken
  cases hfind : m.find identifier with
  | some index =>
      rw [h identifier, List.findIdx?_eq_some_iff_getElem] at hfind
      exact ⟨index, hfind.1, rfl⟩
  | none =>
      rw [h identifier, List.findIdx?_eq_none_iff] at hfind
      exact absurd heq (of_decide_eq_false (hfind field hfield))

theorem find_concat (m : Message) (payload : List Field) (identifier other : CString)
    (index : Nat) :
    Message.find { m with payload := payload, keys := m.keys ++ [(identifier, index)] } other =
      (m.find other).or (if identifier = other then some index else none) := by
  rw [Message.find, Message.find, List.find?_append]
  cases m.keys.find? (·.1 = other) with
  | some key => rfl
  | none =>
      by_cases heq : identifier = other
      · simp [heq]
      · simp [heq]

theorem pushDecoded_taken {m : Message} {field : Field} {index : Nat}
    (h : m.find field.identifier = some index) :
    m.pushDecoded field = { m with payload := m.payload ++ [field] } := by
  rw [Message.pushDecoded, Message.insertKey, h]

theorem pushDecoded_new {m : Message} {field : Field} (h : m.find field.identifier = none) :
    m.pushDecoded field =
      { m with
        payload := m.payload ++ [field]
        keys := m.keys ++ [(field.identifier, m.payload.length)] } := by
  rw [Message.pushDecoded, Message.insertKey, h]

/-- A field pushed by the decoder keeps the message keyed exactly if its name is new. -/
theorem Indexed.keyed_pushDecoded {m : Message} (h : m.Indexed) (field : Field) :
    (m.pushDecoded field).Keyed ↔ m.Keyed ∧ field.identifier ∉ m.names := by
  have hlast : (m.payload ++ [field])[m.payload.length]? = some field := List.getElem?_concat_length
  have hold {index : Nat} {other : Field} (hother : m.payload[index]? = some other) :
      (m.payload ++ [field])[index]? = some other ∧ other ∈ m.payload := by
    have hmem := List.mem_of_getElem? hother
    obtain ⟨hlt, -⟩ := List.getElem?_eq_some_iff.mp hother
    rw [List.getElem?_append_left hlt]
    exact ⟨hother, hmem⟩
  by_cases htaken : field.identifier ∈ m.names
  · -- the name finds its first bearer, and the new field is not found
    obtain ⟨index, hlt, hfind⟩ := h.find_lt htaken
    rw [pushDecoded_taken hfind]
    constructor
    · intro hkeyed
      have hfound : m.find field.identifier = some m.payload.length := hkeyed.found _ field hlast
      rw [hfind, Option.some.injEq] at hfound
      omega
    · intro hkeyed
      exact absurd htaken hkeyed.2
  · have hfind := h.find_eq_none htaken
    rw [pushDecoded_new hfind, and_iff_left htaken]
    constructor
    · intro hkeyed
      have hcount := hkeyed.count
      rw [List.length_append, List.length_append] at hcount
      refine ⟨Nat.add_right_cancel hcount, fun index other hother => ?_⟩
      obtain ⟨hthere, hmem⟩ := hold hother
      have hfound := hkeyed.found index other hthere
      have hne : field.identifier ≠ other.identifier := by
        intro heq
        exact htaken (List.mem_map.mpr ⟨other, hmem, heq.symm⟩)
      rwa [find_concat, if_neg hne, Option.or_none] at hfound
    · intro hkeyed
      refine ⟨by rw [List.length_append, List.length_append, hkeyed.count]; rfl,
        fun index other hother => ?_⟩
      rw [find_concat]
      rcases Nat.lt_or_ge index m.payload.length with hlt | hge
      · rw [List.getElem?_append_left hlt] at hother
        rw [hkeyed.found index other hother, Option.some_or]
      · obtain ⟨hlt, hget⟩ := List.getElem?_eq_some_iff.mp hother
        have hindex : index = m.payload.length := by
          rw [List.length_append, List.length_singleton] at hlt
          omega
        subst hindex
        rw [hlast] at hother
        cases hother
        rw [hfind, Option.none_or, if_pos rfl]

theorem Indexed.disciplined_pushDecoded {m : Message} (h : m.Indexed) (field : Field) :
    (m.pushDecoded field).Disciplined ↔
      m.Disciplined ∧ field.identifier ∉ m.names ∧ field.Disciplined := by
  have hkeyed := h.keyed_pushDecoded field
  have hfields : FieldsDisciplined (m.pushDecoded field).payload ↔
      FieldsDisciplined m.payload ∧ field.Disciplined := by
    rw [pushDecoded_payload, fieldsDisciplined_concat]
  constructor
  · intro hpush
    obtain ⟨hm, hnew⟩ := hkeyed.mp hpush.keyed
    obtain ⟨hrest, hfield⟩ := hfields.mp hpush.fields
    exact ⟨⟨hm, hrest⟩, hnew, hfield⟩
  · intro h
    obtain ⟨hm, hnew, hfield⟩ := h
    exact ⟨hkeyed.mpr ⟨hm.keyed, hnew⟩, hfields.mpr ⟨hm.fields, hfield⟩⟩

end Message

/-! ## What the decoder makes of a body -/

/-- What is asked of the reader of a body: whether an empty message comes out disciplined is
a matter of the bytes. -/
def Disciplines (body : Exec Fault DecodeState Bool) (distinct : Bytes → Bool) : Prop :=
  ∀ (s s' : DecodeState) (answer : Bool), s.buffer.InRange → s.msg.payload = [] →
    s.msg.keys = [] → body.run s = (.ok answer, s') →
    (s'.msg.Disciplined ↔ distinct s.buffer.rest = true)

/-- What is asked of the field loop: the names of the fields read so far are not to come
again. -/
def DisciplinesFields (fields : Nat → Exec Fault DecodeState Unit)
    (distinct : List CString → Nat → Bytes → Bool) : Prop :=
  ∀ (count : Nat) (s s' : DecodeState), s.buffer.InRange → s.msg.Indexed →
    (fields count).run s = (.ok (), s') →
    (s'.msg.Disciplined ↔ s.msg.Disciplined ∧ distinct s.msg.names count s.buffer.rest = true)

theorem fieldExtent_within {body : Bytes → Extent (List Entry)} {r rest : Bytes} {entry : Entry}
    (h : fieldExtent body r = .within entry rest) :
    ∃ header value, headerExtent r = .within header value ∧ entry.1 = header.identifier := by
  obtain ⟨header, value, hheader, hvalue⟩ := Extent.of_bind h
  refine ⟨header, value, hheader, ?_⟩
  rw [valueExtent] at hvalue
  split at hvalue
  · cases hvalue
    rfl
  · cases hvalue
    rfl
  · split at hvalue
    · cases hvalue
      rfl
    · cases hvalue
  · obtain ⟨_, -, hentry⟩ := Extent.of_map hvalue
    rw [← hentry]
  · split at hvalue
    · cases hvalue
      rfl
    · cases hvalue

theorem decodeField_disciplined {body : Exec Fault DecodeState Bool} {distinct : Bytes → Bool}
    (hbody : Disciplines body distinct) {s s' : DecodeState} {field : Field} {header : FieldHeader}
    {value : Bytes} (hin : s.buffer.InRange)
    (hext : headerExtent s.buffer.rest = .within header value)
    (h : (decodeField body).run s = (.ok field, s')) :
    field.Disciplined ↔ (decide (header.type ≠ .message) || distinct value) = true := by
  have hsize : MsgField.size ≤ s.buffer.rest.length := by
    by_contra hshort
    rw [headerExtent, if_pos (Nat.lt_of_not_le hshort)] at hext
    cases hext
  obtain ⟨header', n, hext', hheader, hn, hfit, htype, -⟩ | ⟨hrefused, -⟩ :=
    readFieldHeader_run hin hsize
  · rw [hext] at hext'
    cases hext'
    rw [decodeField, Exec.bind_ok (DecodeState.onBuffer_ok (peekFieldHeader_ok hsize))] at h
    dsimp only at h
    rw [← htype] at h
    by_cases hmessage : header.type = .message
    · rw [hmessage] at h ⊢
      obtain ⟨header', s₁, hheader', h⟩ := Exec.of_bind_ok h
      rw [DecodeState.onBuffer_ok hheader] at hheader'
      cases hheader'
      obtain ⟨msg, s₂, hfresh, h⟩ := Exec.of_bind_ok h
      cases h
      obtain ⟨-, answer, hrun⟩ := DecodeState.of_onFresh_ok hfresh
      have hsub := hbody _ _ _ (hin.advanceRead (by omega)) rfl rfl hrun
      rw [ByteStorage.rest_advanceRead] at hsub
      rw [Field.disciplined_message, hsub]
      rfl
    · rw [decide_eq_true hmessage, Bool.true_or, iff_true_right rfl]
      refine Field.disciplined_of_value fun identifier msg heq => ?_
      subst heq
      split at h
      · obtain ⟨_, _, _, -, -, ⟨-, hfield⟩ | ⟨-, hfield⟩⟩ :=
          createDataField_ok (DecodeState.of_onBuffer_ok h).1
        · cases hfield
        · cases hfield
      · obtain ⟨_, _, _, -, -, ⟨-, hfield⟩ | ⟨-, hfield⟩⟩ :=
          createDataField_ok (DecodeState.of_onBuffer_ok h).1
        · cases hfield
        · cases hfield
      · obtain ⟨_, _, _, _, hfield⟩ := createDateTimeField_ok (DecodeState.of_onBuffer_ok h).1
        cases hfield
      · next htype' => exact hmessage htype'
      · obtain ⟨_, _, _, -, hfield⟩ := createScalarField_ok (DecodeState.of_onBuffer_ok h).1
        cases hfield
  · rw [hext] at hrefused
    cases hrefused

theorem Message.disciplined_of_empty {m : Message} (hpayload : m.payload = [])
    (hkeys : m.keys = []) :
    m.Disciplined := by
  refine ⟨⟨by rw [hpayload, hkeys]; rfl, fun index field hfield => ?_⟩, ?_⟩
  · rw [hpayload] at hfield
    cases hfield
  · rw [hpayload]
    trivial

theorem decodeBody_disciplined {fields : Nat → Exec Fault DecodeState Unit}
    {distinct : List CString → Nat → Bytes → Bool} (hfields : DisciplinesFields fields distinct) :
    Disciplines (decodeBody fields) (inBody (distinct [])) := by
  intro s s' answer hin hpayload hkeys h
  have hempty := Message.disciplined_of_empty hpayload hkeys
  rw [inBody]
  by_cases hsize : s.buffer.rest.length ≤ MsgHeader.size
  · rw [decodeBody_absent hin hsize] at h
    cases h
    rw [decide_eq_true hsize, Bool.true_or, Bool.true_or]
    exact iff_of_true hempty rfl
  · have hbehind := Nat.lt_of_not_le hsize
    rw [decide_eq_false hsize, Bool.false_or]
    by_cases hflag : leNat (s.buffer.rest.take 1) ≠ bodyFlag
    · rw [decodeBody_corrupt hin hbehind hflag] at h
      cases h
    · rw [decide_eq_false hflag, Bool.false_or]
      rw [decodeBody_counted hin hbehind hflag] at h
      obtain ⟨_, s₁, hloop, h⟩ := Exec.of_bind_ok h
      cases h
      have hread := hfields _ ⟨s.msg, s.buffer.advanceRead MsgHeader.size⟩ s'
        (hin.advanceRead hbehind.le) (Message.typed_of_empty hpayload hkeys).indexed hloop
      rw [hread, and_iff_right hempty, Message.names, hpayload, ByteStorage.rest_advanceRead]
      rfl

theorem decodeFields_disciplined (fuel : Nat) :
    DisciplinesFields (decodeFields fuel) (fieldsDistinct fuel) := by
  induction fuel with
  | zero =>
      intro count s s' hin hindexed h
      cases count with
      | zero =>
          cases h
          rw [fieldsDistinct, and_iff_left rfl]
      | succ count => cases h
  | succ fuel ih =>
      intro count s s' hin hindexed h
      cases count with
      | zero =>
          cases h
          rw [fieldsDistinct, and_iff_left rfl]
      | succ count =>
          have hbody : Disciplines (decodeBody (decodeFields fuel))
              (inBody (fieldsDistinct fuel [])) := decodeBody_disciplined ih
          have htracks : Tracks (decodeField (decodeBody (decodeFields fuel))) s
              (fieldExtent (bodyExtent (fieldsExtent fuel)) s.buffer.rest) (Reads s) :=
            decodeField_tracks (fun s hin =>
              (decodeBody_tracks (decodeFields_tracks fuel) hin).mono fun _ _ _ _ => trivial) hin
          obtain ⟨field, s₁, hfield, h⟩ := Exec.of_bind_ok h
          rw [Exec.bind_ok (Exec.modify_run _ _)] at h
          cases hext : fieldExtent (bodyExtent (fieldsExtent fuel)) s.buffer.rest with
          | within entry rest =>
              rw [hext] at htracks
              obtain ⟨field', msg, n, hrun, hn, rfl, rfl, hentry⟩ := htracks
              rw [hfield] at hrun
              cases hrun
              obtain ⟨header, value, hheader, hname⟩ := fieldExtent_within hext
              have hident : field.identifier = header.identifier := by
                rw [← hname, ← hentry]
                cases field <;> rfl
              have hinner := decodeField_disciplined hbody hin hheader hfield
              have hrest := ih count ⟨s.msg.pushDecoded field, s.buffer.advanceRead n⟩ s'
                (hin.advanceRead hn) (hindexed.pushDecoded field) h
              rw [ByteStorage.rest_advanceRead, hindexed.disciplined_pushDecoded,
                Message.names_pushDecoded, hident, hinner] at hrest
              rw [hrest, fieldsDistinct, hheader, hext]
              simp only [Bool.and_eq_true, decide_eq_true_eq, and_assoc]
          | refused =>
              rw [hext] at htracks
              obtain ⟨what, msg, n, hrun, -⟩ := htracks
              rw [hfield] at hrun
              cases hrun
          | past =>
              rw [hext] at htracks
              obtain ⟨e, s₂, hrun, -⟩ := htracks
              rw [hfield] at hrun
              cases hrun

/-! ## A whole message -/

/-- No name comes twice in the body of a message, or in one inside it. -/
def messageDistinct (r : Bytes) : Bool :=
  inBody (fieldsDistinct r.length []) (r.drop (MsgAddressing.size + subjectLengthAt r))

theorem inRange_of_decode {target : Message} {b : ByteStorage}
    (h : (Message.decode.run ⟨target, b⟩).1 = .ok true) : b.InRange := by
  by_contra hout
  rcases decode_outside hout target with herror | hfalse
  · rw [h] at herror
    cases herror
  · rw [h] at hfalse
    cases hfalse

/-- A message decoded into a cleared one is keyed as a built message is, at every depth,
exactly if no name comes twice. -/
theorem Message.disciplined_iff {target : Message} {b : ByteStorage}
    (h : (Message.decode.run ⟨target.clear, b⟩).1 = .ok true) :
    (Message.decode.run ⟨target.clear, b⟩).2.msg.Disciplined ↔ messageDistinct b.rest = true := by
  have hin := inRange_of_decode h
  obtain ⟨status, n, hstatus⟩ : ∃ status n, frameStatus b.rest = (status, n) := ⟨_, _, rfl⟩
  cases status with
  | complete =>
      by_cases hsubject : MsgAddressing.size + subjectLengthAt b.rest ≤ b.rest.length
      · rw [decode_addressed (s := ⟨target.clear, b⟩) hin hstatus hsubject] at h ⊢
        generalize hrun : (decodeBody (decodeFields b.rest.length)).run _ = result at h ⊢
        obtain ⟨answer, s'⟩ := result
        cases h
        have hbody := decodeBody_disciplined (decodeFields_disciplined b.rest.length) _ _ _
          (hin.advanceRead hsubject) rfl rfl hrun
        rwa [ByteStorage.rest_advanceRead] at hbody
      · rw [decode_overlong (s := ⟨target.clear, b⟩) hin hstatus hsubject] at h
        cases h
  | corrupt =>
      rw [decode_corrupt (s := ⟨target.clear, b⟩) hin hstatus] at h
      cases h
  | incomplete =>
      rw [decode_incomplete hin hstatus] at h
      cases h

/-- A message in a message, behind a field of its own. -/
def nestedProbe : Message :=
  { probe with payload := probe.payload ++ [.message (.ofString "m") probe] }

theorem probe_disciplined :
    (Message.decode.run ⟨Message.new.clear, .ofBytes nestedProbe.wire⟩).2.msg.Disciplined :=
  (Message.disciplined_iff rfl).mpr (by decide)

/-- Two fields under one name. -/
def twins : Bytes := Message.wire { probe with payload := probe.payload ++ probe.payload }

/-- `decode` accepts `twins`, with two fields and one key. -/
theorem twins_not_disciplined :
    let result := Message.decode.run ⟨Message.new.clear, .ofBytes twins⟩
    result.1 = .ok true ∧ result.2.msg.payload.length = 2 ∧ result.2.msg.keys.length = 1 ∧
      ¬ result.2.msg.Disciplined := by
  intro result
  have hpayload : result.2.msg.payload.length = 2 := rfl
  have hkeys : result.2.msg.keys.length = 1 := rfl
  refine ⟨rfl, hpayload, hkeys, fun h => ?_⟩
  have hcount := h.keyed.count
  omega

end Fastpath
