import Fastpath.Model.Access
import Fastpath.Proofs.Inside
import Fastpath.Proofs.Made

/-!
# Asking for a type

A field's class goes by its type, whoever made it: the `add*` calls choose both
together, and the decoder looks at the type on the wire before it chooses the
class. So an element of the right type is an object of the right class, and a
getter that is asked for its type reads what is stored. Asked for any other type
it reads something too, for nothing looks at the type again.
-/

namespace Fastpath

open Fastpath.Lib

/-! ## Classes go with types -/

/-- The class of the field is the one for its type. -/
def Field.Classed : Field → Prop
  | .scalar _ type _ => type ≠ .string ∧ type ≠ .data ∧ type ≠ .dateTime ∧ type ≠ .message
  | .smallData _ type _ | .largeData _ type _ => type = .string ∨ type = .data
  | .dateTime .. => True
  | .message .. => True

theorem Field.Formed.classed {field : Field} (h : field.Formed) : field.Classed := by
  cases field with
  | scalar identifier type data => exact h.2.2.2
  | smallData identifier type value => exact h.2
  | largeData identifier type value => exact h.2
  | dateTime identifier dataLength seconds microseconds => trivial
  | message identifier msg => trivial

theorem Field.Made.classed {field : Field} (h : field.Made) : field.Classed := by
  cases field with
  | scalar identifier type data => exact h
  | smallData identifier type value => exact h.1
  | largeData identifier type value => exact h.1
  | dateTime identifier dataLength seconds microseconds => trivial
  | message identifier msg => trivial

/-- The index finds the first field of a name, and every field has the class of its type. -/
structure Message.Typed (m : Message) : Prop where
  indexed : m.Indexed
  classed : ∀ field ∈ m.payload, field.Classed

theorem Message.typed_of_empty {m : Message} (hpayload : m.payload = []) (hkeys : m.keys = []) :
    m.Typed := by
  refine ⟨fun identifier => ?_, fun field hfield => ?_⟩
  · rw [Message.find, hkeys, hpayload]
    rfl
  · rw [hpayload] at hfield
    cases hfield

theorem Message.Typed.pushDecoded {m : Message} (h : m.Typed) {field : Field}
    (hfield : field.Classed) : (m.pushDecoded field).Typed := by
  refine ⟨h.indexed.pushDecoded field, fun other hother => ?_⟩
  rw [Message.pushDecoded_payload] at hother
  rcases List.mem_append.mp hother with hold | hlast
  · exact h.classed other hold
  · rw [List.mem_singleton.mp hlast]
    exact hfield

theorem mem_formed {fields : List Field} (h : FieldsFormed fields) :
    ∀ field ∈ fields, field.Formed := by
  induction fields with
  | nil => exact fun _ hfield => (by cases hfield)
  | cons first rest ih => exact List.forall_mem_cons.mpr ⟨h.1, ih h.2⟩

/-- An accepted call adds to the payload what decoding the field would add. -/
theorem MutableMessage.add_indexed {e : Field} {m m' : Message} {accepted : Bool}
    (h : (add e).run m = (.ok accepted, m')) (hm : m.Indexed) : m'.Indexed := by
  obtain ⟨-, ⟨-, rfl⟩ | ⟨-, hnew, rfl⟩⟩ := add_cases h
  · exact hm
  · have hpush := hm.pushDecoded e
    rwa [Message.pushDecoded, Message.insertKey, hnew] at hpush

theorem Built.indexed {m : Message} (h : Built m) : m.Indexed := by
  induction h with
  | new => exact (Message.typed_of_empty rfl rfl).indexed
  | setSubject subject _ ih =>
      rw [MutableMessage.setSubject]
      split <;> exact ih
  | addScalarField _ hadd ih | addStringField _ hadd ih | addDataField _ hadd ih
  | addDateTimeField _ hadd ih | addMicroseconds _ hadd ih | addTimePoint _ hadd ih =>
      exact MutableMessage.add_indexed hadd ih
  | addMessageField _ _ hadd ih _ => exact MutableMessage.add_indexed hadd ih

theorem Built.typed {m : Message} (h : Built m) : m.Typed :=
  ⟨h.indexed, fun field hfield => (mem_formed h.formed field hfield).classed⟩

/-! ## Decoding keeps it so -/

theorem decode_typed {target : Message} (hpayload : target.payload = []) (hkeys : target.keys = [])
    {b : ByteStorage} {answer : Bool} {s : DecodeState}
    (h : Message.decode.run ⟨target, b⟩ = (.ok answer, s)) : s.msg.Typed := by
  rw [Message.decode, Exec.bind_ok (Exec.get_run _)] at h
  obtain ⟨⟨status, addressing⟩, s₁, haddr, h⟩ := Exec.of_bind_ok h
  obtain ⟨-, hmsg⟩ := DecodeState.of_onBuffer_ok haddr
  dsimp only at h hmsg
  split at h
  · rw [Exec.bind_ok (Exec.modify_run _ _)] at h
    obtain ⟨subject, s₂, hcopy, h⟩ := Exec.of_bind_ok h
    obtain ⟨-, hmsg'⟩ := DecodeState.of_onBuffer_ok hcopy
    rw [Exec.bind_ok (Exec.modify_run _ _)] at h
    refine decodeBody_ensures (fun m field hm hmade => hm.pushDecoded hmade.classed) _ _ _ _ ?_ h
    refine Message.typed_of_empty ?_ ?_
    · rw [hmsg', hmsg]
      exact hpayload
    · rw [hmsg', hmsg]
      exact hkeys
  · cases h
  · cases h
    rw [hmsg]
    exact Message.typed_of_empty hpayload hkeys

/-! ## What a getter answers -/

/-- The messages a getter is called on: built by calls, or decoded into a cleared one. -/
inductive Obtained : Message → Prop where
  | built {m : Message} (h : Built m) : Obtained m
  | decoded {target : Message} {b : ByteStorage} {s : DecodeState}
      (h : Message.decode.run ⟨target.clear, b⟩ = (.ok true, s)) : Obtained s.msg

theorem Obtained.typed {m : Message} (h : Obtained m) : m.Typed := by
  cases h with
  | built h => exact h.typed
  | decoded h => exact decode_typed rfl rfl h

/-- The value of type `T` that a field stores. -/
def Field.valueAs (T : ScalarType) : Field → Option Bytes
  | .scalar _ _ data => some ((Field.rawArray data).take T.size)
  | _ => none

namespace Message

/-- The element a getter is asked about, if there is one. -/
def asked (m : Message) (field : Option CString) : Option Field := field.bind m.lookup

/-- What is promised of a getter for a type: the stored value for a field of that type, and
`false` with the output as it was for anything else. -/
structure Safe (asked : Option Field) (type : StorageType) (stores : Field → Option Bytes)
    (value : Bytes) (answer : Except Fault (Bool × Bytes)) : Prop where
  stored : ∀ e ∈ asked, e.type = type →
    ∃ stored, stores e = some stored ∧ answer = .ok (true, stored)
  refused : (∀ e ∈ asked, e.type ≠ type) → answer = .ok (false, value)

def ScalarSafe (m : Message) (T : ScalarType) (field : Option CString) (value : Bytes) : Prop :=
  Safe (m.asked field) T.type (Field.valueAs T) value (m.getScalarField T field value)

/-- `getDataField` is for strings. -/
def DataSafe (m : Message) (field : Option CString) (value : Bytes) : Prop :=
  Safe (m.asked field) .string (·.entry.2) value (m.getDataFieldInto field value)

/-- What a getter answers that takes every element for one of its class. -/
def untyped (asked : Option Field) (stores : Field → Option Bytes) (value : Bytes) :
    Except Fault (Bool × Bytes) :=
  match asked with
  | none => .ok (false, value)
  | some e =>
      match stores e with
      | some stored => .ok (true, stored)
      | none => .error .badCast

/-- Such a getter never refuses a field. -/
theorem safe_untyped_iff {asked : Option Field} {type : StorageType}
    {stores : Field → Option Bytes} {value : Bytes}
    (hstores : ∀ e ∈ asked, e.type = type → ∃ stored, stores e = some stored) :
    Safe asked type stores value (untyped asked stores value) ↔ ∀ e ∈ asked, e.type = type := by
  cases asked with
  | none =>
      exact ⟨fun _ e he => (by cases he), fun _ => ⟨fun e he => (by cases he), fun _ => rfl⟩⟩
  | some e =>
      refine ⟨fun hsafe e' he' => ?_, fun htype => ⟨fun e' he' htype' => ?_, fun hne => ?_⟩⟩
      · cases he'
        by_contra hne
        have hrefused := hsafe.refused fun e' he' => Option.some.inj he' ▸ hne
        rw [untyped] at hrefused
        split at hrefused <;> cases hrefused
      · cases he'
        obtain ⟨stored, hstored⟩ := hstores e rfl htype'
        refine ⟨stored, hstored, ?_⟩
        rw [untyped]
        rw [hstored]
      · exact absurd (htype e rfl) (hne e rfl)

variable {m : Message}

theorem asked_of_find (h : m.Indexed) {field : Option CString} {index : Nat}
    (hfind : field.bind m.find = some index) :
    ∃ e, m.payload[index]? = some e ∧ m.asked field = some e := by
  obtain ⟨identifier, rfl, hidx⟩ := Option.bind_eq_some_iff.mp hfind
  have hplace := hidx
  rw [h] at hplace
  obtain ⟨hlt, -⟩ := List.findIdx?_eq_some_iff_getElem.mp hplace
  refine ⟨_, List.getElem?_eq_getElem hlt, ?_⟩
  rw [asked, Option.bind_some, lookup, hidx, Option.bind_some, List.getElem?_eq_getElem hlt]

theorem asked_of_not_find {field : Option CString} (hfind : field.bind m.find = none) :
    m.asked field = none := by
  cases field with
  | none => rfl
  | some identifier =>
      rw [Option.bind_some] at hfind
      rw [asked, Option.bind_some, lookup, hfind, Option.bind_none]

theorem getScalarField_eq (h : m.Indexed) (T : ScalarType) (field : Option CString)
    (value : Bytes) :
    m.getScalarField T field value = untyped (m.asked field) (Field.valueAs T) value := by
  rw [getScalarField]
  cases hfind : field.bind m.find with
  | none =>
      rw [asked_of_not_find hfind]
      rfl
  | some index =>
      obtain ⟨e, hat, hasked⟩ := asked_of_find h hfind
      dsimp only
      rw [hasked, hat]
      cases e <;> rfl

theorem getDataFieldInto_eq (h : m.Indexed) (field : Option CString) (value : Bytes) :
    m.getDataFieldInto field value = untyped (m.asked field) (·.entry.2) value := by
  cases field with
  | none => rfl
  | some identifier =>
      rw [getDataFieldInto]
      rw [getDataField]
      cases hfind : m.find identifier with
      | none =>
          rw [asked_of_not_find (by rwa [Option.bind_some])]
          rfl
      | some index =>
          obtain ⟨e, hat, hasked⟩ := asked_of_find h (by rwa [Option.bind_some])
          rw [hasked]
          dsimp only
          rw [hat]
          cases e <;> rfl

end Message

theorem ScalarType.type_scalar (T : ScalarType) :
    T.type ≠ .string ∧ T.type ≠ .data ∧ T.type ≠ .dateTime ∧ T.type ≠ .message := by
  cases T <;> decide

/-- A field of a scalar type stores a scalar. -/
theorem Field.Classed.valueAs {e : Field} (h : e.Classed) {T : ScalarType}
    (htype : e.type = T.type) : ∃ stored, e.valueAs T = some stored := by
  obtain ⟨hstring, hdata, htime, hmessage⟩ := T.type_scalar
  rw [← htype] at hstring hdata htime hmessage
  cases e with
  | scalar identifier type data => exact ⟨_, rfl⟩
  | dateTime identifier length seconds microseconds => exact absurd rfl htime
  | smallData identifier type value => exact (h.elim hstring hdata).elim
  | largeData identifier type value => exact (h.elim hstring hdata).elim
  | message identifier msg => exact absurd rfl hmessage

/-- A field of the string type stores a string. -/
theorem Field.Classed.string {e : Field} (h : e.Classed) (htype : e.type = .string) :
    ∃ stored, e.entry.2 = some stored := by
  cases e with
  | scalar identifier type data => exact absurd htype h.1
  | dateTime identifier length seconds microseconds => cases htype
  | smallData identifier type value => exact ⟨value, rfl⟩
  | largeData identifier type value => exact ⟨value, rfl⟩
  | message identifier msg => cases htype

theorem Message.mem_of_asked {m : Message} {field : Option CString} {e : Field}
    (h : m.asked field = some e) : e ∈ m.payload := by
  obtain ⟨identifier, -, hlookup⟩ := Option.bind_eq_some_iff.mp h
  obtain ⟨index, -, hat⟩ := Option.bind_eq_some_iff.mp hlookup
  exact List.mem_of_getElem? hat

/-- A getter does what is promised of it if and only if there is no such field, or one of the
type it is asked for. -/
theorem safe_iff_type {m : Message} (h : Obtained m) (T : ScalarType) (field : Option CString)
    (value : Bytes) :
    (m.ScalarSafe T field value ↔ ∀ e ∈ m.asked field, e.type = T.type) ∧
      (m.DataSafe field value ↔ ∀ e ∈ m.asked field, e.type = .string) := by
  have htyped := h.typed
  have hclassed (e : Field) (he : e ∈ m.asked field) : e.Classed :=
    htyped.classed e (Message.mem_of_asked he)
  constructor
  · rw [Message.ScalarSafe, Message.getScalarField_eq htyped.indexed]
    exact Message.safe_untyped_iff fun e he htype => (hclassed e he).valueAs htype
  · rw [Message.DataSafe, Message.getDataFieldInto_eq htyped.indexed]
    exact Message.safe_untyped_iff fun e he htype => (hclassed e he).string htype

/-- A byte asked for as a byte, and as a string. -/
theorem safe_probe :
    Obtained probe ∧
      ((probe.ScalarSafe .uint8 (some (.ofString "v")) [0] ↔
          ∀ e ∈ probe.asked (some (.ofString "v")), e.type = .uint8) ∧
        (probe.DataSafe (some (.ofString "v")) [] ↔
          ∀ e ∈ probe.asked (some (.ofString "v")), e.type = .string)) := by
  have h : Obtained probe := .built probe_built
  exact ⟨h, (safe_iff_type h .uint8 _ _).1, (safe_iff_type h .uint8 _ _).2⟩

/-- A byte asked for as a 32 bit integer is answered with `true`. -/
theorem widened_not_safe :
    Obtained probe ∧
      probe.getScalarField .uint32 (some (.ofString "v")) [9, 9, 9, 9] =
        .ok (true, [7, 0, 0, 0]) ∧
      ¬ probe.ScalarSafe .uint32 (some (.ofString "v")) [9, 9, 9, 9] := by
  refine ⟨.built probe_built, rfl, fun hsafe => ?_⟩
  have hrefused := hsafe.refused fun e he => by
    cases he
    decide
  cases hrefused

end Fastpath
