import Fastpath.Model.Codec

/-!
# The wire image, and what it is an image of

The codec is two programs over buffers. This file says what they agree on,
without a buffer in sight: `Message.wire` is the byte string a message is sent
as, built bottom up, so that no length is ever patched in afterwards; and
`Field.content` is what a field says, its identifier, storage type and value,
with a sub-message reduced to the contents of its own fields.

Two more views are needed in between. `Field.received` is the object a decoder
makes of a field's image. It says the same as the field, but it is not the
same object: the subject and flags of a sub-message do not travel.
`Field.Formed` and `Field.Bounded` say what makes an image readable: the first
is what the field constructors guarantee, the second what the fixed-width
slots of the format can hold.
-/

namespace Fastpath

open Fastpath.Lib

/-! ## Images -/

/-- The image of one field: header, identifier, value. -/
def fieldWire (identifier : CString) (type : StorageType) (value : Bytes) : Bytes :=
  leBytes 1 type.code.toNat ++ leBytes 1 identifier.length ++ leBytes 4 value.length ++
    identifier.bytes ++ value

/-- The image of a body: marker, field count, fields. -/
def bodyWire (count : Nat) (fields : Bytes) : Bytes :=
  leBytes 1 bodyFlag ++ leBytes 4 count ++ fields

mutual

def Field.wire : Field → Bytes
  | .scalar identifier type data => fieldWire identifier type data
  | .dateTime identifier _ seconds microseconds =>
      fieldWire identifier .dateTime (Field.timeBytes seconds microseconds)
  | .smallData identifier type value => fieldWire identifier type value
  | .largeData identifier type value => fieldWire identifier type value
  | .message identifier ⟨_, _, payload, _⟩ =>
      fieldWire identifier .message (bodyWire payload.length (fieldsWire payload))
termination_by structural f => f

def fieldsWire : List Field → Bytes
  | [] => []
  | field :: rest => field.wire ++ fieldsWire rest
termination_by structural fields => fields

end

namespace Message

def body (m : Message) : Bytes := bodyWire m.payload.length (fieldsWire m.payload)

/-- What stands behind the message length: flags, reserved word, subject and
body. -/
def afterLength (m : Message) : Bytes :=
  leBytes 1 m.flags.toNat ++ leBytes 4 0 ++ leBytes 2 (m.subjectString.length + 1) ++
    m.subjectString.terminated ++ m.body

def wire (m : Message) : Bytes :=
  leBytes 1 addressingFlag ++ leBytes 8 m.afterLength.length ++ m.afterLength

end Message

/-! ## Contents -/

inductive Content where
  | value (identifier : Bytes) (type : StorageType) (value : Bytes)
  | message (identifier : Bytes) (fields : List Content)

mutual

/-- Identifier, storage type and value of a field; of a sub-message, identifier
and fields. -/
def Field.content : Field → Content
  | .scalar identifier type data => .value identifier.bytes type data
  | .dateTime identifier _ seconds microseconds =>
      .value identifier.bytes .dateTime (Field.timeBytes seconds microseconds)
  | .smallData identifier type value => .value identifier.bytes type value
  | .largeData identifier type value => .value identifier.bytes type value
  | .message identifier ⟨_, _, payload, _⟩ => .message identifier.bytes (contents payload)
termination_by structural f => f

def contents : List Field → List Content
  | [] => []
  | field :: rest => field.content :: contents rest
termination_by structural fields => fields

end

/-- Two messages that say the same: flags, subject and fields. -/
structure Message.Agree (m m' : Message) : Prop where
  flags : m'.flags = m.flags
  subject : m'.subjectString = m.subjectString
  fields : contents m'.payload = contents m.payload

/-! ## What a decoder makes of an image -/

mutual

/-- The object `decode` builds from a field's image. -/
def Field.received : Field → Field
  | .scalar identifier type data => .scalar identifier type data
  | .dateTime identifier _ seconds microseconds =>
      .dateTime identifier MutableMessage.dateTimeSize seconds microseconds
  | .smallData identifier type value => Field.createData identifier type value
  | .largeData identifier type value => Field.createData identifier type value
  | .message identifier ⟨_, _, payload, _⟩ =>
      .message identifier ((receivedAll payload).foldl Message.pushDecoded Message.new)
termination_by structural f => f

def receivedAll : List Field → List Field
  | [] => []
  | field :: rest => field.received :: receivedAll rest
termination_by structural fields => fields

end

/-- The message `decode` makes of an image, given the object it decodes into. -/
def Message.receivedInto (target m : Message) : Message :=
  (receivedAll m.payload).foldl Message.pushDecoded
    { target with
      flags := m.flags
      subject := Message.copyFront target.subject m.subjectString.terminated }

/-! ## What the format can hold -/

mutual

/-- What the field constructors guarantee: the identifier has room in its array,
and the class goes with the type. -/
def Field.Formed : Field → Prop
  | .scalar identifier type data =>
      identifier.length < Field.identifierSize ∧ data.length ≤ Field.rawSize ∧
        StorageType.ofCode type.code = type ∧
        type ≠ .string ∧ type ≠ .data ∧ type ≠ .dateTime ∧ type ≠ .message
  | .dateTime identifier _ _ _ => identifier.length < Field.identifierSize
  | .smallData identifier type _ =>
      identifier.length < Field.identifierSize ∧ (type = .string ∨ type = .data)
  | .largeData identifier type _ =>
      identifier.length < Field.identifierSize ∧ (type = .string ∨ type = .data)
  | .message identifier ⟨_, _, payload, _⟩ =>
      identifier.length < Field.identifierSize ∧ FieldsFormed payload
termination_by structural f => f

def FieldsFormed : List Field → Prop
  | [] => True
  | field :: rest => field.Formed ∧ FieldsFormed rest
termination_by structural fields => fields

end

mutual

/-- A field the format can carry: its value, or the body of its message, is
shorter than a four-byte length can say, and no body is empty. -/
def Field.Bounded : Field → Prop
  | .scalar _ _ _ => True
  | .dateTime _ _ _ _ => True
  | .smallData _ _ value => value.length < 2 ^ 32
  | .largeData _ _ value => value.length < 2 ^ 32
  | .message _ ⟨_, _, payload, _⟩ =>
      payload ≠ [] ∧ (bodyWire payload.length (fieldsWire payload)).length < 2 ^ 32 ∧
        FieldsBounded payload
termination_by structural f => f

def FieldsBounded : List Field → Prop
  | [] => True
  | field :: rest => field.Bounded ∧ FieldsBounded rest
termination_by structural fields => fields

end

mutual

/-- A value, or the body of a message, is shorter than a four-byte length can say. -/
def Field.Measured : Field → Prop
  | .scalar _ _ _ => True
  | .dateTime _ _ _ _ => True
  | .smallData _ _ value => value.length < 2 ^ 32
  | .largeData _ _ value => value.length < 2 ^ 32
  | .message _ ⟨_, _, payload, _⟩ =>
      (bodyWire payload.length (fieldsWire payload)).length < 2 ^ 32 ∧ FieldsMeasured payload
termination_by structural f => f

def FieldsMeasured : List Field → Prop
  | [] => True
  | field :: rest => field.Measured ∧ FieldsMeasured rest
termination_by structural fields => fields

end

mutual

/-- The image ends with an empty body. -/
def Field.endsEmpty : Field → Bool
  | .scalar _ _ _ => false
  | .dateTime _ _ _ _ => false
  | .smallData _ _ _ => false
  | .largeData _ _ _ => false
  | .message _ ⟨_, _, payload, _⟩ => payload.isEmpty || fieldsEndEmpty payload
termination_by structural f => f

def fieldsEndEmpty : List Field → Bool
  | [] => false
  | field :: rest => if rest.isEmpty then field.endsEmpty else fieldsEndEmpty rest
termination_by structural fields => fields

end

/-- The body of the message ends with an empty one, or is one. -/
def Message.endsEmpty (m : Message) : Bool := m.payload.isEmpty || fieldsEndEmpty m.payload

/-- The messages the codec is meant for: built by the `MutableMessage` calls, at
least one field in every body, every value and nested body below `2 ^ 32` bytes,
and an image that some `size_t` capacity holds. -/
structure Message.Sendable (m : Message) : Prop where
  built : Built m
  nonempty : m.payload ≠ []
  bounded : FieldsBounded m.payload
  fits : m.wire.length < 2 ^ 64

/-- A small message: one byte under the identifier `v`, on the subject `A`. -/
def probeOf (value : UInt8) : Message :=
  ((MutableMessage.addScalarField (.ofString "v") (.uint8 value)).run
    (MutableMessage.setSubject (.ofString "A") Message.new).1).2

def probe : Message := probeOf 7

theorem probeOf_built (value : UInt8) : Built (probeOf value) := by
  have hadd : (MutableMessage.addScalarField (.ofString "v") (.uint8 value)).run
      (MutableMessage.setSubject (.ofString "A") Message.new).1 = (.ok true, probeOf value) := rfl
  exact .addScalarField (.setSubject _ .new) hadd

theorem probe_built : Built probe := probeOf_built 7

end Fastpath
