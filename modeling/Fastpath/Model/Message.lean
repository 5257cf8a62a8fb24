import Mathlib.Data.List.TakeWhile
import Fastpath.Model.Storage

/-!
# Fields and messages

A message is an ordered payload of fields, an index from identifiers into it,
a subject and a byte of flags. Fields come in five classes, and one of them
holds a message, so the two types are tied in a knot: `MessageOf φ` is
`fp::Message` over whatever its fields are, and `Field` puts itself in.

The source keeps strings in fixed arrays and reads them as C strings. An
identifier is only ever looked at through `strcmp`, `strlen` and `strcpy`, so
it is its C string here. The subject is different: `clear` writes one byte of
`m_subject` and the codec copies into it without adding a terminator, so the
array itself is kept, as the bytes written to it so far.
-/

namespace Fastpath

open Fastpath.Lib

/-! ## C strings -/

/-- A `const char *` argument: the bytes before its terminator. -/
structure CString where
  bytes : Bytes
  noNul : (0 : UInt8) ∉ bytes
deriving DecidableEq

namespace CString

/-- What a C string function sees of an array. -/
def ofArray (a : Bytes) : CString where
  bytes := a.takeWhile (· ≠ 0)
  noNul := by
    intro h
    have := List.mem_takeWhile_imp h
    simp at this

/-- A literal of the source; all of them are ASCII. -/
def ofString (s : String) : CString := ofArray (s.toList.map fun c => UInt8.ofNat c.toNat)

def length (s : CString) : Nat := s.bytes.length

def terminated (s : CString) : Bytes := s.bytes ++ [0]

/-- Read a C string out of a region: every byte up to the terminator is looked
at, and a region without one is read past its end. -/
def readFrom (region : Bytes) : Except Fault CString :=
  if (0 : UInt8) ∈ region then .ok (ofArray region) else .error .outOfBounds

end CString

/-! ## Storage types and scalars -/

/-- `fp::storage_type`. The wire carries an arbitrary `int8_t`, and the cast
gives the enumeration whatever it was; `outside` is a code no enumerator has. -/
inductive StorageType where
  | unknown | string | dateTime | boolean
  | uint8 | uint16 | uint32 | uint64
  | int8 | int16 | int32 | int64
  | float32 | float64 | data | message
  | outside (code : UInt8)
deriving DecidableEq, Repr

namespace StorageType

/-- The enumerator's value, as the byte on the wire. -/
def code : StorageType → UInt8
  | .unknown => 0 | .string => 1 | .dateTime => 2 | .boolean => 3
  | .uint8 => 4 | .uint16 => 5 | .uint32 => 6 | .uint64 => 7
  | .int8 => 8 | .int16 => 9 | .int32 => 10 | .int64 => 11
  | .float32 => 12 | .float64 => 13 | .data => 14 | .message => 15
  | .outside code => code

/-- `static_cast<storage_type>` of a wire code. -/
def ofCode (code : UInt8) : StorageType :=
  match code.toNat with
  | 0 => .unknown | 1 => .string | 2 => .dateTime | 3 => .boolean
  | 4 => .uint8 | 5 => .uint16 | 6 => .uint32 | 7 => .uint64
  | 8 => .int8 | 9 => .int16 | 10 => .int32 | 11 => .int64
  | 12 => .float32 | 13 => .float64 | 14 => .data | 15 => .message
  | _ => .outside code

end StorageType

/-- The arithmetic types `addScalarField` is overloaded on. The two floating
types are their bit patterns: nothing here computes with them. -/
inductive Scalar where
  | boolean (value : Bool)
  | int8 (value : Int8) | int16 (value : Int16) | int32 (value : Int32) | int64 (value : Int64)
  | uint8 (value : UInt8) | uint16 (value : UInt16) | uint32 (value : UInt32)
  | uint64 (value : UInt64)
  | float32 (bits : UInt32) | float64 (bits : UInt64)

namespace Scalar

def type : Scalar → StorageType
  | .boolean _ => .boolean
  | .int8 _ => .int8 | .int16 _ => .int16 | .int32 _ => .int32 | .int64 _ => .int64
  | .uint8 _ => .uint8 | .uint16 _ => .uint16 | .uint32 _ => .uint32 | .uint64 _ => .uint64
  | .float32 _ => .float32 | .float64 _ => .float64

/-- What `writeScalar(m_raw, value)` writes: `field_traits<T>::size` bytes. -/
def raw : Scalar → Bytes
  | .boolean value => leBytes 1 value.toNat
  | .int8 value => leBytes 1 value.toUInt8.toNat
  | .int16 value => leBytes 2 value.toUInt16.toNat
  | .int32 value => leBytes 4 value.toUInt32.toNat
  | .int64 value => leBytes 8 value.toUInt64.toNat
  | .uint8 value => leBytes 1 value.toNat
  | .uint16 value => leBytes 2 value.toNat
  | .uint32 value => leBytes 4 value.toNat
  | .uint64 value => leBytes 8 value.toNat
  | .float32 bits => leBytes 4 bits.toNat
  | .float64 bits => leBytes 8 bits.toNat

end Scalar

/-! ## Messages over fields -/

/-- `fp::Message` with the body of `fp::BaseMessage`, over its field type. -/
structure MessageOf (φ : Type) where
  flags : UInt8
  /-- `m_subject`: the bytes of the array written so far. -/
  subject : Bytes
  payload : List φ
  keys : List (CString × Nat)

/-- The five field classes. A scalar's `data` is the `m_data_length` bytes at the
front of `m_raw`, whose remaining bytes are zero; a data field's `value` is the
`m_data_length` bytes of its storage; a message field has length zero. -/
inductive Field where
  | scalar (identifier : CString) (type : StorageType) (data : Bytes)
  /-- `DateTimeField`. The constructor from a buffer keeps the declared length. -/
  | dateTime (identifier : CString) (dataLength : Nat) (seconds microseconds : Int64)
  | smallData (identifier : CString) (type : StorageType) (value : Bytes)
  | largeData (identifier : CString) (type : StorageType) (value : Bytes)
  | message (identifier : CString) (msg : MessageOf Field)

abbrev Message := MessageOf Field

namespace Field

/-- `SmallDataField::max_size`. -/
def smallDataMax : Nat := 256

def rawSize : Nat := 8

def identifierSize : Nat := 256

def identifier : Field → CString
  | .scalar id .. | .dateTime id .. | .smallData id .. | .largeData id .. | .message id _ => id

def type : Field → StorageType
  | .scalar _ type _ | .smallData _ type _ | .largeData _ type _ => type
  | .dateTime .. => .dateTime
  | .message .. => .message

/-- `createDataField(allocator, size, …)` for a field of the given type and
value: the class goes by the size. -/
def createData (identifier : CString) (type : StorageType) (value : Bytes) : Field :=
  if value.length ≤ smallDataMax then .smallData identifier type value
  else .largeData identifier type value

/-- `strcpy(m_identifier, identifier)`, which needs room for the terminator. -/
def copyIdentifier {σ : Type} (identifier : CString) : Exec Fault σ Unit :=
  if identifier.length < identifierSize then pure () else Exec.throw .overrun

end Field

namespace Message

def maxSubjectLength : Nat := 65535

/-- `Message()`: no flag is clear, no byte of the subject is written but the
first. -/
def new : Message where
  flags := 255
  subject := [0]
  payload := []
  keys := []

/-- `subject()`, as the C string it is read as. -/
def subjectString (m : Message) : CString := .ofArray m.subject

/-- `size()`, a `uint32_t`. -/
def size (m : Message) : Nat := m.payload.length % 2 ^ 32

/-- Copy `data` to the front of an array, the rest of which stays. -/
def copyFront (array data : Bytes) : Bytes := data ++ array.drop data.length

/-- `Message::clear`, which is also `prepareForReuse`. -/
def clear (m : Message) : Message where
  flags := 255
  subject := copyFront m.subject [0]
  payload := []
  keys := []

def find (m : Message) (identifier : CString) : Option Nat :=
  (m.keys.find? (·.1 = identifier)).map (·.2)

/-- `m_keys.insert({identifier, m_payload.size()})`, which keeps an entry that is
already there; the second component says whether it went in. -/
def insertKey (m : Message) (identifier : CString) : Message × Bool :=
  match m.find identifier with
  | some _ => (m, false)
  | none => ({ m with keys := m.keys ++ [(identifier, m.payload.length)] }, true)

/-- `m_keys.erase(identifier)`. -/
def eraseKey (m : Message) (identifier : CString) : Message :=
  { m with keys := m.keys.filter (·.1 ≠ identifier) }

/-- `getDataField(identifier, &value, length)`: the stored value, `none` for an
identifier the message does not have. The element is taken for a `DataField`
whatever it is. -/
def getDataField (m : Message) (identifier : CString) : Except Fault (Option Bytes) :=
  match m.find identifier with
  | none => .ok none
  | some index =>
      match m.payload[index]? with
      | some (.smallData _ _ value) | some (.largeData _ _ value) => .ok (some value)
      | some _ => .error .badCast
      | none => .error .outOfBounds

end Message

/-! ## Building a message -/

namespace MutableMessage

/-- `setSubject(subject)`: a subject that does not fit is refused. -/
def setSubject (subject : CString) (m : Message) : Message × Bool :=
  if subject.length < Message.maxSubjectLength then
    ({ m with subject := Message.copyFront m.subject subject.terminated }, true)
  else (m, false)

/-- The common tail of the `add*` calls: the new field is kept if its identifier
is new and destroyed otherwise. -/
def addField (e : Field) (m : Message) : Message × Bool :=
  match m.insertKey e.identifier with
  | (m, true) => ({ m with payload := m.payload ++ [e] }, true)
  | (m, false) => (m, false)

/-- One `add*` call: the identifier is copied into the field first. -/
def add (e : Field) : Exec Fault Message Bool := do
  Field.copyIdentifier e.identifier
  ⟨fun m => (.ok (addField e m).2, (addField e m).1)⟩

/-- `addScalarField(field, value)`, all eleven overloads. -/
def addScalarField (field : CString) (value : Scalar) : Exec Fault Message Bool :=
  add (.scalar field value.type value.raw)

/-- `addDataField(field, const char *)`: the value is stored with its
terminator. -/
def addStringField (field value : CString) : Exec Fault Message Bool :=
  add (Field.createData field .string value.terminated)

def addDataField (field : CString) (value : Bytes) : Exec Fault Message Bool :=
  add (Field.createData field .data value)

def addMessageField (field : CString) (msg : Message) : Exec Fault Message Bool :=
  add (.message field msg)

/-- `sizeof(m_time)`, `DateTimeField::data_size`. -/
def dateTimeSize : Nat := 16

def addDateTimeField (field : CString) (seconds microseconds : UInt64) : Exec Fault Message Bool :=
  add (.dateTime field dateTimeSize seconds.toInt64 microseconds.toInt64)

/-- `addDateTimeField(field, std::chrono::microseconds)`: `duration_cast` and `%`
both truncate towards zero. -/
def addMicroseconds (field : CString) (value : Int64) : Exec Fault Message Bool :=
  add (.dateTime field dateTimeSize (value / 1000000) (value % 1000000))

/-- `addDateTimeField(field, time_point)`, for a clock that ticks in
nanoseconds. -/
def addTimePoint (field : CString) (sinceEpoch : Int64) : Exec Fault Message Bool :=
  addMicroseconds field (sinceEpoch / 1000)

/-- `removeField(field)`, which may be null. The position is read from the entry of
`m_keys` after the entry has been erased: `freed` is what is found there by then. -/
def removeField (field : Option CString) (freed : Nat) : Exec Fault Message Bool :=
  ⟨fun m =>
    match field with
    | none => (.ok false, m)
    | some identifier =>
        match m.find identifier with
        | none => (.ok false, m)
        | some _ =>
            let m := m.eraseKey identifier
            if freed < m.payload.length then
              (.ok true, { m with payload := m.payload.eraseIdx freed })
            else (.error .outOfBounds, m)⟩

end MutableMessage

/-- The messages some sequence of `MutableMessage` calls builds, sub-messages
included. -/
inductive Built : Message → Prop where
  | new : Built Message.new
  | setSubject {m : Message} (subject : CString) (hm : Built m) :
      Built (MutableMessage.setSubject subject m).1
  | addScalarField {m m' : Message} {field : CString} {value : Scalar} {accepted : Bool}
      (hm : Built m) (h : (MutableMessage.addScalarField field value).run m = (.ok accepted, m')) :
      Built m'
  | addStringField {m m' : Message} {field value : CString} {accepted : Bool}
      (hm : Built m) (h : (MutableMessage.addStringField field value).run m = (.ok accepted, m')) :
      Built m'
  | addDataField {m m' : Message} {field : CString} {value : Bytes} {accepted : Bool}
      (hm : Built m) (h : (MutableMessage.addDataField field value).run m = (.ok accepted, m')) :
      Built m'
  | addDateTimeField {m m' : Message} {field : CString} {seconds microseconds : UInt64}
      {accepted : Bool} (hm : Built m)
      (h : (MutableMessage.addDateTimeField field seconds microseconds).run m =
          (.ok accepted, m')) :
      Built m'
  | addMicroseconds {m m' : Message} {field : CString} {value : Int64} {accepted : Bool}
      (hm : Built m) (h : (MutableMessage.addMicroseconds field value).run m = (.ok accepted, m')) :
      Built m'
  | addTimePoint {m m' : Message} {field : CString} {sinceEpoch : Int64} {accepted : Bool}
      (hm : Built m)
      (h : (MutableMessage.addTimePoint field sinceEpoch).run m = (.ok accepted, m')) :
      Built m'
  | addMessageField {m m' sub : Message} {field : CString} {accepted : Bool}
      (hm : Built m) (hsub : Built sub)
      (h : (MutableMessage.addMessageField field sub).run m = (.ok accepted, m')) : Built m'

/-! ## Editing a message -/

/-- A message with the identity of its fields: `m_payload` holds pointers, and the field that
was created as the `n`-th is known as `n`. -/
structure Allocated where
  message : Message
  addresses : List Nat
  created : Nat

namespace Allocated

inductive Edit where
  /-- One of the `add*` calls, with the field it creates. -/
  | add (e : Field)
  | removeField (field : Option CString) (freed : Nat)

def new : Allocated := ⟨.new, [], 0⟩

def step (s : Allocated) : Edit → Allocated
  | .add e =>
      match (MutableMessage.add e).run s.message with
      | (.ok true, message) => ⟨message, s.addresses ++ [s.created], s.created + 1⟩
      | (_, message) => { s with message := message, created := s.created + 1 }
  | .removeField field freed =>
      match (MutableMessage.removeField field freed).run s.message with
      | (.ok true, message) =>
          { s with message := message, addresses := s.addresses.eraseIdx freed }
      | (_, message) => { s with message := message }

/-- The field an identifier stands for: `m_payload[m_keys.at(identifier)]`. -/
def resolve (s : Allocated) (identifier : CString) : Option Nat :=
  (s.message.find identifier).bind (s.addresses[·]?)

end Allocated

end Fastpath
