import Fastpath.Model.Message

/-!
# Using a message

The calls on a message other than those of the codec: what a sequence of `add*`
and `clear` calls does, what the getters answer, and when two messages are
equal.

A getter takes the element it finds for an object of the class it was asked
for. Where it is of another class there is nothing to say about what is read,
and `badCast` stands for that. The type is looked at by an `assert` only, and
those are compiled out.

Equality walks the payload on its left and takes the one on its right to be at
least as long.
-/

namespace Fastpath

open Fastpath.Lib

/-! ## Calls -/

namespace MutableMessage

/-- The `add*` calls, seventeen overloads in all, and `clear`. -/
inductive Call where
  | addScalarField (field : CString) (value : Scalar)
  | addStringField (field value : CString)
  | addDataField (field : CString) (value : Bytes)
  | addMessageField (field : CString) (msg : Message)
  | addDateTimeField (field : CString) (seconds microseconds : UInt64)
  | addMicroseconds (field : CString) (value : Int64)
  | addTimePoint (field : CString) (sinceEpoch : Int64)
  | clear

/-- `clear` answers nothing. -/
def Call.run : Call → Exec Fault Message (Option Bool)
  | .addScalarField field value => some <$> MutableMessage.addScalarField field value
  | .addStringField field value => some <$> MutableMessage.addStringField field value
  | .addDataField field value => some <$> MutableMessage.addDataField field value
  | .addMessageField field msg => some <$> MutableMessage.addMessageField field msg
  | .addDateTimeField field seconds microseconds =>
      some <$> MutableMessage.addDateTimeField field seconds microseconds
  | .addMicroseconds field value => some <$> MutableMessage.addMicroseconds field value
  | .addTimePoint field sinceEpoch => some <$> MutableMessage.addTimePoint field sinceEpoch
  | .clear => do
      Exec.modify Message.clear
      pure none

/-- One call after another, with their answers. -/
def perform : List Call → Exec Fault Message (List (Option Bool))
  | [] => pure []
  | call :: calls => do
      let answer ← call.run
      let answers ← perform calls
      pure (answer :: answers)

end MutableMessage

/-! ## Getters -/

/-- The types `getScalarField` is overloaded on. -/
inductive ScalarType where
  | boolean
  | int8 | int16 | int32 | int64
  | uint8 | uint16 | uint32 | uint64
  | float32 | float64
deriving DecidableEq, Repr

namespace ScalarType

/-- `field_traits<T>::type`. -/
def type : ScalarType → StorageType
  | .boolean => .boolean
  | .int8 => .int8 | .int16 => .int16 | .int32 => .int32 | .int64 => .int64
  | .uint8 => .uint8 | .uint16 => .uint16 | .uint32 => .uint32 | .uint64 => .uint64
  | .float32 => .float32 | .float64 => .float64

/-- `field_traits<T>::size`. -/
def size : ScalarType → Nat
  | .boolean | .int8 | .uint8 => 1
  | .int16 | .uint16 => 2
  | .int32 | .uint32 | .float32 => 4
  | .int64 | .uint64 | .float64 => 8

end ScalarType

/-- `m_raw`, of which the constructors write the front. -/
def Field.rawArray (data : Bytes) : Bytes := data ++ List.replicate (rawSize - data.length) 0

namespace Message

/-- The element an identifier leads to. -/
def lookup (m : Message) (identifier : CString) : Option Field :=
  (m.find identifier).bind (m.payload[·]?)

/-- `getScalarField(field, value)`, for a `value` of type `T` and as its bytes; `field` may be
null. -/
def getScalarField (m : Message) (T : ScalarType) (field : Option CString) (value : Bytes) :
    Except Fault (Bool × Bytes) :=
  match field.bind m.find with
  | none => .ok (false, value)
  | some index =>
      match m.payload[index]? with
      | some (.scalar _ _ data) => .ok (true, (Field.rawArray data).take T.size)
      | some _ => .error .badCast
      | none => .error .outOfBounds

/-- `getDataField(field, value, length)` with its two references, which are written together. -/
def getDataFieldInto (m : Message) (field : Option CString) (value : Bytes) :
    Except Fault (Bool × Bytes) :=
  match field with
  | none => .ok (false, value)
  | some identifier =>
      match m.getDataField identifier with
      | .ok none => .ok (false, value)
      | .ok (some stored) => .ok (true, stored)
      | .error fault => .error fault

end Message

/-! ## Equality -/

/-- What `Field::operator==` compares before it asks the class. -/
def Field.sameBase (identifier identifier' : CString) (type type' : StorageType)
    (length length' : Nat) : Bool :=
  identifier = identifier' && type = type' && length = length'

mutual

/-- `*item1 == *item2`: identifier, type and length, then `isEqual` of the class. -/
def Field.equal : Field → Field → Except Fault Bool
  | .scalar identifier type data, .scalar identifier' type' data' =>
      .ok (Field.sameBase identifier identifier' type type' data.length data'.length &&
        Field.rawArray data = Field.rawArray data')
  | .dateTime identifier length seconds microseconds,
    .dateTime identifier' length' seconds' microseconds' =>
      .ok (Field.sameBase identifier identifier' .dateTime .dateTime length length' &&
        seconds = seconds' && microseconds = microseconds')
  | .smallData identifier type value, .smallData identifier' type' value' =>
      .ok (Field.sameBase identifier identifier' type type' value.length value'.length &&
        value = value')
  | .largeData identifier type value, .largeData identifier' type' value' =>
      .ok (Field.sameBase identifier identifier' type type' value.length value'.length &&
        value = value')
  | .message identifier msg, .message identifier' msg' =>
      if Field.sameBase identifier identifier' .message .message 0 0 then Message.equal msg msg'
      else .ok false
  | _, _ => .ok false
termination_by structural f => f

/-- `Message::operator==`. -/
def Message.equal : Message → Message → Except Fault Bool
  | ⟨flags, subject, payload, _⟩, ⟨flags', subject', payload', _⟩ =>
      if flags = flags' ∧ CString.ofArray subject = CString.ofArray subject' then
        equalFields payload payload'
      else .ok false
termination_by structural m => m

/-- `std::equal(begin, end, other.begin)`. -/
def equalFields : List Field → List Field → Except Fault Bool
  | [], _ => .ok true
  | _ :: _, [] => .error .outOfBounds
  | field :: rest, field' :: rest' =>
      match field.equal field' with
      | .ok true => equalFields rest rest'
      | answer => answer
termination_by structural fields => fields

end

end Fastpath
