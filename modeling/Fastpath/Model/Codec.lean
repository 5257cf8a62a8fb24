import Fastpath.Model.Message

/-!
# The codec

`encode` is written against a storage that may move under it. It reserves a
slot, appends, and comes back to fill the slot through the pointer it kept:
eight bytes of message length after the first marker, and four bytes of data
length in front of every sub-message. `decode` is written against a cursor and
recurses into sub-messages on the same cursor: nothing but the field count of
a body says where that body ends.

The field loop of `decode` takes a fuel that is bookkeeping. A field that is
read at all takes its header's six bytes off the buffer, so the number of
unread bytes bounds the fields that can still be read, at every depth
together; and where the fuel would run out there is no byte left, which is the
read past the end the loop would make next.
-/

namespace Fastpath

open Fastpath.Lib

/-! ## The wire's constants -/

namespace MsgAddressing

def msgLengthOffset : Nat := 9

/-- `size()`: marker, message length, flags, reserved word, subject length. -/
def size : Nat := 16

end MsgAddressing

/-- `MsgHeader::size()`: marker and field count. -/
def MsgHeader.size : Nat := 5

/-- `MsgField::size()`: type, identifier length, data length. -/
def MsgField.size : Nat := 6

def addressingFlag : Nat := 1

def bodyFlag : Nat := 2

/-! ## Encoding -/

/-- `Field::encode(buffer, data, data_length)`. -/
def Field.encodeData (identifier : CString) (type : StorageType) (data : Bytes)
    (buffer : MutableByteStorage) : Nat × MutableByteStorage :=
  let buffer := buffer.appendScalar 1 type.code.toNat
  let buffer := buffer.appendScalar 1 identifier.length
  let buffer := buffer.appendScalar 4 data.length
  let buffer := buffer.append identifier.bytes
  let buffer := buffer.append data
  (MsgField.size + identifier.length + data.length, buffer)

def Field.timeBytes (seconds microseconds : Int64) : Bytes :=
  leBytes 8 seconds.toUInt64.toNat ++ leBytes 8 microseconds.toUInt64.toNat

mutual

/-- `Field::encode(buffer)`, by class. -/
def Field.encode : Field → MutableByteStorage → Nat × MutableByteStorage
  | .scalar identifier type data, buffer => Field.encodeData identifier type data buffer
  | .dateTime identifier _ seconds microseconds, buffer =>
      Field.encodeData identifier .dateTime (Field.timeBytes seconds microseconds) buffer
  | .smallData identifier type value, buffer => Field.encodeData identifier type value buffer
  | .largeData identifier type value, buffer => Field.encodeData identifier type value buffer
  | .message identifier msg, buffer =>
      let buffer := buffer.appendScalar 1 StorageType.message.code.toNat
      let buffer := buffer.appendScalar 1 identifier.length
      let (dataLenPtr, buffer) := buffer.allocate 4
      let buffer := buffer.append identifier.bytes
      let (dataLength, buffer) := Message.encodeBody msg buffer
      let buffer := buffer.writeScalar dataLenPtr 4 dataLength
      (MsgField.size + identifier.length + dataLength, buffer)
termination_by structural f => f

/-- `MessageCodec::encode(const BaseMessage *, buffer)`. -/
def Message.encodeBody : Message → MutableByteStorage → Nat × MutableByteStorage
  | ⟨_, _, payload, _⟩, buffer =>
      let buffer := buffer.appendScalar 1 bodyFlag
      -- `size()` is a `uint32_t`
      let buffer := buffer.appendScalar 4 (payload.length % 2 ^ 32)
      let (msgLength, buffer) := encodeFields payload buffer
      (MsgHeader.size + msgLength, buffer)
termination_by structural m => m

/-- The loop of `encode` over `m_payload`, answering the summed lengths. -/
def encodeFields : List Field → MutableByteStorage → Nat × MutableByteStorage
  | [], buffer => (0, buffer)
  | field :: rest, buffer =>
      let (n, buffer) := field.encode buffer
      let (k, buffer) := encodeFields rest buffer
      (n + k, buffer)
termination_by structural fields => fields

end

/-- `MessageCodec::encode(const Message *, buffer)`. -/
def Message.encode (msg : Message) (buffer : MutableByteStorage) : Nat × MutableByteStorage :=
  let addressingSize := MsgAddressing.size
  let buffer := buffer.appendScalar 1 addressingFlag
  let (lengthPtr, buffer) := buffer.allocate 8
  let buffer := buffer.appendScalar 1 msg.flags.toNat
  let buffer := buffer.appendScalar 4 0
  let subjectLength := msg.subjectString.length + 1
  let buffer := buffer.appendScalar 2 subjectLength
  let buffer := buffer.append msg.subjectString.terminated
  let addressingSize := addressingSize + subjectLength
  let (bodyLength, buffer) := msg.encodeBody buffer
  let totalLen := addressingSize + bodyLength
  let buffer := buffer.writeScalar lengthPtr 8 (totalLen - MsgAddressing.msgLengthOffset)
  (totalLen, buffer)

/-- What `encode` leaves in a new storage with room for all of it. -/
def Message.encoded (msg : Message) : Bytes :=
  let room := (msg.encode (MutableByteStorage.new 0 fun _ _ => 0)).1
  (msg.encode (MutableByteStorage.new room fun _ _ => 0)).2.stored

/-! ## Looking at the head of a buffer -/

inductive DecodeStatus where
  | complete | incomplete | corrupt
deriving DecidableEq, Repr

/-- `have_complete_message`: the status, and `msg_length` as its callers find it,
who all start it at zero. The sum is a `size_t` one. -/
def haveCompleteMessage : Exec Fault ByteStorage (DecodeStatus × Nat) := do
  let buffer ← Exec.get
  if buffer.remainingReadLength ≥ MsgAddressing.size then
    let chk ← ByteStorage.peekScalar 0 1
    if chk ≠ addressingFlag then pure (.corrupt, 0)
    else
      let field ← ByteStorage.peekScalar 1 8
      let msgLength := (field + MsgAddressing.msgLengthOffset) % 2 ^ 64
      if buffer.remainingReadLength ≥ msgLength then pure (.complete, msgLength)
      else pure (.incomplete, msgLength)
  else pure (.incomplete, 0)

/-- What `addressing_details` writes through its out parameters for a complete
message. The subject is a pointer into the buffer. -/
structure Addressing where
  subject : Nat
  subjectLength : Nat
  flags : UInt8
  msgLength : Nat

/-- `addressing_details`: for a complete message, step over the addressing and the
subject. -/
def addressingDetails : Exec Fault ByteStorage (DecodeStatus × Option Addressing) := do
  let (status, msgLength) ← haveCompleteMessage
  match status with
  | .complete =>
      Exec.modify (ByteStorage.advanceRead 1)
      Exec.modify (ByteStorage.advanceRead 8)
      let flags ← ByteStorage.peekScalar 0 1
      Exec.modify (ByteStorage.advanceRead 1)
      Exec.modify (ByteStorage.advanceRead 4)
      let subjectLength ← ByteStorage.peekScalar 0 2
      Exec.modify (ByteStorage.advanceRead 2)
      let buffer ← Exec.get
      Exec.modify (ByteStorage.advanceRead subjectLength)
      pure (.complete, some ⟨buffer.read, subjectLength, UInt8.ofNat flags, msgLength⟩)
  | status => pure (status, none)

/-! ## Decoding -/

/-- `Field::peek_field_header`: type, identifier length and data length, whether
or not six bytes are there. -/
def peekFieldHeader : Exec Fault ByteStorage (StorageType × Nat × Nat) := do
  let type ← ByteStorage.peekScalar 0 1
  let identifierLength ← ByteStorage.peekScalar 1 1
  let dataSize ← ByteStorage.peekScalar 2 4
  pure (.ofCode (UInt8.ofNat type), identifierLength, dataSize)

/-- What the constructor `Field(buffer)` sets up. -/
structure FieldHeader where
  type : StorageType
  identifier : CString
  dataLength : Nat

/-- `Field(buffer)`. -/
def readFieldHeader : Exec Fault ByteStorage FieldHeader := do
  let buffer ← Exec.get
  if buffer.remainingReadLength ≥ MsgField.size then
    let type ← ByteStorage.readScalar 1
    let identifierLength ← ByteStorage.readScalar 1
    let dataLength ← ByteStorage.readScalar 4
    let buffer ← Exec.get
    if buffer.remainingReadLength ≥ identifierLength then
      let identifier ← ByteStorage.peekBytes 0 identifierLength
      Exec.modify (ByteStorage.advanceRead identifierLength)
      let buffer ← Exec.get
      if buffer.remainingReadLength ≥ dataLength then
        pure ⟨.ofCode (UInt8.ofNat type), .ofArray identifier, dataLength⟩
      else Exec.throw (.exception "Decode failed")
    else Exec.throw (.exception "Decode failed")
  else Exec.throw (.exception "Decode failed")

/-- `ScalarField(buffer)`: `m_data_length` bytes go into `m_raw`. -/
def createScalarField : Exec Fault ByteStorage Field := do
  let header ← readFieldHeader
  let data ← ByteStorage.peekBytes 0 header.dataLength
  if header.dataLength ≤ Field.rawSize then
    Exec.modify (ByteStorage.advanceRead header.dataLength)
    pure (.scalar header.identifier header.type data)
  else Exec.throw .overrun

/-- `SmallDataField(buffer)` and `LargeDataField(buffer)`, by the size the peek
saw. -/
def createDataField (size : Nat) : Exec Fault ByteStorage Field := do
  let header ← readFieldHeader
  let value ← ByteStorage.peekBytes 0 header.dataLength
  if size ≤ Field.smallDataMax then
    if header.dataLength ≤ Field.smallDataMax then
      Exec.modify (ByteStorage.advanceRead header.dataLength)
      pure (.smallData header.identifier header.type value)
    else Exec.throw .overrun
  else
    Exec.modify (ByteStorage.advanceRead header.dataLength)
    pure (.largeData header.identifier header.type value)

/-- `DateTimeField(buffer)`: two `int64_t`, whatever the declared length. -/
def createDateTimeField : Exec Fault ByteStorage Field := do
  let header ← readFieldHeader
  let seconds ← ByteStorage.readScalar 8
  let microseconds ← ByteStorage.readScalar 8
  pure (.dateTime header.identifier header.dataLength
    (UInt64.ofNat seconds).toInt64 (UInt64.ofNat microseconds).toInt64)

/-- The end of one round of `decode`'s loop: the key goes in if it is new, the
field in any case. -/
def Message.pushDecoded (m : Message) (field : Field) : Message :=
  let m := (m.insertKey field.identifier).1
  { m with payload := m.payload ++ [field] }

/-- What a `decode` call works on: the message behind its pointer and the
buffer. -/
structure DecodeState where
  msg : Message
  buffer : ByteStorage

namespace DecodeState

def onBuffer {α : Type} (x : Exec Fault ByteStorage α) : Exec Fault DecodeState α :=
  Exec.zoom DecodeState.buffer (fun buffer s => { s with buffer := buffer }) x

/-- Run a decoder on the same buffer into a message of its own. -/
def onFresh {α : Type} (x : Exec Fault DecodeState α) : Exec Fault DecodeState Message where
  run s :=
    match x.run ⟨Message.new, s.buffer⟩ with
    | (.ok _, sub) => (.ok sub.msg, { s with buffer := sub.buffer })
    | (.error e, sub) => (.error e, { s with buffer := sub.buffer })

/-- `Message.pushDecoded` on the message being decoded. -/
def push (field : Field) (s : DecodeState) : DecodeState :=
  { s with msg := s.msg.pushDecoded field }

end DecodeState

/-- `MessageField(buffer)`: the header, then the body of a new message by
whichever decoder is passed; what that decoder answers is dropped. -/
def createMessageField (body : Exec Fault DecodeState Bool) : Exec Fault DecodeState Field := do
  let header ← DecodeState.onBuffer readFieldHeader
  let msg ← DecodeState.onFresh body
  pure (.message header.identifier msg)

/-- `MessageCodec::decode(BaseMessage *, buffer)` around its field loop. The
answer is whether the loop ran at all. -/
def decodeBody (fields : Nat → Exec Fault DecodeState Unit) : Exec Fault DecodeState Bool := do
  let s ← Exec.get
  if s.buffer.remainingReadLength > MsgHeader.size then
    let chk ← DecodeState.onBuffer (ByteStorage.readScalar 1)
    if chk ≠ bodyFlag then
      Exec.throw (.exception "Received corrupt message - incorrect body marker")
    else
      let fieldCount ← DecodeState.onBuffer (ByteStorage.readScalar 4)
      fields fieldCount
      pure (decide (0 < fieldCount))
  else pure false

/-- The `switch` of the field loop. -/
def decodeField (body : Exec Fault DecodeState Bool) : Exec Fault DecodeState Field := do
  let (type, _, dataSize) ← DecodeState.onBuffer peekFieldHeader
  match type with
  | .string | .data => DecodeState.onBuffer (createDataField dataSize)
  | .dateTime => DecodeState.onBuffer createDateTimeField
  | .message => createMessageField body
  | _ => DecodeState.onBuffer createScalarField

/-- The field loop of `decode`: `fuel` is at least the number of unread bytes,
the second argument the fields still to come. -/
def decodeFields : Nat → Nat → Exec Fault DecodeState Unit
  | _, 0 => pure ()
  -- no fuel is no byte left, and a peek there is out of bounds
  | 0, _ + 1 => Exec.throw .outOfBounds
  | fuel + 1, count + 1 => do
      let field ← decodeField (decodeBody (decodeFields fuel))
      Exec.modify (DecodeState.push field)
      decodeFields fuel count

/-- `MessageCodec::decode(Message *, buffer)`. The flags are written through the
reference `addressing_details` is given, and the subject is copied without a
terminator of its own. -/
def Message.decode : Exec Fault DecodeState Bool := do
  let s ← Exec.get
  let (status, addressing) ← DecodeState.onBuffer addressingDetails
  match status, addressing with
  | .complete, some a =>
      Exec.modify fun s => { s with msg := { s.msg with flags := a.flags } }
      -- `subject` points into the buffer, behind the cursor by now
      let subject ← DecodeState.onBuffer (ByteStorage.copyFrom a.subject a.subjectLength)
      Exec.modify fun s =>
        { s with msg := { s.msg with subject := Message.copyFront s.msg.subject subject } }
      decodeBody (decodeFields s.buffer.rest.length)
  | .corrupt, _ =>
      Exec.throw (.exception "Received corrupt message - incorrect addressing marker")
  | _, _ => pure false

end Fastpath
