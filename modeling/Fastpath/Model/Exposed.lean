import Fastpath.Model.Memory
import Fastpath.Model.Router

/-!
# Reading on behind the end

The decoder of `Model.Codec` stops where it would read a byte that is not in its
buffer. The program does not. Behind the bytes of a view comes what is left of the
block they are in, and what the allocator has put behind that, and it is read like
the rest. Here are the decoder and its two callers once more, line by line, with
that memory: `behind` is as much of it as can be read, and a read past all of it is
the end of the process.

The cursor may come to stand behind the end of the view. `remainingReadLength` is
a difference in `size_t`, and there it is so large that every check of it passes.

A copy into an array of fixed size is noted, and a copy that is too long is made all
the same. What it overwrites is left out.
-/

namespace Fastpath

open Fastpath.Lib

/-- A view that is being read, and what there is besides it. -/
structure Exposed where
  view : ByteStorage
  /-- The memory behind the bytes of the view. -/
  behind : Bytes
  /-- The copies into arrays of fixed size, so far. -/
  copies : List Copy

namespace Exposed

/-- The memory from the start of the view on. -/
def memory (s : Exposed) : Bytes := s.view.bytes ++ s.behind

/-- The memory from the cursor on. -/
def unread (s : Exposed) : Bytes := s.memory.drop s.view.read

def onView {α : Type} (x : Exec Fault ByteStorage α) : Exec Fault Exposed α :=
  Exec.zoom Exposed.view (fun view s => { s with view := view }) x

def mark (s : Exposed) : Exposed := { s with view := s.view.mark }

def resetRead (s : Exposed) : Exposed := { s with view := s.view.resetRead }

def advanceRead (distance : Nat) (s : Exposed) : Exposed :=
  { s with view := s.view.advanceRead distance }

/-- Copy `n` bytes from `offset` past the cursor. Copying nothing reads nothing. -/
def peekBytes (offset n : Nat) : Exec Fault Exposed Bytes where
  run s :=
    if n = 0 ∨ s.view.read + offset + n ≤ s.memory.length then
      (.ok ((s.unread.drop offset).take n), s)
    else (.error .outOfBounds, s)

def peekScalar (offset w : Nat) : Exec Fault Exposed Nat := do
  let raw ← peekBytes offset w
  pure (leNat raw)

def readScalar (w : Nat) : Exec Fault Exposed Nat := do
  let value ← peekScalar 0 w
  Exec.modify (advanceRead w)
  pure value

/-- Copy `n` bytes from a pointer kept from an earlier cursor position. -/
def copyFrom (position n : Nat) : Exec Fault Exposed Bytes where
  run s := (((peekBytes 0 n).run { s with view := { s.view with read := position } }).1, s)

def copyInto (array : FixedArray) (length : Nat) : Exec Fault Exposed Unit :=
  Exec.modify fun s => { s with copies := s.copies ++ [⟨array, length⟩] }

/-- `segment(length)`: behind the segment comes the rest of the view. -/
def segment (length : Nat) : Exec Fault Exposed Exposed where
  run s := (.ok ⟨.ofBytes (s.unread.take length), s.unread.drop length, []⟩, s.advanceRead length)

/-! ## The decoder -/

def haveCompleteMessage : Exec Fault Exposed (DecodeStatus × Nat) := do
  let buffer ← onView Exec.get
  if buffer.remainingReadLength ≥ MsgAddressing.size then
    let chk ← peekScalar 0 1
    if chk ≠ addressingFlag then pure (.corrupt, 0)
    else
      let field ← peekScalar 1 8
      let msgLength := (field + MsgAddressing.msgLengthOffset) % 2 ^ 64
      if buffer.remainingReadLength ≥ msgLength then pure (.complete, msgLength)
      else pure (.incomplete, msgLength)
  else pure (.incomplete, 0)

def addressingDetails : Exec Fault Exposed (DecodeStatus × Option Addressing) := do
  let (status, msgLength) ← haveCompleteMessage
  match status with
  | .complete =>
      Exec.modify (advanceRead 1)
      Exec.modify (advanceRead 8)
      let flags ← peekScalar 0 1
      Exec.modify (advanceRead 1)
      Exec.modify (advanceRead 4)
      let subjectLength ← peekScalar 0 2
      Exec.modify (advanceRead 2)
      let buffer ← onView Exec.get
      Exec.modify (advanceRead subjectLength)
      pure (.complete, some ⟨buffer.read, subjectLength, UInt8.ofNat flags, msgLength⟩)
  | status => pure (status, none)

def peekFieldHeader : Exec Fault Exposed (StorageType × Nat × Nat) := do
  let type ← peekScalar 0 1
  let identifierLength ← peekScalar 1 1
  let dataSize ← peekScalar 2 4
  pure (.ofCode (UInt8.ofNat type), identifierLength, dataSize)

/-- `Field(buffer)`. -/
def readFieldHeader : Exec Fault Exposed FieldHeader := do
  let buffer ← onView Exec.get
  if buffer.remainingReadLength ≥ MsgField.size then
    let type ← readScalar 1
    let identifierLength ← readScalar 1
    let dataLength ← readScalar 4
    let buffer ← onView Exec.get
    if buffer.remainingReadLength ≥ identifierLength then
      let identifier ← peekBytes 0 identifierLength
      -- and the terminator behind it
      copyInto .identifier (identifierLength + 1)
      Exec.modify (advanceRead identifierLength)
      let buffer ← onView Exec.get
      if buffer.remainingReadLength ≥ dataLength then
        pure ⟨.ofCode (UInt8.ofNat type), .ofArray identifier, dataLength⟩
      else Exec.throw (.exception "Decode failed")
    else Exec.throw (.exception "Decode failed")
  else Exec.throw (.exception "Decode failed")

def createScalarField : Exec Fault Exposed Field := do
  let header ← readFieldHeader
  let data ← peekBytes 0 header.dataLength
  copyInto .raw header.dataLength
  Exec.modify (advanceRead header.dataLength)
  pure (.scalar header.identifier header.type data)

def createDataField (size : Nat) : Exec Fault Exposed Field := do
  let header ← readFieldHeader
  let value ← peekBytes 0 header.dataLength
  if size ≤ Field.smallDataMax then
    copyInto .storage header.dataLength
    Exec.modify (advanceRead header.dataLength)
    pure (.smallData header.identifier header.type value)
  else
    Exec.modify (advanceRead header.dataLength)
    pure (.largeData header.identifier header.type value)

def createDateTimeField : Exec Fault Exposed Field := do
  let header ← readFieldHeader
  let seconds ← readScalar 8
  let microseconds ← readScalar 8
  pure (.dateTime header.identifier header.dataLength
    (UInt64.ofNat seconds).toInt64 (UInt64.ofNat microseconds).toInt64)

/-- What a `decode` call works on: the message behind its pointer and the buffer. -/
structure Decoding where
  msg : Message
  source : Exposed

def onSource {α : Type} (x : Exec Fault Exposed α) : Exec Fault Decoding α :=
  Exec.zoom Decoding.source (fun source s => { s with source := source }) x

/-- Run a decoder on the same buffer into a message of its own. -/
def onFresh {α : Type} (x : Exec Fault Decoding α) : Exec Fault Decoding Message where
  run s :=
    match x.run ⟨Message.new, s.source⟩ with
    | (.ok _, sub) => (.ok sub.msg, { s with source := sub.source })
    | (.error e, sub) => (.error e, { s with source := sub.source })

def push (field : Field) (s : Decoding) : Decoding := { s with msg := s.msg.pushDecoded field }

def createMessageField (body : Exec Fault Decoding Bool) : Exec Fault Decoding Field := do
  let header ← onSource readFieldHeader
  let msg ← onFresh body
  pure (.message header.identifier msg)

/-- `MessageCodec::decode(BaseMessage *, buffer)` around its field loop. -/
def decodeBody (fields : Nat → Exec Fault Decoding Unit) : Exec Fault Decoding Bool := do
  let s ← Exec.get
  if s.source.view.remainingReadLength > MsgHeader.size then
    let chk ← onSource (readScalar 1)
    if chk ≠ bodyFlag then
      Exec.throw (.exception "Received corrupt message - incorrect body marker")
    else
      let fieldCount ← onSource (readScalar 4)
      fields fieldCount
      pure (decide (0 < fieldCount))
  else pure false

/-- The `switch` of the field loop. -/
def decodeField (body : Exec Fault Decoding Bool) : Exec Fault Decoding Field := do
  let (type, _, dataSize) ← onSource peekFieldHeader
  match type with
  | .string | .data => onSource (createDataField dataSize)
  | .dateTime => onSource createDateTimeField
  | .message => createMessageField body
  | _ => onSource createScalarField

/-- The field loop: `fuel` is at least the number of bytes of memory left, and where it runs
out the next peek is past all of them. -/
def decodeFields : Nat → Nat → Exec Fault Decoding Unit
  | _, 0 => pure ()
  | 0, _ + 1 => Exec.throw .outOfBounds
  | fuel + 1, count + 1 => do
      let field ← decodeField (decodeBody (decodeFields fuel))
      Exec.modify (push field)
      decodeFields fuel count

/-- `MessageCodec::decode(Message *, buffer)`. -/
def decode : Exec Fault Decoding Bool := do
  let s ← Exec.get
  let (status, addressing) ← onSource addressingDetails
  match status, addressing with
  | .complete, some a =>
      Exec.modify fun s => { s with msg := { s.msg with flags := a.flags } }
      let subject ← onSource (copyFrom a.subject a.subjectLength)
      onSource (copyInto .subject a.subjectLength)
      Exec.modify fun s =>
        { s with msg := { s.msg with subject := Message.copyFront s.msg.subject subject } }
      decodeBody (decodeFields s.source.unread.length)
  | .corrupt, _ =>
      Exec.throw (.exception "Received corrupt message - incorrect addressing marker")
  | _, _ => pure false

/-! ## The client -/

/-- What `processData` works on: the transport, and the view of `m_readBuffer`. -/
structure Receiving where
  transport : TCPTransport
  source : Exposed

/-- The `try` block of `processData`, decoding into the object at `i`. -/
def decodeInto (keeps : Nat → Bool) (i : Nat) : Exec Fault Receiving Bool where
  run s :=
    let stored (msg : Message) : TCPTransport :=
      { s.transport with pool := s.transport.pool.store i msg }
    let released (t : TCPTransport) : TCPTransport := { t with pool := t.pool.release i }
    match decode.run ⟨s.transport.pool.object i, s.source⟩ with
    | (.ok true, d) => (.ok true, ⟨(stored d.msg).deliver keeps i, d.source⟩)
    | (.ok false, d) => (.ok false, ⟨released (stored d.msg), d.source.resetRead⟩)
    | (.error (.exception _), d) =>
        (.ok false, ⟨released ((stored d.msg).notify .corruptMessage).disconnect, d.source⟩)
    | (.error e, d) => (.error e, ⟨stored d.msg, d.source⟩)

def processData (keeps : Nat → Bool) : Exec Fault Receiving Bool := do
  let (status, _) ← Exec.zoom Receiving.source (fun source s => { s with source := source })
    haveCompleteMessage
  match status with
  | .complete =>
      let i ← Exec.zoom (fun s => s.transport.pool)
        (fun p s => { s with transport := { s.transport with pool := p } }) Pool.allocate
      Exec.modify fun s => { s with source := s.source.mark }
      decodeInto keeps i
  | _ => pure false

/-! ## The router -/

/-- What `process_buffer` works on: the router, and the view of `m_buffer`. -/
structure Routing where
  router : Bootstrap
  source : Exposed

def onRouted {α : Type} (x : Exec Fault Exposed α) : Exec Fault Routing α :=
  Exec.zoom Routing.source (fun source s => { s with source := source }) x

/-- `subject<> subject(subject_ptr)`. -/
def readSubject (position : Nat) : Exec Fault Exposed (Subject UInt64) where
  run s :=
    match CString.readFrom (s.memory.drop position) with
    | .ok subject => (.ok (.new stringHash subject), s)
    | .error e => (.error e, s)

/-- What `handle_admin_message` comes upon where the field called `subject` is no data field, or
its value has no terminator: no subject at all, a string to subscribe to, or the end of the
process. -/
abbrev Stray := Message → Option (Option CString)

/-- `handle_admin_message(subject, message)`, on the subscriptions. -/
def handleAdminMessage (stray : Stray) (subject : Subject UInt64) (message : Message)
    (subscriptions : Subscriptions) : Except Fault Subscriptions :=
  match PeerConnection.handleAdminMessage subject message subscriptions with
  | .ok subscriptions => .ok subscriptions
  | .error _ =>
      match stray message with
      | none => .error .outOfBounds
      | some none => .ok subscriptions
      | some (some data) => .ok (subscriptions.addSubscription data)

def processAdmin (stray : Stray) (source : Nat) (subject : Subject UInt64) (msgData : Exposed) :
    Exec Fault Routing DecodeStatus where
  run s :=
    match decode.run ⟨Message.new, msgData⟩ with
    | (.ok true, d) =>
        match handleAdminMessage stray subject d.msg (s.router.peer source).subscriptions with
        | .ok subscriptions =>
            (.ok .complete, { s with
              router := s.router.update source fun c => { c with subscriptions := subscriptions } })
        | .error e => (.error e, s)
    | (.ok false, _) => (.ok .corrupt, s)
    | (.error e, _) => (.error e, s)

/-- `process_buffer(buffer)` of the connection at `source`. -/
def processBuffer (stray : Stray) (source : Nat) : Exec Fault Routing DecodeStatus := do
  onRouted (Exec.modify mark)
  let (status, addressing) ← onRouted addressingDetails
  match status, addressing with
  | .complete, some a =>
      onRouted (Exec.modify resetRead)
      if a.subjectLength > 0 then
        let subject ← onRouted (readSubject a.subject)
        let msgData ← onRouted (segment a.msgLength)
        if subject.isAdmin then
          let status ← processAdmin stray source subject msgData
          onRouted (Exec.modify mark)
          pure status
        else
          Exec.modify fun s =>
            { s with router := s.router.messageHandler source subject msgData.view.bytes }
          onRouted (Exec.modify mark)
          pure .complete
      else pure .corrupt
  | status, _ =>
      onRouted (Exec.modify resetRead)
      pure status

/-- One round of `data_handler`'s inner loop. -/
def processRound (stray : Stray) (source : Nat) : Exec Fault Routing (Option DecodeStatus) := do
  match ← processBuffer stray source with
  | .complete => pure none
  | status => pure (some status)

end Exposed

end Fastpath
