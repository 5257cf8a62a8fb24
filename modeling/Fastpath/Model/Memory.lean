import Fastpath.Model.Access
import Fastpath.Model.Arena
import Fastpath.Model.Codec

/-!
# What the message calls do to memory

The calls of `MutableMessage` and the decoder once more, line by line, with the
two things about them that a message's contents do not show: what is copied
into the arrays of fixed size, and what the field allocator is asked for.

A field is placed in a block of the message's arena, sized for its class and for
the length that `allocate_polymorphic` keeps in front of it. The block is taken
before the constructor runs, and where the constructor throws nobody gives it
back. A `LargeDataField` takes more blocks for its value; its storage has no
`TAKE_OWNERSHIP`, and its destructor leaves them alone. A message inside a field
has an arena of its own.

`sizeof` of the classes is a parameter, as is `malloc`.
-/

namespace Fastpath

open Fastpath.Lib

/-! ## Fixed arrays -/

/-- `Field::m_identifier`, `ScalarField::m_raw`, `SmallDataField::m_storage` and
`Message::m_subject`. -/
inductive FixedArray where
  | identifier | raw | storage | subject
deriving DecidableEq, Repr

def FixedArray.size : FixedArray → Nat
  | .identifier => Field.identifierSize
  | .raw => Field.rawSize
  | .storage => Field.smallDataMax
  | .subject => Message.maxSubjectLength

/-- So many bytes, copied to the front of an array. -/
structure Copy where
  array : FixedArray
  length : Nat
deriving DecidableEq, Repr

def Copy.Fits (c : Copy) : Prop := c.length ≤ c.array.size

instance (c : Copy) : Decidable c.Fits := inferInstanceAs (Decidable (_ ≤ _))

/-! ## Classes -/

inductive FieldClass where
  | scalar | dateTime | smallData | largeData | message
deriving DecidableEq, Repr

def Field.fieldClass : Field → FieldClass
  | .scalar .. => .scalar
  | .dateTime .. => .dateTime
  | .smallData .. => .smallData
  | .largeData .. => .largeData
  | .message .. => .message

/-- The class `createDataField` goes for. -/
def FieldClass.ofSize (size : Nat) : FieldClass :=
  if size ≤ Field.smallDataMax then .smallData else .largeData

/-- `sizeof` of each class. Any of them fits the first slab of an arena, with the length in
front of it. -/
structure Layout where
  size : FieldClass → Nat
  fits : ∀ cls, size cls + 8 ≤ 8192

/-- `sizeof` where pointers and `size_t` have eight bytes. -/
def Layout.wide : Layout where
  size
    | .scalar => 288
    | .dateTime => 296
    | .smallData => 536
    | .largeData => 344
    | .message => 288
  fits cls := by cases cls <;> decide

/-- The memory of one message: the copies made so far, the arena, and the blocks of the fields
in `m_payload`. -/
structure Memory where
  copies : List Copy
  arena : Arena
  blocks : List Block

/-- A message and its memory. -/
structure Object where
  msg : Message
  memory : Memory

variable (layout : Layout) (malloc : Malloc)

namespace Memory

/-- `m_arena(8192)`. -/
def new (copies : List Copy) : Memory := ⟨copies, .new malloc.address 8192, []⟩

def copyInto (array : FixedArray) (length : Nat) : Exec Fault Memory Unit := do
  Exec.modify fun m => { m with copies := m.copies ++ [⟨array, length⟩] }
  if length ≤ array.size then pure () else Exec.throw .overrun

def allocate (size : Nat) : Exec Fault Memory Block :=
  ⟨fun m => (.ok ⟨(m.arena.allocate malloc.address size).1, size⟩,
    { m with arena := (m.arena.allocate malloc.address size).2 })⟩

def deallocate (block : Block) : Exec Fault Memory Unit :=
  Exec.modify fun m => { m with arena := m.arena.deallocate block.ptr block.size }

/-- `allocate_polymorphic::allocate<T>`, up to the constructor. -/
def allocateField (cls : FieldClass) : Exec Fault Memory Block :=
  allocate malloc (layout.size cls + 8)

/-- `m_storage(allocation, allocator)` of a `LargeDataField`, and `setData` with `length`
bytes. -/
def fillStorage (allocation length : Nat) : Exec Fault Memory Unit := do
  let storage ← allocate malloc (allocateStorage allocation)
  if length > storage.size then
    deallocate storage
    let _ ← allocate malloc (allocateStorage (max length (storage.size * 2)))
    pure ()
  else pure ()

/-- The constructors called by `add*`, with the field they make. -/
def constructField (e : Field) : Exec Fault Memory Unit := do
  copyInto .identifier (e.identifier.length + 1)
  match e with
  | .scalar _ _ data => copyInto .raw data.length
  | .smallData _ _ value => copyInto .storage value.length
  | .largeData _ type value =>
      -- the constructor from a C string starts with 512 bytes, the one from data with its length
      fillStorage malloc (if type = .string then 512 else value.length) value.length
  | .dateTime .. | .message .. => pure ()

end Memory

/-! ## Calls -/

namespace MutableMessage

/-- The field an `add*` call creates. -/
def Call.field : Call → Option Field
  | .addScalarField field value => some (.scalar field value.type value.raw)
  | .addStringField field value => some (Field.createData field .string value.terminated)
  | .addDataField field value => some (Field.createData field .data value)
  | .addMessageField field msg => some (.message field msg)
  | .addDateTimeField field seconds microseconds =>
      some (.dateTime field dateTimeSize seconds.toInt64 microseconds.toInt64)
  | .addMicroseconds field value =>
      some (.dateTime field dateTimeSize (value / 1000000) (value % 1000000))
  | .addTimePoint field sinceEpoch =>
      some (.dateTime field dateTimeSize (sinceEpoch / 1000 / 1000000)
        (sinceEpoch / 1000 % 1000000))
  | .clear => none

end MutableMessage

namespace Object

def onMemory {α : Type} (x : Exec Fault Memory α) : Exec Fault Object α :=
  Exec.zoom Object.memory (fun memory o => { o with memory := memory }) x

def new : Object := ⟨.new, .new malloc []⟩

/-- `destroyField`. -/
def destroyField (block : Block) : Exec Fault Object Unit := onMemory (Memory.deallocate block)

/-- An `add*` call that creates `e`. -/
def add (e : Field) : Exec Fault Object Bool := do
  let block ← onMemory (Memory.allocateField layout malloc e.fieldClass)
  onMemory (Memory.constructField malloc e)
  let o ← Exec.get
  match MutableMessage.addField e o.msg with
  | (msg, true) =>
      Exec.modify fun o =>
        { msg := msg, memory := { o.memory with blocks := o.memory.blocks ++ [block] } }
      pure true
  | (msg, false) =>
      Exec.modify fun o => { o with msg := msg }
      destroyField block
      pure false

/-- `MutableMessage::removeField`. -/
def removeField (field : Option CString) (freed : Nat) : Exec Fault Object Bool := do
  let o ← Exec.get
  match (MutableMessage.removeField field freed).run o.msg with
  | (.ok true, msg) =>
      match o.memory.blocks[freed]? with
      | some block =>
          destroyField block
          Exec.modify fun o =>
            { msg := msg, memory := { o.memory with blocks := o.memory.blocks.eraseIdx freed } }
          pure true
      | none => Exec.throw .outOfBounds
  | (.ok false, msg) =>
      Exec.modify fun o => { o with msg := msg }
      pure false
  | (.error fault, msg) =>
      Exec.modify fun o => { o with msg := msg }
      Exec.throw fault

/-- `Message::clear`: the fields are destroyed in their order. -/
def clear (o : Object) : Object where
  msg := o.msg.clear
  memory :=
    { o.memory with
      arena := o.memory.blocks.foldl (fun a block => a.deallocate block.ptr block.size)
        o.memory.arena
      blocks := [] }

/-- One of the calls. -/
def call (c : MutableMessage.Call) : Exec Fault Object (Option Bool) :=
  match c.field with
  | some e => do
      let accepted ← add layout malloc e
      pure (some accepted)
  | none => do
      Exec.modify clear
      pure none

end Object

/-! ## Decoding -/

/-- What a `decode` call works on: the object behind its pointer and the buffer. -/
structure Reading where
  object : Object
  buffer : ByteStorage

namespace Reading

def onBuffer {α : Type} (x : Exec Fault ByteStorage α) : Exec Fault Reading α :=
  Exec.zoom Reading.buffer (fun buffer r => { r with buffer := buffer }) x

def onObject {α : Type} (x : Exec Fault Object α) : Exec Fault Reading α :=
  Exec.zoom Reading.object (fun object r => { r with object := object }) x

def onMemory {α : Type} (x : Exec Fault Memory α) : Exec Fault Reading α :=
  onObject (Object.onMemory x)

/-- Run a decoder on the same buffer into an object of its own; of its memory, only the copies
are remembered. -/
def onFresh {α : Type} (x : Exec Fault Reading α) : Exec Fault Reading Message where
  run r :=
    let outcome := x.run ⟨⟨.new, .new malloc r.object.memory.copies⟩, r.buffer⟩
    let sub := outcome.2
    let memory := { r.object.memory with copies := sub.object.memory.copies }
    let r := { r with object := { r.object with memory := memory }, buffer := sub.buffer }
    match outcome.1 with
    | .ok _ => (.ok sub.object.msg, r)
    | .error e => (.error e, r)

/-- `Field(buffer)`. -/
def readFieldHeader : Exec Fault Reading FieldHeader := do
  let buffer ← onBuffer Exec.get
  if buffer.remainingReadLength ≥ MsgField.size then
    let type ← onBuffer (ByteStorage.readScalar 1)
    let identifierLength ← onBuffer (ByteStorage.readScalar 1)
    let dataLength ← onBuffer (ByteStorage.readScalar 4)
    let buffer ← onBuffer Exec.get
    if buffer.remainingReadLength ≥ identifierLength then
      let identifier ← onBuffer (ByteStorage.peekBytes 0 identifierLength)
      -- and the terminator behind it
      onMemory (Memory.copyInto .identifier (identifierLength + 1))
      onBuffer (Exec.modify (ByteStorage.advanceRead identifierLength))
      let buffer ← onBuffer Exec.get
      if buffer.remainingReadLength ≥ dataLength then
        pure ⟨.ofCode (UInt8.ofNat type), .ofArray identifier, dataLength⟩
      else Exec.throw (.exception "Decode failed")
    else Exec.throw (.exception "Decode failed")
  else Exec.throw (.exception "Decode failed")

def createScalarField : Exec Fault Reading (Field × Block) := do
  let block ← onMemory (Memory.allocateField layout malloc .scalar)
  let header ← readFieldHeader
  let data ← onBuffer (ByteStorage.peekBytes 0 header.dataLength)
  onMemory (Memory.copyInto .raw header.dataLength)
  onBuffer (Exec.modify (ByteStorage.advanceRead header.dataLength))
  pure (.scalar header.identifier header.type data, block)

def createDataField (size : Nat) : Exec Fault Reading (Field × Block) := do
  let block ← onMemory (Memory.allocateField layout malloc (.ofSize size))
  let header ← readFieldHeader
  let value ← onBuffer (ByteStorage.peekBytes 0 header.dataLength)
  if size ≤ Field.smallDataMax then
    onMemory (Memory.copyInto .storage header.dataLength)
    onBuffer (Exec.modify (ByteStorage.advanceRead header.dataLength))
    pure (.smallData header.identifier header.type value, block)
  else
    onMemory (Memory.fillStorage malloc 512 header.dataLength)
    onBuffer (Exec.modify (ByteStorage.advanceRead header.dataLength))
    pure (.largeData header.identifier header.type value, block)

def createDateTimeField : Exec Fault Reading (Field × Block) := do
  let block ← onMemory (Memory.allocateField layout malloc .dateTime)
  let header ← readFieldHeader
  let seconds ← onBuffer (ByteStorage.readScalar 8)
  let microseconds ← onBuffer (ByteStorage.readScalar 8)
  pure (.dateTime header.identifier header.dataLength
    (UInt64.ofNat seconds).toInt64 (UInt64.ofNat microseconds).toInt64, block)

def createMessageField (body : Exec Fault Reading Bool) : Exec Fault Reading (Field × Block) := do
  let block ← onMemory (Memory.allocateField layout malloc .message)
  let header ← readFieldHeader
  let msg ← onFresh malloc body
  pure (.message header.identifier msg, block)

/-- `MessageCodec::decode(BaseMessage *, buffer)` around its field loop. -/
def decodeBody (fields : Nat → Exec Fault Reading Unit) : Exec Fault Reading Bool := do
  let buffer ← onBuffer Exec.get
  if buffer.remainingReadLength > MsgHeader.size then
    let chk ← onBuffer (ByteStorage.readScalar 1)
    if chk ≠ bodyFlag then
      Exec.throw (.exception "Received corrupt message - incorrect body marker")
    else
      let fieldCount ← onBuffer (ByteStorage.readScalar 4)
      fields fieldCount
      pure (decide (0 < fieldCount))
  else pure false

/-- The `switch` of the field loop. -/
def decodeField (body : Exec Fault Reading Bool) : Exec Fault Reading (Field × Block) := do
  let (type, _, dataSize) ← onBuffer peekFieldHeader
  match type with
  | .string | .data => createDataField layout malloc dataSize
  | .dateTime => createDateTimeField layout malloc
  | .message => createMessageField layout malloc body
  | _ => createScalarField layout malloc

def push (made : Field × Block) (o : Object) : Object where
  msg := o.msg.pushDecoded made.1
  memory := { o.memory with blocks := o.memory.blocks ++ [made.2] }

/-- The field loop, with the fuel of the other decoder. -/
def decodeFields : Nat → Nat → Exec Fault Reading Unit
  | _, 0 => pure ()
  | 0, _ + 1 => Exec.throw .outOfBounds
  | fuel + 1, count + 1 => do
      let made ← decodeField layout malloc (decodeBody (decodeFields fuel))
      onObject (Exec.modify (push made))
      decodeFields fuel count

/-- `MessageCodec::decode(Message *, buffer)`. -/
def decode : Exec Fault Reading Bool := do
  let r ← Exec.get
  let (status, addressing) ← onBuffer addressingDetails
  match status, addressing with
  | .complete, some a =>
      onObject (Exec.modify fun o => { o with msg := { o.msg with flags := a.flags } })
      let subject ← onBuffer (ByteStorage.copyFrom a.subject a.subjectLength)
      onMemory (Memory.copyInto .subject a.subjectLength)
      onObject (Exec.modify fun o =>
        { o with msg := { o.msg with subject := Message.copyFront o.msg.subject subject } })
      decodeBody (decodeFields layout malloc r.buffer.rest.length)
  | .corrupt, _ =>
      Exec.throw (.exception "Received corrupt message - incorrect addressing marker")
  | _, _ => pure false

end Reading

namespace Object

/-- What a call on the message copies. -/
def copiesOfCall (o : Object) (c : MutableMessage.Call) : List Copy :=
  ((call layout malloc c).run { o with memory := { o.memory with copies := [] } }).2.memory.copies

/-! ## Reuse -/

/-- What is done to a message between two of its uses, and in them. -/
inductive Step where
  /-- One of the `add*` calls, or `clear`. -/
  | call (c : MutableMessage.Call)
  | removeField (field : Option CString) (freed : Nat)
  | decode (buffer : ByteStorage)

/-- An exception is caught, and the message stays as it is. There is no message behind any other
stop. -/
def settle {α : Type} (outcome : Except Fault α × Object) : Option Object :=
  match outcome.1 with
  | .ok _ | .error (.exception _) => some outcome.2
  | .error _ => none

def step (o : Option Object) (i : Step) : Option Object :=
  o.bind fun o =>
    match i with
    | .call c => settle ((call layout malloc c).run o)
    | .removeField field freed => settle ((removeField field freed).run o)
    | .decode buffer =>
        let outcome := (Reading.decode layout malloc).run ⟨o, buffer⟩
        settle (outcome.1, outcome.2.object)

end Object

end Fastpath
