import Fastpath.Model.Codec

/-!
# Decoding, with the constructors counted

`MessageCodec::decode` and the constructor of `MessageField` call each other, on
one buffer, and nothing but the buffer stops them: the loop goes as far as a
count from the buffer says, and a field that holds a message starts a loop of
its own. Here every constructor that returns is counted, also if a later one
throws, and the recursion has a fuel that the code does not have. A run that is
out of fuel has `diverged`, whatever is in the buffer.
-/

namespace Fastpath

open Fastpath.Lib

/-- What a `decode` call works on, and how many fields have been constructed in it and in those
that it has called. -/
structure Counted where
  decode : DecodeState
  constructed : Nat

namespace Counted

/-- The bytes that have not been read. -/
def rest (s : Counted) : Bytes := s.decode.buffer.rest

def onDecode {α : Type} (x : Exec Fault DecodeState α) : Exec Fault Counted α :=
  Exec.zoom Counted.decode (fun decode s => { s with decode := decode }) x

def onBuffer {α : Type} (x : Exec Fault ByteStorage α) : Exec Fault Counted α :=
  onDecode (DecodeState.onBuffer x)

/-- Run a decoder on the same buffer into a message of its own. -/
def onFresh {α : Type} (x : Exec Fault Counted α) : Exec Fault Counted Message where
  run s :=
    let outcome := x.run ⟨⟨Message.new, s.decode.buffer⟩, s.constructed⟩
    let sub := outcome.2
    let s := ⟨{ s.decode with buffer := sub.decode.buffer }, sub.constructed⟩
    match outcome.1 with
    | .ok _ => (.ok sub.decode.msg, s)
    | .error e => (.error e, s)

/-- A constructor has returned. -/
def count (s : Counted) : Counted := { s with constructed := s.constructed + 1 }

def createMessageField (body : Exec Fault Counted Bool) : Exec Fault Counted Field := do
  let header ← onBuffer readFieldHeader
  let msg ← onFresh body
  pure (.message header.identifier msg)

/-- `MessageCodec::decode(BaseMessage *, buffer)` around its field loop. -/
def decodeBody (fields : Nat → Exec Fault Counted Unit) : Exec Fault Counted Bool := do
  let s ← onDecode Exec.get
  if s.buffer.remainingReadLength > MsgHeader.size then
    let chk ← onBuffer (ByteStorage.readScalar 1)
    if chk ≠ bodyFlag then
      Exec.throw (.exception "Received corrupt message - incorrect body marker")
    else
      let fieldCount ← onBuffer (ByteStorage.readScalar 4)
      fields fieldCount
      pure (decide (0 < fieldCount))
  else pure false

/-- The `switch` of the field loop. -/
def createField (type : StorageType) (dataSize : Nat) (body : Exec Fault Counted Bool) :
    Exec Fault Counted Field :=
  match type with
  | .string | .data => onBuffer (createDataField dataSize)
  | .dateTime => onBuffer createDateTimeField
  | .message => createMessageField body
  | _ => onBuffer createScalarField

def decodeField (body : Exec Fault Counted Bool) : Exec Fault Counted Field := do
  let (type, _, dataSize) ← onBuffer peekFieldHeader
  let field ← createField type dataSize body
  Exec.modify count
  pure field

/-- The field loop of `decode`. -/
def decodeFields : Nat → Nat → Exec Fault Counted Unit
  | _, 0 => pure ()
  | 0, _ + 1 => Exec.throw .diverged
  | fuel + 1, fields + 1 => do
      let field ← decodeField (decodeBody (decodeFields fuel))
      onDecode (Exec.modify (DecodeState.push field))
      decodeFields fuel fields

/-- `decode` into a message, with a fuel. -/
def run (fuel : Nat) (m : Message) (b : ByteStorage) : Except Fault Bool × Counted :=
  (decodeBody (decodeFields fuel)).run ⟨⟨m, b⟩, 0⟩

end Counted

end Fastpath
