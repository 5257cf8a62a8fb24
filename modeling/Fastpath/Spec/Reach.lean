import Fastpath.Model.Codec

/-!
# How far a message goes on

The lengths in a message once more, for a program that does not stop at the end
of its buffer. A header that declares more than there is, six bytes for itself
included, is refused by the constructor that reads it; a scalar is as long as it
says it is. What is left is the time, whose sixteen bytes no header declares:
where they are not all there, reading goes past the end, and behind it there is
nothing that could be refused. So a walk that goes past says how many bytes too
far that is, and how many fields are still to come.

A part that ends within takes so many bytes, and a part behind it begins there.
A second walk asks for scalars that are too long for their room.
-/

namespace Fastpath

open Fastpath.Lib

/-! ## A header -/

def typeAt (r : Bytes) : StorageType := .ofCode (UInt8.ofNat (leNat (r.take 1)))

def identifierLengthAt (r : Bytes) : Nat := leNat ((r.drop 1).take 1)

def dataLengthAt (r : Bytes) : Nat := leNat ((r.drop 2).take 4)

/-- The header of a field and its identifier. -/
def headerLength (r : Bytes) : Nat := MsgField.size + identifierLengthAt r

/-! ## The walk -/

/-- Where reading something off the front of some bytes leads. -/
inductive Reach where
  /-- It takes so many of them. -/
  | within (length : Nat)
  | refused
  /-- It is `excess` bytes past the end with `pending` fields still to be read. -/
  | past (excess pending : Nat)
deriving DecidableEq

namespace Reach

/-- It does not go past the end, and if it ends, takes a length of `p`. -/
def Stays (p : Nat → Prop) : Reach → Prop
  | .within n => p n
  | .refused => True
  | .past .. => False

instance (p : Nat → Prop) [DecidablePred p] (x : Reach) : Decidable (x.Stays p) :=
  match x with
  | .within n => inferInstanceAs (Decidable (p n))
  | .refused => .isTrue trivial
  | .past .. => .isFalse id

/-- How many fields are to be read from behind the end. -/
def pending : Reach → Nat
  | .past _ pending => pending
  | _ => 0

/-- One part, and `count` fields behind it. -/
def followed (x : Reach) (count : Nat) (more : Nat → Reach) : Reach :=
  match x with
  | .within n =>
      match more n with
      | .within k => .within (n + k)
      | .refused => .refused
      | .past excess pending => .past excess pending
  | .refused => .refused
  | .past excess pending => .past excess (pending + count)

end Reach

/-- A field; `body` is for the value of a message field. -/
def fieldReach (body : Bytes → Reach) (r : Bytes) : Reach :=
  if r.length < headerLength r + dataLengthAt r then .refused
  else
    match typeAt r with
    | .dateTime =>
        let length := headerLength r + MutableMessage.dateTimeSize
        if length ≤ r.length then .within length else .past (length - r.length) 0
    | .message => (Reach.within (headerLength r)).followed 0 fun n => body (r.drop n)
    | _ => .within (headerLength r + dataLengthAt r)

/-- How many fields a body says it has. -/
def fieldCountAt (r : Bytes) : Nat := leNat ((r.drop 1).take 4)

/-- A body; five bytes or fewer are left alone. -/
def bodyReach (fields : Nat → Bytes → Reach) (r : Bytes) : Reach :=
  if r.length ≤ MsgHeader.size then .within 0
  else if leNat (r.take 1) ≠ bodyFlag then .refused
  else (Reach.within MsgHeader.size).followed 0 fun n => fields (fieldCountAt r) (r.drop n)

/-- As many fields as declared. A field takes six bytes at least, so with as much fuel as
bytes, no fuel is no byte left, and the next field is refused. -/
def fieldsReach : Nat → Nat → Bytes → Reach
  | _, 0, _ => .within 0
  | 0, _ + 1, _ => .refused
  | fuel + 1, count + 1, r =>
      (fieldReach (bodyReach (fieldsReach fuel)) r).followed count fun n =>
        fieldsReach fuel count (r.drop n)

/-! ## Scalars -/

/-- A field that is a scalar no longer than a scalar is, or none. -/
def fieldNarrow (body : Bytes → Bool) (r : Bytes) : Bool :=
  if r.length < headerLength r + dataLengthAt r then true
  else
    match typeAt r with
    | .string | .data | .dateTime => true
    | .message => body (r.drop (headerLength r))
    | _ => decide (dataLengthAt r ≤ Field.rawSize)

def bodyNarrow (fields : Nat → Bytes → Bool) (r : Bytes) : Bool :=
  decide (r.length ≤ MsgHeader.size) || decide (leNat (r.take 1) ≠ bodyFlag) ||
    fields (fieldCountAt r) (r.drop MsgHeader.size)

/-- As far as the walk goes, scalars are no longer than a scalar is. -/
def fieldsNarrow : Nat → Nat → Bytes → Bool
  | _, 0, _ => true
  | 0, _ + 1, _ => true
  | fuel + 1, count + 1, r =>
      fieldNarrow (bodyNarrow (fieldsNarrow fuel)) r &&
        match fieldReach (bodyReach (fieldsReach fuel)) r with
        | .within n => fieldsNarrow fuel count (r.drop n)
        | _ => true

end Fastpath
