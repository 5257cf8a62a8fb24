import Fastpath.Model.Codec

/-!
# How far a message reaches

The lengths in a message are the sender's word. This file follows them over a
list of bytes, with no cursor to go wrong: reading some part of a message off
the front of `r` either ends within `r`, with what is left of it; or finds that
a declared length does not fit and is refused; or goes past the end, because
something is read that no length was checked for.

There are three places of the last kind. A field's header is looked at before
its six bytes are known to be there, a time is sixteen bytes whatever the header
says, and a scalar has eight bytes of room whatever the header says.

What a part is read as is kept as far as a later reader depends on it: the
identifiers of the fields, and the value of a data field.

A second walk beside the first asks whether a name comes twice in one body.
-/

namespace Fastpath

open Fastpath.Lib

/-- Where reading something off the front of some bytes leads. -/
inductive Extent (α : Type) where
  | within (value : α) (rest : Bytes)
  | refused
  | past
deriving DecidableEq

namespace Extent

variable {α β : Type}

def bind (x : Extent α) (f : α → Bytes → Extent β) : Extent β :=
  match x with
  | .within value rest => f value rest
  | .refused => .refused
  | .past => .past

def map (f : α → β) (x : Extent α) : Extent β := x.bind fun value rest => .within (f value) rest

/-- It does not go past the end, and what it finds satisfies `p`. -/
def Stays (p : α → Prop) : Extent α → Prop
  | .within value _ => p value
  | .refused => True
  | .past => False

instance (p : α → Prop) [DecidablePred p] (x : Extent α) : Decidable (x.Stays p) :=
  match x with
  | .within value _ => inferInstanceAs (Decidable (p value))
  | .refused => .isTrue trivial
  | .past => .isFalse id

/-- It ends within, and what it finds satisfies `p`. -/
def Ends (p : α → Prop) : Extent α → Prop
  | .within value _ => p value
  | .refused => False
  | .past => False

instance (p : α → Prop) [DecidablePred p] (x : Extent α) : Decidable (x.Ends p) :=
  match x with
  | .within value _ => inferInstanceAs (Decidable (p value))
  | .refused => .isFalse id
  | .past => .isFalse id

theorem Stays.mono {p q : α → Prop} {x : Extent α} (h : x.Stays p)
    (hpq : ∀ value, p value → q value) : x.Stays q := by
  cases x with
  | within value rest => exact hpq value h
  | refused => trivial
  | past => exact h

theorem of_bind {x : Extent α} {f : α → Bytes → Extent β} {b : β} {t : Bytes}
    (h : x.bind f = .within b t) : ∃ a r, x = .within a r ∧ f a r = .within b t := by
  cases x with
  | within a r => exact ⟨a, r, rfl, h⟩
  | refused => cases h
  | past => cases h

theorem of_map {x : Extent α} {f : α → β} {b : β} {t : Bytes} (h : x.map f = .within b t) :
    ∃ a, x = .within a t ∧ f a = b := by
  obtain ⟨a, r, hx, hab⟩ := of_bind h
  cases hab
  exact ⟨a, hx, rfl⟩

end Extent

/-- What a field is to a reader by name: its identifier, and the stored value if it has
one. -/
abbrev Entry := CString × Option Bytes

def Field.entry : Field → Entry
  | .smallData identifier _ value | .largeData identifier _ value => (identifier, some value)
  | field => (field.identifier, none)

/-- The value, if there is one, is no longer than that of a `SmallDataField`. -/
def Entry.small (entry : Entry) : Bool :=
  entry.2.all fun value => decide (value.length ≤ Field.smallDataMax)

/-- The header in front of a field, which is refused if the field it declares does not
fit. -/
def headerExtent (r : Bytes) : Extent FieldHeader :=
  let identifierLength := leNat ((r.drop 1).take 1)
  let dataLength := leNat ((r.drop 2).take 4)
  if r.length < MsgField.size then .past
  else if r.length < MsgField.size + identifierLength + dataLength then .refused
  else
    .within
      ⟨.ofCode (UInt8.ofNat (leNat (r.take 1))),
      .ofArray ((r.drop MsgField.size).take identifierLength),
        dataLength⟩
      (r.drop (MsgField.size + identifierLength))

/-- The value behind a header; `body` is for the value of a message field. -/
def valueExtent (body : Bytes → Extent (List Entry)) (header : FieldHeader) (r : Bytes) :
    Extent Entry :=
  match header.type with
  | .string | .data =>
      .within (header.identifier, some (r.take header.dataLength)) (r.drop header.dataLength)
  | .dateTime =>
      if MutableMessage.dateTimeSize ≤ r.length then
        .within (header.identifier, none) (r.drop MutableMessage.dateTimeSize)
      else .past
  | .message => (body r).map fun _ => (header.identifier, none)
  | _ =>
      if header.dataLength ≤ Field.rawSize then
        .within (header.identifier, none) (r.drop header.dataLength)
      else .past

def fieldExtent (body : Bytes → Extent (List Entry)) (r : Bytes) : Extent Entry :=
  (headerExtent r).bind (valueExtent body)

/-- A body; five bytes or fewer are left alone. -/
def bodyExtent (fields : Nat → Bytes → Extent (List Entry)) (r : Bytes) : Extent (List Entry) :=
  if r.length ≤ MsgHeader.size then .within [] r
  else if leNat (r.take 1) ≠ bodyFlag then .refused
  else fields (leNat ((r.drop 1).take 4)) (r.drop MsgHeader.size)

/-- As many fields as declared. A field takes six bytes at least, so with as much fuel as
bytes, no fuel is no byte left, and the next header is past the end. -/
def fieldsExtent : Nat → Nat → Bytes → Extent (List Entry)
  | _, 0, r => .within [] r
  | 0, _ + 1, _ => .past
  | fuel + 1, count + 1, r =>
      (fieldExtent (bodyExtent (fieldsExtent fuel)) r).bind fun entry rest =>
        (fieldsExtent fuel count rest).map (entry :: ·)

/-! ## Checks along the walk -/

/-- A check of the fields of a body; there is nothing to check in one that is left alone or
refused. -/
def inBody (fields : Nat → Bytes → Bool) (r : Bytes) : Bool :=
  decide (r.length ≤ MsgHeader.size) || decide (leNat (r.take 1) ≠ bodyFlag) ||
    fields (leNat ((r.drop 1).take 4)) (r.drop MsgHeader.size)

/-- No field of the body is called what one before it is, or one of `seen`, and the same
holds in every message field. -/
def fieldsDistinct : Nat → List CString → Nat → Bytes → Bool
  | _, _, 0, _ => true
  | 0, _, _ + 1, _ => true
  | fuel + 1, seen, count + 1, r =>
      match headerExtent r, fieldExtent (bodyExtent (fieldsExtent fuel)) r with
      | .within header value, .within _ rest =>
          decide (header.identifier ∉ seen) &&
            (decide (header.type ≠ .message) || inBody (fieldsDistinct fuel []) value) &&
            fieldsDistinct fuel (seen ++ [header.identifier]) count rest
      | _, _ => true

end Fastpath
