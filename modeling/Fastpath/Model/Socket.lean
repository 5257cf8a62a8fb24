import Mathlib.Data.List.Range
import Fastpath.Model.Storage

/-!
# The socket

`Socket::send` hands its block to the system call `::send` and calls itself for
what was not taken. The kernel is the environment: what the successive system
calls answer is a list, and a run that has used it up is still inside the next
one. What each call was offered, and what it took, is recorded as positions in
the block, so that a position beyond the length of the block is one outside it.

The other `send` hands its vectors to `writev` once, and then walks over them by
what was taken.
-/

namespace Fastpath

structure Socket where
  connected : Bool
  /-- Whether `m_handler` is set. -/
  handled : Bool
  /-- What the handler was told. -/
  states : List Bool
deriving DecidableEq

/-- One system call: the bytes from `offset` on that it was offered, and how many of them it
took. -/
structure SystemCall where
  offset : Nat
  offered : Nat
  accepted : Nat
deriving DecidableEq

namespace SystemCall

/-- The positions of the bytes taken. -/
def taken (c : SystemCall) : List Nat := List.range' c.offset c.accepted

/-- The positions of the bytes offered. -/
def shown (c : SystemCall) : List Nat := List.range' c.offset c.offered

end SystemCall

namespace Socket

/-- `disconnect()`; `closes` is whether `::close` succeeds. -/
def disconnect (closes : Bool) (s : Socket) : Bool × Socket :=
  if s.connected && closes then
    (true, { s with
      connected := false, states := if s.handled then s.states ++ [false] else s.states })
  else (false, s)

/-- A `send` so far: its answer if it has one, its system calls and the socket. -/
structure Sending where
  answer : Option Bool
  calls : List SystemCall
  socket : Socket

/-- `send(&data[offset], length)`; a result is `none` for `-1`. -/
def send (closes : Bool) (offset length : Nat) (results : List (Option Nat)) (s : Socket) :
    Sending :=
  if s.connected then
    match results with
    | [] => ⟨none, [⟨offset, length, 0⟩], s⟩
    | some result :: results =>
        let call : SystemCall := ⟨offset, length, result⟩
        if result = length then ⟨some true, [call], s⟩
        else
          let more := send closes (offset + length) (length - result) results s
          { more with calls := call :: more.calls }
    | none :: _ => ⟨some false, [⟨offset, length, 0⟩], (s.disconnect closes).2⟩
  else ⟨some false, [], (s.disconnect closes).2⟩
termination_by structural results

/-! ## Vectors -/

/-- `struct iovec`. -/
structure IoVec where
  base : Nat
  length : Nat
deriving DecidableEq, Repr

/-- The loop that consumes what `writev` took, over the vectors from `first_vec` to the end of the
array: a whole vector is stepped over, of the last one the front is cut off. -/
def consume : List IoVec → Nat → Except Fault (List IoVec)
  | vecs, 0 => .ok vecs
  | [], _ + 1 => .error .outOfBounds
  | vec :: vecs, bytes + 1 =>
      if bytes + 1 ≥ vec.length then consume vecs (bytes + 1 - vec.length)
      else .ok (⟨vec.base + (bytes + 1), vec.length - (bytes + 1)⟩ :: vecs)

/-- `send(vec, count)`, where `result` is what `writev` answers if it is called. -/
def sendVectors (closes : Bool) (vecs : List IoVec) (result : Int64) (s : Socket) :
    Except Fault (Bool × Socket) :=
  if s.connected then
    if result ≠ 0 then
      -- `bytes_to_consume` is a `size_t`
      match consume vecs result.toUInt64.toNat with
      | .ok _ => .ok (true, s)
      | .error e => .error e
    else .ok (false, (s.disconnect closes).2)
  else .ok (false, (s.disconnect closes).2)

end Socket

end Fastpath
