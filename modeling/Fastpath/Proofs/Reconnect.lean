import Fastpath.Proofs.Receive

/-!
# The receive buffer across connections

Nothing empties `m_readBuffer` when a connection ends. The next one appends to
whatever the last one left, so the client sees the streams of all its
connections as one. As long as every connection ends between two messages that
is harmless: the concatenation is again a stream of whole messages, and
`Receives` carries over from one connection to the next. A connection that ends
inside a message leaves a piece of it at the front, and the first bytes of the
next stream are taken for the rest.
-/

namespace Fastpath

open Fastpath.Lib

namespace TCPTransport

/-- What a peer sends on a connection, and what becomes of the connection. -/
structure Session where
  sent : List Message
  connection : Connection

/-- Everything the peers of a run do: messages that survive the codec, reads of at
most an MTU, and nothing on the wire but the beginning of what was sent. -/
structure Session.Proper (s : Session) : Prop where
  deliverable : ∀ m ∈ s.sent, m.Sendable ∧ m.payload.length < 2 ^ 32
  reads : ∀ data ∈ TCPTransport.reads s.connection.events ++ s.connection.last,
    data.length ≤ 1500
  stream : ∃ future, s.connection.received ++ future = s.sent.flatMap Message.encoded

/-- The messages delivered in the situation `Receives` are those that have arrived in
full. -/
theorem Receives.delivered {sent : List Message} {future : Bytes} {t : TCPTransport}
    (h : Receives sent future t) (received : Bytes)
    (hstream : received ++ future = sent.flatMap Message.wire) :
    List.Forall₂ Message.Agree (complete Message.wire sent received) t.delivered := by
  obtain ⟨done, todo, hsplit, hagree, hbytes, hu⟩ := h.progress
  have hreceived : received = done.flatMap Message.wire ++ t.readBuffer.bytes := by
    rw [hsplit, List.flatMap_append, ← hbytes, ← List.append_assoc] at hstream
    exact List.append_cancel_right hstream
  rw [hsplit, hreceived, complete_eq hu]
  exact hagree

end TCPTransport

end Fastpath
