/-!
# Accepting connections

The router listens on a socket that it polls. The poll is edge-triggered: a client
that has connected puts the descriptor on a list, and `epoll_wait` takes it off the
list and reports it. For each report the callback accepts one connection. The
socket is listening before its descriptor is added to the poll, and a descriptor
that is added is put on the list if there is a connection by then.

Clients connect as they like, also while the router is about to accept another. An
`accept` that fails gives the new peer a null socket, and the peer asks it for its
descriptor.

This is the TCP transport. The one for shared memory also accepts one connection
for each report, but goes on to receive two descriptors from the client, and waits
until they come.
-/

namespace Fastpath

/-- The router's thread. -/
inductive Accepting where
  /-- The descriptor has not been added to the poll. -/
  | unregistered
  /-- In `epoll_wait`, or on the way there. -/
  | waiting
  /-- At the beginning of the callback. -/
  | called
  /-- The process has ended. -/
  | ended
deriving DecidableEq, Repr

/-- `fp::tcp_server_transport`, and the socket it listens on. -/
structure ServerTransport where
  /-- The connections that `accept` has still to return, the first one first. -/
  pending : List Nat
  /-- The descriptor is on the poll's list. -/
  ready : Bool
  router : Accepting
  /-- Who has connected. -/
  connected : List Nat
  /-- Whose connection the callback has been given. -/
  accepted : List Nat

namespace ServerTransport

def new : ServerTransport where
  pending := []
  ready := false
  router := .unregistered
  connected := []
  accepted := []

/-- A client connects. -/
def connect (client : Nat) (t : ServerTransport) : ServerTransport :=
  { t with
    pending := t.pending ++ [client]
    ready := t.router ≠ .unregistered
    connected := t.connected ++ [client] }

/-- The router's next access. -/
def advance (t : ServerTransport) : ServerTransport :=
  match t.router with
  | .unregistered => { t with router := .waiting, ready := !t.pending.isEmpty }
  | .waiting =>
      if t.ready then
        { t with ready := false, router := if t.pending.isEmpty then .waiting else .called }
      else t
  | .called =>
      -- `acceptPendingConnection()`
      match t.pending with
      | [] => { t with router := .waiting }
      | client :: rest =>
          { t with pending := rest, router := .waiting, accepted := t.accepted ++ [client] }
  | .ended => t

/-- The router's next access is an `accept` that fails. -/
def fail (t : ServerTransport) : ServerTransport :=
  match t.router with
  | .called => { t with router := .ended }
  | _ => t

inductive Step where
  | connect (client : Nat)
  | advance
  | fail

def step (t : ServerTransport) : Step → ServerTransport
  | .connect client => t.connect client
  | .advance => t.advance
  | .fail => t.fail

end ServerTransport

end Fastpath
