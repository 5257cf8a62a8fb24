import Fastpath.Lib.Steps
import Fastpath.Model.Segment

/-!
# How long a shared queue lives

An end that goes takes a queue with it that every other end of the process id
still points at: a client takes the one it receives on, a router both. What
decides whether a pointer is good is therefore no more than what has gone since
its end was opened, and `Order` keeps just that, without a segment or an object.

A queue is never used or destroyed when it is not there exactly in the runs in
which every end uses and closes a queue before anybody else has taken it away.
-/

namespace Fastpath

open Fastpath.Lib

/-! ## The order of events -/

/-- An open end, and what has gone since it was opened: the client queue, if another end
has been closed, and the server queue, if another end of the router has been. -/
structure Since where
  ofRouter : Bool
  clientGone : Bool
  serverGone : Bool

abbrev Order := Nat → Option Since

namespace Order

def new : Order := fun _ => none

/-- The end at `i` goes, and takes the client queue from the others, and the server queue
too if `server`. -/
def close (i : Nat) (server : Bool) (o : Order) : Order := fun j =>
  if j = i then none
  else (o j).map fun since =>
    { since with clientGone := true, serverGone := since.serverGone || server }

def step (o : Order) : Sessions.Step → Order
  | .connect i => if (o i).isNone then Function.update o i (some ⟨false, false, false⟩) else o
  | .construct i => if (o i).isNone then Function.update o i (some ⟨true, false, false⟩) else o
  | .disconnect i =>
      match o i with
      | some ⟨false, _, _⟩ => o.close i false
      | _ => o
  | .destroy i =>
      match o i with
      | some ⟨true, _, _⟩ => o.close i true
      | _ => o
  | _ => o

/-- Every queue an end uses or destroys is one that nobody has taken away since. -/
def InTime (o : Order) : Sessions.Step → Prop
  | .connect _ | .construct _ => True
  | .disconnect i | .receive i =>
      ∀ since, o i = some since → since.ofRouter = false → since.clientGone = false
  | .sendMessage i =>
      ∀ since, o i = some since → since.ofRouter = false → since.serverGone = false
  | .destroy i =>
      ∀ since, o i = some since → since.ofRouter = true →
        since.clientGone = false ∧ since.serverGone = false
  | .sendBuffer i =>
      ∀ since, o i = some since → since.ofRouter = true → since.clientGone = false
  | .notification i =>
      ∀ since, o i = some since → since.ofRouter = true → since.serverGone = false

end Order

/-! ## Pointers -/

namespace Segment

/-- A handle on the queue `name`, whose object is there if and only if it is not `gone`. -/
structure Points (s : Segment) (h : QueueHandle) (name : QueueName) (gone : Bool) : Prop where
  name : h.name = name
  owned : h.sharedQueue = false
  old : h.object < s.next
  alive : s.Alive h ↔ gone = false

/-- Objects are numbered from the ones there are. -/
def Fresh (s : Segment) : Prop := ∀ name object, s.named name = some object → object < s.next

variable {s : Segment} {h h' : QueueHandle} {name name' : QueueName} {gone gone' : Bool}

theorem use_alive (halive : s.Alive h) : s.use h = s := if_pos halive

theorem Points.use_gone (hp : s.Points h name true) : (s.use h).misused = true := by
  rw [use, if_neg]
  intro halive
  cases hp.alive.mp halive

theorem Points.close (hp : s.Points h name gone) :
    s.closeQueue h = s.destroyPtr h := by
  rw [closeQueue, hp.owned, if_neg Bool.false_ne_true]

theorem misused_destroyPtr (hmisused : s.misused = true) : (s.destroyPtr h).misused = true := by
  rw [destroyPtr]
  split
  · exact hmisused
  · rfl

theorem Points.destroyPtr_alive (hp : s.Points h name false) :
    s.destroyPtr h = s.remove name := by
  rw [destroyPtr, if_pos (hp.alive.mpr rfl), hp.name]

theorem Points.destroyPtr_gone (hp : s.Points h name true) : (s.destroyPtr h).misused = true := by
  rw [destroyPtr, if_neg]
  intro halive
  cases hp.alive.mp halive

@[simp] theorem named_remove_self (s : Segment) (name : QueueName) :
    (s.remove name).named name = none := Function.update_self ..

@[simp] theorem named_remove_of_ne (s : Segment) (hne : name' ≠ name) :
    (s.remove name).named name' = s.named name' := Function.update_of_ne hne ..

@[simp] theorem named_construct_self (s : Segment) (name : QueueName) :
    (s.construct name).named name = some s.next := Function.update_self ..

@[simp] theorem named_construct_of_ne (s : Segment) (hne : name' ≠ name) :
    (s.construct name).named name' = s.named name' := Function.update_of_ne hne ..

/-- What an end takes away is gone for every pointer to it, -/
theorem Points.remove_self (hp : s.Points h name gone) : (s.remove name).Points h name true := by
  refine ⟨hp.name, hp.owned, hp.old, ?_⟩
  rw [Alive, hp.name, named_remove_self]
  exact ⟨fun h => (by cases h), fun h => (by cases h)⟩

/-- and for no other. -/
theorem Points.remove_of_ne (hp : s.Points h name' gone) (hne : name' ≠ name) :
    (s.remove name).Points h name' gone := by
  refine ⟨hp.name, hp.owned, hp.old, ?_⟩
  rw [← hp.alive, Alive, Alive, hp.name, named_remove_of_ne s hne]

theorem Fresh.remove (hfresh : s.Fresh) (name : QueueName) : (s.remove name).Fresh := by
  intro other object hnamed
  by_cases hne : other = name
  · rw [hne, named_remove_self] at hnamed
    cases hnamed
  · rw [named_remove_of_ne s hne] at hnamed
    exact hfresh other object hnamed

theorem Fresh.construct (hfresh : s.Fresh) (name : QueueName) : (s.construct name).Fresh := by
  intro other object hnamed
  by_cases hne : other = name
  · rw [hne, named_construct_self] at hnamed
    cases hnamed
    exact Nat.lt_succ_self _
  · rw [named_construct_of_ne s hne] at hnamed
    exact Nat.lt_succ_of_lt (hfresh other object hnamed)

/-- A new object is not one that was ever pointed at. -/
theorem Points.construct (hp : s.Points h name' gone) (hnone : s.named name = none) :
    (s.construct name).Points h name' gone := by
  refine ⟨hp.name, hp.owned, Nat.lt_succ_of_lt hp.old, ?_⟩
  rw [← hp.alive, Alive, Alive, hp.name]
  by_cases hne : name' = name
  · have hold := hp.old
    rw [hne, named_construct_self, hnone, Option.some_inj]
    constructor
    · intro heq
      omega
    · intro heq
      cases heq
  · rw [named_construct_of_ne s hne]

/-- What opening a queue does: to the one who opens it, and to everybody else. -/
theorem Fresh.openQueue (hfresh : s.Fresh) (name : QueueName) :
    (s.openQueue name).2.misused = s.misused ∧ (s.openQueue name).2.Fresh ∧
      (s.openQueue name).2.Points (s.openQueue name).1 name false ∧
      ∀ h name' gone, s.Points h name' gone → (s.openQueue name).2.Points h name' gone := by
  simp only [Segment.openQueue, findOrConstruct]
  cases hnamed : s.named name with
  | some object =>
      refine ⟨rfl, hfresh, ⟨rfl, rfl, hfresh _ _ hnamed, ?_⟩, fun _ _ _ hp => hp⟩
      exact ⟨fun _ => rfl, fun _ => hnamed⟩
  | none =>
      refine ⟨rfl, hfresh.construct name, ⟨rfl, rfl, Nat.lt_succ_self _, ?_⟩,
        fun _ _ _ hp => hp.construct hnamed⟩
      exact ⟨fun _ => rfl, fun _ => named_construct_self s name⟩

end Segment

/-! ## Sessions and their order -/

/-- An end and its history say the same about its pointers. -/
inductive Matched (segment : Segment) : QueueEnd → Option Since → Prop where
  | closed : Matched segment .closed none
  | client {recvQueue sendQueue : QueueHandle} {clientGone serverGone : Bool}
      (hrecv : segment.Points recvQueue .client clientGone)
      (hsend : segment.Points sendQueue .server serverGone) :
      Matched segment (.client recvQueue sendQueue) (some ⟨false, clientGone, serverGone⟩)
  | router {clientQueue serverQueue : QueueHandle} {clientGone serverGone : Bool}
      (hclient : segment.Points clientQueue .client clientGone)
      (hserver : segment.Points serverQueue .server serverGone) :
      Matched segment (.router clientQueue serverQueue) (some ⟨true, clientGone, serverGone⟩)

/-- Nothing has been misused, and every end is matched. -/
structure Agrees (s : Sessions) (o : Order) : Prop where
  unused : s.segment.misused = false
  fresh : s.segment.Fresh
  ends : ∀ i, Matched s.segment (s.ends i) (o i)

theorem Matched.mono {segment segment' : Segment} {e : QueueEnd} {since : Option Since}
    (h : Matched segment e since)
    (hpoints : ∀ h name gone, segment.Points h name gone → segment'.Points h name gone) :
    Matched segment' e since := by
  cases h with
  | closed => exact .closed
  | client hrecv hsend => exact .client (hpoints _ _ _ hrecv) (hpoints _ _ _ hsend)
  | router hclient hserver => exact .router (hpoints _ _ _ hclient) (hpoints _ _ _ hserver)

namespace Agrees

variable {s : Sessions} {o : Order} {i : Nat}

theorem new : Agrees .new .new :=
  ⟨rfl, fun _ _ h => (by cases h), fun _ => .closed⟩

/-- Both kinds of end open both queues. -/
theorem opened (h : Agrees s o) (make : QueueHandle → QueueHandle → QueueEnd) (since : Since)
    (hmake : ∀ segment clientQueue serverQueue, Segment.Points segment clientQueue .client false →
      Segment.Points segment serverQueue .server false →
      Matched segment (make clientQueue serverQueue) (some since)) :
    Agrees
      (s.set i ((s.segment.openQueue .client).2.openQueue .server).2
        (make (s.segment.openQueue .client).1
          ((s.segment.openQueue .client).2.openQueue .server).1))
      (Function.update o i (some since)) := by
  obtain ⟨hunused, hfresh, hclient, hkeep⟩ := h.fresh.openQueue .client
  obtain ⟨hunused', hfresh', hserver, hkeep'⟩ := hfresh.openQueue .server
  refine ⟨hunused'.trans (hunused.trans h.unused), hfresh', fun j => ?_⟩
  by_cases hj : j = i
  · subst hj
    simp only [Sessions.set, Function.update_self]
    exact hmake _ _ _ (hkeep' _ _ _ hclient) hserver
  · simp only [Sessions.set, Function.update_of_ne hj]
    exact (h.ends j).mono fun _ _ _ hp => hkeep' _ _ _ (hkeep _ _ _ hp)

/-- An end that goes while its queues are there. -/
theorem closed {segment : Segment} {server : Bool} (h : Agrees s o)
    (hunused : segment.misused = s.segment.misused) (hfresh : segment.Fresh)
    (hclient : ∀ h gone, s.segment.Points h .client gone → segment.Points h .client true)
    (hserver : ∀ h gone, s.segment.Points h .server gone →
      segment.Points h .server (gone || server)) :
    Agrees (s.set i segment .closed) (o.close i server) := by
  refine ⟨hunused.trans h.unused, hfresh, fun j => ?_⟩
  rw [Order.close]
  by_cases hj : j = i
  · subst hj
    simp only [Sessions.set, Function.update_self, if_true]
    exact .closed
  · simp only [Sessions.set, Function.update_of_ne hj, if_neg hj]
    have hends := h.ends j
    generalize s.ends j = e at hends ⊢
    generalize o j = since at hends ⊢
    cases hends with
    | closed => exact .closed
    | client hrecv hsend => exact .client (hclient _ _ hrecv) (hserver _ _ hsend)
    | router hc hs => exact .router (hclient _ _ hc) (hserver _ _ hs)

/-- A use of a queue that is there changes nothing. -/
theorem used {h : QueueHandle} {name : QueueName} (hagrees : Agrees s o)
    (hp : s.segment.Points h name false) :
    Agrees { s with segment := s.segment.use h } o := by
  rw [Segment.use_alive (hp.alive.mpr rfl)]
  exact hagrees

/-- What an end can be, and what its history then says. -/
theorem ends_cases (h : Agrees s o) (i : Nat) :
    (s.ends i = .closed ∧ o i = none) ∨
      (∃ recvQueue sendQueue clientGone serverGone, s.ends i = .client recvQueue sendQueue ∧
        o i = some ⟨false, clientGone, serverGone⟩ ∧
        s.segment.Points recvQueue .client clientGone ∧
        s.segment.Points sendQueue .server serverGone) ∨
      ∃ clientQueue serverQueue clientGone serverGone,
        s.ends i = .router clientQueue serverQueue ∧
        o i = some ⟨true, clientGone, serverGone⟩ ∧
        s.segment.Points clientQueue .client clientGone ∧
        s.segment.Points serverQueue .server serverGone := by
  have hi := h.ends i
  generalize s.ends i = e at hi ⊢
  generalize o i = since at hi ⊢
  cases hi with
  | closed => exact .inl ⟨rfl, rfl⟩
  | client hrecv hsend => exact .inr (.inl ⟨_, _, _, _, rfl, rfl, hrecv, hsend⟩)
  | router hclient hserver => exact .inr (.inr ⟨_, _, _, _, rfl, rfl, hclient, hserver⟩)

theorem disconnected (h : Agrees s o) (htime : o.InTime (.disconnect i)) :
    Agrees (s.step (.disconnect i)) (o.step (.disconnect i)) := by
  rcases h.ends_cases i with ⟨hend, hord⟩ | ⟨_, _, _, _, hend, hord, hrecv, -⟩ |
    ⟨_, _, _, _, hend, hord, -⟩
  · simp only [Sessions.step, Order.step, hend, hord]
    exact h
  · obtain rfl := htime _ hord rfl
    simp only [Sessions.step, Order.step, hend, hord]
    rw [hrecv.close, hrecv.destroyPtr_alive]
    refine h.closed rfl (h.fresh.remove _) (fun _ _ hp => hp.remove_self) fun _ gone hp => ?_
    rw [Bool.or_false]
    exact hp.remove_of_ne (by decide)
  · simp only [Sessions.step, Order.step, hend, hord]
    exact h

theorem destroyed (h : Agrees s o) (htime : o.InTime (.destroy i)) :
    Agrees (s.step (.destroy i)) (o.step (.destroy i)) := by
  rcases h.ends_cases i with ⟨hend, hord⟩ | ⟨_, _, _, _, hend, hord, -⟩ |
    ⟨_, _, _, _, hend, hord, hclient, hserver⟩
  · simp only [Sessions.step, Order.step, hend, hord]
    exact h
  · simp only [Sessions.step, Order.step, hend, hord]
    exact h
  · obtain ⟨rfl, rfl⟩ := htime _ hord rfl
    have hclient' : (s.segment.remove .server).Points _ .client false :=
      hclient.remove_of_ne (by decide)
    simp only [Sessions.step, Order.step, hend, hord]
    rw [hserver.close, hserver.destroyPtr_alive, hclient'.close, hclient'.destroyPtr_alive]
    refine h.closed rfl ((h.fresh.remove _).remove _) (fun _ _ hp => ?_) fun _ gone hp => ?_
    · exact (hp.remove_of_ne (by decide)).remove_self
    · rw [Bool.or_true]
      exact hp.remove_self.remove_of_ne (by decide)

theorem step (h : Agrees s o) {i : Sessions.Step} (htime : o.InTime i) :
    Agrees (s.step i) (o.step i) := by
  cases i with
  | connect i =>
      rcases h.ends_cases i with ⟨hend, hord⟩ | ⟨_, _, _, _, hend, hord, -⟩ |
        ⟨_, _, _, _, hend, hord, -⟩
      · simp only [Sessions.step, Order.step, hend, hord]
        exact h.opened _ _ fun _ _ _ => .client
      · simp only [Sessions.step, Order.step, hend, hord]
        exact h
      · simp only [Sessions.step, Order.step, hend, hord]
        exact h
  | construct i =>
      rcases h.ends_cases i with ⟨hend, hord⟩ | ⟨_, _, _, _, hend, hord, -⟩ |
        ⟨_, _, _, _, hend, hord, -⟩
      · simp only [Sessions.step, Order.step, hend, hord]
        exact h.opened _ _ fun _ _ _ => .router
      · simp only [Sessions.step, Order.step, hend, hord]
        exact h
      · simp only [Sessions.step, Order.step, hend, hord]
        exact h
  | disconnect i => exact h.disconnected htime
  | destroy i => exact h.destroyed htime
  | receive i =>
      rcases h.ends_cases i with ⟨hend, -⟩ | ⟨_, _, _, _, hend, hord, hrecv, -⟩ |
        ⟨_, _, _, _, hend, -⟩
      · simp only [Sessions.step, hend]
        exact h
      · obtain rfl := htime _ hord rfl
        simp only [Sessions.step, hend]
        exact h.used hrecv
      · simp only [Sessions.step, hend]
        exact h
  | sendMessage i =>
      rcases h.ends_cases i with ⟨hend, -⟩ | ⟨_, _, _, _, hend, hord, -, hsend⟩ |
        ⟨_, _, _, _, hend, -⟩
      · simp only [Sessions.step, hend]
        exact h
      · obtain rfl := htime _ hord rfl
        simp only [Sessions.step, hend]
        exact h.used hsend
      · simp only [Sessions.step, hend]
        exact h
  | sendBuffer i =>
      rcases h.ends_cases i with ⟨hend, -⟩ | ⟨_, _, _, _, hend, -⟩ |
        ⟨_, _, _, _, hend, hord, hclient, -⟩
      · simp only [Sessions.step, hend]
        exact h
      · simp only [Sessions.step, hend]
        exact h
      · obtain rfl := htime _ hord rfl
        simp only [Sessions.step, hend]
        exact h.used hclient
  | notification i =>
      rcases h.ends_cases i with ⟨hend, -⟩ | ⟨_, _, _, _, hend, -⟩ |
        ⟨_, _, _, _, hend, hord, -, hserver⟩
      · simp only [Sessions.step, hend]
        exact h
      · simp only [Sessions.step, hend]
        exact h
      · obtain rfl := htime _ hord rfl
        simp only [Sessions.step, hend]
        exact h.used hserver

theorem client_of {since : Since} (h : Agrees s o) (hord : o i = some since)
    (hkind : since.ofRouter = false) :
    ∃ recvQueue sendQueue, s.ends i = .client recvQueue sendQueue ∧
      s.segment.Points recvQueue .client since.clientGone ∧
      s.segment.Points sendQueue .server since.serverGone := by
  have hi := h.ends i
  rw [hord] at hi
  generalize s.ends i = e at hi ⊢
  cases hi with
  | client hrecv hsend => exact ⟨_, _, rfl, hrecv, hsend⟩
  | router _ _ => cases hkind

theorem router_of {since : Since} (h : Agrees s o) (hord : o i = some since)
    (hkind : since.ofRouter = true) :
    ∃ clientQueue serverQueue, s.ends i = .router clientQueue serverQueue ∧
      s.segment.Points clientQueue .client since.clientGone ∧
      s.segment.Points serverQueue .server since.serverGone := by
  have hi := h.ends i
  rw [hord] at hi
  generalize s.ends i = e at hi ⊢
  cases hi with
  | client _ _ => cases hkind
  | router hclient hserver => exact ⟨_, _, rfl, hclient, hserver⟩

/-- An end of a client comes too late if one of its queues is `gone`. -/
theorem client_late (gone : Since → Bool) (h : Agrees s o)
    (hlate : ¬ ∀ since, o i = some since → since.ofRouter = false → gone since = false) :
    ∃ since recvQueue sendQueue, gone since = true ∧ s.ends i = .client recvQueue sendQueue ∧
      s.segment.Points recvQueue .client since.clientGone ∧
      s.segment.Points sendQueue .server since.serverGone := by
  simp only [not_forall, Bool.not_eq_false] at hlate
  obtain ⟨since, hord, hkind, hgone⟩ := hlate
  obtain ⟨recvQueue, sendQueue, hends⟩ := h.client_of hord hkind
  exact ⟨since, recvQueue, sendQueue, hgone, hends⟩

theorem router_late (gone : Since → Bool) (h : Agrees s o)
    (hlate : ¬ ∀ since, o i = some since → since.ofRouter = true → gone since = false) :
    ∃ since clientQueue serverQueue, gone since = true ∧
      s.ends i = .router clientQueue serverQueue ∧
      s.segment.Points clientQueue .client since.clientGone ∧
      s.segment.Points serverQueue .server since.serverGone := by
  simp only [not_forall, Bool.not_eq_false] at hlate
  obtain ⟨since, hord, hkind, hgone⟩ := hlate
  obtain ⟨clientQueue, serverQueue, hends⟩ := h.router_of hord hkind
  exact ⟨since, clientQueue, serverQueue, hgone, hends⟩

/-- A step that comes too late misuses a queue. -/
theorem misused (h : Agrees s o) {i : Sessions.Step} (hlate : ¬ o.InTime i) :
    (s.step i).segment.misused = true := by
  cases i with
  | connect i => exact absurd trivial hlate
  | construct i => exact absurd trivial hlate
  | disconnect i =>
      obtain ⟨since, recvQueue, sendQueue, hgone, hend, hrecv, -⟩ :=
        h.client_late Since.clientGone hlate
      rw [hgone] at hrecv
      simp only [Sessions.step, hend]
      show (s.segment.closeQueue recvQueue).misused = true
      rw [hrecv.close]
      exact hrecv.destroyPtr_gone
  | receive i =>
      obtain ⟨since, recvQueue, sendQueue, hgone, hend, hrecv, -⟩ :=
        h.client_late Since.clientGone hlate
      rw [hgone] at hrecv
      simp only [Sessions.step, hend]
      exact hrecv.use_gone
  | sendMessage i =>
      obtain ⟨since, recvQueue, sendQueue, hgone, hend, -, hsend⟩ :=
        h.client_late Since.serverGone hlate
      rw [hgone] at hsend
      simp only [Sessions.step, hend]
      exact hsend.use_gone
  | destroy i =>
      simp only [Order.InTime, not_forall] at hlate
      obtain ⟨since, hord, hkind, hgone⟩ := hlate
      obtain ⟨clientQueue, serverQueue, hend, hclient, hserver⟩ := h.router_of hord hkind
      simp only [Sessions.step, hend]
      show ((s.segment.closeQueue serverQueue).closeQueue clientQueue).misused = true
      rw [Segment.closeQueue, hclient.owned, if_neg Bool.false_ne_true, hserver.close]
      cases hs : since.serverGone with
      | true =>
          rw [hs] at hserver
          exact Segment.misused_destroyPtr hserver.destroyPtr_gone
      | false =>
          rw [hs] at hserver hgone
          have hc : since.clientGone = true := by
            rw [← Bool.not_eq_false]
            exact fun hc => hgone ⟨hc, rfl⟩
          rw [hc] at hclient
          rw [hserver.destroyPtr_alive]
          exact (hclient.remove_of_ne (by decide)).destroyPtr_gone
  | sendBuffer i =>
      obtain ⟨since, clientQueue, serverQueue, hgone, hend, hclient, -⟩ :=
        h.router_late Since.clientGone hlate
      rw [hgone] at hclient
      simp only [Sessions.step, hend]
      exact hclient.use_gone
  | notification i =>
      obtain ⟨since, clientQueue, serverQueue, hgone, hend, -, hserver⟩ :=
        h.router_late Since.serverGone hlate
      rw [hgone] at hserver
      simp only [Sessions.step, hend]
      exact hserver.use_gone

end Agrees

namespace Sessions

/-- No queue has been used or destroyed when it was not there. -/
def Sound (s : Sessions) : Prop := s.segment.misused = false

/-- In every state of every order of events, nothing has been misused, if and only if no end
uses or closes a queue that another end has taken away since it was opened. -/
theorem sound_iff (steps : List Step) :
    Always step Sound new steps ↔ Along Order.step Order.InTime Order.new steps := by
  have hkeep : ∀ s o i, Agrees s o → o.InTime i → Agrees (s.step i) (o.step i) :=
    fun _ _ _ h htime => h.step htime
  have hbreak : ∀ s o i, Agrees s o → ¬ o.InTime i → ¬ (s.step i).Sound := by
    intro s o i h hlate hsound
    have hmisused := h.misused hlate
    rw [Sound, hmisused] at hsound
    cases hsound
  exact always_iff_along_of_sim (fun _ _ h => h.unused) hkeep hbreak Agrees.new

/-- A client that connects, a router that takes the connection, and the two of them going,
in either order, with nothing sent in between. -/
theorem session_misused :
    (after step new [.connect 0, .construct 1, .disconnect 0, .destroy 1]).segment.misused = true ∧
      (after step new [.connect 0, .construct 1, .destroy 1, .disconnect 0]).segment.misused =
        true ∧
      ¬ Always step Sound new [.connect 0, .construct 1, .disconnect 0, .destroy 1] := by
  have hfirst : (after step new
      [.connect 0, .construct 1, .disconnect 0, .destroy 1]).segment.misused = true := by
    decide
  refine ⟨hfirst, by decide, fun h => ?_⟩
  have hsound : _ = false := h.last
  rw [hfirst] at hsound
  cases hsound

end Sessions

end Fastpath
