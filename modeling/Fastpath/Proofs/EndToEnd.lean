import Fastpath.Proofs.Receive
import Fastpath.Proofs.Send
import Fastpath.Proofs.Traffic

/-!
# From one client to another

Three programs lie between a call of `sendMessage` and a callback: the transport
that encodes, the router that forwards, and the transport that decodes. Each has
been followed on its own. Here they are put in a row, and the networks between
them may cut what they carry wherever they like.

What a transport hands its socket for a list of calls is what the router takes a
client to send; what the router writes to a connection is a list of images, and
that is what the transport at the other end is made for.
-/

namespace Fastpath

open Fastpath.Lib

/-! ## The sender's transport -/

/-- What a new transport has handed its socket after these calls of `sendMessage`, if the
socket takes everything. -/
def Sending.handed (heap : Nat → Nat → UInt8) (sends : List Sending) : Bytes :=
  ((sends.map fun s => .send s.message .sent).foldl TCPTransport.sendStep
    (TCPTransport.new heap)).handed.flatten

theorem TCPTransport.sends_handed {t : TCPTransport} (hclean : t.Clean)
    (hconnected : t.connected = true) {sends : List Sending}
    (hfits : ∀ s ∈ sends, s.message.encoded.length ≤ 1024) :
    ((sends.map fun s => SendEvent.send s.message .sent).foldl sendStep t).handed.flatten =
      t.handed.flatten ++ sends.flatMap Sending.wire := by
  induction sends generalizing t with
  | nil => exact (List.append_nil _).symm
  | cons s sends ih =>
      obtain ⟨-, hhanded, hclean'⟩ :=
        sendMessage_sent hclean hconnected (hfits s List.mem_cons_self)
      have hconnected' : (t.sendMessage s.message .sent).2.connected = true := by
        rw [sendMessage, if_pos hconnected]
        exact hconnected
      rw [List.map_cons, List.foldl_cons, sendStep,
        ih hclean' hconnected' fun s hs => hfits s (List.mem_cons_of_mem _ hs), hhanded,
        List.flatten_append, List.flatten_singleton, Message.encoded_eq, List.append_assoc,
        List.flatMap_cons, Sending.wire]

theorem Sending.handed_eq (heap : Nat → Nat → UInt8) {sends : List Sending}
    (hfits : ∀ s ∈ sends, s.message.encoded.length ≤ 1024) :
    handed heap sends = sends.flatMap wire :=
  TCPTransport.sends_handed (TCPTransport.new_clean heap) rfl hfits

/-! ## The system -/

/-- Something that all three programs have room for. -/
def Sending.Carried (s : Sending) : Prop :=
  s.Proper ∧ s.message.encoded.length ≤ 1024 ∧
    s.message.Sendable ∧ s.message.payload.length < 2 ^ 32

/-- `Proper`, with the transports at the other ends of the connections: what arrives is cut
from what a transport has handed its socket. -/
def Traffic.Linked (t : Traffic) : Traffic.Event → Prop
  | .accepted i _ stream => i ∉ t.broker.connected ∧ ∀ s ∈ stream, s.Carried
  | .readable i reads _ =>
      i ∈ t.broker.connected ∧ (∀ data ∈ reads, data.length ≤ 1500) ∧
        ∃ heap future, t.arrived i ++ reads.flatten ++ future = Sending.handed heap (t.stream i)

/-- Everything sent is carried, and what has been published has been sent. -/
structure Traffic.Carries (t : Traffic) : Prop where
  streams : ∀ i, ∀ s ∈ t.stream i, s.Carried
  published : ∀ m ∈ Broker.published t.history, m.Deliverable

namespace Traffic

variable {t : Traffic}

theorem carries_new : Traffic.new.Carries :=
  ⟨fun _ _ h => absurd h List.not_mem_nil, fun _ h => absurd h List.not_mem_nil⟩

theorem Carries.proper (h : t.Carries) {e : Event} (hlinked : t.Linked e) : t.Proper e := by
  cases e with
  | accepted i heap stream => exact ⟨hlinked.1, fun s hs => (hlinked.2 s hs).1⟩
  | readable i reads closed =>
      obtain ⟨hi, hreads, heap, future, hstream⟩ := hlinked
      exact ⟨hi, hreads, future,
        hstream.trans (Sending.handed_eq heap fun s hs => (h.streams i s hs).2.1)⟩

theorem published_events (i : Nat) {s : Sending} {m : Message}
    (h : m ∈ Broker.published (s.events i)) : s = .publish m := by
  cases s with
  | publish m' => exact congrArg Sending.publish (List.mem_singleton.mp h).symm
  | register this subject => exact absurd h List.not_mem_nil
  | unregister this subject => exact absurd h List.not_mem_nil

theorem mem_published_flatMap {i : Nat} {done : List Sending} {m : Message}
    (h : m ∈ Broker.published (done.flatMap (Sending.events i))) : .publish m ∈ done := by
  induction done with
  | nil => exact absurd h List.not_mem_nil
  | cons s done ih =>
      rw [List.flatMap_cons, Broker.published_append] at h
      rcases List.mem_append.mp h with h | h
      · rw [published_events i h]
        exact List.mem_cons_self
      · exact List.mem_cons_of_mem _ (ih h)

theorem Carries.step (h : t.Carries) {e : Event} (hlinked : t.Linked e) : (t.step e).Carries := by
  cases e with
  | accepted i heap stream =>
      refine ⟨fun j => ?_, fun m hm => h.published m ?_⟩
      · show ∀ s ∈ Function.update t.stream i stream j, s.Carried
        rw [Function.update_apply]
        split
        · exact hlinked.2
        · exact h.streams j
      · rw [show (t.step (.accepted i heap stream)).history = t.history ++ [.join i] from rfl,
          Broker.published_append] at hm
        exact (List.mem_append.mp hm).resolve_right List.not_mem_nil
  | readable i reads closed =>
      refine ⟨h.streams, fun m hm => ?_⟩
      simp only [Traffic.step, Broker.published_append] at hm
      rcases List.mem_append.mp hm with hm | hm
      · rcases List.mem_append.mp hm with hm | hm
        · exact h.published m hm
        · have hprefix : t.arrivedInFull i (t.arrived i ++ reads.flatten) <+: t.stream i :=
            complete_prefix _ _
          have hsent := hprefix.subset (List.mem_of_mem_drop (mem_published_flatMap hm))
          exact (h.streams i _ hsent).2.2
      · cases closed with
        | true => exact absurd hm List.not_mem_nil
        | false => exact absurd hm List.not_mem_nil

theorem Carries.along (h : t.Carries) {events : List Event}
    (hlinked : Along Traffic.step Linked t events) :
    Along Traffic.step Proper t events ∧ (after Traffic.step t events).Carries := by
  induction events generalizing t with
  | nil => exact ⟨trivial, h⟩
  | cons e events ih =>
      obtain ⟨hproper, hcarries⟩ := ih (h.step hlinked.1) hlinked.2
      exact ⟨⟨h.proper hlinked.1, hproper⟩, hcarries⟩

end Traffic

/-! ## The receiver's transport -/

/-- A transport that reads what there is of a list of images delivers what is there in
full. -/
theorem TCPTransport.run_delivers_complete (keeps : Nat → Bool) (heap : Nat → Nat → UInt8)
    {sent : List Message} (hsent : ∀ m ∈ sent, m.Deliverable) {reading : List Event}
    (hreads : ∀ data ∈ reads reading, data.length ≤ 1500) {future : Bytes}
    (hstream : (reads reading).flatten ++ future = sent.flatMap Message.wire) :
    ∃ t, (run keeps reading).run (TCPTransport.new heap) = (.ok (), t) ∧ t.connected = true ∧
      List.Forall₂ Message.Agree (complete Message.wire sent (reads reading).flatten)
        t.delivered := by
  have hstart : Receives sent ((reads reading).flatten ++ future) (TCPTransport.new heap) :=
    hstream ▸ new_receives heap
  obtain ⟨t, hrun, hdone⟩ := run_receives keeps hsent hreads hstart
  obtain ⟨done, todo, hsplit, hagree, hbytes, hu⟩ := hdone.progress
  have hread : (reads reading).flatten = done.flatMap Message.wire ++ t.readBuffer.bytes := by
    rw [hsplit, List.flatMap_append, ← hbytes, ← List.append_assoc] at hstream
    exact List.append_cancel_right hstream
  refine ⟨t, hrun, hdone.connected, ?_⟩
  rw [hread, hsplit, complete_eq hu]
  exact hagree

/-! ## End to end -/

theorem owed_deliverable {j : Nat} {since : List (Broker.Event Nat CString Message)}
    (h : ∀ m ∈ Broker.published since, m.Deliverable) :
    ∀ m ∈ Broker.owed covers j [] since, m.Deliverable :=
  fun m hm => h m ((Broker.owed_sublist [] since).subset hm)

/-- What a connection has been sent, read by the transport at its other end. -/
theorem SinceJoined.delivers (heap : Nat → Nat → UInt8) (keeps : Nat → Bool)
    {r : Bootstrap} {j : Nat}
    {before history since : List (Broker.Event Nat CString Message)}
    (h : SinceJoined r j before history since)
    (hdeliverable : ∀ m ∈ Broker.published history, m.Deliverable)
    {reading : List TCPTransport.Event} {unread : Bytes}
    (hreads : ∀ data ∈ TCPTransport.reads reading, data.length ≤ 1500)
    (hstream : (TCPTransport.reads reading).flatten ++ unread = (r.peer j).sent) :
    ∃ t, (TCPTransport.run keeps reading).run (.new heap) = (.ok (), t) ∧ t.connected = true ∧
      List.Forall₂ Message.Agree
        (complete Message.encoded (Broker.owed covers j [] since)
          (TCPTransport.reads reading).flatten) t.delivered ∧
      (unread = [] → List.Forall₂ Message.Agree (Broker.owed covers j [] since) t.delivered) := by
  have howed : ∀ m ∈ Broker.owed covers j [] since, m.Deliverable := by
    refine owed_deliverable fun m hm => hdeliverable m ?_
    rw [h.history_eq, Broker.published_append]
    exact List.mem_append_right _ hm
  rw [h.sent] at hstream
  obtain ⟨t, hread, hconnected, hagree⟩ :=
    TCPTransport.run_delivers_complete keeps heap howed hreads hstream
  refine ⟨t, hread, hconnected, funext Message.encoded_eq ▸ hagree, fun hall => ?_⟩
  rw [hall, List.append_nil] at hstream
  have hwhole : complete Message.wire (Broker.owed covers j [] since ++ []) _ = _ :=
    complete_append _ [] []
  rw [List.append_nil, List.append_nil, complete, List.append_nil] at hwhole
  rw [hstream, hwhole] at hagree
  exact hagree

/-- A client that has been connected for some time and reads what the router has written to it
is given the messages that its subscriptions matched, as their senders built them, once
each and in the order in which the router completed them: as many as it has read in full,
and all of them once it has read everything. -/
theorem delivered_end_to_end (heap heap' : Nat → Nat → UInt8) (keeps : Nat → Bool)
    (earlier : List Traffic.Event) {session : List Traffic.Event} {j : Nat}
    {memory : Nat → Nat → UInt8} {stream : List Sending}
    (h : Along Traffic.step Traffic.Linked .new (earlier ++ .accepted j memory stream :: session))
    (hopen : ∀ reads, .readable j reads true ∉ session) :
    ∃ r since,
      (Bootstrap.run ((earlier ++ .accepted j memory stream :: session).map
        Traffic.Event.seen)).run (.new heap) = (.ok (), r) ∧
      (after Traffic.step .new (earlier ++ .accepted j memory stream :: session)).history =
        (after Traffic.step .new earlier).history ++ .join j :: since ∧
      ∀ (reading : List TCPTransport.Event) (unread : Bytes),
        (∀ data ∈ TCPTransport.reads reading, data.length ≤ 1500) →
        (TCPTransport.reads reading).flatten ++ unread = (r.peer j).sent →
        ∃ t, (TCPTransport.run keeps reading).run (.new heap') = (.ok (), t) ∧
          t.connected = true ∧
          List.Forall₂ Message.Agree
            (complete Message.encoded (Broker.owed covers j [] since)
              (TCPTransport.reads reading).flatten) t.delivered ∧
          (unread = [] →
            List.Forall₂ Message.Agree (Broker.owed covers j [] since) t.delivered) := by
  obtain ⟨hproper, hcarries⟩ := Traffic.carries_new.along h
  obtain ⟨r, since, hrun, hsince⟩ := Traffic.run_since heap earlier hproper hopen
  exact ⟨r, since, hrun, hsince.history_eq, fun _ _ hreads hstream =>
    hsince.delivers heap' keeps hcarries.published hreads hstream⟩

theorem register_carried : (Sending.register 7 (.ofString "A")).Carried := by
  refine ⟨(by decide : (CString.ofString "A").length < 2 ^ 31), ?_, ?_⟩
  · rw [Message.encoded_eq]
    decide
  · exact MessageListener.observerMessage_deliverable 7 (.ofString "A") (by decide) (by decide)

theorem probe_carried : (Sending.publish probe).Carried :=
  ⟨⟨probe_built, by decide, by decide⟩, by decide,
    ⟨probe_built, by decide, ⟨trivial, trivial⟩, by decide⟩, by decide⟩

theorem meeting_linked : Along Traffic.step Traffic.Linked .new meeting := by
  have hregister : Sending.handed (fun _ _ => 0) [.register 7 (.ofString "A")] =
      [Sending.register 7 (.ofString "A")].flatMap Sending.wire :=
    Sending.handed_eq _ fun s hs => by rw [List.mem_singleton.mp hs]; exact register_carried.2.1
  have hpublish : Sending.handed (fun _ _ => 0) [.publish probe] =
      [Sending.publish probe].flatMap Sending.wire :=
    Sending.handed_eq _ fun s hs => by rw [List.mem_singleton.mp hs]; exact probe_carried.2.1
  refine ⟨⟨by decide, fun s hs => ?_⟩,
    ⟨by decide, by decide, fun _ _ => 0, (Sending.register 7 (.ofString "A")).wire.drop 20, ?_⟩,
    ⟨by decide, fun s hs => ?_⟩, ⟨by decide, by decide, fun _ _ => 0, [], ?_⟩,
    ⟨by decide, by decide, fun _ _ => 0, [], ?_⟩, trivial⟩
  · rw [List.mem_singleton.mp hs]
    exact register_carried
  · refine Eq.trans ?_ hregister.symm
    decide
  · rw [List.mem_singleton.mp hs]
    exact probe_carried
  · refine Eq.trans ?_ hregister.symm
    decide
  · refine Eq.trans ?_ hpublish.symm
    decide

/-- The client that subscribed reads what it was sent, whatever it cuts that into. -/
theorem delivered_end_to_end_meeting :
    ∃ r since,
      (Bootstrap.run (meeting.map Traffic.Event.seen)).run (.new fun _ _ => 0) = (.ok (), r) ∧
      (after Traffic.step .new meeting).history = .join 2 :: since ∧
      ∀ (reading : List TCPTransport.Event) (unread : Bytes),
        (∀ data ∈ TCPTransport.reads reading, data.length ≤ 1500) →
        (TCPTransport.reads reading).flatten ++ unread = (r.peer 2).sent →
        ∃ t, (TCPTransport.run (fun _ => true) reading).run (.new fun _ _ => 5) = (.ok (), t) ∧
          t.connected = true ∧
          List.Forall₂ Message.Agree
            (complete Message.encoded (Broker.owed covers 2 [] since)
              (TCPTransport.reads reading).flatten) t.delivered ∧
          (unread = [] →
            List.Forall₂ Message.Agree (Broker.owed covers 2 [] since) t.delivered) := by
  refine delivered_end_to_end _ _ _ [] meeting_linked fun reads hmem => ?_
  simp at hmem

end Fastpath
