import Fastpath.Lib.Steps
import Fastpath.Model.Resubscribe
import Fastpath.Proofs.Observers

/-!
# A connection makes up for the ones before

Whatever has happened to the observers and to earlier connections, a new one
begins with a registration of every observer, and so the router and the listener
agree. From then on they agree as long as nothing is removed. A departure that
the router has not understood is made up for by the next connection, and so is
what was told to nobody.
-/

namespace Fastpath

open Fastpath.Lib

namespace MessageListener

variable (this : UInt64) (subject : Nat → CString)

/-- All observers are subscribed. -/
theorem foldl_subscribe {l : MessageListener} (h : l.Ready) {subscribers : List Nat}
    (hfits : ∀ i ∈ subscribers, (subject i).length ≤ 951) :
    let l' := subscribers.foldl (fun l i => l.subscribe this (subject i) .sent) l
    l'.Ready ∧
      l'.transport.handed = l.transport.handed ++
        subscribers.map (fun i => (Request.message this ⟨true, subject i⟩).encoded) ∧
      l'.observers = l.observers ∧ l'.eventManager = l.eventManager ∧
      l'.transport.shouldDisconnect = l.transport.shouldDisconnect := by
  induction subscribers generalizing l with
  | nil => exact ⟨h, (List.append_nil _).symm, rfl, rfl, rfl⟩
  | cons i subscribers ih =>
      have hlen := request_length this (q := ⟨true, subject i⟩) (by
        have htopic : registerTopic.length = 21 := by decide
        have hsubject := hfits i List.mem_cons_self
        show registerTopic.length + (subject i).length ≤ 972
        omega)
      obtain ⟨hready, hhanded, hobservers⟩ := send_ready h hlen
      obtain ⟨hready', hhanded', hobservers', hmanager', hstays'⟩ :=
        ih (l := l.subscribe this (subject i) .sent) hready
          fun j hj => hfits j (List.mem_cons_of_mem _ hj)
      refine ⟨hready', ?_, hobservers'.trans hobservers, hmanager', hstays'.trans ?_⟩
      · rw [List.foldl_cons, hhanded']
        show (l.send _ .sent).transport.handed ++ _ = _
        rw [show (l.send (observerMessage registerTopic this (subject i)) .sent).transport.handed =
          _ from hhanded, List.append_assoc]
        rfl
      · show (l.transport.sendMessage _ .sent).2.shouldDisconnect = _
        rw [TCPTransport.sendMessage, if_pos h.connected]

end MessageListener

namespace TransportContainer

open MessageListener

variable {this : UInt64} {subject : Nat → CString} {c : TransportContainer}

/-- What holds between any two events: nothing is left in the send buffer, and the receiver event
is there exactly while there is a connection. -/
structure Steady (subject : Nat → CString) (c : TransportContainer) : Prop where
  clean : c.listener.transport.Clean
  stays : c.listener.transport.shouldDisconnect = false
  short : ∀ i ∈ c.listener.observers, (subject i).length ≤ 951
  known : c.listener.eventManager = none → c.listener.observers = []
  receiving : c.receiving = (c.listener.eventManager.isSome && c.listener.transport.connected)

theorem notifyConnected_steady (hready : c.listener.Ready)
    (hstays : c.listener.transport.shouldDisconnect = false)
    (hshort : ∀ i ∈ c.listener.observers, (subject i).length ≤ 951)
    (hknown : c.listener.eventManager = none → c.listener.observers = [] ∧ c.receiving = false) :
    (c.notifyConnected this subject).Steady subject ∧
      (c.notifyConnected this subject).listener.Ready ∧
      (c.notifyConnected this subject).listener.observers = c.listener.observers ∧
      (c.notifyConnected this subject).listener.transport.handed = c.listener.transport.handed ++
        c.listener.observers.map fun i => (Request.message this ⟨true, subject i⟩).encoded := by
  rw [notifyConnected]
  split
  · next eventManager hmanager =>
      obtain ⟨hready', hsent, hobservers, hmanager', hstays'⟩ :=
        foldl_subscribe this subject hready hshort
      refine ⟨⟨hready'.clean, hstays'.trans hstays, fun i hi => hshort i (hobservers ▸ hi),
        fun hnone => ?_, ?_⟩, hready', hobservers, hsent⟩
      · rw [hmanager', hmanager] at hnone
        cases hnone
      · rw [hmanager', hmanager, hready'.connected]
        rfl
  · next hmanager =>
      obtain ⟨hnone, hreceiving⟩ := hknown hmanager
      refine ⟨⟨hready.clean, hstays, hshort, fun _ => hnone, ?_⟩, hready, rfl, ?_⟩
      · rw [hmanager, hreceiving]
        rfl
      · rw [hnone]
        exact (List.append_nil _).symm

/-- A connection that is made begins with a registration of every observer. -/
theorem connect_steady (h : c.Steady subject) (hdown : c.listener.transport.connected = false) :
    (c.connect this subject).Steady subject ∧
      (c.connect this subject).listener.Ready ∧
      (c.connect this subject).listener.observers = c.listener.observers ∧
      (c.connect this subject).listener.transport.handed = c.listener.transport.handed ++
        c.listener.observers.map fun i => (Request.message this ⟨true, subject i⟩).encoded := by
  obtain ⟨hbuffer, hhanded⟩ := TCPTransport.connect_sendBuffer c.listener.transport
  have hup : c.listener.transport.connect.connected = true ∧
      c.listener.transport.connect.shouldDisconnect = c.listener.transport.shouldDisconnect := by
    rw [TCPTransport.connect, if_neg (by rw [hdown]; exact Bool.false_ne_true)]
    exact ⟨rfl, rfl⟩
  rw [connect, if_neg (by rw [hdown]; exact Bool.false_ne_true), ← hhanded]
  refine notifyConnected_steady ⟨hup.1, ?_⟩ (hup.2.trans h.stays) h.short fun hmanager => ?_
  · exact ⟨hbuffer ▸ h.clean.startIndex, hbuffer ▸ h.clean.stored, hbuffer ▸ h.clean.capacity⟩
  · refine ⟨h.known hmanager, ?_⟩
    have hmanager : c.listener.eventManager = none := hmanager
    rw [h.receiving, hmanager]
    rfl

theorem disconnect_unconnected (c : TransportContainer) :
    c.disconnect.listener.transport.connected = false ∧
      c.disconnect.listener.transport.shouldDisconnect =
        c.listener.transport.shouldDisconnect := by
  show (c.listener.transport.disconnectPeer false).connected = false ∧
    (c.listener.transport.disconnectPeer false).shouldDisconnect = _
  rw [TCPTransport.disconnectPeer]
  split
  · simp [TCPTransport.notify]
  · next hnot => exact ⟨Bool.eq_false_iff.mpr hnot, rfl⟩

theorem disconnect_steady (h : c.Steady subject) : c.disconnect.Steady subject := by
  obtain ⟨hbuffer, -⟩ := TCPTransport.disconnectPeer_sendBuffer false c.listener.transport
  have hdown := disconnect_unconnected c
  refine ⟨⟨hbuffer ▸ h.clean.startIndex, hbuffer ▸ h.clean.stored, hbuffer ▸ h.clean.capacity⟩,
    hdown.2.trans h.stays, h.short, h.known, ?_⟩
  show (if c.listener.eventManager.isSome then false else c.receiving) =
    (c.listener.eventManager.isSome && c.disconnect.listener.transport.connected)
  rw [hdown.1, Bool.and_false, h.receiving]
  split
  · rfl
  · next hnone => rw [Bool.eq_false_iff.mpr hnone, Bool.false_and]

theorem send_steady (this : UInt64) {l : MessageListener} (hclean : l.transport.Clean) {q : Request}
    (hfits : q.topic.length + q.subject.length ≤ 972) :
    (l.send (q.message this) .sent).transport.Clean ∧
      (l.send (q.message this) .sent).transport.connected = l.transport.connected ∧
      (l.send (q.message this) .sent).transport.shouldDisconnect =
        l.transport.shouldDisconnect := by
  cases hconnected : l.transport.connected with
  | true =>
      obtain ⟨hready, -, -⟩ := send_ready ⟨hconnected, hclean⟩ (request_length this hfits)
      refine ⟨hready.clean, hready.connected, ?_⟩
      rw [send, TCPTransport.sendMessage, if_pos hconnected]
  | false =>
      rw [send, TCPTransport.sendMessage_unconnected hconnected]
      exact ⟨hclean, hconnected, rfl⟩

theorem add_steady (h : c.Steady subject) {subscriber : Nat} (eventManager : Nat)
    (hfits : (subject subscriber).length ≤ 951) :
    (c.step this subject (.call (.add subscriber eventManager))).Steady subject := by
  have hshort : ∀ i ∈ c.listener.observers ++ [subscriber], (subject i).length ≤ 951 := by
    intro i hi
    rcases List.mem_append.mp hi with hi | hi
    · exact h.short i hi
    · rw [List.mem_singleton.mp hi]
      exact hfits
  have hadded : ∀ {l : MessageListener} {receiving : Bool} {current : Nat},
      l.transport = c.listener.transport → l.observers = c.listener.observers ++ [subscriber] →
      l.eventManager = some current → receiving = l.transport.connected →
      Steady subject ⟨if l.transport.connected then l.subscribe this (subject subscriber) .sent
        else l, receiving⟩ := by
    intro l receiving current htransport hobservers hmanager hreceiving
    have hclean : l.transport.Clean := htransport ▸ h.clean
    have hstays : l.transport.shouldDisconnect = false := htransport ▸ h.stays
    have hsome : ∀ {P : Prop}, l.eventManager = none → P := fun hnone => by
      rw [hmanager] at hnone
      cases hnone
    split
    · obtain ⟨hsent, hconnected, hsame⟩ :=
        send_steady this hclean (q := ⟨true, subject subscriber⟩) (by
          have htopic : registerTopic.length = 21 := by decide
          show registerTopic.length + (subject subscriber).length ≤ 972
          omega)
      refine ⟨hsent, hsame.trans hstays, fun i hi => hshort i (hobservers ▸ hi), hsome, ?_⟩
      show receiving = (l.eventManager.isSome && (l.send _ .sent).transport.connected)
      rw [hmanager, hreceiving]
      exact hconnected.symm
    · refine ⟨hclean, hstays, fun i hi => hshort i (hobservers ▸ hi), hsome, ?_⟩
      show receiving = (l.eventManager.isSome && l.transport.connected)
      rw [hmanager, hreceiving]
      rfl
  have hreceiving := h.receiving
  rw [step, MessageListener.step, addObserver, registerTransport]
  cases hmanager : c.listener.eventManager with
  | none => exact hadded rfl rfl rfl rfl
  | some current =>
      rw [hmanager] at hreceiving
      dsimp only
      by_cases hsame : current = eventManager
      · rw [decide_eq_true hsame]
        exact hadded (l := ⟨c.listener.transport, c.listener.eventManager,
          c.listener.observers ++ [subscriber]⟩) rfl rfl hmanager hreceiving
      · rw [decide_eq_false hsame]
        exact h

theorem remove_steady (h : c.Steady subject) {subscriber : Nat}
    (hfits : (subject subscriber).length ≤ 949) :
    (c.step this subject (.call (.remove subscriber))).Steady subject := by
  rw [step, MessageListener.step, removeObserver]
  split
  · obtain ⟨hclean, hconnected, hstays⟩ :=
      send_steady this h.clean (q := ⟨false, subject subscriber⟩) (by
        have htopic : unregisterTopic.length = 23 := by decide
        show unregisterTopic.length + (subject subscriber).length ≤ 972
        omega)
    refine ⟨hclean, hstays.trans h.stays, fun i hi => h.short i (List.mem_of_mem_erase hi),
      fun hnone => ?_, h.receiving.trans (congrArg _ hconnected.symm)⟩
    show c.listener.observers.erase subscriber = []
    rw [h.known hnone]
    rfl
  · exact h

theorem call_steady (h : c.Steady subject) {call : Call} (hfits : call.Fits subject) :
    (c.step this subject (.call call)).Steady subject := by
  cases call with
  | add subscriber eventManager => exact add_steady h eventManager hfits
  | remove subscriber => exact remove_steady h hfits

theorem step_steady (this : UInt64) (h : c.Steady subject) {e : Event}
    (hfits : ∀ call, e = .call call → call.Fits subject) :
    (c.step this subject e).Steady subject := by
  cases e with
  | call call => exact call_steady h (hfits call rfl)
  | closed reconnects =>
      rw [step]
      split
      · have hdisconnected := disconnect_steady h
        split
        · exact (connect_steady hdisconnected (disconnect_unconnected c).1).1
        · exact hdisconnected
      · exact h
  | connect =>
      rw [step, if_neg (by rw [h.stays]; exact Bool.false_ne_true)]
      cases hconnected : c.listener.transport.connected with
      | true =>
          rw [connect, if_pos hconnected]
          exact h
      | false => exact (connect_steady h hconnected).1

theorem Steady.after (this : UInt64) (h : c.Steady subject) {events : List Event}
    (hfits : ∀ call, .call call ∈ events → call.Fits subject) :
    (Lib.after (step this subject) c events).Steady subject := by
  induction events generalizing c with
  | nil => exact h
  | cons e events ih =>
      have hthis := step_steady this h fun call he =>
        hfits call (he ▸ List.mem_cons_self)
      exact ih hthis fun call hmem => hfits call (List.mem_cons_of_mem _ hmem)

/-- The event after which there is a connection, and a new one. -/
def Connects (c : TransportContainer) : Event → Prop
  | .call _ => False
  | .closed reconnects => c.listener.transport.connected = true ∧ reconnects = true
  | .connect => c.listener.transport.connected = false

theorem Connects.registered (this : UInt64) (h : c.Steady subject) {e : Event}
    (hconnects : c.Connects e) :
    (c.step this subject e).Steady subject ∧ (c.step this subject e).listener.Ready ∧
      (c.step this subject e).listener.observers = c.listener.observers ∧
      (c.step this subject e).listener.transport.handed = c.listener.transport.handed ++
        c.listener.observers.map fun i => (Request.message this ⟨true, subject i⟩).encoded := by
  cases e with
  | call call => exact hconnects.elim
  | closed reconnects =>
      obtain ⟨hup, rfl⟩ := hconnects
      have hdown := (disconnect_unconnected c).1
      have hhanded : c.disconnect.listener.transport.handed = c.listener.transport.handed :=
        (TCPTransport.disconnectPeer_sendBuffer false _).2
      rw [step, if_pos hup, h.stays, if_pos (show (!false && true) = true from rfl), ← hhanded]
      exact connect_steady (disconnect_steady h) hdown
  | connect =>
      rw [step, if_neg (by rw [h.stays]; exact Bool.false_ne_true)]
      exact connect_steady h hconnects

end TransportContainer

end Fastpath
