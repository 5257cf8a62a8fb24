import Fastpath.Proofs.Capacity
import Fastpath.Proofs.Codec
import Fastpath.Proofs.Buffer

/-!
# What the client puts on the wire

`sendMessage` takes its message's bytes out of the send buffer only after the
socket has taken them. So the buffer is empty between calls as long as every
call either finds no connection or succeeds, and in that situation what a call
hands over is its own message and nothing else. A failed call leaves its
message in the buffer, and the next one hands over both.

The buffer starts with 1024 bytes and `encode` is only right in place, so the
other half of the situation is that messages fit.
-/

namespace Fastpath

open Fastpath.Lib

namespace TCPTransport

/-- What one call owes: its own message to the socket if there is one, and a buffer
as it was if it reports a failure. -/
def ExactCall (t : TCPTransport) (msg : Message) (result : SendResult) : Prop :=
  (t.sendMessage msg result).2.handed =
      t.handed ++ (if t.connected then [msg.encoded] else []) ∧
    ((t.sendMessage msg result).1 = .cannotSend →
      (t.sendMessage msg result).2.sendBuffer.bytes = t.sendBuffer.bytes)

/-- The calls that meet no trouble: there is no connection, or the socket takes a
message that fits the buffer. -/
def SmoothCall (t : TCPTransport) (msg : Message) (result : SendResult) : Prop :=
  t.connected = true → result = .sent ∧ msg.encoded.length ≤ 1024

/-- A condition on every call of a run, in the state the call is made in. -/
def EveryCall (P : TCPTransport → Message → SendResult → Prop) :
    TCPTransport → List SendEvent → Prop
  | _, [] => True
  | t, .send msg result :: events =>
      P t msg result ∧ EveryCall P (t.sendStep (.send msg result)) events
  | t, event :: events => EveryCall P (t.sendStep event) events

/-- Nothing is left in the send buffer, and it is where it started. -/
structure Clean (t : TCPTransport) : Prop where
  startIndex : t.sendBuffer.startIndex = 0
  stored : t.sendBuffer.storage.stored = []
  capacity : t.sendBuffer.storage.capacity = 1024

/-! ## One call -/

/-- What a call hands over from a buffer with room behind what it holds. -/
theorem encode_sendBuffer {b : MessageBuffer} {msg : Message} (hstart : b.startIndex = 0)
    (hroom : b.storage.stored.length + msg.wire.length ≤ b.storage.capacity) :
    let b' := { b with storage := (msg.encode b.storage).2 }
    b'.bytes = b.storage.stored ++ msg.wire ∧ b'.storage.capacity = b.storage.capacity := by
  obtain ⟨-, hwrites⟩ := msg.encode_encodes b.storage
  have hcapacity := hwrites.capacity_eq hroom
  have hstored := (hwrites.stays hroom).2.2
  generalize (msg.encode b.storage).2 = storage at hcapacity hstored
  refine ⟨?_, hcapacity⟩
  show storage.stored.drop b.startIndex = _
  rw [hstart, hstored, List.drop_zero]

theorem eraseFront_all (b : MessageBuffer) :
    (b.eraseFront b.length).startIndex = 0 ∧ (b.eraseFront b.length).storage.stored = [] ∧
      (b.eraseFront b.length).storage.capacity = b.storage.capacity := by
  have hall : b.length + b.startIndex ≥ b.storage.length := by
    rw [MessageBuffer.length]
    omega
  rw [MessageBuffer.eraseFront, if_pos hall]
  refine ⟨rfl, rfl, ?_⟩
  simp only [MutableByteStorage.capacity, MutableByteStorage.clear, MutableByteStorage.truncate,
    List.take_zero, List.drop_zero, List.length_nil, List.length_append]
  omega

theorem disconnectPeer_sendBuffer (reconnects : Bool) (t : TCPTransport) :
    (t.disconnectPeer reconnects).sendBuffer = t.sendBuffer ∧
      (t.disconnectPeer reconnects).handed = t.handed := by
  rw [disconnectPeer]
  split
  · dsimp only
    split
    · rw [connect]
      split <;> exact ⟨rfl, rfl⟩
    · exact ⟨rfl, rfl⟩
  · exact ⟨rfl, rfl⟩

theorem connect_sendBuffer (t : TCPTransport) :
    t.connect.sendBuffer = t.sendBuffer ∧ t.connect.handed = t.handed := by
  rw [connect]
  split <;> exact ⟨rfl, rfl⟩

theorem sendMessage_unconnected {t : TCPTransport} (h : t.connected = false) (msg : Message)
    (result : SendResult) : t.sendMessage msg result = (.cannotSend, t) := by
  rw [sendMessage, h]
  rfl

/-- With room behind what the buffer holds, a call hands over that and its own message. -/
theorem sendMessage_handed {t : TCPTransport} (hconnected : t.connected = true)
    (hstart : t.sendBuffer.startIndex = 0) {msg : Message}
    (hroom : t.sendBuffer.storage.stored.length + msg.wire.length ≤
      t.sendBuffer.storage.capacity) (result : SendResult) :
    (t.sendMessage msg result).2.handed =
      t.handed ++ [t.sendBuffer.storage.stored ++ msg.wire] := by
  rw [← (encode_sendBuffer hstart hroom).1, sendMessage, if_pos hconnected]
  cases result with
  | sent => rfl
  | failed reconnects => exact (disconnectPeer_sendBuffer reconnects _).2

/-- A smooth call on a clean buffer sends its message and leaves the buffer clean. -/
theorem sendMessage_sent {t : TCPTransport} (hclean : t.Clean) (hconnected : t.connected = true)
    {msg : Message} (hfits : msg.encoded.length ≤ 1024) :
    (t.sendMessage msg .sent).1 = .ok ∧
      (t.sendMessage msg .sent).2.handed = t.handed ++ [msg.encoded] ∧
      (t.sendMessage msg .sent).2.Clean := by
  rw [Message.encoded_eq] at hfits ⊢
  have hroom : t.sendBuffer.storage.stored.length + msg.wire.length ≤
      t.sendBuffer.storage.capacity := by
    rw [hclean.stored, hclean.capacity, List.length_nil]
    omega
  have hhanded := sendMessage_handed hconnected hclean.startIndex hroom .sent
  rw [hclean.stored, List.nil_append] at hhanded
  have hcapacity := (encode_sendBuffer hclean.startIndex hroom).2
  obtain ⟨hstart, hstored, hcap⟩ := eraseFront_all
    { t.sendBuffer with storage := (msg.encode t.sendBuffer.storage).2 }
  refine ⟨?_, hhanded, ?_⟩
  · rw [sendMessage, if_pos hconnected]
  · rw [sendMessage, if_pos hconnected]
    generalize (msg.encode t.sendBuffer.storage).2 = storage at hcapacity hstart hstored hcap
    exact ⟨hstart, hstored, hcap.trans (hcapacity.trans hclean.capacity)⟩

theorem smoothCall_exact {t : TCPTransport} (hclean : t.Clean) {msg : Message}
    {result : SendResult} (h : t.SmoothCall msg result) :
    t.ExactCall msg result ∧ (t.sendStep (.send msg result)).Clean ∧
      (t.sendStep (.send msg result)).handed = t.handed ++
        (if (t.sendMessage msg result).1 = .ok then [msg.encoded] else []) := by
  cases hconnected : t.connected with
  | true =>
      obtain ⟨rfl, hfits⟩ := h hconnected
      obtain ⟨hok, hhanded, hclean'⟩ := sendMessage_sent hclean hconnected hfits
      refine ⟨⟨?_, ?_⟩, hclean', ?_⟩
      · rw [hhanded, hconnected, if_pos rfl]
      · rw [hok]
        intro hcannot
        cases hcannot
      · rw [sendStep, hhanded, hok, if_pos rfl]
  | false =>
      have hcall := sendMessage_unconnected hconnected msg result
      refine ⟨⟨?_, ?_⟩, ?_, ?_⟩
      · rw [hcall, hconnected]
        exact (List.append_nil _).symm
      · rw [hcall]
        exact fun _ => rfl
      · rw [sendStep, hcall]
        exact hclean
      · rw [sendStep, hcall]
        exact (List.append_nil _).symm

/-! ## Whole runs -/

theorem clean_of_sendBuffer {t t' : TCPTransport} (h : t.Clean)
    (heq : t'.sendBuffer = t.sendBuffer) : t'.Clean :=
  ⟨by rw [heq]; exact h.startIndex, by rw [heq]; exact h.stored, by rw [heq]; exact h.capacity⟩

theorem run_exact {t : TCPTransport} (hclean : t.Clean) {events : List SendEvent}
    (h : EveryCall SmoothCall t events) :
    EveryCall ExactCall t events ∧
      (events.foldl sendStep t).handed =
        t.handed ++ (reportedOk t events).map Message.encoded := by
  induction events generalizing t with
  | nil => exact ⟨trivial, (List.append_nil _).symm⟩
  | cons event events ih =>
      cases event with
      | send msg result =>
          obtain ⟨hsmooth, hrest⟩ := h
          obtain ⟨hexact, hclean', hhanded⟩ := smoothCall_exact hclean hsmooth
          obtain ⟨hexacts, hall⟩ := ih hclean' hrest
          refine ⟨⟨hexact, hexacts⟩, ?_⟩
          rw [List.foldl_cons, hall, hhanded, reportedOk, List.map_append, List.append_assoc]
          split <;> rfl
      | closed reconnects =>
          obtain ⟨hbuffer, hhanded⟩ := disconnectPeer_sendBuffer reconnects t
          obtain ⟨hexacts, hall⟩ := ih (clean_of_sendBuffer hclean hbuffer) h
          refine ⟨hexacts, ?_⟩
          rw [List.foldl_cons, sendStep, hall, hhanded]
          rfl
      | connect =>
          obtain ⟨hbuffer, hhanded⟩ := connect_sendBuffer t
          obtain ⟨hexacts, hall⟩ := ih (clean_of_sendBuffer hclean hbuffer) h
          refine ⟨hexacts, ?_⟩
          rw [List.foldl_cons, sendStep, hall, hhanded]
          rfl

theorem new_clean (heap : Nat → Nat → UInt8) : (TCPTransport.new heap).Clean := by
  refine ⟨rfl, rfl, ?_⟩
  simp only [TCPTransport.new, MessageBuffer.new, MutableByteStorage.new,
    MutableByteStorage.capacity, List.length_nil, List.length_map, List.length_range]
  decide

/-- In every run whose calls are smooth every call is exact, and the socket is handed
the messages reported `OK` once each, in order, and no other. -/
theorem send_exact_of_smooth (heap : Nat → Nat → UInt8) {events : List SendEvent}
    (h : EveryCall SmoothCall (TCPTransport.new heap) events) :
    EveryCall ExactCall (TCPTransport.new heap) events ∧
      (events.foldl sendStep (TCPTransport.new heap)).handed =
        (reportedOk (TCPTransport.new heap) events).map Message.encoded :=
  run_exact (new_clean heap) h

/-- A message sent, one refused for want of a connection, and one sent on the next. -/
theorem probe_sent_exactly :
    let events : List SendEvent :=
      [.send probe .sent, .closed false, .send probe (.failed true), .connect,
        .send (probeOf 1) .sent]
    EveryCall ExactCall (TCPTransport.new fun _ _ => 0) events ∧
      (events.foldl sendStep (TCPTransport.new fun _ _ => 0)).handed =
        (reportedOk (TCPTransport.new fun _ _ => 0) events).map Message.encoded := by
  refine send_exact_of_smooth _ ⟨fun _ => ⟨rfl, by decide⟩, ?_, fun _ => ⟨rfl, by decide⟩, trivial⟩
  intro hconnected
  cases hconnected

/-! ## A message that is sent although it was not -/

theorem sendMessage_failed {t : TCPTransport} (hconnected : t.connected = true)
    {msg : Message} (hroom : t.sendBuffer.storage.stored.length + msg.wire.length ≤
      t.sendBuffer.storage.capacity) (reconnects : Bool) :
    let t' := (t.sendMessage msg (.failed reconnects)).2
    t'.sendBuffer.startIndex = t.sendBuffer.startIndex ∧
      t'.sendBuffer.storage.stored = t.sendBuffer.storage.stored ++ msg.wire ∧
      t'.sendBuffer.storage.capacity = t.sendBuffer.storage.capacity := by
  have hwrites := (msg.encode_encodes t.sendBuffer.storage).2
  have hcapacity := hwrites.capacity_eq hroom
  have hstored := (hwrites.stays hroom).2.2
  dsimp only
  rw [sendMessage, if_pos hconnected]
  dsimp only
  rw [(disconnectPeer_sendBuffer reconnects _).1]
  generalize (msg.encode t.sendBuffer.storage).2 = storage at hcapacity hstored
  exact ⟨rfl, hstored, hcapacity⟩

/-- `probe` is reported as not sent, and goes out in front of the next message. -/
theorem probe_sent_later :
    let events : List SendEvent := [.send probe (.failed true), .send (probeOf 1) .sent]
    ¬ EveryCall ExactCall (TCPTransport.new fun _ _ => 0) events ∧
      (events.foldl sendStep (TCPTransport.new fun _ _ => 0)).handed =
        [probe.encoded, probe.encoded ++ (probeOf 1).encoded] ∧
      reportedOk (TCPTransport.new fun _ _ => 0) events = [probeOf 1] := by
  have hclean := new_clean fun _ _ => 0
  generalize ht₀ : TCPTransport.new (fun _ _ => 0) = t₀ at hclean
  have hconnected : t₀.connected = true := by rw [← ht₀]; rfl
  have hstaying : t₀.shouldDisconnect = false := by rw [← ht₀]; rfl
  have hnone : t₀.handed = [] := by rw [← ht₀]; rfl
  have hroom : t₀.sendBuffer.storage.stored.length + probe.wire.length ≤
      t₀.sendBuffer.storage.capacity := by
    rw [hclean.stored, hclean.capacity]
    decide
  have hhanded := sendMessage_handed hconnected hclean.startIndex hroom (.failed true)
  obtain ⟨hstart₁, hstored₁, hcapacity₁⟩ := sendMessage_failed hconnected hroom true
  have hconnected₁ : (t₀.sendMessage probe (.failed true)).2.connected = true := by
    simp [sendMessage, disconnectPeer, connect, notify, hconnected, hstaying]
  have hcannot : (t₀.sendMessage probe (.failed true)).1 = .cannotSend := by
    rw [sendMessage, if_pos hconnected]
  rw [hclean.startIndex] at hstart₁
  rw [hclean.stored, List.nil_append] at hstored₁ hhanded
  rw [hclean.capacity] at hcapacity₁
  generalize ht₁ : (t₀.sendMessage probe (.failed true)).2 = t₁ at *
  have hroom₁ : t₁.sendBuffer.storage.stored.length + (probeOf 1).wire.length ≤
      t₁.sendBuffer.storage.capacity := by
    rw [hstored₁, hcapacity₁]
    decide
  have hhanded₁ := sendMessage_handed hconnected₁ hstart₁ hroom₁ .sent
  have hok : (t₁.sendMessage (probeOf 1) .sent).1 = .ok := by
    rw [sendMessage, if_pos hconnected₁]
  refine ⟨?_, ?_, ?_⟩
  · intro h
    obtain ⟨⟨-, hsame⟩, -⟩ := h
    have hbytes := hsame hcannot
    rw [ht₁, MessageBuffer.bytes, MessageBuffer.bytes, hstored₁, hclean.stored, List.drop_nil,
      hstart₁] at hbytes
    exact absurd hbytes (by decide)
  · show ((t₀.sendStep (.send probe (.failed true))).sendStep (.send (probeOf 1) .sent)).handed = _
    rw [sendStep, sendStep, ht₁, hhanded₁, hhanded, hstored₁, hnone, Message.encoded_eq,
      Message.encoded_eq]
    rfl
  · rw [reportedOk, reportedOk, hcannot, sendStep, ht₁, hok]
    rfl

end TCPTransport

end Fastpath
