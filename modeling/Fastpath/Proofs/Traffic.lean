import Fastpath.Proofs.Forward
import Fastpath.Proofs.Observers
import Fastpath.Spec.Traffic

/-!
# The router refines a broker

Connections come and go, subscriptions arrive on the same streams as messages,
and the dispatch loop serves the sockets in whatever order they are ready. All
the same the router is at every moment what a broker would be that had seen
nothing but the completed messages: it has the broker's clients, their patterns
as subscriptions, and has called its handler and written to its sockets exactly
as the broker passed messages on. `Mirrors` says this.

One completed message is one round of a connection's loop, and takes the router
from what mirrors the broker to what mirrors it after the message's events. What
is left in a connection's buffer is the beginning of that client's next message.
-/

namespace Fastpath

open Fastpath.Lib

/-- A router that shows what a broker has done. -/
structure Mirrors (b : Broker Nat CString Message) (r : Bootstrap) : Prop where
  connections : r.connections = b.connected
  nodup : b.connected.Nodup
  subscriptions : ∀ j ∈ b.connected,
    (r.peer j).subscriptions = (b.patterns j).map (Subscription.new stringHash)
  handled : r.handled = b.log.map fun p => (p.1, p.2.wire)
  sent : ∀ j ∈ b.connected, (r.peer j).sent = (b.out j).flatMap Message.wire

/-- A buffer that holds the beginning of the first thing of a stream that has not arrived
in full. -/
structure Holds (stream : List Sending) (arrived : Bytes) (buffer : MessageBuffer) : Prop where
  sound : buffer.Sound
  left : ∃ done todo, stream = done ++ todo ∧
    arrived = done.flatMap Sending.wire ++ buffer.bytes ∧
    Unfinished Sending.wire todo buffer.bytes

namespace Sending

theorem wire_ne_nil (s : Sending) : s.wire ≠ [] := s.message.wire_ne_nil

theorem flatMap_message (todo : List Sending) :
    (todo.map message).flatMap Message.wire = todo.flatMap wire := List.flatMap_map ..

theorem unfinished_message {todo : List Sending} {p : Bytes}
    (h : Unfinished Message.wire (todo.map message) p) : Unfinished wire todo p := by
  cases todo with
  | nil => exact h
  | cons s todo => exact h

/-- What the router makes of a message, whomever it is for. -/
def effect (i : Nat) (r : Bootstrap) (m : Message) : Bootstrap :=
  if (Subject.new stringHash m.subjectString).isAdmin then MessageListener.effect i r m
  else r.messageHandler i (.new stringHash m.subjectString) m.wire

theorem effect_publish {i : Nat} {r : Bootstrap} {m : Message} (h : (publish m).Proper) :
    effect i r (publish m).message =
      r.messageHandler i (.new stringHash m.subjectString) m.wire := by
  obtain ⟨-, -, hordinary⟩ := h
  rw [effect, message, hordinary]
  rfl

open MessageListener in
theorem register_message (this : UInt64) (subject : CString) :
    (register this subject).message = Request.message this ⟨true, subject⟩ := rfl

open MessageListener in
theorem unregister_message (this : UInt64) (subject : CString) :
    (unregister this subject).message = Request.message this ⟨false, subject⟩ := rfl

open MessageListener in
theorem effect_request (i : Nat) (r : Bootstrap) (this : UInt64) (q : Request) :
    effect i r (q.message this) = r.update i fun c =>
      { c with subscriptions := q.applyTo (r.peer i).subscriptions } := by
  rw [effect, q.admin, if_pos rfl, MessageListener.effect, q.handled]

theorem update_self (i : Nat) (r : Bootstrap) :
    (r.update i fun c => { c with subscriptions := (r.peer i).subscriptions }) = r := by
  rw [Bootstrap.update]
  exact congrArg (fun peer => { r with peer }) (Function.update_eq_self i r.peer)

theorem effect_buffer (i j : Nat) (r : Bootstrap) (m : Message) :
    ((effect i r m).peer j).buffer = (r.peer j).buffer := by
  rw [effect]
  split
  · rw [MessageListener.effect]
    split
    · rw [Bootstrap.update_peer]
      split <;> rfl
    · rfl
  · exact Bootstrap.messageHandler_buffer _ _ _ r j

/-- In front of an image, `process_buffer` does what is to be made of it. -/
theorem processBuffer_effect (i : Nat) {s : Sending} (hs : s.Proper) {v : Bootstrap.Routing}
    {t : Bytes} (h : v.storage.rest = s.message.wire ++ t) :
    (Bootstrap.processBuffer i).run v =
      (.ok .complete,
        ⟨effect i v.router s.message,
          (v.storage.mark.advanceRead s.message.wire.length).mark⟩) := by
  have hrequest : ∀ (this : UInt64) (q : MessageListener.Request), q.subject.length < 2 ^ 31 →
      v.storage.rest = (q.message this).wire ++ t → (Bootstrap.processBuffer i).run v =
        (.ok .complete, ⟨effect i v.router (q.message this),
          (v.storage.mark.advanceRead (q.message this).wire.length).mark⟩) := by
    intro this q hfits hrest
    have hdeliverable : (q.message this).Deliverable :=
      MessageListener.observerMessage_deliverable this q.subject q.topic_lt hfits
    rw [Bootstrap.processBuffer_admin i hdeliverable (q.admin this) (q.handled this _) hrest,
      effect_request]
  cases s with
  | publish m =>
      obtain ⟨hbuilt, hfits, hordinary⟩ := hs
      rw [effect_publish ⟨hbuilt, hfits, hordinary⟩]
      exact Bootstrap.processBuffer_wire i ⟨hbuilt, hfits, hordinary⟩ h
  | register this subject =>
      rw [register_message] at h ⊢
      exact hrequest this ⟨true, subject⟩ hs h
  | unregister this subject =>
      rw [unregister_message] at h ⊢
      exact hrequest this ⟨false, subject⟩ hs h

theorem Proper.fits {s : Sending} (hs : s.Proper) : s.message.wire.length < 2 ^ 64 := by
  cases s with
  | publish m => exact hs.2.1
  | register this subject =>
      exact (MessageListener.observerMessage_deliverable this subject (by decide) hs).1.fits
  | unregister this subject =>
      exact (MessageListener.observerMessage_deliverable this subject (by decide) hs).1.fits

end Sending

/-! ## One completed message -/

namespace Mirrors

variable {b : Broker Nat CString Message} {r : Bootstrap}

theorem isInterested (h : Mirrors b r) {j : Nat} (hj : j ∈ b.connected) (m : Message) :
    (r.peer j).subscriptions.isInterested (.new stringHash m.subjectString) =
      (b.patterns j).any (covers · m) := by
  rw [h.subscriptions j hj, Subscriptions.isInterested, List.any_map]
  rfl

theorem publish (h : Mirrors b r) (i : Nat) (m : Message) :
    Mirrors (b.step covers (.publish i m))
      (r.messageHandler i (.new stringHash m.subjectString) m.wire) := by
  obtain ⟨hconnections, hhandled, hpeers⟩ := Bootstrap.foldl_forward
    (.new stringHash m.subjectString) m.wire (by rw [h.connections]; exact h.nodup)
    { r with handled := r.handled ++ [(i, m.wire)] } (l := r.connections)
  refine ⟨?_, h.nodup, fun j hj => ?_, ?_, fun j hj => ?_⟩
  · exact hconnections.trans h.connections
  · have hsubs := (hpeers j).1
    rw [Bootstrap.messageHandler, hsubs]
    exact h.subscriptions j hj
  · rw [Bootstrap.messageHandler, hhandled]
    show r.handled ++ [(i, m.wire)] = (b.log ++ [(i, m)]).map _
    rw [h.handled, List.map_append]
    rfl
  · have hsent := (hpeers j).2.2
    have hinterest := h.isInterested hj m
    rw [Bootstrap.messageHandler, hsent]
    show (r.peer j).sent ++ (if j ∈ r.connections ∧
        (r.peer j).subscriptions.isInterested (.new stringHash m.subjectString) = true
        then m.wire else []) =
      (if j ∈ b.connected ∧ (b.patterns j).any (covers · m) = true then b.out j ++ [m]
        else b.out j).flatMap Message.wire
    rw [hinterest, h.sent j hj, h.connections]
    split
    · rw [List.flatMap_append, List.flatMap_singleton]
    · rw [List.append_nil]

theorem subscribe (h : Mirrors b r) (i : Nat) (subject : CString) :
    Mirrors (b.step covers (.subscribe i subject)) (r.update i fun c =>
      { c with subscriptions := (r.peer i).subscriptions.addSubscription subject }) := by
  refine ⟨h.connections, h.nodup, fun j hj => ?_, h.handled, fun j hj => ?_⟩
  · show _ = (Function.update b.patterns i (b.patterns i ++ [subject]) j).map _
    rw [Bootstrap.update_peer, Function.update_apply]
    by_cases hji : j = i
    · subst hji
      rw [if_pos rfl, if_pos rfl, List.map_append, ← h.subscriptions j hj]
      rfl
    · rw [if_neg hji, if_neg hji]
      exact h.subscriptions j hj
  · rw [Bootstrap.update_peer]
    split <;> exact h.sent j hj

/-- Buffers are nothing that a broker has. -/
theorem update (h : Mirrors b r) (i : Nat) (f : MessageBuffer → MessageBuffer) :
    Mirrors b (r.update i fun c => { c with buffer := f c.buffer }) := by
  refine ⟨h.connections, h.nodup, fun j hj => ?_, h.handled, fun j hj => ?_⟩
  · rw [Bootstrap.update_peer]
    split <;> exact h.subscriptions j hj
  · rw [Bootstrap.update_peer]
    split <;> exact h.sent j hj

theorem effect (h : Mirrors b r) (i : Nat) {s : Sending} (hs : s.Proper) :
    Mirrors (after (Broker.step covers) b (s.events i)) (Sending.effect i r s.message) := by
  cases s with
  | publish m =>
      rw [Sending.effect_publish hs]
      exact h.publish i m
  | register this subject =>
      rw [Sending.register_message, Sending.effect_request]
      exact h.subscribe i subject
  | unregister this subject =>
      rw [Sending.unregister_message, Sending.effect_request]
      exact (Sending.update_self i r).symm ▸ h

theorem effects (h : Mirrors b r) (i : Nat) {done : List Sending} (hdone : ∀ s ∈ done, s.Proper) :
    Mirrors (after (Broker.step covers) b (done.flatMap (Sending.events i)))
      ((done.map Sending.message).foldl (Sending.effect i) r) := by
  induction done generalizing b r with
  | nil => exact h
  | cons s done ih =>
      have hthis := h.effect i (hdone s List.mem_cons_self)
      have hrest := ih hthis fun s hs => hdone s (List.mem_cons_of_mem _ hs)
      rw [List.flatMap_cons, after_append]
      exact hrest

theorem leave (h : Mirrors b r) (i : Nat) :
    Mirrors (b.step covers (.leave i)) (r.disconnectionHandler i) := by
  have hmem : ∀ j ∈ b.connected.erase i, j ∈ b.connected := fun j hj => List.mem_of_mem_erase hj
  refine ⟨?_, h.nodup.erase i, fun j hj => h.subscriptions j (hmem j hj), h.handled,
    fun j hj => h.sent j (hmem j hj)⟩
  exact congrArg (·.erase i) h.connections

theorem join (h : Mirrors b r) {i : Nat} (hi : i ∉ b.connected) (heap : Nat → Nat → UInt8) :
    Mirrors (b.step covers (.join i)) (r.peerConnectionHandler i heap) := by
  have hpeer : ∀ j ∈ b.connected ++ [i],
      j = i ∨ j ∈ b.connected ∧ j ≠ i := by
    intro j hj
    rcases List.mem_append.mp hj with hj | hj
    · exact .inr ⟨hj, fun heq => hi (heq ▸ hj)⟩
    · exact .inl (List.mem_singleton.mp hj)
  refine ⟨congrArg (· ++ [i]) h.connections, Broker.nodup_step h.nodup hi, fun j hj => ?_,
    h.handled,
    fun j hj => ?_⟩
  · show (Function.update r.peer i (PeerConnection.new heap) j).subscriptions =
      (Function.update b.patterns i [] j).map _
    rcases hpeer j hj with rfl | ⟨hj, hne⟩
    · rw [Function.update_self, Function.update_self]
      rfl
    · rw [Function.update_of_ne hne, Function.update_of_ne hne]
      exact h.subscriptions j hj
  · show (Function.update r.peer i (PeerConnection.new heap) j).sent =
      (Function.update b.out i [] j).flatMap _
    rcases hpeer j hj with rfl | ⟨hj, hne⟩
    · rw [Function.update_self, Function.update_self]
      rfl
    · rw [Function.update_of_ne hne, Function.update_of_ne hne]
      exact h.sent j hj

end Mirrors

/-! ## One call of a handler -/

theorem connected_events (b : Broker Nat CString Message) (i : Nat) (done : List Sending) :
    (after (Broker.step covers) b (done.flatMap (Sending.events i))).connected = b.connected := by
  induction done generalizing b with
  | nil => rfl
  | cons s done ih =>
      rw [List.flatMap_cons, after_append, ih]
      cases s <;> rfl

/-- What is in a connection's buffer is taken off it as far as it is there in full, and takes
effect. -/
theorem drain_mirrors {b : Broker Nat CString Message} {r : Bootstrap} (h : Mirrors b r) {i : Nat}
    (hsound : (r.peer i).buffer.Sound) {todo : List Sending} (htodo : ∀ s ∈ todo, s.Proper)
    {future : Bytes}
    (hstream : (r.peer i).buffer.bytes ++ future = todo.flatMap Sending.wire) :
    ∃ done rest r', todo = done ++ rest ∧ (Bootstrap.drain i).run r = (.ok true, r') ∧
      Mirrors (after (Broker.step covers) b (done.flatMap (Sending.events i))) r' ∧
      (r'.peer i).buffer.Sound ∧
      (r.peer i).buffer.bytes = done.flatMap Sending.wire ++ (r'.peer i).buffer.bytes ∧
      Unfinished Sending.wire rest (r'.peer i).buffer.bytes ∧
      ∀ j, j ≠ i → (r'.peer j).buffer = (r.peer j).buffer := by
  have hround : ∀ m ∈ todo.map Sending.message, ∀ (v : Bootstrap.Routing) t,
      v.storage.rest = m.wire ++ t → (Bootstrap.processBuffer i).run v =
        (.ok .complete, ⟨Sending.effect i v.router m,
          (v.storage.mark.advanceRead m.wire.length).mark⟩) := by
    intro m hm v t hrest
    obtain ⟨s, hs, rfl⟩ := List.mem_map.mp hm
    exact Sending.processBuffer_effect i (htodo s hs) hrest
  have hfits : ∀ m ∈ todo.map Sending.message, m.wire.length < 2 ^ 64 := by
    intro m hm
    obtain ⟨s, hs, rfl⟩ := List.mem_map.mp hm
    exact (htodo s hs).fits
  rw [← Sending.flatMap_message] at hstream
  obtain ⟨taken, left, r', hall, hrun, ⟨n, hr'⟩, hfuture, hu⟩ := Bootstrap.drain_messages
    (Sending.effect i) (Sending.effect_buffer i i) hfits hround hstream
  obtain ⟨done, rest, rfl, rfl, rfl⟩ := List.map_eq_append_iff.mp hall
  have hmirrors := h.effects i fun s hs => htodo s (List.mem_append_left _ hs)
  have hbuffer := fun j =>
    Bootstrap.foldl_buffer (Sending.effect_buffer i j) (done.map Sending.message) r
  refine ⟨done, rest, r', rfl, hrun, ?_, ?_, ?_, Sending.unfinished_message hu, fun j hj => ?_⟩
  · rw [hr']
    exact hmirrors.update i (·.eraseFront n)
  · rw [hr', Bootstrap.update_peer, if_pos rfl, hbuffer]
    exact (MessageBuffer.eraseFront_bytes n).2 hsound
  · rw [List.map_append, List.flatMap_append, ← hfuture, ← List.append_assoc,
      Sending.flatMap_message] at hstream
    exact List.append_cancel_right hstream
  · rw [hr', Bootstrap.update_peer, if_neg hj]
    exact hbuffer j

/-- A call of `data_handler`, for any reads of a stream. -/
theorem dataHandler_mirrors {i : Nat} (closed : Bool) {reads : List Bytes}
    (hreads : ∀ data ∈ reads, data.length ≤ mtuSize) {b : Broker Nat CString Message}
    {r : Bootstrap} (h : Mirrors b r) (hsound : (r.peer i).buffer.Sound) {todo : List Sending}
    (htodo : ∀ s ∈ todo, s.Proper)
    (hu : Unfinished Sending.wire todo (r.peer i).buffer.bytes) {future : Bytes}
    (hstream : (r.peer i).buffer.bytes ++ reads.flatten ++ future = todo.flatMap Sending.wire) :
    ∃ fresh rest r', todo = fresh ++ rest ∧
      (Bootstrap.dataHandler i closed reads).run r =
        (.ok (), if closed then r'.disconnectionHandler i else r') ∧
      Mirrors (after (Broker.step covers) b (fresh.flatMap (Sending.events i))) r' ∧
      (r'.peer i).buffer.Sound ∧
      (r.peer i).buffer.bytes ++ reads.flatten =
        fresh.flatMap Sending.wire ++ (r'.peer i).buffer.bytes ∧
      Unfinished Sending.wire rest (r'.peer i).buffer.bytes ∧
      ∀ j, j ≠ i → (r'.peer j).buffer = (r.peer j).buffer := by
  induction reads generalizing b r todo with
  | nil =>
      obtain ⟨hbytes, hsound'⟩ := MessageBuffer.fill_bytes hsound [] (Nat.zero_le _)
      rw [List.append_nil] at hbytes
      refine ⟨[], todo, r.update i fun c => { c with buffer := c.buffer.fill [] }, rfl, ?_,
        h.update i (·.fill []), ?_, ?_, ?_, fun j hj => ?_⟩
      · cases closed <;> rfl
      · rw [Bootstrap.update_peer, if_pos rfl]
        exact hsound'
      · rw [Bootstrap.update_peer, if_pos rfl, List.flatten_nil, List.append_nil]
        exact hbytes.symm
      · rw [Bootstrap.update_peer, if_pos rfl]
        exact hbytes.symm ▸ hu
      · rw [Bootstrap.update_peer, if_neg hj]
  | cons data reads ih =>
      obtain ⟨hbytes, hsound'⟩ :=
        MessageBuffer.fill_bytes hsound data (hreads data List.mem_cons_self)
      generalize hr₁ : (r.update i fun c => { c with buffer := c.buffer.fill data }) = r₁
      have hself : (r₁.peer i).buffer = (r.peer i).buffer.fill data := by
        rw [← hr₁, Bootstrap.update_peer, if_pos rfl]
      have hmirrors₁ : Mirrors b r₁ := hr₁ ▸ h.update i (·.fill data)
      rw [← hself] at hbytes hsound'
      rw [List.flatten_cons, ← List.append_assoc, ← hbytes] at hstream ⊢
      obtain ⟨done, rest, r₂, rfl, hdrain, hmirrors₂, hsound₂, hdone, hu₂, hothers₂⟩ :=
        drain_mirrors hmirrors₁ hsound' htodo (by rw [← List.append_assoc]; exact hstream)
      rw [hdone, List.flatMap_append, List.append_assoc, List.append_assoc] at hstream
      obtain ⟨fresh, left, r', rfl, hrun, hmirrors', hsound'', hfresh, hu', hothers'⟩ :=
        ih (fun d hd => hreads d (List.mem_cons_of_mem _ hd)) hmirrors₂ hsound₂
          (fun s hs => htodo s (List.mem_append_right _ hs)) hu₂
          (by rw [List.append_assoc]; exact List.append_cancel_left hstream)
      refine ⟨done ++ fresh, left, r', (List.append_assoc _ _ _).symm, ?_, ?_, hsound'', ?_, hu',
        fun j hj => ?_⟩
      · rw [Bootstrap.dataHandler, Exec.bind_ok (Exec.modify_run _ _), hr₁, Exec.bind_ok hdrain]
        exact hrun
      · rw [List.flatMap_append, after_append]
        exact hmirrors'
      · rw [hdone, List.append_assoc, hfresh, List.flatMap_append, List.append_assoc]
      · refine (hothers' j hj).trans ((hothers₂ j hj).trans ?_)
        rw [← hr₁, Bootstrap.update_peer, if_neg hj]

/-! ## Whole runs -/

/-- A router in step with its clients' traffic. -/
structure Serves (t : Traffic) (r : Bootstrap) : Prop where
  mirrors : Mirrors t.broker r
  proper : ∀ j ∈ t.broker.connected, ∀ s ∈ t.stream j, s.Proper
  holds : ∀ j ∈ t.broker.connected, Holds (t.stream j) (t.arrived j) (r.peer j).buffer

theorem serves_new (heap : Nat → Nat → UInt8) : Serves .new (.new heap) where
  mirrors := ⟨rfl, .nil, fun _ h => absurd h List.not_mem_nil, rfl,
    fun _ h => absurd h List.not_mem_nil⟩
  proper _ h := absurd h List.not_mem_nil
  holds _ h := absurd h List.not_mem_nil

namespace Serves

variable {t : Traffic} {r : Bootstrap}

theorem accepted (h : Serves t r) {i : Nat} {heap : Nat → Nat → UInt8} {stream : List Sending}
    (hproper : t.Proper (.accepted i heap stream)) :
    Serves (t.step (.accepted i heap stream)) (r.peerConnectionHandler i heap) := by
  obtain ⟨hi, hstream⟩ := hproper
  have hbroker : (t.step (.accepted i heap stream)).broker = t.broker.step covers (.join i) :=
    Broker.reached_append _ _
  have hother : ∀ j ∈ (t.broker.step covers (.join i)).connected,
      j ≠ i → j ∈ t.broker.connected := by
    intro j hj hne
    rcases List.mem_append.mp hj with hj | hj
    · exact hj
    · exact absurd (List.mem_singleton.mp hj) hne
  refine ⟨hbroker ▸ h.mirrors.join hi heap, fun j hj => ?_, fun j hj => ?_⟩
  · rw [hbroker] at hj
    show ∀ s ∈ Function.update t.stream i stream j, s.Proper
    rw [Function.update_apply]
    split
    · exact hstream
    · next hne => exact h.proper j (hother j hj hne)
  · rw [hbroker] at hj
    show Holds (Function.update t.stream i stream j) (Function.update t.arrived i [] j)
      (Function.update r.peer i (PeerConnection.new heap) j).buffer
    simp only [Function.update_apply]
    split
    · exact ⟨MessageBuffer.new_sound _ _, [], stream, rfl, rfl, .nil Sending.wire_ne_nil stream⟩
    · next hne => exact h.holds j (hother j hj hne)

theorem readable (h : Serves t r) {i : Nat} {reads : List Bytes} {closed : Bool}
    (hproper : t.Proper (.readable i reads closed)) :
    ∃ r', (Bootstrap.dataHandler i closed reads).run r = (.ok (), r') ∧
      Serves (t.step (.readable i reads closed)) r' := by
  obtain ⟨hi, hreads, future, hstream⟩ := hproper
  obtain ⟨hsound, past, todo, hsplit, harrived, hu⟩ := h.holds i hi
  have htodo : ∀ s ∈ todo, s.Proper := fun s hs =>
    h.proper i hi s (by rw [hsplit]; exact List.mem_append_right _ hs)
  have hrest : (r.peer i).buffer.bytes ++ reads.flatten ++ future = todo.flatMap Sending.wire := by
    rw [hsplit, harrived, List.flatMap_append, List.append_assoc, List.append_assoc] at hstream
    rw [List.append_assoc]
    exact List.append_cancel_left hstream
  obtain ⟨fresh, rest, r', rfl, hrun, hmirrors, hsound', hbytes, hu', hothers⟩ :=
    dataHandler_mirrors closed hreads h.mirrors hsound htodo hu hrest
  -- what has arrived in full was `past` before the reads, and is `past ++ fresh` after them
  have hnow : t.arrived i ++ reads.flatten =
      (past ++ fresh).flatMap Sending.wire ++ (r'.peer i).buffer.bytes := by
    rw [harrived, List.append_assoc, hbytes, List.flatMap_append, List.append_assoc]
  have hfresh : (t.arrivedInFull i (t.arrived i ++ reads.flatten)).drop
      (t.arrivedInFull i (t.arrived i)).length = fresh := by
    rw [Traffic.arrivedInFull, Traffic.arrivedInFull, hnow, harrived, hsplit, complete_eq hu,
      ← List.append_assoc, complete_eq hu', List.drop_left]
  have hbroker : (t.step (.readable i reads closed)).broker =
      after (Broker.step covers) (after (Broker.step covers) t.broker
        (fresh.flatMap (Sending.events i))) (if closed then [.leave i] else []) := by
    rw [Traffic.broker, Traffic.step]
    dsimp only
    rw [hfresh, Broker.reached_append, Broker.reached_append]
    rfl
  have hconnected : ∀ j ∈ (t.step (.readable i reads closed)).broker.connected,
      j ∈ t.broker.connected := by
    intro j hj
    rw [hbroker] at hj
    cases closed with
    | true => exact connected_events t.broker i fresh ▸ List.mem_of_mem_erase hj
    | false => exact connected_events t.broker i fresh ▸ hj
  have hpeer : ∀ j, ((if closed then r'.disconnectionHandler i else r').peer j) = r'.peer j := by
    intro j
    split <;> rfl
  refine ⟨_, hrun, ?_, fun j hj => h.proper j (hconnected j hj), fun j hj => ?_⟩
  · rw [hbroker]
    cases closed with
    | true => exact hmirrors.leave i
    | false => exact hmirrors
  · rw [hpeer]
    show Holds (t.stream j) (Function.update t.arrived i (t.arrived i ++ reads.flatten) j) _
    rw [Function.update_apply]
    split
    · next hji =>
        rw [hji, hnow, hsplit]
        exact ⟨hsound', past ++ fresh, rest, (List.append_assoc _ _ _).symm, rfl, hu'⟩
    · next hji =>
        rw [hothers j hji]
        exact h.holds j (hconnected j hj)

theorem handle (h : Serves t r) {e : Traffic.Event} (hproper : t.Proper e) :
    ∃ r', (Bootstrap.handle e.seen).run r = (.ok (), r') ∧ Serves (t.step e) r' := by
  cases e with
  | accepted i heap stream => exact ⟨_, rfl, h.accepted hproper⟩
  | readable i reads closed => exact h.readable hproper

theorem run (h : Serves t r) {events : List Traffic.Event}
    (hproper : Along Traffic.step Traffic.Proper t events) :
    ∃ r', (Bootstrap.run (events.map Traffic.Event.seen)).run r = (.ok (), r') ∧
      Serves (after Traffic.step t events) r' := by
  induction events generalizing t r with
  | nil => exact ⟨r, rfl, h⟩
  | cons e events ih =>
      obtain ⟨r₁, hhandle, hserves₁⟩ := h.handle hproper.1
      obtain ⟨r', hrun, hserves'⟩ := ih hserves₁ hproper.2
      exact ⟨r', by rw [List.map_cons, Bootstrap.run, Exec.bind_ok hhandle, hrun], hserves'⟩

end Serves

/-- Whatever the clients do and however their bytes are cut and interleaved, the router
returns from every callback, and is then what a broker is that has seen what has arrived
in full. -/
theorem router_serves (heap : Nat → Nat → UInt8) {events : List Traffic.Event}
    (h : Along Traffic.step Traffic.Proper .new events) :
    ∃ r, (Bootstrap.run (events.map Traffic.Event.seen)).run (.new heap) = (.ok (), r) ∧
      Serves (after Traffic.step .new events) r := (serves_new heap).run h

/-- One client subscribes, in two pieces, another publishes and is gone. -/
def meeting : List Traffic.Event :=
  let request := (Sending.register 7 (.ofString "A")).wire
  [.accepted 2 (fun _ _ => 0) [.register 7 (.ofString "A")],
    .readable 2 [request.take 20] false,
    .accepted 1 (fun _ _ => 1) [.publish probe],
    .readable 2 [request.drop 20] false,
    .readable 1 [probe.wire] true]

theorem meeting_proper : Along Traffic.step Traffic.Proper .new meeting := by
  refine ⟨⟨by decide, fun s hs => ?_⟩,
    ⟨by decide, by decide, (Sending.register 7 (.ofString "A")).wire.drop 20, ?_⟩,
    ⟨by decide, fun s hs => ?_⟩, ⟨by decide, by decide, [], ?_⟩, ⟨by decide, by decide, [], ?_⟩,
    trivial⟩
  · rw [List.mem_singleton.mp hs]
    exact (by decide : (CString.ofString "A").length < 2 ^ 31)
  · decide
  · rw [List.mem_singleton.mp hs]
    exact ⟨probe_built, by decide, by decide⟩
  · decide
  · decide

theorem router_serves_meeting :
    ∃ r, (Bootstrap.run (meeting.map Traffic.Event.seen)).run (.new fun _ _ => 0) = (.ok (), r) ∧
      Serves (after Traffic.step .new meeting) r := router_serves _ meeting_proper

/-! ## What one connection is sent -/

theorem Traffic.broker_of_history {t t' : Traffic}
    {events : List (Broker.Event Nat CString Message)}
    (h : t'.history = t.history ++ events) :
    t'.broker = after (Broker.step covers) t.broker events := by
  rw [Traffic.broker, h, Broker.reached_append]
  rfl

theorem stays_events (i j : Nat) (s : Sending) : ∀ e ∈ s.events i, Broker.Stays j e := by
  intro e he
  cases s with
  | publish m =>
      rw [List.mem_singleton.mp he]
      trivial
  | register this subject =>
      rw [List.mem_singleton.mp he]
      trivial
  | unregister this subject => exact absurd he List.not_mem_nil

/-- A step that does not end a connection leaves its client where it is. -/
theorem Traffic.step_stays {t : Traffic} {e : Traffic.Event} (hproper : t.Proper e) {j : Nat}
    (hj : j ∈ t.broker.connected) (hopen : ∀ reads, e ≠ .readable j reads true) :
    ∃ events, (t.step e).history = t.history ++ events ∧ ∀ e ∈ events, Broker.Stays j e := by
  cases e with
  | accepted i heap stream =>
      refine ⟨[.join i], rfl, fun e he => ?_⟩
      rw [List.mem_singleton.mp he]
      exact fun heq => hproper.1 (heq ▸ hj)
  | readable i reads closed =>
      refine ⟨_, List.append_assoc _ _ _, fun e he => ?_⟩
      rcases List.mem_append.mp he with he | he
      · obtain ⟨s, -, hs⟩ := List.mem_flatMap.mp he
        exact stays_events i j s e hs
      · cases closed with
        | true =>
            rw [List.mem_singleton.mp he]
            exact fun heq => hopen reads (heq ▸ rfl)
        | false => exact absurd he List.not_mem_nil

theorem Traffic.after_stays {t : Traffic} {session : List Traffic.Event}
    (h : Along Traffic.step Traffic.Proper t session) {j : Nat} (hj : j ∈ t.broker.connected)
    (hopen : ∀ reads, .readable j reads true ∉ session) :
    ∃ events, (after Traffic.step t session).history = t.history ++ events ∧
      ∀ e ∈ events, Broker.Stays j e := by
  induction session generalizing t with
  | nil => exact ⟨[], (List.append_nil _).symm, fun _ he => absurd he List.not_mem_nil⟩
  | cons e session ih =>
      obtain ⟨events, hhistory, hstays⟩ := Traffic.step_stays h.1 hj
        fun reads heq => hopen reads (heq ▸ List.mem_cons_self)
      have hj' : j ∈ (t.step e).broker.connected := by
        rw [Traffic.broker_of_history hhistory]
        exact Broker.after_connected hj hstays
      obtain ⟨more, hmore, hstays'⟩ := ih h.2 hj' fun reads hmem =>
        hopen reads (List.mem_cons_of_mem _ hmem)
      refine ⟨events ++ more, ?_, fun e he => ?_⟩
      · rw [after, List.foldl_cons, ← List.append_assoc, ← hhistory]
        exact hmore
      · exact (List.mem_append.mp he).elim (hstays e) (hstays' e)

theorem Traffic.since_accepted {earlier session : List Traffic.Event} {j : Nat}
    {memory : Nat → Nat → UInt8} {stream : List Sending}
    (h : Along Traffic.step Traffic.Proper .new (earlier ++ .accepted j memory stream :: session))
    (hopen : ∀ reads, .readable j reads true ∉ session) :
    ∃ since, (after Traffic.step .new (earlier ++ .accepted j memory stream :: session)).history =
        (after Traffic.step .new earlier).history ++ .join j :: since ∧
      ∀ e ∈ since, Broker.Stays j e := by
  obtain ⟨-, -, hsession⟩ := along_append.mp h
  generalize hthen : after Traffic.step .new earlier = t at hsession
  have hjoined : j ∈ (t.step (.accepted j memory stream)).broker.connected := by
    rw [Traffic.broker_of_history (t := t) rfl]
    exact List.mem_append_right _ (List.mem_singleton_self j)
  obtain ⟨since, hsince, hstays⟩ := Traffic.after_stays hsession hjoined hopen
  refine ⟨since, ?_, hstays⟩
  rw [after_append, hthen, after, List.foldl_cons]
  exact hsince.trans (List.append_assoc _ [.join j] since)

/-- A run in which the connection of `j` is accepted and stays open, seen from `j`. -/
structure SinceJoined (r : Bootstrap) (j : Nat)
    (before history since : List (Broker.Event Nat CString Message)) : Prop where
  history_eq : history = before ++ .join j :: since
  connected : j ∈ r.connections
  sent : (r.peer j).sent = (Broker.owed covers j [] since).flatMap Message.wire

theorem Traffic.run_since (heap : Nat → Nat → UInt8) (earlier : List Traffic.Event)
    {session : List Traffic.Event} {j : Nat} {memory : Nat → Nat → UInt8} {stream : List Sending}
    (h : Along Traffic.step Traffic.Proper .new (earlier ++ .accepted j memory stream :: session))
    (hopen : ∀ reads, .readable j reads true ∉ session) :
    ∃ r since,
      (Bootstrap.run ((earlier ++ .accepted j memory stream :: session).map
        Traffic.Event.seen)).run (.new heap) = (.ok (), r) ∧
      SinceJoined r j (after Traffic.step .new earlier).history
        (after Traffic.step .new (earlier ++ .accepted j memory stream :: session)).history
        since := by
  obtain ⟨r, hrun, hserves⟩ := (serves_new heap).run h
  obtain ⟨since, hhistory, hstays⟩ := Traffic.since_accepted h hopen
  generalize after Traffic.step .new (earlier ++ .accepted j memory stream :: session) = t at *
  have hout : t.broker.out j = Broker.owed covers j [] since := by
    rw [Traffic.broker, hhistory]
    exact Broker.out_since_join hstays
  have hj : j ∈ t.broker.connected := by
    rw [Traffic.broker, hhistory, Broker.reached_append]
    exact Broker.after_connected Broker.mem_connected_join hstays
  refine ⟨r, since, hrun, hhistory, ?_, ?_⟩
  · rw [hserves.mirrors.connections]
    exact hj
  · rw [hserves.mirrors.sent j hj, hout]

/-- What a connection has been sent since it was accepted are the images of the messages that
subscriptions of its own, completed before them, matched: each once, unmodified, in the one
order in which the router completed them, whoever sent them. -/
theorem sent_since_accepted (heap : Nat → Nat → UInt8) (earlier : List Traffic.Event)
    {session : List Traffic.Event} {j : Nat} {memory : Nat → Nat → UInt8} {stream : List Sending}
    (h : Along Traffic.step Traffic.Proper .new (earlier ++ .accepted j memory stream :: session))
    (hopen : ∀ reads, .readable j reads true ∉ session) :
    ∃ r since,
      (Bootstrap.run ((earlier ++ .accepted j memory stream :: session).map
        Traffic.Event.seen)).run (.new heap) = (.ok (), r) ∧
      (after Traffic.step .new (earlier ++ .accepted j memory stream :: session)).history =
        (after Traffic.step .new earlier).history ++ .join j :: since ∧
      j ∈ r.connections ∧
      (r.peer j).sent = (Broker.owed covers j [] since).flatMap Message.wire ∧
      (Broker.owed covers j [] since).Sublist (Broker.published since) := by
  obtain ⟨r, since, hrun, hsince⟩ := Traffic.run_since heap earlier h hopen
  exact ⟨r, since, hrun, hsince.history_eq, hsince.connected, hsince.sent,
    Broker.owed_sublist _ _⟩

/-- The client that subscribed is sent what was published then. -/
theorem sent_since_accepted_meeting :
    ∃ r since,
      (Bootstrap.run (meeting.map Traffic.Event.seen)).run (.new fun _ _ => 0) = (.ok (), r) ∧
      (after Traffic.step .new meeting).history = .join 2 :: since ∧ 2 ∈ r.connections ∧
      (r.peer 2).sent = (Broker.owed covers 2 [] since).flatMap Message.wire ∧
      (Broker.owed covers 2 [] since).Sublist (Broker.published since) := by
  refine sent_since_accepted _ [] meeting_proper fun reads hmem => ?_
  simp at hmem

end Fastpath
