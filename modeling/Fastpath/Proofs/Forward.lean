import Fastpath.Lib.Fanout
import Fastpath.Lib.Frames
import Fastpath.Model.Router
import Fastpath.Proofs.Buffer
import Fastpath.Proofs.Receive

/-!
# What the router forwards

The connections interleave as the dispatch loop pleases, but each call of
`data_handler` runs to its end, and inside it the messages of one connection
are taken off its buffer one by one. So the whole run is one sequence of
completed messages, each with its source, and everything the router did can be
read off that sequence: the calls of the message handler are its elements, and
what a connection was sent is the sequence filtered by the connection's
subscriptions. `Routes` says this for a state; every read of every connection
extends the sequence and keeps it.

On each connection the sequence's messages are the first ones that connection
sent, and its buffer holds the beginning of the next, exactly as on the client.
-/

namespace Fastpath

open Fastpath.Lib

/-- The messages the router passes on, with any number of fields: their images have a
length, and the first component of their subject is not the router's own. -/
structure Message.Forwardable (m : Message) : Prop where
  built : Built m
  fits : m.wire.length < 2 ^ 64
  ordinary : (Subject.new stringHash m.subjectString).isAdmin = false

namespace Bootstrap

/-! ## One message -/

theorem readSubject_run {s : ByteStorage} {subject : CString}
    (h : CString.readFrom (s.rest.drop MsgAddressing.size) = .ok subject) :
    (readSubject (s.read + MsgAddressing.size)).run s = (.ok (.new stringHash subject), s) := by
  rw [ByteStorage.rest, List.drop_drop] at h
  simp only [readSubject, h]

/-- `process_buffer` in front of a complete message, up to its subject. -/
theorem processBuffer_complete (source : Nat) {s : Routing} {n : Nat}
    (hin : s.storage.read ≤ s.storage.bytes.length)
    (hstatus : frameStatus s.storage.rest = (.complete, n)) :
    (processBuffer source).run s =
      (if subjectLengthAt s.storage.rest > 0 then do
          let subject ← onStorage (readSubject (s.storage.mark.read + MsgAddressing.size))
          let msgData ← onStorage (takeSegment n)
          if subject.isAdmin then
            let status ← processAdmin source subject msgData
            onStorage (Exec.modify ByteStorage.mark)
            pure status
          else
            Exec.modify fun s =>
              { s with router := s.router.messageHandler source subject msgData.bytes }
            onStorage (Exec.modify ByteStorage.mark)
            pure .complete
        else pure DecodeStatus.corrupt).run ⟨s.router, s.storage.mark⟩ := by
  have hzoom : (onStorage addressingDetails).run ⟨s.router, s.storage.mark⟩ = _ :=
    Exec.zoom_ok (addressingDetails_complete (s := s.storage.mark) hin hstatus)
  have hmark : (onStorage (Exec.modify ByteStorage.mark)).run s =
      (.ok (), ⟨s.router, s.storage.mark⟩) := rfl
  have hreset : (onStorage (Exec.modify ByteStorage.resetRead)).run
      ⟨s.router, s.storage.mark.advanceRead
        (MsgAddressing.size + subjectLengthAt s.storage.mark.rest)⟩ =
      (.ok (), ⟨s.router, s.storage.mark⟩) := rfl
  rw [processBuffer, Exec.bind_ok hmark, Exec.bind_ok hzoom]
  dsimp only
  rw [Exec.bind_ok hreset]
  rfl

/-- `process_buffer` in front of a complete message with a subject, up to the question
whom it is for. -/
theorem processBuffer_addressed (source : Nat) {s : Routing} {n : Nat} {subject : CString}
    (hin : s.storage.read ≤ s.storage.bytes.length)
    (hstatus : frameStatus s.storage.rest = (.complete, n))
    (hlength : 0 < subjectLengthAt s.storage.rest)
    (hsubject : CString.readFrom (s.storage.rest.drop MsgAddressing.size) = .ok subject) :
    (processBuffer source).run s =
      (if (Subject.new stringHash subject).isAdmin then do
          let status ← processAdmin source (.new stringHash subject)
            (.ofBytes (s.storage.rest.take n))
          onStorage (Exec.modify ByteStorage.mark)
          pure status
        else do
          Exec.modify fun t => { t with
            router := t.router.messageHandler source (.new stringHash subject)
              (ByteStorage.ofBytes (s.storage.rest.take n)).bytes }
          onStorage (Exec.modify ByteStorage.mark)
          pure DecodeStatus.complete).run
        ⟨s.router, s.storage.mark.advanceRead n⟩ := by
  have hread : (onStorage (readSubject (s.storage.mark.read + MsgAddressing.size))).run
      ⟨s.router, s.storage.mark⟩ = (.ok (.new stringHash subject), ⟨s.router, s.storage.mark⟩) :=
    Exec.zoom_ok (readSubject_run (s := s.storage.mark) hsubject)
  have hsegment : (onStorage (takeSegment n)).run ⟨s.router, s.storage.mark⟩ =
      (.ok (.ofBytes (s.storage.rest.take n)), ⟨s.router, s.storage.mark.advanceRead n⟩) := rfl
  rw [processBuffer_complete source hin hstatus, if_pos hlength, Exec.bind_ok hread,
    Exec.bind_ok hsegment]

/-- In front of an image the message is the image, and the subject its own. -/
theorem addressed_wire {m : Message} (hbuilt : Built m) (hfits : m.wire.length < 2 ^ 64)
    {s : ByteStorage} {t : Bytes} (h : s.rest = m.wire ++ t) :
    s.read ≤ s.bytes.length ∧ frameStatus s.rest = (.complete, m.wire.length) ∧
      0 < subjectLengthAt s.rest ∧
      CString.readFrom (s.rest.drop MsgAddressing.size) = .ok m.subjectString ∧
      s.rest.take m.wire.length = m.wire := by
  have hin : s.read ≤ s.bytes.length := by
    apply ByteStorage.inRange_of_rest (List.length_pos_iff.mpr m.wire_ne_nil)
    rw [h, List.length_append]
    exact Nat.le_add_right _ _
  rw [h, Message.subjectLengthAt_wire hbuilt.subject_lt, Message.drop_size_wire,
    CString.terminated, List.append_assoc, List.singleton_append]
  refine ⟨hin, Message.frameStatus_wire hfits t, Nat.succ_pos _, ?_, List.take_left⟩
  rw [CString.readFrom, if_pos (by simp), CString.ofArray_append_nul]

/-- In front of an image, `process_buffer` calls the message handler with it. -/
theorem processBuffer_wire (source : Nat) {m : Message} (hm : m.Forwardable) {s : Routing}
    {t : Bytes} (h : s.storage.rest = m.wire ++ t) :
    (processBuffer source).run s =
      (.ok .complete,
        ⟨s.router.messageHandler source (.new stringHash m.subjectString) m.wire,
          (s.storage.mark.advanceRead m.wire.length).mark⟩) := by
  obtain ⟨hin, hstatus, hlength, hsubject, htake⟩ := addressed_wire hm.built hm.fits h
  rw [processBuffer_addressed source hin hstatus hlength hsubject, hm.ordinary, htake]
  rfl

/-- Short of a complete message `process_buffer` only moves the mark. -/
theorem processBuffer_other (source : Nat) {s : Routing} {status : DecodeStatus} {n : Nat}
    (hin : s.storage.read ≤ s.storage.bytes.length)
    (h : frameStatus s.storage.rest = (status, n)) (hne : status ≠ .complete) :
    (processBuffer source).run s = (.ok status, ⟨s.router, s.storage.mark⟩) := by
  have hzoom : (onStorage addressingDetails).run ⟨s.router, s.storage.mark⟩ =
      (.ok (status, none), ⟨s.router, s.storage.mark⟩) :=
    Exec.zoom_ok (addressingDetails_other (s := s.storage.mark) hin h hne)
  have hmark : (onStorage (Exec.modify ByteStorage.mark)).run s =
      (.ok (), ⟨s.router, s.storage.mark⟩) := rfl
  rw [processBuffer, Exec.bind_ok hmark, Exec.bind_ok hzoom]
  cases status with
  | complete => exact absurd rfl hne
  | incomplete => rfl
  | corrupt => rfl

theorem update_peer (i j : Nat) (f : PeerConnection → PeerConnection) (r : Bootstrap) :
    (r.update i f).peer j = if j = i then f (r.peer j) else r.peer j := by
  rw [update]
  dsimp only
  rw [Function.update_apply]
  split
  · next h => rw [h]
  · rfl

theorem foldl_buffer {α : Type} {i : Nat} {effect : Bootstrap → α → Bootstrap}
    (h : ∀ r a, ((effect r a).peer i).buffer = (r.peer i).buffer) (l : List α) (r : Bootstrap) :
    ((l.foldl effect r).peer i).buffer = (r.peer i).buffer := by
  induction l generalizing r with
  | nil => rfl
  | cons a l ih => exact (ih (effect r a)).trans (h r a)

/-- The loop over one view of a connection's buffer, when every message to come takes
one complete round whose effect leaves the buffer alone. The messages that are
there take effect in order, and the buffer gives them up. -/
theorem drain_messages {i : Nat} (effect : Bootstrap → Message → Bootstrap)
    (hbuffer : ∀ r m, ((effect r m).peer i).buffer = (r.peer i).buffer) {todo : List Message}
    (hfits : ∀ m ∈ todo, m.wire.length < 2 ^ 64)
    (hround : ∀ m ∈ todo, ∀ (s : Routing) t, s.storage.rest = m.wire ++ t →
      (processBuffer i).run s =
        (.ok .complete, ⟨effect s.router m, (s.storage.mark.advanceRead m.wire.length).mark⟩))
    {r : Bootstrap} {future : Bytes}
    (hstream : (r.peer i).buffer.bytes ++ future = todo.flatMap Message.wire) :
    ∃ done rest r', todo = done ++ rest ∧ (drain i).run r = (.ok true, r') ∧
      (∃ n, r' = (done.foldl effect r).update i fun c =>
        { c with buffer := c.buffer.eraseFront n }) ∧
      (r'.peer i).buffer.bytes ++ future = rest.flatMap Message.wire ∧
      Unfinished Message.wire rest (r'.peer i).buffer.bytes := by
  -- what a round keeps: the view stays, its cursor moves, and what has taken effect is
  -- what is no longer to come
  let Inv (rest : List Message) (s : Routing) : Prop :=
    s.storage.read ≤ s.storage.bytes.length ∧ s.storage.bytes = (r.peer i).buffer.bytes ∧
      ∃ done, todo = done ++ rest ∧ s.router = done.foldl effect r
  have hmem : ∀ {rest s}, Inv rest s → ∀ m ∈ rest, m ∈ todo := by
    intro rest s h m hm
    obtain ⟨-, -, done, hall, -⟩ := h
    rw [hall]
    exact List.mem_append_right _ hm
  have hstep : ∀ {m rest} {s : Routing} {t}, Inv (m :: rest) s → s.storage.rest = m.wire ++ t →
      ∃ s', (processRound i).run s = (.ok none, s') ∧ Inv rest s' ∧ s'.storage.rest = t := by
    intro m rest s t hinv hrest
    have hrun := hround m (hmem hinv m List.mem_cons_self) s t hrest
    obtain ⟨hin, hbytes, done, hall, hrouter⟩ := hinv
    have hlen : s.storage.read + m.wire.length ≤ s.storage.bytes.length := by
      have := congrArg List.length hrest
      rw [ByteStorage.length_rest, List.length_append] at this
      omega
    refine ⟨⟨effect s.router m, (s.storage.mark.advanceRead m.wire.length).mark⟩, ?_,
      ⟨hlen, hbytes, done ++ [m], ?_, ?_⟩, ?_⟩
    · rw [processRound, Exec.bind_ok hrun]
      rfl
    · rw [hall, List.append_assoc, List.singleton_append]
    · rw [List.foldl_append, ← hrouter]
      rfl
    · exact ByteStorage.rest_advanceRead_append (s := s.storage.mark) hrest
  have hstop : ∀ {rest} {s : Routing}, Inv rest s →
      Unfinished Message.wire rest s.storage.rest →
      (processRound i).run s = (.ok (some .incomplete), ⟨s.router, s.storage.mark⟩) := by
    intro rest s hinv hu
    obtain ⟨n, hstatus⟩ : ∃ n, frameStatus s.storage.rest = (.incomplete, n) :=
      ⟨_, Prod.ext (frameStatus_unfinished (fun m hm => hfits m (hmem hinv m hm)) hu) rfl⟩
    rw [processRound, Exec.bind_ok (processBuffer_other i hinv.1 hstatus (by decide))]
    rfl
  have hstart : Inv todo ⟨r, (r.peer i).buffer.byteStorage⟩ :=
    ⟨Nat.zero_le _, rfl, [], rfl, rfl⟩
  obtain ⟨rest, s₁, c, s', hinv, hfuture, hu, hbody, hloop⟩ :=
    Exec.untilSome_frames Fault.diverged (fun s : Routing => s.storage.rest) Inv
      Message.wire_ne_nil hstep (fun hinv hu => ⟨_, _, hstop hinv hu⟩) hstart hstream
      (Nat.lt_succ_self _)
  rw [hstop hinv hu] at hbody
  obtain ⟨hc, hs'⟩ := Prod.mk.inj hbody
  obtain ⟨hin, hbytes, done, hall, hrouter⟩ := hinv
  have hrun : (drain i).run r =
      (.ok true, s₁.router.update i fun c =>
        { c with buffer := c.buffer.eraseFront s₁.storage.bytesRead }) := by
    have hfuel : (Exec.untilSome .diverged (processRound i)
        ((r.peer i).buffer.bytes.length + 1)).run ⟨r, (r.peer i).buffer.byteStorage⟩ =
        (.ok .incomplete, ⟨s₁.router, s₁.storage.mark⟩) := by
      rw [hs']
      simp only [Except.ok.injEq, Option.some.injEq] at hc
      rw [hc]
      exact hloop
    simp only [drain, hfuel]
    rfl
  have hsame := foldl_buffer hbuffer done r
  have hleft : ((s₁.router.update i fun c =>
      { c with buffer := c.buffer.eraseFront s₁.storage.bytesRead }).peer i).buffer.bytes =
      s₁.storage.rest := by
    rw [update_peer, if_pos rfl]
    show ((s₁.router.peer i).buffer.eraseFront s₁.storage.bytesRead).bytes = _
    rw [(MessageBuffer.eraseFront_bytes _).1, hrouter, hsame, ← hbytes]
    rfl
  refine ⟨done, rest, _, hall, hrun, ⟨_, by rw [hrouter]⟩, ?_, ?_⟩
  · rw [hleft]
    exact hfuture
  · rw [hleft]
    exact hu

/-! ## Fan-out -/

/-- What a round of the handler's loop does to the connection it is at. -/
def offered (subject : Subject UInt64) (data : Bytes) (c : PeerConnection) : PeerConnection :=
  if c.subscriptions.isInterested subject then { c with sent := c.sent ++ data } else c

theorem foldl_forward_eq (subject : Subject UInt64) (data : Bytes) (l : List Nat) (r : Bootstrap) :
    l.foldl (forward subject data) r =
      { r with peer := l.foldl (changeAt (offered subject data)) r.peer } := by
  induction l generalizing r with
  | nil => rfl
  | cons i l ih =>
      have hround : forward subject data r i =
          { r with peer := changeAt (offered subject data) r.peer i } := by
        rw [forward, changeAt, offered]
        split
        · rfl
        · rw [Function.update_eq_self]
      rw [List.foldl_cons, ih, hround, List.foldl_cons]

/-- What a list of rounds does to a connection: the data once if the connection is in
the list and interested, and nothing else. -/
theorem foldl_forward (subject : Subject UInt64) (data : Bytes) {l : List Nat} (hl : l.Nodup)
    (r : Bootstrap) :
    let r' := l.foldl (forward subject data) r
    r'.connections = r.connections ∧ r'.handled = r.handled ∧
      ∀ j, (r'.peer j).subscriptions = (r.peer j).subscriptions ∧
        (r'.peer j).buffer = (r.peer j).buffer ∧
        (r'.peer j).sent = (r.peer j).sent ++
          (if j ∈ l ∧ (r.peer j).subscriptions.isInterested subject then data else []) := by
  rw [foldl_forward_eq]
  refine ⟨rfl, rfl, fun j => ?_⟩
  dsimp only
  rw [foldl_changeAt _ hl]
  by_cases hj : j ∈ l
  · rw [if_pos hj, offered]
    by_cases hinterest : (r.peer j).subscriptions.isInterested subject
    · rw [if_pos hinterest, if_pos ⟨hj, hinterest⟩]
      exact ⟨rfl, rfl, rfl⟩
    · rw [if_neg hinterest, if_neg fun h => hinterest h.2, List.append_nil]
      exact ⟨rfl, rfl, rfl⟩
  · rw [if_neg hj, if_neg fun h => hj h.1, List.append_nil]
    exact ⟨rfl, rfl, rfl⟩

/-! ## The sequence of completed messages -/

/-- Completed messages, each with the connection it came from. -/
abbrev Order := List (Nat × Message)

def completedBy (i : Nat) (order : Order) : List Message :=
  (order.filter fun p => p.1 = i).map Prod.snd

/-- What a connection with these subscriptions is owed. -/
def owedTo (subscriptions : Subscriptions) (order : Order) : Bytes :=
  (order.filter fun p => subscriptions.isInterested (.new stringHash p.2.subjectString)).flatMap
    fun p => p.2.wire

theorem completedBy_append (i j : Nat) (order : Order) (done : List Message) :
    completedBy j (order ++ done.map fun m => (i, m)) =
      completedBy j order ++ (if i = j then done else []) := by
  rw [completedBy, List.filter_append, List.map_append, completedBy]
  congr 1
  by_cases hi : i = j
  · subst hi
    rw [if_pos rfl]
    induction done with
    | nil => rfl
    | cons m done ih =>
        rw [List.map_cons, List.filter_cons_of_pos (by simp), List.map_cons, ih]
  · simp [hi]

theorem owedTo_append (subscriptions : Subscriptions) (order : Order) (i : Nat) (m : Message) :
    owedTo subscriptions (order ++ [(i, m)]) = owedTo subscriptions order ++
      (if subscriptions.isInterested (.new stringHash m.subjectString) then m.wire else []) := by
  rw [owedTo, List.filter_append, List.flatMap_append, owedTo]
  by_cases hm : subscriptions.isInterested (.new stringHash m.subjectString)
  · simp [hm]
  · simp [hm]

section Run

variable {conns : List Nat} {subs : Nat → Subscriptions} {msgs : Nat → List Message}

/-- A router that has completed exactly the messages of `order`. -/
structure Routes (conns : List Nat) (subs : Nat → Subscriptions) (order : Order)
    (r : Bootstrap) : Prop where
  connections : r.connections = conns
  subscriptions : ∀ j, (r.peer j).subscriptions = subs j
  sound : ∀ j, (r.peer j).buffer.Sound
  sources : ∀ p ∈ order, p.1 ∈ conns
  handled : r.handled = order.map fun p => (p.1, p.2.wire)
  sent : ∀ j ∈ conns, (r.peer j).sent = owedTo (subs j) order

theorem Routes.messageHandler (hnodup : conns.Nodup) {order : Order} {r : Bootstrap} {i : Nat}
    (hi : i ∈ conns) (h : Routes conns subs order r) (m : Message) :
    let r' := r.messageHandler i (.new stringHash m.subjectString) m.wire
    Routes conns subs (order ++ [(i, m)]) r' ∧
      ∀ j, (r'.peer j).buffer = (r.peer j).buffer := by
  obtain ⟨hconnections, hhandled, hpeers⟩ := foldl_forward (.new stringHash m.subjectString)
    m.wire (by rw [h.connections]; exact hnodup)
    { r with handled := r.handled ++ [(i, m.wire)] } (l := r.connections)
  refine ⟨⟨?_, ?_, ?_, ?_, ?_, ?_⟩, fun j => (hpeers j).2.1⟩
  · exact hconnections.trans h.connections
  · intro j
    exact (hpeers j).1.trans (h.subscriptions j)
  · intro j
    have hbuffer := (hpeers j).2.1
    rw [Bootstrap.messageHandler, hbuffer]
    exact h.sound j
  · intro p hp
    rcases List.mem_append.mp hp with hp | hp
    · exact h.sources p hp
    · rw [List.mem_singleton.mp hp]
      exact hi
  · rw [Bootstrap.messageHandler, hhandled, List.map_append, ← h.handled]
    rfl
  · intro j hj
    have hsent := (hpeers j).2.2
    rw [Bootstrap.messageHandler, hsent, owedTo_append]
    show (r.peer j).sent ++ (if j ∈ r.connections ∧
      (r.peer j).subscriptions.isInterested _ then _ else _) = _
    rw [h.sent j hj, h.subscriptions j, h.connections]
    simp only [hj, true_and]

/-- How far a connection is: `order` has its first messages, its buffer the beginning
of the next, and `future` is still to arrive. -/
def Progress (sent : List Message) (i : Nat) (order : Order) (bytes future : Bytes) : Prop :=
  ∃ todo, sent = completedBy i order ++ todo ∧ bytes ++ future = todo.flatMap Message.wire ∧
    Unfinished Message.wire todo bytes

theorem messageHandler_buffer (source : Nat) (subject : Subject UInt64) (data : Bytes)
    (r : Bootstrap) (j : Nat) :
    ((r.messageHandler source subject data).peer j).buffer = (r.peer j).buffer := by
  refine foldl_buffer (fun r i => ?_) r.connections _
  rw [forward]
  split
  · rw [sendBuffer, update_peer]
    split <;> rfl
  · rfl

theorem Routes.foldl (hnodup : conns.Nodup) {order : Order} {r : Bootstrap} {i : Nat}
    (hi : i ∈ conns) (h : Routes conns subs order r) (done : List Message) :
    let r' := done.foldl
      (fun r m => r.messageHandler i (.new stringHash m.subjectString) m.wire) r
    Routes conns subs (order ++ done.map fun m => (i, m)) r' ∧
      ∀ j, (r'.peer j).buffer = (r.peer j).buffer := by
  induction done generalizing order r with
  | nil =>
      rw [List.map_nil, List.append_nil]
      exact ⟨h, fun _ => rfl⟩
  | cons m done ih =>
      obtain ⟨hroutes, hbuffers⟩ := h.messageHandler hnodup hi m
      obtain ⟨hroutes', hbuffers'⟩ := ih hroutes
      rw [List.append_assoc, List.singleton_append] at hroutes'
      exact ⟨hroutes', fun j => (hbuffers' j).trans (hbuffers j)⟩

theorem Routes.update {order : Order} {r : Bootstrap} (h : Routes conns subs order r) (i : Nat)
    (f : MessageBuffer → MessageBuffer) (hf : (f (r.peer i).buffer).Sound) :
    Routes conns subs order (r.update i fun c => { c with buffer := f c.buffer }) := by
  refine ⟨h.connections, ?_, ?_, h.sources, h.handled, ?_⟩
  · intro j
    rw [update_peer]
    split <;> exact h.subscriptions j
  · intro j
    rw [update_peer]
    split
    · next hj =>
        rw [hj]
        exact hf
    · exact h.sound j
  · intro j hj
    rw [update_peer]
    split <;> exact h.sent j hj

theorem drain_routes (hnodup : conns.Nodup) {i : Nat} (hi : i ∈ conns)
    (hmsgs : ∀ m ∈ msgs i, m.Forwardable) {order : Order} {r : Bootstrap}
    (h : Routes conns subs order r) {todo : List Message} {future : Bytes}
    (hsplit : msgs i = completedBy i order ++ todo)
    (hstream : (r.peer i).buffer.bytes ++ future = todo.flatMap Message.wire) :
    ∃ r' order', (drain i).run r = (.ok true, r') ∧ Routes conns subs order' r' ∧
      Progress (msgs i) i order' (r'.peer i).buffer.bytes future ∧
      ∀ j, j ≠ i → completedBy j order' = completedBy j order ∧
        (r'.peer j).buffer = (r.peer j).buffer := by
  have hforward : ∀ m ∈ todo, m.Forwardable := by
    intro m hm
    exact hmsgs m (by rw [hsplit]; exact List.mem_append_right _ hm)
  obtain ⟨done, rest, r', hall, hrun, ⟨n, hr'⟩, hfuture, hu⟩ := drain_messages
    (fun r m => r.messageHandler i (.new stringHash m.subjectString) m.wire)
    (fun r m => messageHandler_buffer _ _ _ r i) (fun m hm => (hforward m hm).fits)
    (fun m hm s t hrest => processBuffer_wire i (hforward m hm) hrest) hstream
  obtain ⟨hroutes, hbuffers⟩ := h.foldl hnodup hi done
  refine ⟨r', order ++ done.map fun m => (i, m), hrun, ?_, ⟨rest, ?_, hfuture, hu⟩, ?_⟩
  · rw [hr']
    exact hroutes.update i (·.eraseFront n)
      ((MessageBuffer.eraseFront_bytes n).2 (hroutes.sound i))
  · rw [completedBy_append, if_pos rfl, hsplit, hall, List.append_assoc]
  · intro j hj
    refine ⟨?_, ?_⟩
    · rw [completedBy_append, if_neg (Ne.symm hj), List.append_nil]
    · rw [hr', update_peer, if_neg hj]
      exact hbuffers j

/-! ## Whole runs -/

theorem Routes.fill {order : Order} {r : Bootstrap} (h : Routes conns subs order r) (i : Nat)
    (data : Bytes) (hdata : data.length ≤ mtuSize) :
    let r' := r.update i fun c => { c with buffer := c.buffer.fill data }
    Routes conns subs order r' ∧
      (r'.peer i).buffer.bytes = (r.peer i).buffer.bytes ++ data ∧
      ∀ j, j ≠ i → (r'.peer j).buffer = (r.peer j).buffer := by
  obtain ⟨hbytes, hsound⟩ := MessageBuffer.fill_bytes (h.sound i) data hdata
  refine ⟨h.update i (·.fill data) hsound, ?_, ?_⟩
  · rw [update_peer, if_pos rfl]
    exact hbytes
  · intro j hj
    rw [update_peer, if_neg hj]

theorem dataHandler_routes (hnodup : conns.Nodup) {i : Nat} (hi : i ∈ conns)
    (hmsgs : ∀ m ∈ msgs i, m.Forwardable) {reads : List Bytes}
    (hreads : ∀ data ∈ reads, data.length ≤ mtuSize) {order : Order} {r : Bootstrap}
    (h : Routes conns subs order r) {future : Bytes}
    (hprogress : Progress (msgs i) i order (r.peer i).buffer.bytes (reads.flatten ++ future)) :
    ∃ r' order', (dataHandler i false reads).run r = (.ok (), r') ∧
      Routes conns subs order' r' ∧
      Progress (msgs i) i order' (r'.peer i).buffer.bytes future ∧
      ∀ j, j ≠ i → completedBy j order' = completedBy j order ∧
        (r'.peer j).buffer = (r.peer j).buffer := by
  induction reads generalizing r order with
  | nil =>
      obtain ⟨hroutes, hbytes, hothers⟩ := h.fill i [] (Nat.zero_le _)
      refine ⟨_, order, rfl, hroutes, ?_, fun j hj => ⟨rfl, hothers j hj⟩⟩
      rw [hbytes, List.append_nil]
      exact hprogress
  | cons data reads ih =>
      obtain ⟨todo, hsplit, hstream, -⟩ := hprogress
      obtain ⟨hroutes, hbytes, hothers⟩ := h.fill i data (hreads data List.mem_cons_self)
      rw [List.flatten_cons, List.append_assoc, ← List.append_assoc, ← hbytes] at hstream
      obtain ⟨r₁, order₁, hdrain, hroutes₁, hprogress₁, hothers₁⟩ :=
        drain_routes hnodup hi hmsgs hroutes hsplit hstream
      obtain ⟨r', order', hrun, hroutes', hprogress', hothers'⟩ :=
        ih (fun d hd => hreads d (List.mem_cons_of_mem _ hd)) hroutes₁ hprogress₁
      refine ⟨r', order', ?_, hroutes', hprogress', fun j hj => ?_⟩
      · rw [dataHandler, Exec.bind_ok (Exec.modify_run _ _), Exec.bind_ok hdrain]
        exact hrun
      · obtain ⟨hc₁, hb₁⟩ := hothers₁ j hj
        obtain ⟨hc', hb'⟩ := hothers' j hj
        exact ⟨hc'.trans hc₁, (hb'.trans hb₁).trans (hothers j hj)⟩

def arriving (i : Nat) (schedule : List (Nat × List Bytes)) : Bytes :=
  (schedule.filter fun call => call.1 = i).flatMap fun call => call.2.flatten

theorem arriving_cons (i source : Nat) (reads : List Bytes) (schedule : List (Nat × List Bytes)) :
    arriving i ((source, reads) :: schedule) =
      (if source = i then reads.flatten else []) ++ arriving i schedule := by
  rw [arriving, List.filter_cons]
  by_cases hi : source = i
  · simp [hi, arriving]
  · simp [hi, arriving]

theorem route_routes (hnodup : conns.Nodup) (hmsgs : ∀ i ∈ conns, ∀ m ∈ msgs i, m.Forwardable)
    {schedule : List (Nat × List Bytes)} (hsources : ∀ call ∈ schedule, call.1 ∈ conns)
    (hreads : ∀ call ∈ schedule, ∀ data ∈ call.2, data.length ≤ mtuSize) {order : Order}
    {r : Bootstrap} (h : Routes conns subs order r) {future : Nat → Bytes}
    (hprogress : ∀ i ∈ conns, Progress (msgs i) i order (r.peer i).buffer.bytes
      (arriving i schedule ++ future i)) :
    ∃ r' order', (route schedule).run r = (.ok (), r') ∧ Routes conns subs order' r' ∧
      ∀ i ∈ conns, Progress (msgs i) i order' (r'.peer i).buffer.bytes (future i) := by
  induction schedule generalizing r order with
  | nil => exact ⟨r, order, rfl, h, hprogress⟩
  | cons call schedule ih =>
      obtain ⟨source, reads⟩ := call
      have hsource : source ∈ conns := hsources _ List.mem_cons_self
      have hthis := hprogress source hsource
      rw [arriving_cons, if_pos rfl, List.append_assoc] at hthis
      obtain ⟨r₁, order₁, hcall, hroutes₁, hprogress₁, hothers₁⟩ :=
        dataHandler_routes hnodup hsource (hmsgs source hsource)
          (hreads _ List.mem_cons_self) h hthis
      have hnext : ∀ i ∈ conns, Progress (msgs i) i order₁ (r₁.peer i).buffer.bytes
          (arriving i schedule ++ future i) := by
        intro i hi
        by_cases hsame : i = source
        · subst hsame
          exact hprogress₁
        · obtain ⟨hcompleted, hbuffer⟩ := hothers₁ i hsame
          have hold := hprogress i hi
          rw [arriving_cons, if_neg (Ne.symm hsame), List.nil_append] at hold
          rw [Progress, hcompleted, hbuffer]
          exact hold
      obtain ⟨r', order', hrun, hroutes', hprogress'⟩ :=
        ih (fun c hc => hsources c (List.mem_cons_of_mem _ hc))
          (fun c hc => hreads c (List.mem_cons_of_mem _ hc)) hroutes₁ hnext
      exact ⟨r', order', by rw [route, Exec.bind_ok hcall, hrun], hroutes', hprogress'⟩

/-- A router with connections just accepted, their subscriptions in place. -/
def start (conns : List Nat) (subs : Nat → Subscriptions)
    (heap : Nat → Nat → UInt8) : Bootstrap where
  connections := conns
  peer := fun i => { PeerConnection.new heap with subscriptions := subs i }
  handled := []

/-- Over any interleaving and any cut of the streams, the router completes the messages
that have arrived in full, in some order that is each connection's own, keeps every
connection, and sends each of them the encodings of the messages it is interested in,
unmodified, in that order. -/
theorem route_forwards (heap : Nat → Nat → UInt8) (subs : Nat → Subscriptions)
    (hnodup : conns.Nodup)
    (hmsgs : ∀ i ∈ conns, ∀ m ∈ msgs i, Built m ∧ m.encoded.length < 2 ^ 64 ∧
      (Subject.new stringHash m.subjectString).isAdmin = false)
    {schedule : List (Nat × List Bytes)}
    (hschedule : ∀ call ∈ schedule, call.1 ∈ conns ∧ ∀ data ∈ call.2, data.length ≤ 1500)
    (hstream : ∀ i ∈ conns, ∃ future,
      arriving i schedule ++ future = (msgs i).flatMap Message.encoded) :
    ∃ r order, (route schedule).run (start conns subs heap) = (.ok (), r) ∧
      r.connections = conns ∧
      r.handled = order.map (fun p => (p.1, p.2.encoded)) ∧
      (∀ p ∈ order, p.1 ∈ conns) ∧
      (∀ i ∈ conns, completedBy i order =
        complete Message.encoded (msgs i) (arriving i schedule)) ∧
      ∀ j ∈ conns, (r.peer j).sent =
        (order.filter fun p => (subs j).isInterested
          (.new stringHash p.2.subjectString)).flatMap fun p => p.2.encoded := by
  rw [funext Message.encoded_eq] at hmsgs hstream ⊢
  have hforwardable : ∀ i ∈ conns, ∀ m ∈ msgs i, m.Forwardable := by
    intro i hi m hm
    obtain ⟨hbuilt, hfits, hordinary⟩ := hmsgs i hi m hm
    exact ⟨hbuilt, hfits, hordinary⟩
  have hstart : Routes conns subs [] (start conns subs heap) :=
    ⟨rfl, fun _ => rfl, fun _ => MessageBuffer.new_sound _ _,
      fun _ hp => absurd hp List.not_mem_nil, rfl, fun _ _ => rfl⟩
  choose! future hfuture using hstream
  have hbegin : ∀ i ∈ conns, Progress (msgs i) i [] ((start conns subs heap).peer i).buffer.bytes
      (arriving i schedule ++ future i) := by
    intro i hi
    exact ⟨msgs i, rfl, hfuture i hi, .nil Message.wire_ne_nil (msgs i)⟩
  obtain ⟨r, order, hrun, hroutes, hprogress⟩ := route_routes hnodup hforwardable
    (fun c hc => (hschedule c hc).1) (fun c hc => (hschedule c hc).2) hstart hbegin
  refine ⟨r, order, hrun, hroutes.connections, hroutes.handled, hroutes.sources, ?_,
    hroutes.sent⟩
  intro i hi
  obtain ⟨todo, hsplit, hbytes, hu⟩ := hprogress i hi
  have harrived : arriving i schedule =
      (completedBy i order).flatMap Message.wire ++ (r.peer i).buffer.bytes := by
    have hall := hfuture i hi
    rw [hsplit, List.flatMap_append, ← hbytes, ← List.append_assoc] at hall
    exact List.append_cancel_right hall
  rw [hsplit, harrived, complete_eq hu]

/-- `probe` in two reads on connection 1, with connection 2 subscribed to it twice. -/
theorem probe_forwarded :
    let subs : Nat → Subscriptions := fun i => if i = 2 then
      [.new stringHash (.ofString "A"), .new stringHash (.ofString ">")] else []
    let msgs : Nat → List Message := fun i => if i = 1 then [probe] else []
    let schedule := [(1, [probe.encoded.take 10]), (2, []), (1, [probe.encoded.drop 10])]
    ∃ r order, (route schedule).run (start [1, 2] subs fun _ _ => 0) = (.ok (), r) ∧
      r.connections = [1, 2] ∧
      r.handled = order.map (fun p => (p.1, p.2.encoded)) ∧
      (∀ p ∈ order, p.1 ∈ [1, 2]) ∧
      (∀ i ∈ [1, 2], completedBy i order =
        complete Message.encoded (msgs i) (arriving i schedule)) ∧
      ∀ j ∈ [1, 2], (r.peer j).sent =
        (order.filter fun p => (subs j).isInterested
          (.new stringHash p.2.subjectString)).flatMap fun p => p.2.encoded := by
  intro subs msgs schedule
  have hmsgs : ∀ i ∈ [1, 2], ∀ m ∈ msgs i, Built m ∧ m.encoded.length < 2 ^ 64 ∧
      (Subject.new stringHash m.subjectString).isAdmin = false := by
    intro i hi m hm
    have hprobe : m = probe := by
      rcases List.mem_cons.mp hi with rfl | hi
      · exact List.mem_singleton.mp hm
      · rw [List.mem_singleton.mp hi] at hm
        exact absurd hm List.not_mem_nil
    rw [hprobe]
    exact ⟨probe_built, by decide, by decide⟩
  have hstream : ∀ i ∈ [1, 2], ∃ future,
      arriving i schedule ++ future = (msgs i).flatMap Message.encoded := by
    intro i hi
    refine ⟨[], ?_⟩
    rcases List.mem_cons.mp hi with rfl | hi
    · decide
    · rw [List.mem_singleton.mp hi]
      decide
  exact route_forwards _ subs (by decide) hmsgs (by decide) hstream

end Run

end Bootstrap

end Fastpath
