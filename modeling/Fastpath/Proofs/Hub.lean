import Fastpath.Model.Hub
import Fastpath.Proofs.Inside

/-!
# A router with peers of both kinds, from inside

What the two kinds of connection share, said once: the loop over the connections
looks at each of them alone, and both ways in begin with the addressing and the
subject.

`process_buffer` is translated here a second time, for a router whose peers are
not all on sockets. Where they all are, it does what it does in `Router`: each of
its steps does, and sequencing keeps that.
-/

namespace Fastpath

open Fastpath.Lib

namespace Hub

/-! ## Fan-out -/

/-- What a round of the handler's loop does to the connection it is at. -/
def offered (subject : Subject UInt64) (wrapper : MessageWrapper) (c : Peer) : Peer :=
  if c.subscriptions.isInterested subject then
    { c with link := c.link.sendBuffer wrapper }
  else c

theorem forward_eq (subject : Subject UInt64) (wrapper : MessageWrapper) (h : Hub) (i : Nat) :
    forward subject wrapper h i =
      { h with peer := changeAt (offered subject wrapper) h.peer i } := by
  rw [forward, changeAt, offered]
  split
  · rfl
  · rw [Function.update_eq_self]

theorem foldl_forward (subject : Subject UInt64) (wrapper : MessageWrapper) (l : List Nat)
    (h : Hub) :
    l.foldl (forward subject wrapper) h =
      { h with peer := l.foldl (changeAt (offered subject wrapper)) h.peer } := by
  induction l generalizing h with
  | nil => rfl
  | cons i l ih => rw [List.foldl_cons, ih, forward_eq, List.foldl_cons]

/-- The handler offers the message to every connection once. -/
theorem messageHandler_peer (source : Nat) (subject : Subject UInt64) (wrapper : MessageWrapper)
    {h : Hub} (hnodup : h.connections.Nodup) {i : Nat} (hi : i ∈ h.connections) :
    (h.messageHandler source subject wrapper).peer i =
      offered subject wrapper (h.peer i) := by
  rw [messageHandler, foldl_forward]
  dsimp only
  rw [foldl_changeAt _ hnodup, if_pos hi]

/-! ## Up to the subject -/

/-- Both kinds of connection begin alike: the cursor comes back from the addressing to where
it was, marked. -/
theorem addressing_run {s : Routing} {n : Nat} (hin : s.storage.InRange)
    (hstatus : frameStatus s.storage.rest = (.complete, n)) :
    ∃ flags t, (onStorage addressingDetails).run ⟨s.hub, s.storage.mark⟩ =
        (.ok (.complete, some ⟨s.storage.read + MsgAddressing.size,
          subjectLengthAt s.storage.rest, flags, n⟩), t) ∧
      (onStorage (Exec.modify ByteStorage.resetRead)).run t =
        (.ok (), ⟨s.hub, s.storage.mark⟩) :=
  ⟨_, _, Exec.zoom_ok (addressingDetails_complete (s := s.storage.mark) hin hstatus), rfl⟩

theorem readSubject_run {s : Routing}
    (hnul : (0 : UInt8) ∈ s.storage.rest.drop MsgAddressing.size) :
    (onStorage (Bootstrap.readSubject (s.storage.read + MsgAddressing.size))).run
        ⟨s.hub, s.storage.mark⟩ =
      (.ok (Bootstrap.subjectAt s.storage.rest), ⟨s.hub, s.storage.mark⟩) := by
  refine Exec.zoom_ok (t := s.storage.mark) (Bootstrap.readSubject_run (s := s.storage.mark) ?_)
  show CString.readFrom (s.storage.rest.drop MsgAddressing.size) = _
  rw [CString.readFrom, if_pos hnul]

theorem mark_run (s : Routing) : (onStorage (Exec.modify ByteStorage.mark)).run s =
    (.ok (), ⟨s.hub, s.storage.mark⟩) := rfl

/-- A pointer whose subject can be read, up to the question whom the message is for. -/
theorem processPointer_addressed (source : Nat) (sharedPtr : SharedPtr) {s : Routing} {n : Nat}
    (hin : s.storage.InRange) (hstatus : frameStatus s.storage.rest = (.complete, n))
    (hnul : (0 : UInt8) ∈ s.storage.rest.drop MsgAddressing.size) :
    (processPointer source sharedPtr).run s =
      (if (Bootstrap.subjectAt s.storage.rest).isAdmin then do
          let _ ← processAdmin source (Bootstrap.subjectAt s.storage.rest) s.storage.mark
          pure ()
        else
          Exec.modify fun t => { t with
            hub := t.hub.messageHandler source (Bootstrap.subjectAt s.storage.rest)
              ⟨t.storage, sharedPtr⟩ }).run ⟨s.hub, s.storage.mark⟩ := by
  obtain ⟨flags, t, haddress, hreset⟩ := addressing_run hin hstatus
  rw [processPointer, Exec.bind_ok (mark_run s), Exec.bind_ok haddress]
  dsimp only
  rw [Exec.bind_ok hreset, Exec.bind_ok (readSubject_run hnul), Exec.bind_ok (Exec.get_run _)]

/-- A subject that does not end is read to the end of what is behind the pointer and on. -/
theorem processPointer_unterminated (source : Nat) (sharedPtr : SharedPtr) {s : Routing} {n : Nat}
    (hin : s.storage.InRange) (hstatus : frameStatus s.storage.rest = (.complete, n))
    (hnul : (0 : UInt8) ∉ s.storage.rest.drop MsgAddressing.size) :
    (processPointer source sharedPtr).run s = (.error .outOfBounds, ⟨s.hub, s.storage.mark⟩) := by
  obtain ⟨flags, t, haddress, hreset⟩ := addressing_run hin hstatus
  have hread : (onStorage (Bootstrap.readSubject (s.storage.read + MsgAddressing.size))).run
      ⟨s.hub, s.storage.mark⟩ = (.error .outOfBounds, ⟨s.hub, s.storage.mark⟩) :=
    Exec.zoom_error (Bootstrap.readSubject_unterminated (s := s.storage.mark) hnul)
  rw [processPointer, Exec.bind_ok (mark_run s), Exec.bind_ok haddress]
  dsimp only
  rw [Exec.bind_ok hreset, Exec.bind_error hread]

theorem processPointer_other (source : Nat) (sharedPtr : SharedPtr) {s : Routing}
    {status : DecodeStatus} {n : Nat} (hin : s.storage.InRange)
    (h : frameStatus s.storage.rest = (status, n)) (hne : status ≠ .complete) :
    (processPointer source sharedPtr).run s = (.ok (), ⟨s.hub, s.storage.mark⟩) := by
  have haddress : (onStorage addressingDetails).run ⟨s.hub, s.storage.mark⟩ =
      (.ok (status, none), ⟨s.hub, s.storage.mark⟩) :=
    Exec.zoom_ok (addressingDetails_other (s := s.storage.mark) hin h hne)
  rw [processPointer, Exec.bind_ok (mark_run s), Exec.bind_ok haddress]
  cases status with
  | complete => exact absurd rfl hne
  | incomplete => rfl
  | corrupt => rfl

/-! ## Routers of sockets only -/

section Simulation

variable {Q : Bootstrap → Hub → Prop}

/-- Related routers, over the same view. -/
def Over (Q : Bootstrap → Hub → Prop) (s : Bootstrap.Routing) (t : Routing) : Prop :=
  Q s.router t.hub ∧ s.storage = t.storage

theorem onStorage_matches {α : Type} (x : Exec Fault ByteStorage α) :
    Exec.Matches (Over Q) (Bootstrap.onStorage x) (onStorage x) :=
  .zoom (fun _ _ h => h.2) (fun _ _ _ h => ⟨h.1, rfl⟩) x

/-- `process_buffer` is one code for both models, so it matches where its two calls into the
router do. -/
theorem processBuffer_matches {source : Nat}
    (hadmin : ∀ subject msgData, Exec.Matches (Over Q)
      (Bootstrap.processAdmin source subject msgData) (processAdmin source subject msgData))
    (hhandler : ∀ r h subject (msgData : ByteStorage), Q r h →
      Q (r.messageHandler source subject msgData.bytes)
        (h.messageHandler source subject (.ofBuffer msgData))) :
    Exec.Matches (Over Q) (Bootstrap.processBuffer source) (processBuffer source) := by
  refine .bind (onStorage_matches _) fun _ => .bind (onStorage_matches _) fun answer => ?_
  obtain ⟨status, addressing⟩ := answer
  have hother : Exec.Matches (Over Q)
      (do Bootstrap.onStorage (Exec.modify ByteStorage.resetRead); pure status)
      (do onStorage (Exec.modify ByteStorage.resetRead); pure status) :=
    .bind (onStorage_matches _) fun _ => .pure _
  cases status with
  | complete =>
      cases addressing with
      | none => exact hother
      | some a =>
          refine .bind (onStorage_matches _) fun _ => ?_
          split
          · refine .bind (onStorage_matches _) fun subject =>
              .bind (onStorage_matches _) fun msgData => ?_
            split
            · exact .bind (hadmin subject msgData) fun _ =>
                .bind (onStorage_matches _) fun _ => .pure _
            · exact .bind (.modify fun s t h => ⟨hhandler _ _ subject msgData h.1, h.2⟩) fun _ =>
                .bind (onStorage_matches _) fun _ => .pure _
          · exact .pure _
  | incomplete => exact hother
  | corrupt => exact hother

end Simulation

end Hub

/-- A router of sockets only, among those with peers of both kinds. -/
def Bootstrap.toHub (r : Bootstrap) : Hub where
  connections := r.connections
  peer i := ⟨(r.peer i).subscriptions, .tcp (r.peer i).sent⟩

namespace Hub

theorem update_toHub (r : Bootstrap) (i : Nat) {f : PeerConnection → PeerConnection}
    {g : Peer → Peer}
    (h : ∀ c : PeerConnection, g ⟨c.subscriptions, .tcp c.sent⟩ =
      ⟨(f c).subscriptions, .tcp (f c).sent⟩) :
    r.toHub.update i g = (r.update i f).toHub := by
  rw [update, Bootstrap.toHub, Bootstrap.toHub]
  congr 1
  funext j
  rw [Bootstrap.update_peer]
  dsimp only
  rw [Function.update_apply]
  split
  · next hj =>
      subst hj
      exact h (r.peer j)
  · rfl

theorem messageHandler_toHub (source : Nat) (subject : Subject UInt64) (msgData : ByteStorage)
    (r : Bootstrap) :
    r.toHub.messageHandler source subject (.ofBuffer msgData) =
      (r.messageHandler source subject msgData.bytes).toHub := by
  have hforward : ∀ (r : Bootstrap) i, forward subject (.ofBuffer msgData) r.toHub i =
      (r.forward subject msgData.bytes i).toHub := by
    intro r i
    rw [forward, Bootstrap.forward]
    show (if (r.peer i).subscriptions.isInterested subject then _ else _) = _
    split
    · exact update_toHub r i fun _ => rfl
    · rfl
  have hfold : ∀ (l : List Nat) (r : Bootstrap),
      l.foldl (forward subject (.ofBuffer msgData)) r.toHub =
        (l.foldl (Bootstrap.forward subject msgData.bytes) r).toHub := by
    intro l
    induction l with
    | nil => exact fun _ => rfl
    | cons i l ih =>
        intro r
        rw [List.foldl_cons, hforward, ih, List.foldl_cons]
  exact hfold r.connections { r with handled := r.handled ++ [(source, msgData.bytes)] }

theorem processAdmin_toHub (source : Nat) (subject : Subject UInt64) (msgData : ByteStorage) :
    Exec.Matches (Over fun r h => h = r.toHub) (Bootstrap.processAdmin source subject msgData)
      (processAdmin source subject msgData) := by
  rintro ⟨r, b⟩ ⟨h, b'⟩ ⟨rfl, rfl⟩
  simp only [Bootstrap.processAdmin, processAdmin]
  cases Message.decode.run ⟨Message.new, msgData⟩ with
  | mk answer d =>
      cases answer with
      | error e => exact ⟨rfl, rfl, rfl⟩
      | ok decoded =>
          cases decoded with
          | false => exact ⟨rfl, rfl, rfl⟩
          | true =>
              dsimp only
              rw [show (r.toHub.peer source).subscriptions = (r.peer source).subscriptions from rfl]
              cases PeerConnection.handleAdminMessage subject d.msg
                  (r.peer source).subscriptions with
              | error e => exact ⟨rfl, rfl, rfl⟩
              | ok subscriptions =>
                  refine ⟨rfl, ?_, rfl⟩
                  dsimp only
                  exact update_toHub r source fun _ => rfl

/-- On a router of sockets only, `process_buffer` does here what it does in `Router`. -/
theorem processBuffer_toHub (source : Nat) (s : Bootstrap.Routing) :
    (processBuffer source).run ⟨s.router.toHub, s.storage⟩ =
      (((Bootstrap.processBuffer source).run s).1,
        ⟨((Bootstrap.processBuffer source).run s).2.router.toHub,
          ((Bootstrap.processBuffer source).run s).2.storage⟩) := by
  have hmatches := processBuffer_matches (Q := fun r h => h = r.toHub)
    (processAdmin_toHub source)
    (fun r h subject msgData hrel => by rw [hrel, messageHandler_toHub])
  obtain ⟨hanswer, hhub, hstorage⟩ := hmatches s ⟨s.router.toHub, s.storage⟩ ⟨rfl, rfl⟩
  refine Prod.ext hanswer.symm ?_
  cases hout : ((processBuffer source).run ⟨s.router.toHub, s.storage⟩).2 with
  | mk hub storage =>
      rw [hout] at hhub hstorage
      dsimp only at hhub hstorage ⊢
      rw [hhub, hstorage]

end Hub

end Fastpath
