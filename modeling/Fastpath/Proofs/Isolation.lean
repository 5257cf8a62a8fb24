import Fastpath.Lib.Cuts
import Fastpath.Lib.Steps
import Fastpath.Proofs.Progress

/-!
# What a client can do to others

A client may send anything. Its bytes are taken apart by code that other clients
depend on too, and some of them stop the router. Whatever they are, and also in
the state that a stop leaves, they reach another connection in one way only:
through messages that this one has a subscription for.

`Beside` is that frame for a stretch of a run. It names what has been passed on,
and what it names is cut from what the client sent, one piece behind the other,
each with the subject that is read where it begins: the router makes up nothing,
and passes nothing on twice.
-/

namespace Fastpath.Bootstrap

open Fastpath.Lib

/-- Something that has been passed on: its subject and its bytes. -/
abbrev Passed := Subject UInt64 × Bytes

/-- What is passed on is cut from what has come, and its subject is read where it is cut. -/
abbrev CutFrom : List Passed → Bytes → Bytes → Prop :=
  Cuts Prod.snd fun d l => Exposed.subjectIn l = .ok d.1

/-- A subject ends with its terminator, whatever comes behind it. -/
theorem subjectIn_append {subject : Subject UInt64} {l : Bytes}
    (h : Exposed.subjectIn l = .ok subject) (more : Bytes) :
    Exposed.subjectIn (l ++ more) = .ok subject := by
  rw [Exposed.subjectIn] at h ⊢
  cases hread : CString.readFrom (l.drop MsgAddressing.size) with
  | error e =>
      rw [hread] at h
      cases h
  | ok name =>
      have hsize : MsgAddressing.size ≤ l.length := by
        by_contra hshort
        rw [List.drop_eq_nil_of_le (by omega)] at hread
        cases hread
      rw [List.drop_append_of_le_length hsize, CString.readFrom_append hread, ← h, hread]

theorem CutFrom.append {news : List Passed} {l left : Bytes} (h : CutFrom news l left)
    (more : Bytes) : CutFrom news (l ++ more) (left ++ more) :=
  Cuts.append (fun _ _ more hreads => subjectIn_append hreads more) h more

/-- What a connection with these subscriptions is sent of it. -/
def wanted (subscriptions : Subscriptions) (news : List Passed) : Bytes :=
  (news.filter fun d => subscriptions.isInterested d.1).flatMap Prod.snd

theorem wanted_append (subscriptions : Subscriptions) (news more : List Passed) :
    wanted subscriptions (news ++ more) =
      wanted subscriptions news ++ wanted subscriptions more := by
  rw [wanted, List.filter_append, List.flatMap_append]
  rfl

/-- For every connection but `i` nothing has changed, except that `news` was passed on. -/
structure Beside (i : Nat) (news : List Passed) (r r' : Bootstrap) : Prop where
  nodup : r'.connections.Nodup
  connections : ∀ j, j ≠ i → (j ∈ r'.connections ↔ j ∈ r.connections)
  handled : r'.handled = r.handled ++ news.map fun d => (i, d.2)
  subscriptions : ∀ j, j ≠ i → (r'.peer j).subscriptions = (r.peer j).subscriptions
  buffer : ∀ j, j ≠ i → (r'.peer j).buffer = (r.peer j).buffer
  sent : ∀ j, j ≠ i → j ∈ r.connections →
    (r'.peer j).sent = (r.peer j).sent ++ wanted (r.peer j).subscriptions news

namespace Beside

variable {i : Nat} {news more : List Passed} {r r' r'' : Bootstrap}

theorem refl (hnodup : r.connections.Nodup) : Beside i [] r r :=
  ⟨hnodup, fun _ _ => Iff.rfl, (List.append_nil _).symm, fun _ _ => rfl, fun _ _ => rfl,
    fun _ _ _ => (List.append_nil _).symm⟩

theorem trans (h : Beside i news r r') (h' : Beside i more r' r'') :
    Beside i (news ++ more) r r'' := by
  refine ⟨h'.nodup, fun j hj => (h'.connections j hj).trans (h.connections j hj), ?_,
    fun j hj => (h'.subscriptions j hj).trans (h.subscriptions j hj),
    fun j hj => (h'.buffer j hj).trans (h.buffer j hj), fun j hj hmem => ?_⟩
  · rw [h'.handled, h.handled, List.map_append, List.append_assoc]
  · rw [h'.sent j hj ((h.connections j hj).mpr hmem), h.sent j hj hmem, h.subscriptions j hj,
      wanted_append, List.append_assoc]

/-- What a connection does to itself. -/
theorem update (hnodup : r.connections.Nodup) (f : PeerConnection → PeerConnection) :
    Beside i [] r (r.update i f) := by
  have hpeer : ∀ j, j ≠ i → (r.update i f).peer j = r.peer j := by
    intro j hj
    rw [update_peer, if_neg hj]
  refine ⟨hnodup, fun _ _ => Iff.rfl, (List.append_nil _).symm, fun j hj => ?_, fun j hj => ?_,
    fun j hj _ => ?_⟩
  · rw [hpeer j hj]
  · rw [hpeer j hj]
  · rw [hpeer j hj]
    exact (List.append_nil _).symm

theorem disconnected (hnodup : r.connections.Nodup) : Beside i [] r (r.disconnectionHandler i) :=
  ⟨hnodup.erase i, fun _ hj => List.mem_erase_of_ne hj, (List.append_nil _).symm, fun _ _ => rfl,
    fun _ _ => rfl, fun _ _ _ => (List.append_nil _).symm⟩

theorem passed (hnodup : r.connections.Nodup) (subject : Subject UInt64) (data : Bytes) :
    Beside i [(subject, data)] r (r.messageHandler i subject data) := by
  obtain ⟨hconnections, hhandled, hpeers⟩ := foldl_forward subject data hnodup
    { r with handled := r.handled ++ [(i, data)] }
  refine ⟨hconnections ▸ hnodup, fun j _ => ?_, hhandled, fun j _ => (hpeers j).1,
    fun j _ => (hpeers j).2.1, fun j _ hmem => ?_⟩
  · rw [messageHandler, hconnections]
  · have hsent := (hpeers j).2.2
    rw [messageHandler, hsent]
    show (r.peer j).sent ++ (if j ∈ r.connections ∧
      (r.peer j).subscriptions.isInterested subject = true then data else []) = _
    congr 1
    rw [wanted, List.filter_singleton]
    by_cases hwanted : (r.peer j).subscriptions.isInterested subject = true
    · rw [if_pos ⟨hmem, hwanted⟩, hwanted]
      exact (List.append_nil data).symm
    · rw [if_neg (fun h => hwanted h.2), Bool.eq_false_iff.mpr hwanted]
      rfl

end Beside

/-! ## One round -/

/-- A stretch of work on one view of a buffer: what has been passed on is cut from what was in
front of the cursor, and what is still in front of it is left. -/
structure Worked (i : Nat) (news : List Passed) (s s' : Routing) : Prop where
  beside : Beside i news s.router s'.router
  buffer : (s'.router.peer i).buffer = (s.router.peer i).buffer
  connected : s'.router.connections = s.router.connections
  bytes : s'.storage.bytes = s.storage.bytes
  inRange : s'.storage.InRange
  cut : CutFrom news s.storage.rest s'.storage.rest

namespace Worked

variable {i : Nat} {news more : List Passed} {s s' s'' : Routing}

theorem trans (h : Worked i news s s') (h' : Worked i more s' s'') :
    Worked i (news ++ more) s s'' := by
  exact ⟨h.beside.trans h'.beside, h'.buffer.trans h.buffer, h'.connected.trans h.connected,
    h'.bytes.trans h.bytes, h'.inRange, h.cut.trans h'.cut⟩

/-- The cursor is moved. -/
theorem moved (hnodup : s.router.connections.Nodup) {storage : ByteStorage} {n : Nat}
    (hbytes : storage.bytes = s.storage.bytes) (hread : storage.read = s.storage.read + n)
    (hin : storage.InRange) : Worked i [] s ⟨s.router, storage⟩ := by
  refine ⟨.refl hnodup, rfl, rfl, hbytes, hin, ?_⟩
  have hrest : storage.rest = s.storage.rest.drop n := by
    rw [ByteStorage.rest, hbytes, hread, ← List.drop_drop]
    rfl
  have hcut : CutFrom [] (s.storage.rest.take n ++ s.storage.rest.drop n)
      (s.storage.rest.drop n) := .nil _ _
  rwa [List.take_append_drop, ← hrest] at hcut

theorem refl (hnodup : s.router.connections.Nodup) (hin : s.storage.InRange) : Worked i [] s s :=
  ⟨.refl hnodup, rfl, rfl, rfl, hin, .refl _⟩

theorem subscribed (hnodup : s.router.connections.Nodup) (hin : s.storage.InRange)
    (subscriptions : Subscriptions) :
    Worked i [] s
      ⟨s.router.update i fun c => { c with subscriptions := subscriptions }, s.storage⟩ := by
  refine ⟨Beside.update hnodup fun c => { c with subscriptions := subscriptions }, ?_, rfl, rfl,
    hin, .refl _⟩
  dsimp only
  rw [update_peer, if_pos rfl]

end Worked

theorem messageHandler_connections (i : Nat) (subject : Subject UInt64) (data : Bytes)
    (r : Bootstrap) : (r.messageHandler i subject data).connections = r.connections := by
  rw [messageHandler, foldl_forward_eq]

theorem processAdmin_worked {i : Nat} {s : Routing} (hnodup : s.router.connections.Nodup)
    (hin : s.storage.InRange) (subject : Subject UInt64) (msgData : ByteStorage) :
    Worked i [] s ((processAdmin i subject msgData).run s).2 := by
  rw [processAdmin]
  dsimp only
  split
  · split
    · exact .subscribed hnodup hin _
    · exact .refl hnodup hin
  · exact .refl hnodup hin
  · exact .refl hnodup hin

/-- The admin branch, behind the message. -/
theorem processAdmin_after {i : Nat} {s : Routing} (hnodup : s.router.connections.Nodup) {n : Nat}
    (hahead : (s.storage.mark.advanceRead n).InRange) (subject : Subject UInt64)
    (msgData : ByteStorage) :
    Worked i [] s ((do
      let status ← processAdmin i subject msgData
      onStorage (Exec.modify ByteStorage.mark)
      pure status).run ⟨s.router, s.storage.mark.advanceRead n⟩).2 := by
  have hmoved : Worked i [] s ⟨s.router, s.storage.mark.advanceRead n⟩ :=
    .moved hnodup rfl rfl hahead
  have hadmin : Worked i [] _ ((processAdmin i subject msgData).run _).2 :=
    processAdmin_worked hmoved.beside.nodup hahead subject msgData
  cases hrun : (processAdmin i subject msgData).run ⟨s.router, s.storage.mark.advanceRead n⟩ with
  | mk answer s' =>
      rw [hrun] at hadmin
      cases answer with
      | ok status =>
          rw [Exec.bind_ok hrun]
          exact hmoved.trans
            (hadmin.trans (.moved (n := 0) hadmin.beside.nodup rfl rfl hadmin.inRange))
      | error e =>
          rw [Exec.bind_error hrun]
          exact hmoved.trans hadmin

/-- The other branch: what is passed on is what the cursor steps over. -/
theorem passed_worked {i : Nat} {s : Routing} (hnodup : s.router.connections.Nodup)
    (hin : s.storage.InRange) {n : Nat} (hle : n ≤ s.storage.rest.length)
    {subject : Subject UInt64} (hsubject : Exposed.subjectIn s.storage.rest = .ok subject) :
    Worked i [(subject, s.storage.rest.take n)] s
      ⟨s.router.messageHandler i subject (s.storage.rest.take n),
        (s.storage.mark.advanceRead n).mark⟩ := by
  refine ⟨.passed hnodup subject _, messageHandler_buffer i subject _ s.router i,
    messageHandler_connections i subject _ s.router, rfl, ?_, ?_⟩
  · exact ByteStorage.InRange.advanceRead (s := s.storage.mark) hin hle
  · rw [← List.take_append_drop n s.storage.rest] at hsubject
    have hcut : CutFrom [(subject, s.storage.rest.take n)]
        (s.storage.rest.take n ++ s.storage.rest.drop n) (s.storage.rest.drop n) :=
      .take (subject, s.storage.rest.take n) hsubject (.refl _)
    rwa [List.take_append_drop, ← ByteStorage.rest_advanceRead] at hcut

/-- Whatever is in front of it, `process_buffer` does not touch what is not its own. -/
theorem processBuffer_worked (i : Nat) {s : Routing} (hnodup : s.router.connections.Nodup)
    (hin : s.storage.InRange) : ∃ news, Worked i news s ((processBuffer i).run s).2 := by
  have hmarked : Worked i [] s ⟨s.router, s.storage.mark⟩ := .moved (n := 0) hnodup rfl rfl hin
  obtain ⟨status, n, hstatus⟩ : ∃ status n, frameStatus s.storage.rest = (status, n) :=
    ⟨_, _, rfl⟩
  by_cases hcomplete : status = .complete
  · subst hcomplete
    have hle := (size_le_of_complete hstatus).2
    have hahead : (s.storage.mark.advanceRead n).InRange :=
      ByteStorage.InRange.advanceRead (s := s.storage.mark) hin hle
    by_cases hlength : 0 < subjectLengthAt s.storage.rest
    · by_cases hnul : (0 : UInt8) ∈ s.storage.rest.drop MsgAddressing.size
      · have hread : CString.readFrom (s.storage.rest.drop MsgAddressing.size) =
            .ok (.ofArray (s.storage.rest.drop MsgAddressing.size)) := by
          rw [CString.readFrom, if_pos hnul]
        have hsubject : Exposed.subjectIn s.storage.rest =
            .ok (.new stringHash (.ofArray (s.storage.rest.drop MsgAddressing.size))) := by
          rw [Exposed.subjectIn, hread]
          rfl
        rw [processBuffer_addressed i hin hstatus hlength hread]
        generalize Subject.new stringHash (.ofArray (s.storage.rest.drop MsgAddressing.size)) =
          subject at hsubject ⊢
        split
        · exact ⟨[], processAdmin_after hnodup hahead subject _⟩
        · exact ⟨_, passed_worked hnodup hin hle hsubject⟩
      · have hread : (onStorage (readSubject (s.storage.mark.read + MsgAddressing.size))).run
            ⟨s.router, s.storage.mark⟩ = (.error .outOfBounds, ⟨s.router, s.storage.mark⟩) :=
          Exec.zoom_error (readSubject_unterminated (s := s.storage.mark) hnul)
        rw [processBuffer_complete i hin hstatus, if_pos hlength, Exec.bind_error hread]
        exact ⟨[], hmarked⟩
    · rw [processBuffer_complete i hin hstatus, if_neg hlength, Exec.pure_run]
      exact ⟨[], hmarked⟩
  · rw [processBuffer_other i hin hstatus hcomplete]
    exact ⟨[], hmarked⟩

/-! ## One callback -/

theorem processRound_worked (i : Nat) {s : Routing} (hnodup : s.router.connections.Nodup)
    (hin : s.storage.InRange) : ∃ news, Worked i news s ((processRound i).run s).2 := by
  obtain ⟨news, hworked⟩ := processBuffer_worked i hnodup hin
  refine ⟨news, ?_⟩
  cases hrun : (processBuffer i).run s with
  | mk answer s' =>
      rw [hrun] at hworked
      cases answer with
      | ok status =>
          rw [processRound, Exec.bind_ok hrun]
          cases status <;> exact hworked
      | error e =>
          rw [processRound, Exec.bind_error hrun]
          exact hworked

theorem loop_worked (i : Nat) (fuel : Nat) {s : Routing} (hnodup : s.router.connections.Nodup)
    (hin : s.storage.InRange) :
    ∃ news, Worked i news s ((Exec.untilSome .diverged (processRound i) fuel).run s).2 := by
  induction fuel generalizing s with
  | zero => exact ⟨[], .refl hnodup hin⟩
  | succ fuel ih =>
      obtain ⟨news, hworked⟩ := processRound_worked i hnodup hin
      cases hrun : (processRound i).run s with
      | mk answer s' =>
          rw [hrun] at hworked
          cases answer with
          | ok found =>
              rw [Exec.untilSome, Exec.bind_ok hrun]
              cases found with
              | some status => exact ⟨news, hworked⟩
              | none =>
                  obtain ⟨more, hrest⟩ := ih hworked.beside.nodup hworked.inRange
                  exact ⟨news ++ more, hworked.trans hrest⟩
          | error e =>
              rw [Exec.untilSome, Exec.bind_error hrun]
              exact ⟨news, hworked⟩


/-- What is still to be made something of. -/
def waiting (i : Nat) (r : Bootstrap) : Bytes :=
  if i ∈ r.connections then (r.peer i).buffer.bytes else []

theorem waiting_of_mem {i : Nat} {r : Bootstrap} (h : i ∈ r.connections) :
    r.waiting i = (r.peer i).buffer.bytes := if_pos h

theorem waiting_of_not_mem {i : Nat} {r : Bootstrap} (h : i ∉ r.connections) : r.waiting i = [] :=
  if_neg h

/-- What other connections have waiting is what they had. -/
theorem Beside.waiting {i : Nat} {news : List Passed} {r r' : Bootstrap} (h : Beside i news r r')
    {k : Nat} (hk : k ≠ i) : r'.waiting k = r.waiting k := by
  rw [Bootstrap.waiting, Bootstrap.waiting, h.buffer k hk]
  by_cases hmem : k ∈ r.connections
  · rw [if_pos hmem, if_pos ((h.connections k hk).mpr hmem)]
  · rw [if_neg hmem, if_neg fun hmem' => hmem ((h.connections k hk).mp hmem')]

/-- A stretch of work of one connection: what has been passed on is cut from what there was, and
after an answer what is still waiting is left of it. -/
structure Consumed (i : Nat) (news : List Passed) (had : Bytes) (r : Bootstrap)
    {α : Type} (out : Except Fault α × Bootstrap) : Prop where
  beside : Beside i news r out.2
  cut : ∃ left, CutFrom news had left
  left : ∀ a, out.1 = .ok a → CutFrom news had (out.2.waiting i)
  sound : ∀ a, out.1 = .ok a → i ∈ out.2.connections → (out.2.peer i).buffer.Sound

namespace Consumed

variable {i : Nat} {news more : List Passed} {had came : Bytes} {r r' : Bootstrap} {α : Type}
  {out : Except Fault α × Bootstrap}

theorem answered (hbeside : Beside i news r out.2) (hcut : CutFrom news had (out.2.waiting i))
    (hsound : i ∈ out.2.connections → (out.2.peer i).buffer.Sound) : Consumed i news had r out :=
  ⟨hbeside, ⟨_, hcut⟩, fun _ _ => hcut, fun _ _ => hsound⟩

theorem gone (hbeside : Beside i news r out.2) {left : Bytes} (hcut : CutFrom news had left)
    (hgone : i ∉ out.2.connections) : Consumed i news had r out := by
  refine .answered hbeside ?_ fun hmem => absurd hmem hgone
  rw [waiting_of_not_mem hgone]
  rw [← List.append_nil left] at hcut
  exact hcut.skip_left

theorem stopped (hbeside : Beside i news r out.2) {left : Bytes} (hcut : CutFrom news had left)
    {e : Fault} (herror : out.1 = .error e) : Consumed i news had r out := by
  refine ⟨hbeside, ⟨_, hcut⟩, fun a ha => ?_, fun a ha => ?_⟩
  · rw [herror] at ha
    cases ha
  · rw [herror] at ha
    cases ha

/-- One stretch of work, and another one on what it has left and on what has come since. -/
theorem behind (h : Beside i news r r') {left : Bytes} (hcut : CutFrom news had left)
    (h' : Consumed i more (left ++ came) r' out) :
    Consumed i (news ++ more) (had ++ came) r out := by
  have hfirst := hcut.append came
  obtain ⟨last, hlast⟩ := h'.cut
  exact ⟨h.trans h'.beside, ⟨last, hfirst.trans hlast⟩, fun a ha => hfirst.trans (h'.left a ha),
    h'.sound⟩

end Consumed

theorem drain_consumed (i : Nat) {r : Bootstrap} (hnodup : r.connections.Nodup)
    (hmem : i ∈ r.connections) (hsound : (r.peer i).buffer.Sound) :
    ∃ news, Consumed i news (r.peer i).buffer.bytes r ((drain i).run r) ∧
      (((drain i).run r).1 = .ok true → ((drain i).run r).2.connections = r.connections) ∧
      (((drain i).run r).1 = .ok false → i ∉ ((drain i).run r).2.connections) := by
  obtain ⟨news, hworked⟩ := loop_worked i ((r.peer i).buffer.bytes.length + 1)
    (s := ⟨r, (r.peer i).buffer.byteStorage⟩) hnodup (Nat.zero_le _)
  refine ⟨news, ?_⟩
  rw [drain]
  dsimp only
  cases hrun : (Exec.untilSome Fault.diverged (processRound i)
      ((r.peer i).buffer.bytes.length + 1)).run ⟨r, (r.peer i).buffer.byteStorage⟩ with
  | mk answer s =>
      rw [hrun] at hworked
      have hbeside : Beside i news r s.router := hworked.beside
      have hcut : CutFrom news (r.peer i).buffer.bytes s.storage.rest := hworked.cut
      have hkept : Consumed i news (r.peer i).buffer.bytes r
          ((.ok true, s.router.update i fun c =>
            { c with buffer := c.buffer.eraseFront s.storage.bytesRead }) :
              Except Fault Bool × Bootstrap) := by
        have hbuffer : (s.router.peer i).buffer = (r.peer i).buffer := hworked.buffer
        have hbytes : s.storage.bytes = (r.peer i).buffer.bytes := hworked.bytes
        have herased := hbeside.trans (.update hbeside.nodup fun c =>
          { c with buffer := c.buffer.eraseFront s.storage.bytesRead })
        rw [List.append_nil] at herased
        obtain ⟨hleft, hsound'⟩ := MessageBuffer.eraseFront_bytes (b := (r.peer i).buffer)
          s.storage.bytesRead
        have hview : (r.peer i).buffer.bytes.drop s.storage.bytesRead = s.storage.rest := by
          rw [← hbytes]
          rfl
        have hstays : i ∈ s.router.connections := hworked.connected ▸ hmem
        refine .answered herased ?_ fun _ => ?_
        · rw [waiting_of_mem (r := s.router.update i _) hstays, update_peer, if_pos rfl, hbuffer,
            hleft, hview]
          exact hcut
        · dsimp only
          rw [update_peer, if_pos rfl, hbuffer]
          exact hsound' hsound
      cases answer with
      | ok status =>
          cases status with
          | corrupt =>
              have hgone := hbeside.trans (.disconnected hbeside.nodup)
              rw [List.append_nil] at hgone
              have hnone : i ∉ (s.router.disconnectionHandler i).connections :=
                hbeside.nodup.not_mem_erase
              exact ⟨.gone hgone hcut hnone, fun h => (by cases h), fun _ => hnone⟩
          | complete => exact ⟨hkept, fun _ => hworked.connected, fun h => by cases h⟩
          | incomplete => exact ⟨hkept, fun _ => hworked.connected, fun h => by cases h⟩
      | error e => exact ⟨.stopped hbeside hcut rfl, fun h => (by cases h), fun h => by cases h⟩

/-- The call that finds nothing more. -/
theorem dataHandler_nil_consumed (i : Nat) (closed : Bool) {r : Bootstrap}
    (hnodup : r.connections.Nodup) (hmem : i ∈ r.connections)
    (hsound : (r.peer i).buffer.Sound) :
    Consumed i [] (r.peer i).buffer.bytes r ((dataHandler i closed []).run r) := by
  obtain ⟨hbytes, hsound'⟩ := MessageBuffer.fill_bytes hsound [] (Nat.zero_le _)
  have hfilled := Beside.update (i := i) hnodup fun c => { c with buffer := c.buffer.fill [] }
  cases closed with
  | true => exact .gone (hfilled.trans (.disconnected hnodup)) (.refl _) hnodup.not_mem_erase
  | false =>
      have hself : ((r.update i fun c => { c with buffer := c.buffer.fill [] }).peer i).buffer =
          (r.peer i).buffer.fill [] := by
        rw [update_peer, if_pos rfl]
      refine .answered hfilled ?_ fun _ => ?_
      · show CutFrom [] _ ((r.update i fun c => { c with buffer := c.buffer.fill [] }).waiting i)
        rw [waiting_of_mem (r := r.update i _) hmem, hself, hbytes, List.append_nil]
        exact .refl _
      · show ((r.update i fun c => { c with buffer := c.buffer.fill [] }).peer i).buffer.Sound
        rwa [hself]

theorem dataHandler_consumed (i : Nat) (closed : Bool) {reads : List Bytes}
    (hreads : ∀ data ∈ reads, data.length ≤ mtuSize) {r : Bootstrap}
    (hnodup : r.connections.Nodup) (hmem : i ∈ r.connections)
    (hsound : (r.peer i).buffer.Sound) :
    ∃ news, Consumed i news ((r.peer i).buffer.bytes ++ reads.flatten) r
      ((dataHandler i closed reads).run r) := by
  induction reads generalizing r with
  | nil =>
      refine ⟨[], ?_⟩
      rw [List.flatten_nil, List.append_nil]
      exact dataHandler_nil_consumed i closed hnodup hmem hsound
  | cons data reads ih =>
      obtain ⟨hbytes, hsound'⟩ :=
        MessageBuffer.fill_bytes hsound data (hreads data List.mem_cons_self)
      generalize hr₁ : (r.update i fun c => { c with buffer := c.buffer.fill data }) = r₁
      have hself : (r₁.peer i).buffer = (r.peer i).buffer.fill data := by
        rw [← hr₁, update_peer, if_pos rfl]
      have hfilled : Beside i [] r r₁ := hr₁ ▸ .update hnodup _
      have hmem₁ : i ∈ r₁.connections := hr₁ ▸ hmem
      rw [← hself] at hbytes hsound'
      obtain ⟨news, hdrained, hkept, hgone⟩ := drain_consumed i hfilled.nodup hmem₁ hsound'
      rw [dataHandler, Exec.bind_ok (Exec.modify_run _ _), hr₁, List.flatten_cons,
        ← List.append_assoc, ← hbytes]
      have hbeside : Beside i news r ((drain i).run r₁).2 := hfilled.trans hdrained.beside
      obtain ⟨left, hcut⟩ := hdrained.cut
      have hmore := hcut.append reads.flatten
      cases hrun : (drain i).run r₁ with
      | mk answer r₂ =>
          rw [hrun] at hdrained hkept hgone hbeside
          cases answer with
          | ok stays =>
              rw [Exec.bind_ok hrun]
              cases stays with
              | true =>
                  have hmem₂ : i ∈ r₂.connections := hkept rfl ▸ hmem₁
                  obtain ⟨more, hrest⟩ := ih (fun d hd => hreads d (List.mem_cons_of_mem _ hd))
                    hbeside.nodup hmem₂ (hdrained.sound true rfl hmem₂)
                  rw [← waiting_of_mem hmem₂] at hrest
                  exact ⟨news ++ more, .behind hbeside (hdrained.left true rfl) hrest⟩
              | false => exact ⟨news, .gone hbeside hmore (hgone rfl)⟩
          | error e =>
              rw [Exec.bind_error hrun]
              exact ⟨news, .stopped hbeside hmore rfl⟩

/-! ## Whole runs -/

/-- What a callback leaves, also if it stops the router. -/
def next (r : Bootstrap) (e : Event) : Bootstrap := ((handle e).run r).2

/-- A connection is allocated where none is; the event manager calls back for sockets it
knows, and a read finds no more than it has room for. -/
def Raises (r : Bootstrap) : Event → Prop
  | .accepted i _ => i ∉ r.connections
  | .readable i reads _ => i ∈ r.connections ∧ ∀ data ∈ reads, data.length ≤ 1500

def Event.address : Event → Nat
  | .accepted i _ => i
  | .readable i _ _ => i

/-- What has come from the client at `i`, on whatever connections. -/
def came (i : Nat) : List Event → Bytes
  | [] => []
  | .accepted _ _ :: events => came i events
  | .readable k reads _ :: events => (if k = i then reads.flatten else []) ++ came i events

/-- What of some news is from `i`. -/
def newsFrom (i : Nat) (news : List (Nat × Passed)) : List Passed :=
  (news.filter fun d => d.1 = i).map Prod.snd

theorem newsFrom_append (i : Nat) (news more : List (Nat × Passed)) :
    newsFrom i (news ++ more) = newsFrom i news ++ newsFrom i more := by
  rw [newsFrom, List.filter_append, List.map_append]
  rfl

theorem map_snd_from (i : Nat) (news : List Passed) :
    (news.map fun d => (i, d)).map Prod.snd = news := by
  rw [List.map_map]
  exact List.map_id _

theorem newsFrom_self (i : Nat) (news : List Passed) :
    newsFrom i (news.map fun d => (i, d)) = news := by
  rw [newsFrom, List.filter_eq_self.mpr fun d hd => ?_, List.map_map]
  · exact List.map_id _
  · obtain ⟨d', -, rfl⟩ := List.mem_map.mp hd
    exact decide_eq_true rfl

theorem newsFrom_other {i k : Nat} (hk : k ≠ i) (news : List Passed) :
    newsFrom k (news.map fun d => (i, d)) = [] := by
  rw [newsFrom, List.filter_eq_nil_iff.mpr fun d hd => ?_]
  · rfl
  · obtain ⟨d', -, rfl⟩ := List.mem_map.mp hd
    exact fun heq => hk (of_decide_eq_true heq).symm

/-- No connection twice, and buffers that are what they are to be. -/
structure Intact (r : Bootstrap) : Prop where
  nodup : r.connections.Nodup
  sound : ∀ i ∈ r.connections, (r.peer i).buffer.Sound

theorem intact_new (heap : Nat → Nat → UInt8) : Intact (new heap) :=
  ⟨.nil, fun _ h => absurd h List.not_mem_nil⟩

/-- Between two states of a run: what has been passed on from a client is cut from what was
waiting of it and what has come, and a connection on which nothing has come is as it was. -/
structure Passes (events : List Event) (news : List (Nat × Passed)) (r r' : Bootstrap) : Prop where
  handled : r'.handled = r.handled ++ news.map fun d => (d.1, d.2.2)
  cut : ∀ k, ∃ left, CutFrom (newsFrom k news) (r.waiting k ++ came k events) left
  alone : ∀ j ∈ r.connections, (∀ e ∈ events, e.address ≠ j) →
    j ∈ r'.connections ∧ (r'.peer j).subscriptions = (r.peer j).subscriptions ∧
      (r'.peer j).buffer = (r.peer j).buffer ∧
      (r'.peer j).sent = (r.peer j).sent ++ wanted (r.peer j).subscriptions (news.map Prod.snd)

section Steps

variable {events : List Event} {news : List (Nat × Passed)} {r r' : Bootstrap} {i : Nat}

theorem Passes.nil (r : Bootstrap) : Passes [] [] r r :=
  ⟨(List.append_nil _).symm, fun _ => ⟨_, .refl _⟩,
    fun _ hj _ => ⟨hj, rfl, rfl, (List.append_nil _).symm⟩⟩

theorem Intact.readable (h : Intact r) {reads : List Bytes} (closed : Bool)
    (hraises : r.Raises (.readable i reads closed)) :
    let out := (dataHandler i closed reads).run r
    (∃ first, Consumed i first (r.waiting i ++ reads.flatten) r out) ∧
      ∀ a, out.1 = .ok a → Intact out.2 := by
  obtain ⟨hmem, hreads⟩ := hraises
  obtain ⟨first, hconsumed⟩ := dataHandler_consumed i closed hreads h.nodup hmem (h.sound i hmem)
  refine ⟨⟨first, by rwa [waiting_of_mem hmem]⟩,
    fun a ha => ⟨hconsumed.beside.nodup, fun k hk => ?_⟩⟩
  by_cases hki : k = i
  · subst hki
    exact hconsumed.sound a ha hk
  · rw [hconsumed.beside.buffer k hki]
    exact h.sound k ((hconsumed.beside.connections k hki).mp hk)

/-- A callback that stops the router. -/
theorem Consumed.passes_stopped {first : List Passed} {reads : List Bytes}
    {out : Except Fault Unit × Bootstrap}
    (h : Consumed i first (r.waiting i ++ reads.flatten) r out) (closed : Bool)
    (events : List Event) :
    Passes (.readable i reads closed :: events) (first.map fun d => (i, d)) r out.2 := by
  refine ⟨?_, fun k => ?_, fun j hj hothers => ?_⟩
  · rw [h.beside.handled, List.map_map]
    rfl
  · rw [came]
    by_cases hk : k = i
    · subst hk
      obtain ⟨left, hcut⟩ := h.cut
      rw [newsFrom_self, if_pos rfl, ← List.append_assoc]
      exact ⟨_, hcut.append _⟩
    · rw [newsFrom_other hk]
      exact ⟨_, .refl _⟩
  · have hne : j ≠ i := Ne.symm (hothers _ List.mem_cons_self)
    rw [map_snd_from]
    exact ⟨(h.beside.connections j hne).mpr hj, h.beside.subscriptions j hne,
      h.beside.buffer j hne, h.beside.sent j hne hj⟩

/-- A callback, and what comes behind it. -/
theorem Consumed.passes {first : List Passed} {reads : List Bytes}
    {out : Except Fault Unit × Bootstrap}
    (h : Consumed i first (r.waiting i ++ reads.flatten) r out) (hok : out.1 = .ok ())
    (closed : Bool) (hrest : Passes events news out.2 r') :
    Passes (.readable i reads closed :: events) ((first.map fun d => (i, d)) ++ news) r r' := by
  refine ⟨?_, fun k => ?_, fun j hj hothers => ?_⟩
  · rw [hrest.handled, h.beside.handled, List.map_append, List.map_map, List.append_assoc]
    rfl
  · obtain ⟨left, hcut⟩ := hrest.cut k
    rw [came, newsFrom_append]
    by_cases hk : k = i
    · subst hk
      rw [newsFrom_self, if_pos rfl, ← List.append_assoc]
      exact ⟨left, ((h.left () hok).append _).trans hcut⟩
    · rw [newsFrom_other hk, if_neg (Ne.symm hk), List.nil_append, List.nil_append,
        ← h.beside.waiting hk]
      exact ⟨left, hcut⟩
  · have hne : j ≠ i := Ne.symm (hothers _ List.mem_cons_self)
    obtain ⟨hmem, hsubs, hbuffer, hsent⟩ := hrest.alone j ((h.beside.connections j hne).mpr hj)
      fun e he => hothers e (List.mem_cons_of_mem _ he)
    have hfirst := h.beside.subscriptions j hne
    refine ⟨hmem, hsubs.trans hfirst, hbuffer.trans (h.beside.buffer j hne), ?_⟩
    rw [hsent, h.beside.sent j hne hj, hfirst, List.map_append, map_snd_from, wanted_append,
      List.append_assoc]

/-- A connection that is accepted is a new one. -/
theorem accepted_waiting (heap : Nat → Nat → UInt8) (hi : i ∉ r.connections) (k : Nat) :
    (r.peerConnectionHandler i heap).waiting k = r.waiting k := by
  by_cases hk : k = i
  · subst hk
    have hmem : k ∈ (r.peerConnectionHandler k heap).connections :=
      List.mem_append_right _ List.mem_cons_self
    have hpeer : (r.peerConnectionHandler k heap).peer k = PeerConnection.new heap :=
      Function.update_self ..
    rw [waiting_of_mem hmem, waiting_of_not_mem hi, hpeer]
    rfl
  · have hmem : k ∈ (r.peerConnectionHandler i heap).connections ↔ k ∈ r.connections := by
      show k ∈ r.connections ++ [i] ↔ _
      rw [List.mem_append, List.mem_singleton]
      exact or_iff_left hk
    have hpeer : (r.peerConnectionHandler i heap).peer k = r.peer k :=
      Function.update_of_ne hk ..
    by_cases hstays : k ∈ r.connections
    · rw [waiting_of_mem (hmem.mpr hstays), waiting_of_mem hstays, hpeer]
    · rw [waiting_of_not_mem (mt hmem.mp hstays), waiting_of_not_mem hstays]

theorem Intact.accepted (h : Intact r) (heap : Nat → Nat → UInt8) (hi : i ∉ r.connections) :
    Intact (r.peerConnectionHandler i heap) := by
  refine ⟨List.nodup_append.mpr ⟨h.nodup, List.pairwise_singleton _ i, fun a ha c hc heq => ?_⟩,
    fun k hk => ?_⟩
  · rw [List.mem_singleton.mp hc] at heq
    exact hi (heq ▸ ha)
  · show (Function.update r.peer i (PeerConnection.new heap) k).buffer.Sound
    by_cases hki : k = i
    · rw [hki, Function.update_self]
      exact MessageBuffer.new_sound _ _
    · rw [Function.update_of_ne hki]
      refine h.sound k ?_
      rcases List.mem_append.mp hk with hk | hk
      · exact hk
      · exact absurd (List.mem_singleton.mp hk) hki

theorem Passes.accepted (heap : Nat → Nat → UInt8) (hi : i ∉ r.connections)
    (h : Passes events news (r.peerConnectionHandler i heap) r') :
    Passes (.accepted i heap :: events) news r r' := by
  refine ⟨h.handled, fun k => ?_, fun j hj hothers => ?_⟩
  · rw [came, ← accepted_waiting heap hi]
    exact h.cut k
  · have hne : j ≠ i := Ne.symm (hothers _ List.mem_cons_self)
    have hpeer : (r.peerConnectionHandler i heap).peer j = r.peer j :=
      Function.update_of_ne hne ..
    have halone := h.alone j (List.mem_append_left _ hj)
      fun e he => hothers e (List.mem_cons_of_mem _ he)
    rwa [hpeer] at halone

/-- A run that answers leaves what it found, and is one callback after the other. -/
theorem Intact.run_ok (h : Intact r) (hraises : Along next Raises r events)
    (hrun : (run events).run r = (.ok (), r')) : Intact r' ∧ after next r events = r' := by
  induction events generalizing r with
  | nil =>
      cases hrun
      exact ⟨h, rfl⟩
  | cons e events ih =>
      obtain ⟨hthis, hrest⟩ := hraises
      obtain ⟨_, r₁, hfirst, hlater⟩ := Exec.of_bind_ok hrun
      have hnext : next r e = r₁ := congrArg Prod.snd hfirst
      rw [hnext] at hrest
      rw [after, List.foldl_cons, hnext]
      cases e with
      | accepted i heap =>
          cases hfirst
          exact ih (h.accepted heap hthis) hrest hlater
      | readable i reads closed =>
          obtain ⟨-, hon⟩ := h.readable closed hthis
          rw [handle] at hfirst
          rw [hfirst] at hon
          exact ih (hon () rfl) hrest hlater

theorem Intact.passes (h : Intact r) (hraises : Along next Raises r events) :
    ∃ news, Passes events news r ((run events).run r).2 := by
  induction events generalizing r with
  | nil => exact ⟨[], .nil r⟩
  | cons e events ih =>
      obtain ⟨hthis, hrest⟩ := hraises
      cases e with
      | accepted i heap =>
          obtain ⟨news, hnews⟩ := ih (h.accepted heap hthis) hrest
          exact ⟨news, hnews.accepted heap hthis⟩
      | readable i reads closed =>
          obtain ⟨⟨first, hconsumed⟩, hon⟩ := h.readable closed hthis
          rw [next, handle] at hrest
          rw [run, handle]
          cases hrun : (dataHandler i closed reads).run r with
          | mk answer r₁ =>
              rw [hrun] at hconsumed hon hrest
              cases answer with
              | ok _ =>
                  rw [Exec.bind_ok hrun]
                  obtain ⟨news, hnews⟩ := ih (hon () rfl) hrest
                  exact ⟨_, hconsumed.passes rfl closed hnews⟩
              | error e =>
                  rw [Exec.bind_error hrun]
                  exact ⟨_, hconsumed.passes_stopped closed events⟩

end Steps

/-- Whatever other clients send, and however a run ends: a connection that nothing has come on
is still there, with its subscriptions and with what it had received before, and has been
sent exactly what was passed on and it is interested in. What was passed on is cut from what had
come and been left, and from what has come since, each by the subject that stands where it is
cut. -/
theorem left_alone (heap : Nat → Nat → UInt8) {earlier events : List Event}
    (h : Along next Raises (new heap) (earlier ++ events)) {r : Bootstrap}
    (hrun : (run earlier).run (new heap) = (.ok (), r)) {j : Nat} (hj : j ∈ r.connections)
    (hothers : ∀ e ∈ events, e.address ≠ j) :
    ∃ news : List (Nat × Passed),
      let r' := ((run events).run r).2
      r'.handled = r.handled ++ news.map (fun d => (d.1, d.2.2)) ∧
        (∀ k, ∃ left, CutFrom (newsFrom k news) (r.waiting k ++ came k events) left) ∧
        j ∈ r'.connections ∧ (r'.peer j).subscriptions = (r.peer j).subscriptions ∧
        (r'.peer j).buffer = (r.peer j).buffer ∧
        (r'.peer j).sent = (r.peer j).sent ++
          wanted (r.peer j).subscriptions (news.map Prod.snd) := by
  obtain ⟨hearlier, hlater⟩ := along_append.mp h
  obtain ⟨hintact, hafter⟩ := (intact_new heap).run_ok hearlier hrun
  rw [hafter] at hlater
  obtain ⟨news, hpasses⟩ := hintact.passes hlater
  exact ⟨news, hpasses.handled, hpasses.cut, hpasses.alone j hj hothers⟩

/-- The client at 1 stops the router, and the connection at 2 is what it was. -/
theorem left_alone_stuck :
    let r : Bootstrap :=
      ((new fun _ _ => 0).peerConnectionHandler 1 fun _ _ => 0).peerConnectionHandler
        2 fun _ _ => 0
    ∃ news : List (Nat × Passed),
      let r' := ((run [.readable 1 [Exposed.stuckHead] false]).run r).2
      r'.handled = r.handled ++ news.map (fun d => (d.1, d.2.2)) ∧
        (∀ k, ∃ left, CutFrom (newsFrom k news)
          (r.waiting k ++ came k [.readable 1 [Exposed.stuckHead] false]) left) ∧
        2 ∈ r'.connections ∧ (r'.peer 2).subscriptions = (r.peer 2).subscriptions ∧
        (r'.peer 2).buffer = (r.peer 2).buffer ∧
        (r'.peer 2).sent = (r.peer 2).sent ++
          wanted (r.peer 2).subscriptions (news.map Prod.snd) := by
  intro r
  have hraises : Along next Raises (new fun _ _ => 0)
      ([.accepted 1 fun _ _ => 0, .accepted 2 fun _ _ => 0] ++
        [.readable 1 [Exposed.stuckHead] false]) :=
    ⟨List.not_mem_nil, (by decide : 2 ∉ [1]), ⟨(by decide : 1 ∈ [1, 2]), by decide⟩, trivial⟩
  have hrun : (run [.accepted 1 fun _ _ => 0, .accepted 2 fun _ _ => 0]).run (new fun _ _ => 0) =
      (.ok (), r) := rfl
  have hmem : 2 ∈ r.connections := by
    show 2 ∈ [1, 2]
    decide
  refine left_alone (fun _ _ => 0) hraises hrun hmem fun e he => ?_
  rw [List.mem_singleton.mp he]
  decide

end Fastpath.Bootstrap
