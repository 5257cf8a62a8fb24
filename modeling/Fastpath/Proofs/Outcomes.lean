import Fastpath.Proofs.Inside

/-!
# What the two receive paths make of a head

Client and router look at the same bytes with different code. This file says
once, for each of the two, what one call can come to, as a function of the
unread bytes alone; progress, agreement and containment are then read off.

For the client the two walks of the codec are enough: `frameStatus` says whether
there is a message at all and `messageExtent` what decoding it leads to. The
router asks more questions, so its outcome has a definition of its own.
`routeExtent` ends `within` with the status `process_buffer` returns and what is
then left unread; it is `refused` where the decoder's exception escapes, and it
goes `past` where something is read that is not there.
-/

namespace Fastpath

open Fastpath.Lib

/-! ## The router -/

/-- Whether a message for the router can be handled does not depend on who sent it. -/
theorem handleAdminMessage_agrees (subject : Subject UInt64) (message : Message)
    (subs subs' : Subscriptions) :
    (∃ new new', PeerConnection.handleAdminMessage subject message subs = .ok new ∧
        PeerConnection.handleAdminMessage subject message subs' = .ok new') ∨
      ∃ e, PeerConnection.handleAdminMessage subject message subs = .error e ∧
        PeerConnection.handleAdminMessage subject message subs' = .error e := by
  rw [PeerConnection.handleAdminMessage, PeerConnection.handleAdminMessage]
  by_cases hregister : subject.subjectHash = PeerConnection.registerObserver.subjectHash
  · rw [if_pos hregister, if_pos hregister]
    cases message.getDataField (.ofString "subject") with
    | error e => exact .inr ⟨e, rfl, rfl⟩
    | ok found =>
        cases found with
        | none => exact .inl ⟨_, _, rfl, rfl⟩
        | some data =>
            dsimp only
            split
            · exact .inl ⟨_, _, rfl, rfl⟩
            · cases CString.readFrom data with
              | error e => exact .inr ⟨e, rfl, rfl⟩
              | ok subject => exact .inl ⟨_, _, rfl, rfl⟩
  · rw [if_neg hregister, if_neg hregister, if_neg hregister, if_neg hregister]
    exact .inl ⟨_, _, rfl, rfl⟩

namespace Bootstrap

/-- What a message for the router comes to, by the walk over its bytes; `rest` is what
stands behind it. -/
def adminExtent (subject : Subject UInt64) (rest : Bytes) :
    Extent (List Entry) → Extent DecodeStatus
  | .within [] _ => .within .corrupt rest
  | .within entries _ =>
      if Registers subject entries then .within .complete rest else .past
  | .refused => .refused
  | .past => .past

/-- What `process_buffer` comes to in front of `r`. -/
def routeExtent (r : Bytes) : Extent DecodeStatus :=
  match frameStatus r with
  | (.complete, n) =>
      if subjectLengthAt r = 0 then .within .corrupt r
      else if (0 : UInt8) ∉ r.drop MsgAddressing.size then .past
      else if (subjectAt r).isAdmin then
        adminExtent (subjectAt r) (r.drop n) (messageExtent (r.take n))
      else .within .complete (r.drop n)
  | (status, _) => .within status r

/-- A call of `process_buffer` that does what `ext` says. -/
def Follows (source : Nat) (s : Routing) : Extent DecodeStatus → Prop
  | .within status rest => ∃ router k,
      (processBuffer source).run s = (.ok status, ⟨router, (s.storage.advanceRead k).mark⟩) ∧
        k ≤ s.storage.rest.length ∧ rest = s.storage.rest.drop k
  | .refused => ∃ what s', (processBuffer source).run s = (.error (.exception what), s')
  | .past => ∃ e s', (processBuffer source).run s = (.error e, s') ∧ e.isMemory = true

theorem processBuffer_admin_follows (source : Nat) {s : Routing} {n : Nat}
    (hin : s.storage.InRange) (hstatus : frameStatus s.storage.rest = (.complete, n))
    (hlength : 0 < subjectLengthAt s.storage.rest)
    (hnul : (0 : UInt8) ∈ s.storage.rest.drop MsgAddressing.size)
    (hadmin : (subjectAt s.storage.rest).isAdmin = true) :
    Follows source s (adminExtent (subjectAt s.storage.rest) (s.storage.rest.drop n)
      (messageExtent (s.storage.rest.take n))) := by
  have hread : CString.readFrom (s.storage.rest.drop MsgAddressing.size) =
      .ok (.ofArray (s.storage.rest.drop MsgAddressing.size)) := by
    rw [CString.readFrom, if_pos hnul]
  have hle := (size_le_of_complete hstatus).2
  have hrun := processBuffer_addressed source hin hstatus hlength hread
  rw [← subjectAt, if_pos hadmin] at hrun
  have hanswer : ∀ {status : DecodeStatus} {router : Bootstrap},
      (processAdmin source (subjectAt s.storage.rest)
        (.ofBytes (s.storage.rest.take n))).run ⟨s.router, s.storage.mark.advanceRead n⟩ =
          (.ok status, ⟨router, s.storage.mark.advanceRead n⟩) →
      (processBuffer source).run s = (.ok status, ⟨router, (s.storage.advanceRead n).mark⟩) := by
    intro status router h
    rw [hrun, Exec.bind_ok h]
    rfl
  have hfollows := processAdmin_follows source (subjectAt s.storage.rest)
    (s.storage.rest.take n) ⟨s.router, s.storage.mark.advanceRead n⟩
  cases hext : messageExtent (s.storage.rest.take n) with
  | within entries rest =>
      rw [hext] at hfollows
      cases entries with
      | nil => exact ⟨s.router, n, hanswer hfollows, hle, rfl⟩
      | cons entry entries =>
          simp only [adminExtent]
          split
          · next hregisters =>
              obtain ⟨router, hok⟩ := hfollows.1 hregisters
              exact ⟨router, n, hanswer hok, hle, rfl⟩
          · next hregisters =>
              obtain ⟨e, herror, he⟩ := hfollows.2 hregisters
              exact ⟨e, _, hrun.trans (Exec.bind_error herror), he⟩
  | refused =>
      rw [hext] at hfollows
      obtain ⟨what, herror⟩ := hfollows
      exact ⟨what, _, hrun.trans (Exec.bind_error herror)⟩
  | past =>
      rw [hext] at hfollows
      obtain ⟨e, herror, he⟩ := hfollows
      exact ⟨e, _, hrun.trans (Exec.bind_error herror), he⟩

theorem processBuffer_follows (source : Nat) {s : Routing} (hin : s.storage.InRange) :
    Follows source s (routeExtent s.storage.rest) := by
  obtain ⟨status, n, hstatus⟩ : ∃ status n, frameStatus s.storage.rest = (status, n) :=
    ⟨_, _, rfl⟩
  have hother : status ≠ .complete → Follows source s (.within status s.storage.rest) := by
    intro hne
    exact ⟨s.router, 0, processBuffer_other source hin hstatus hne, Nat.zero_le _, rfl⟩
  rw [routeExtent, hstatus]
  cases status with
  | complete =>
      dsimp only
      split
      · next hlength =>
          refine ⟨s.router, 0, ?_, Nat.zero_le _, rfl⟩
          rw [processBuffer_complete source hin hstatus, if_neg (by omega)]
          rfl
      · next hlength =>
          have hpos : 0 < subjectLengthAt s.storage.rest := Nat.pos_of_ne_zero hlength
          split
          · next hnul =>
              have hrun := processBuffer_unterminated source hin hstatus hpos hnul
              exact ⟨.outOfBounds, _, Prod.ext hrun rfl, rfl⟩
          · next hnul =>
              have hnul : (0 : UInt8) ∈ s.storage.rest.drop MsgAddressing.size :=
                Decidable.not_not.mp hnul
              split
              · next hadmin =>
                  exact processBuffer_admin_follows source hin hstatus hpos hnul hadmin
              · next hadmin =>
                  have hread : CString.readFrom (s.storage.rest.drop MsgAddressing.size) =
                      .ok (.ofArray (s.storage.rest.drop MsgAddressing.size)) := by
                    rw [CString.readFrom, if_pos hnul]
                  have hrun := processBuffer_addressed source hin hstatus hpos hread
                  rw [← subjectAt, if_neg hadmin] at hrun
                  exact ⟨_, n, hrun, (size_le_of_complete hstatus).2, rfl⟩
  | incomplete => exact hother (by decide)
  | corrupt => exact hother (by decide)

end Bootstrap

/-! ## The client -/

namespace TCPTransport

/-- The application has been told of a corrupt message in between. -/
def Raised (t t' : TCPTransport) : Prop :=
  ∃ told, t'.notifications = t.notifications ++ told ∧ .corruptMessage ∈ told

/-- A call of `processData` that does what the walk says. -/
def Follows (keeps : Nat → Bool) (s : Receiving) : Extent (List Entry) → Prop
  | .within [] _ => ∃ t, (processData keeps).run s = (.ok false, ⟨t, s.storage.mark⟩) ∧
      t.notifications = s.transport.notifications
  | .within _ rest => ∃ t k,
      (processData keeps).run s = (.ok true, ⟨t, s.storage.mark.advanceRead k⟩) ∧
        k ≤ s.storage.rest.length ∧ rest = s.storage.rest.drop k
  | .refused => ∃ t k,
      (processData keeps).run s = (.ok false, ⟨t, s.storage.mark.advanceRead k⟩) ∧
        Raised s.transport t
  | .past => ∃ e s', (processData keeps).run s = (.error e, s') ∧ e.isMemory = true

theorem disconnect_notifications (t : TCPTransport) :
    ∃ told, t.disconnect.notifications = t.notifications ++ told := by
  rw [disconnect, disconnectPeer]
  split
  · refine ⟨[.disconnected], ?_⟩
    dsimp only
    rw [Bool.and_false, if_neg Bool.false_ne_true]
    rfl
  · exact ⟨[], (List.append_nil _).symm⟩

theorem processData_follows (keeps : Nat → Bool) {s : Receiving} (hin : s.storage.InRange)
    {n : Nat} (hstatus : frameStatus s.storage.rest = (.complete, n)) :
    Follows keeps s (messageExtent s.storage.rest) := by
  obtain ⟨i, p, old, hold, hrun⟩ := processData_complete keeps hin hstatus
  have htracks := decode_tracks (s := ⟨Message.clear old, s.storage.mark⟩) hin
  simp only [decodeInto, hold] at hrun
  show Follows keeps s (messageExtent s.storage.mark.rest)
  cases hext : messageExtent s.storage.mark.rest with
  | within entries rest =>
      rw [hext] at htracks
      obtain ⟨answer, msg, k, hdecode, hk, hrest, hanswer, -⟩ := htracks
      rw [hdecode] at hrun
      cases entries with
      | nil =>
          have hfalse : answer = false := Bool.eq_false_iff.mpr fun h => hanswer.mp h rfl
          rw [hfalse] at hrun
          exact ⟨_, hrun, rfl⟩
      | cons entry entries =>
          have htrue : answer = true := hanswer.mpr (List.cons_ne_nil _ _)
          rw [htrue] at hrun
          exact ⟨_, k, hrun, hk, hrest⟩
  | refused =>
      rw [hext] at htracks
      obtain ⟨what, msg, k, hdecode, hk⟩ := htracks
      rw [hdecode] at hrun
      refine ⟨_, k, hrun, ?_⟩
      obtain ⟨told, htold⟩ := disconnect_notifications
        (({ s.transport with pool := p.store i msg } : TCPTransport).notify .corruptMessage)
      refine ⟨.corruptMessage :: told, ?_, List.mem_cons_self⟩
      show (disconnect _).notifications = _
      rw [htold]
      show (s.transport.notifications ++ [.corruptMessage]) ++ told = _
      rw [List.append_assoc]
      rfl
  | past =>
      rw [hext] at htracks
      obtain ⟨e, d, hdecode, he⟩ := htracks
      rw [hdecode] at hrun
      cases e with
      | exception what => cases he
      | _ => exact ⟨_, _, hrun, he⟩

end TCPTransport

end Fastpath
