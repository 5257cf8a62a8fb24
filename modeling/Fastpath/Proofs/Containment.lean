import Fastpath.Proofs.Delivery
import Fastpath.Proofs.Outcomes

/-!
# What keeps an exception in

The decoder throws at what it refuses, and four functions call it on bytes from
outside. One of them, the client's on a socket, has a handler. The other three
let the exception through, and two of these are `noexcept`, so the process ends
there.

For each of the four: it returns if and only if the bytes are such that nothing
is thrown, or on the one path caught, and nothing is read that is not there.
-/

namespace Fastpath

open Fastpath.Lib

/-! ## The router's two ways in -/

theorem Bootstrap.Follows.returns {source : Nat} {s : Bootstrap.Routing}
    {ext : Extent DecodeStatus} (h : Bootstrap.Follows source s ext) :
    (Bootstrap.processBuffer source).Returns s ↔ ext.Ends fun _ => True := by
  cases ext with
  | within status rest =>
      obtain ⟨router, k, hrun, -⟩ := h
      exact ⟨fun _ => trivial, fun _ => .of_ok hrun⟩
  | refused =>
      obtain ⟨what, s', hrun⟩ := h
      exact ⟨fun hreturns => Exec.not_returns_of_error hrun hreturns, fun h => h.elim⟩
  | past =>
      obtain ⟨e, s', hrun, -⟩ := h
      exact ⟨fun hreturns => Exec.not_returns_of_error hrun hreturns, fun h => h.elim⟩

namespace Hub

/-- What `process_buffer` returns on: the subject of the message in front can be read, and a
message for the router is one the decoder takes to its end. -/
def BufferContained (r : Bytes) : Prop :=
  (frameStatus r).1 = .complete → 0 < subjectLengthAt r →
    (0 : UInt8) ∈ r.drop MsgAddressing.size ∧
      ((Bootstrap.subjectAt r).isAdmin = true →
        (messageExtent (r.take (frameStatus r).2)).Ends
          (Bootstrap.Registers (Bootstrap.subjectAt r)))

/-- What the callback of `notificationHandler` returns on. It reads a subject that is
declared to be empty, and decodes all there is behind the pointer. -/
def PointerContained (data : Bytes) : Prop :=
  (frameStatus data).1 = .complete →
    (0 : UInt8) ∈ data.drop MsgAddressing.size ∧
      ((Bootstrap.subjectAt data).isAdmin = true →
        (messageExtent data).Ends (Bootstrap.Registers (Bootstrap.subjectAt data)))

theorem processAdmin_agrees (source : Nat) (subject : Subject UInt64) (msgData : ByteStorage) :
    Exec.Matches (Over fun _ _ => True) (Bootstrap.processAdmin source subject msgData)
      (processAdmin source subject msgData) := by
  rintro ⟨r, b⟩ ⟨h, b'⟩ ⟨-, rfl⟩
  simp only [Bootstrap.processAdmin, processAdmin]
  cases Message.decode.run ⟨Message.new, msgData⟩ with
  | mk answer d =>
      cases answer with
      | error e => exact ⟨rfl, trivial, rfl⟩
      | ok decoded =>
          cases decoded with
          | false => exact ⟨rfl, trivial, rfl⟩
          | true =>
              dsimp only
              obtain ⟨new, new', hnew, hnew'⟩ | ⟨e, he, he'⟩ := handleAdminMessage_agrees subject
                d.msg (r.peer source).subscriptions (h.peer source).subscriptions
              · rw [hnew, hnew']
                exact ⟨rfl, trivial, rfl⟩
              · rw [he, he']
                exact ⟨rfl, trivial, rfl⟩

/-- The admin branch returns on what the decoder takes to its end, if it is no registration
that cannot be read. -/
theorem processAdmin_returns (source : Nat) (subject : Subject UInt64) (l : Bytes) (s : Routing) :
    (processAdmin source subject (.ofBytes l)).Returns s ↔
      (messageExtent l).Ends (Bootstrap.Registers subject) := by
  -- any router will do to compare with
  let r : Bootstrap.Routing := ⟨Bootstrap.start [] (fun _ => []) fun _ _ => 0, s.storage⟩
  rw [← (processAdmin_agrees source subject (.ofBytes l)).returns (s := r) ⟨trivial, rfl⟩]
  have hfollows := Bootstrap.processAdmin_follows source subject l r
  cases hext : messageExtent l with
  | within entries rest =>
      rw [hext] at hfollows
      cases entries with
      | nil =>
          refine ⟨fun _ _ entry hentry => ?_, fun _ => .of_ok hfollows⟩
          cases hentry
      | cons entry entries =>
          rw [Extent.Ends]
          by_cases hregisters : Bootstrap.Registers subject (entry :: entries)
          · obtain ⟨router, hrun⟩ := hfollows.1 hregisters
            exact ⟨fun _ => hregisters, fun _ => .of_ok hrun⟩
          · obtain ⟨e, hrun, -⟩ := hfollows.2 hregisters
            exact ⟨fun h => absurd h (Exec.not_returns_of_error hrun), fun h => absurd h hregisters⟩
  | refused =>
      rw [hext] at hfollows
      obtain ⟨what, hrun⟩ := hfollows
      exact ⟨fun h => absurd h (Exec.not_returns_of_error hrun), fun h => h.elim⟩
  | past =>
      rw [hext] at hfollows
      obtain ⟨e, hrun, -⟩ := hfollows
      exact ⟨fun h => absurd h (Exec.not_returns_of_error hrun), fun h => h.elim⟩

theorem adminExtent_ends (subject : Subject UInt64) (rest : Bytes) (ext : Extent (List Entry)) :
    ((Bootstrap.adminExtent subject rest ext).Ends fun _ => True) ↔
      ext.Ends (Bootstrap.Registers subject) := by
  cases ext with
  | within entries _ =>
      cases entries with
      | nil =>
          refine ⟨fun _ _ entry hentry => ?_, fun _ => trivial⟩
          cases hentry
      | cons entry entries =>
          rw [Bootstrap.adminExtent, Extent.Ends]
          split
          · next h => exact ⟨fun _ => h, fun _ => trivial⟩
          · next h => exact ⟨fun hfalse => hfalse.elim, fun hr => absurd hr h⟩
          · intro hfalse
            cases hfalse
  | refused => exact Iff.rfl
  | past => exact Iff.rfl

theorem routeExtent_ends (r : Bytes) :
    ((Bootstrap.routeExtent r).Ends fun _ => True) ↔ BufferContained r := by
  obtain ⟨status, n, hstatus⟩ : ∃ status n, frameStatus r = (status, n) := ⟨_, _, rfl⟩
  rw [Bootstrap.routeExtent, BufferContained, hstatus]
  cases status with
  | complete =>
      dsimp only
      simp only [true_implies]
      split
      · next hlength => exact ⟨fun _ hpos => absurd hlength (Nat.ne_of_gt hpos), fun _ => trivial⟩
      · next hlength =>
          simp only [Nat.pos_of_ne_zero hlength, true_implies]
          split
          · next hnul => exact ⟨fun h => h.elim, fun h => absurd h.1 hnul⟩
          · next hnul =>
              simp only [Decidable.not_not.mp hnul, true_and]
              split
              · next hadmin =>
                  simp only [hadmin, true_implies]
                  exact adminExtent_ends _ _ _
              · next hadmin => exact ⟨fun _ h => absurd h hadmin, fun _ => trivial⟩
  | incomplete => exact ⟨fun _ hfalse => (by cases hfalse), fun _ => trivial⟩
  | corrupt => exact ⟨fun _ hfalse => (by cases hfalse), fun _ => trivial⟩

theorem processBuffer_returns (source : Nat) {s : Routing} (hin : s.storage.InRange) :
    (processBuffer source).Returns s ↔ BufferContained s.storage.rest := by
  let r : Bootstrap.Routing := ⟨Bootstrap.start [] (fun _ => []) fun _ _ => 0, s.storage⟩
  have hmatches := processBuffer_matches (Q := fun _ _ => True) (processAdmin_agrees source)
    fun _ _ _ _ _ => trivial
  rw [← hmatches.returns (s := r) ⟨trivial, rfl⟩,
    (Bootstrap.processBuffer_follows source (s := r) hin).returns]
  exact routeExtent_ends s.storage.rest

theorem processPointer_returns (source : Nat) (sharedPtr : SharedPtr) (h : Hub) (data : Bytes) :
    (processPointer source sharedPtr).Returns ⟨h, .ofBytes data⟩ ↔ PointerContained data := by
  obtain ⟨status, n, hstatus⟩ : ∃ status n, frameStatus data = (status, n) := ⟨_, _, rfl⟩
  by_cases hcomplete : status = .complete
  · subst hcomplete
    rw [PointerContained, hstatus]
    simp only [true_implies]
    by_cases hnul : (0 : UInt8) ∈ data.drop MsgAddressing.size
    · have hrun := processPointer_addressed source sharedPtr (s := ⟨h, .ofBytes data⟩)
        (Nat.zero_le _) hstatus hnul
      change _ = Exec.run (if (Bootstrap.subjectAt data).isAdmin then _ else _) _ at hrun
      rw [Exec.Returns, hrun, ← Exec.Returns]
      simp only [hnul, true_and]
      cases hadmin : (Bootstrap.subjectAt data).isAdmin with
      | false => exact ⟨fun _ hfalse => (by cases hfalse), fun _ => .of_ok rfl⟩
      | true =>
          rw [if_pos rfl, Exec.returns_bind_pure]
          simp only [true_implies]
          exact processAdmin_returns source _ data ⟨h, .ofBytes data⟩
    · refine ⟨fun hreturns => ?_, fun h => absurd h.1 hnul⟩
      exact absurd hreturns (Exec.not_returns_of_error
        (processPointer_unterminated source sharedPtr (Nat.zero_le _) hstatus hnul))
  · refine ⟨fun _ hfalse => ?_, fun _ => ?_⟩
    · rw [hstatus] at hfalse
      exact absurd hfalse hcomplete
    · exact .of_ok (processPointer_other source sharedPtr (Nat.zero_le _) hstatus hcomplete)

theorem pointerCallback_returns (source : Nat) (h : Hub) (data : Bytes) :
    (pointerCallback source (.ofBytes data) (some data)).Returns h ↔ PointerContained data := by
  rw [pointerCallback, Exec.returns_zoom, processPointer_returns]

end Hub

/-- `retrieve` returns if and only if every pointer it finds is one its callback returns on,
none of them null. -/
theorem SharedMemoryBuffer.retrieve_returns {σ : Type} {P : Bytes → Prop}
    {callback : ByteStorage → SharedPtr → Exec Fault σ Unit}
    (hcallback : ∀ data s, (callback (.ofBytes data) (some data)).Returns s ↔ P data)
    (found : List SharedPtr) (s : σ) :
    (SharedMemoryBuffer.retrieve callback found).Returns s ↔
      ∀ ptr ∈ found, ∃ data ∈ ptr, P data := by
  induction found generalizing s with
  | nil => exact ⟨fun _ ptr hptr => absurd hptr List.not_mem_nil, fun _ => .of_ok rfl⟩
  | cons ptr found ih =>
      rw [List.forall_mem_cons]
      cases ptr with
      | none =>
          refine ⟨fun h => absurd h (Exec.not_returns_of_error rfl), ?_⟩
          intro h
          obtain ⟨⟨data, hdata, -⟩, -⟩ := h
          cases hdata
      | some data =>
          rw [SharedMemoryBuffer.retrieve, Exec.returns_bind]
          simp only [Exec.returns_bind_pure, ih]
          constructor
          · intro h
            obtain ⟨answer, s', hrun, hfound⟩ := h
            exact ⟨⟨data, rfl, (hcallback data s).mp (.of_ok hrun)⟩, hfound⟩
          · intro h
            obtain ⟨⟨data', hdata, hP⟩, hfound⟩ := h
            cases hdata
            obtain ⟨answer, s', hrun⟩ := (hcallback data s).mpr hP
            exact ⟨answer, s', hrun, hfound⟩

theorem Hub.notificationHandler_returns (source : Nat) (reset : Bool) (found : List SharedPtr)
    (h : Hub) :
    (Hub.notificationHandler source reset found).Returns h ↔
      (reset = true → ∀ ptr ∈ found, ∃ data ∈ ptr, Hub.PointerContained data) := by
  cases reset with
  | false => exact ⟨fun _ hfalse => (by cases hfalse), fun _ => .of_ok rfl⟩
  | true =>
      have hretrieve := SharedMemoryBuffer.retrieve_returns
        (fun data h => Hub.pointerCallback_returns source h data) found h
      simp only [true_implies]
      rw [← hretrieve, Hub.notificationHandler, if_pos rfl, Exec.returns_bind_pure]

/-! ## The client's two -/

/-- The client's handler on a socket: what is thrown is caught. -/
theorem TCPTransport.processData_returns (keeps : Nat → Bool) {s : TCPTransport.Receiving}
    (hin : s.storage.InRange) :
    (TCPTransport.processData keeps).Returns s ↔
      ((frameStatus s.storage.rest).1 = .complete → messageExtent s.storage.rest ≠ .past) := by
  by_cases hcomplete : (frameStatus s.storage.rest).1 = .complete
  · simp only [hcomplete, true_implies]
    have hfollows := processData_follows keeps hin (n := (frameStatus s.storage.rest).2)
      (Prod.ext hcomplete rfl)
    cases hext : messageExtent s.storage.rest with
    | within entries rest =>
        rw [hext] at hfollows
        refine ⟨fun _ hpast => (by cases hpast), fun _ => ?_⟩
        cases entries with
        | nil =>
            obtain ⟨t, hrun, -⟩ := hfollows
            exact .of_ok hrun
        | cons entry entries =>
            obtain ⟨t, k, hrun, -⟩ := hfollows
            exact .of_ok hrun
    | refused =>
        rw [hext] at hfollows
        obtain ⟨t, k, hrun, -⟩ := hfollows
        exact ⟨fun _ hpast => (by cases hpast), fun _ => .of_ok hrun⟩
    | past =>
        rw [hext] at hfollows
        obtain ⟨e, s', hrun, -⟩ := hfollows
        exact ⟨fun h => absurd h (Exec.not_returns_of_error hrun), fun h => absurd rfl h⟩
  · exact ⟨fun _ h => absurd h hcomplete, fun _ => .of_ok (processData_other keeps hin hcomplete)⟩

theorem Tracks.returns {α β : Type} {x : Exec Fault DecodeState α} {s : DecodeState}
    {ext : Extent β} {rel : α → Message → β → Prop} (h : Tracks x s ext rel) :
    x.Returns s ↔ ext.Ends fun _ => True := by
  cases ext with
  | within value rest =>
      obtain ⟨answer, msg, n, hrun, -⟩ := h
      exact ⟨fun _ => trivial, fun _ => .of_ok hrun⟩
  | refused =>
      obtain ⟨what, msg, n, hrun, -⟩ := h
      exact ⟨fun hreturns => Exec.not_returns_of_error hrun hreturns, fun h => h.elim⟩
  | past =>
      obtain ⟨e, s', hrun, -⟩ := h
      exact ⟨fun hreturns => Exec.not_returns_of_error hrun hreturns, fun h => h.elim⟩

/-- The client's callback in shared memory has no handler: it returns where the decoder
does. -/
theorem SHMTransport.decodeInto_returns (keeps : Nat → Bool) (i : Nat) (data : Bytes)
    (t : SHMTransport) :
    (SHMTransport.decodeInto keeps i (.ofBytes data)).Returns t ↔
      (messageExtent data).Ends fun _ => True := by
  have htracks := decode_tracks (s := ⟨t.pool.object i, .ofBytes data⟩) (Nat.zero_le _)
  rw [ByteStorage.rest_ofBytes] at htracks
  rw [← htracks.returns, Exec.Returns, Exec.Returns, SHMTransport.decodeInto]
  dsimp only
  cases Message.decode.run ⟨t.pool.object i, .ofBytes data⟩ with
  | mk answer d =>
      cases answer with
      | ok decoded => cases decoded <;> exact ⟨fun _ => ⟨_, _, rfl⟩, fun _ => ⟨_, _, rfl⟩⟩
      | error e => cases e <;> simp

theorem SHMTransport.receive_returns (keeps : Nat → Bool) (found : List SharedPtr)
    (t : SHMTransport) :
    (SHMTransport.receive keeps found).Returns t ↔
      ∀ ptr ∈ found, ∃ data ∈ ptr, (messageExtent data).Ends fun _ => True := by
  rw [SHMTransport.receive, Exec.returns_bind_pure]
  refine SharedMemoryBuffer.retrieve_returns (fun data t => ?_) found t
  obtain ⟨i, p, old, halloc, -⟩ := Pool.allocate_ok t.pool
  rw [Exec.Returns, Exec.bind_ok (Exec.zoom_ok halloc), ← Exec.Returns,
    SHMTransport.decodeInto_returns]

/-! ## All four -/

/-- Whatever bytes arrive, each of the four paths returns if and only if its condition on them
holds. -/
theorem contained_iff (source : Nat) (keeps : Nat → Bool) :
    (∀ s : Hub.Routing, s.storage.InRange →
        ((Hub.processBuffer source).Returns s ↔ Hub.BufferContained s.storage.rest)) ∧
      (∀ (reset : Bool) (found : List SharedPtr) (h : Hub),
        (Hub.notificationHandler source reset found).Returns h ↔
          (reset = true → ∀ ptr ∈ found, ∃ data ∈ ptr, Hub.PointerContained data)) ∧
      (∀ s : TCPTransport.Receiving, s.storage.InRange →
        ((TCPTransport.processData keeps).Returns s ↔
          ((frameStatus s.storage.rest).1 = .complete →
            messageExtent s.storage.rest ≠ .past))) ∧
      ∀ (found : List SharedPtr) (t : SHMTransport),
        (SHMTransport.receive keeps found).Returns t ↔
          ∀ ptr ∈ found, ∃ data ∈ ptr, (messageExtent data).Ends fun _ => True :=
  ⟨fun _ hin => Hub.processBuffer_returns source hin,
    fun reset found h => Hub.notificationHandler_returns source reset found h,
    fun _ hin => TCPTransport.processData_returns keeps hin,
    fun found t => SHMTransport.receive_returns keeps found t⟩

/-- `probe`, on all four. -/
theorem probe_contained :
    (Hub.processBuffer 1).Returns ⟨Hub.twoPeers "A", .ofBytes probe.wire⟩ ∧
      (Hub.notificationHandler 2 true [some probe.wire]).Returns (Hub.twoPeers "A") ∧
      (TCPTransport.processData fun _ => false).Returns
        ⟨.new fun _ _ => 0, .ofBytes probe.wire⟩ ∧
      (SHMTransport.receive (fun _ => false) [some probe.wire]).Returns .new := by
  obtain ⟨hbuffer, hnotified, hdata, hreceive⟩ := contained_iff 1 fun _ => false
  obtain ⟨-, hnotified, -⟩ := contained_iff 2 fun _ => false
  have hprobe : Hub.PointerContained probe.wire :=
    fun _ => ⟨by decide, fun hadmin => absurd hadmin (by decide)⟩
  refine ⟨(hbuffer _ (Nat.zero_le _)).mpr ?_, (hnotified _ _ _).mpr ?_,
    (hdata _ (Nat.zero_le _)).mpr ?_, (hreceive _ _).mpr ?_⟩
  · exact fun _ _ => ⟨by decide, fun hadmin => absurd hadmin (by decide)⟩
  · rintro - ptr hptr
    rw [List.mem_singleton.mp hptr]
    exact ⟨_, rfl, hprobe⟩
  · exact fun _ => by decide
  · intro ptr hptr
    rw [List.mem_singleton.mp hptr]
    exact ⟨_, rfl, by decide⟩

/-- A complete message for the router, about `_FP`, whose body begins with the wrong
marker. -/
def wrongMarker : Bytes :=
  [1, 17, 0, 0, 0, 0, 0, 0, 0, 255, 0, 0, 0, 0, 4, 0, 95, 70, 80, 0, 3, 0, 0, 0, 0, 0]

/-- The decoder throws at it, and the exception leaves three of the four. -/
theorem wrongMarker_escapes :
    let thrown : Fault := .exception "Received corrupt message - incorrect body marker"
    ((Hub.processBuffer 1).run ⟨Hub.twoPeers "A", .ofBytes wrongMarker⟩).1 = .error thrown ∧
      ((Hub.notificationHandler 2 true [some wrongMarker]).run (Hub.twoPeers "A")).1 =
        .error thrown ∧
      ¬ (Hub.processBuffer 1).Returns ⟨Hub.twoPeers "A", .ofBytes wrongMarker⟩ ∧
      ¬ (Hub.notificationHandler 2 true [some wrongMarker]).Returns (Hub.twoPeers "A") ∧
      ∀ t, ¬ (SHMTransport.receive (fun _ => false) [some wrongMarker]).Returns t := by
  intro thrown
  have hbuffer : ((Hub.processBuffer 1).run ⟨Hub.twoPeers "A", .ofBytes wrongMarker⟩).1 =
      .error thrown := by
    rfl
  have hnotified : ((Hub.notificationHandler 2 true [some wrongMarker]).run
      (Hub.twoPeers "A")).1 = .error thrown := by
    rfl
  refine ⟨hbuffer, hnotified, Exec.not_returns_of_error (Prod.ext hbuffer rfl),
    Exec.not_returns_of_error (Prod.ext hnotified rfl), fun t hreturns => ?_⟩
  obtain ⟨data, hdata, hends⟩ := (SHMTransport.receive_returns _ _ t).mp hreturns
    (some wrongMarker) List.mem_cons_self
  cases hdata
  exact absurd hends (by decide)

end Fastpath
