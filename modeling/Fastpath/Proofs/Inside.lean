import Fastpath.Model.Listener
import Fastpath.Proofs.Bounds
import Fastpath.Proofs.Forward

/-!
# Where the router stays inside its bytes

`process_buffer` reads more than `decode` does. It takes the subject for a C
string wherever that ends, and for a registration it takes the value stored
under `subject` for one too, whatever class of field was stored there. Neither
the terminator nor the class is checked.

So a buffer is read within its bounds exactly when four things hold of the
message at its head: the declared subject ends in the buffer, some byte behind
the addressing is a terminator, a message for the router is one the walk does
not run out of, and a registration's `subject` is a value with a terminator.
-/

namespace Fastpath

open Fastpath.Lib

/-! ## The index of a decoded message -/

namespace Message

/-- The index finds the first field of a name. -/
def Indexed (m : Message) : Prop :=
  ∀ identifier, m.find identifier = m.payload.findIdx? (·.identifier = identifier)

theorem Indexed.pushDecoded {m : Message} (h : m.Indexed) (field : Field) :
    (m.pushDecoded field).Indexed := by
  intro identifier
  have hname := h field.identifier
  rw [pushDecoded_payload, List.findIdx?_append, ← h identifier, Message.pushDecoded, insertKey]
  cases hfind : m.find field.identifier with
  | some index =>
      -- the name is taken, and the index keeps its first bearer
      show m.find identifier = _
      cases hid : m.find identifier with
      | some other => rfl
      | none =>
          have hne : field.identifier ≠ identifier := by
            intro heq
            rw [heq, hid] at hfind
            cases hfind
          simp [hne]
  | none =>
      show (List.find? _ (m.keys ++ [(field.identifier, m.payload.length)])).map _ = _
      rw [List.find?_append]
      show (Option.or _ _).map _ = ((m.keys.find? (·.1 = identifier)).map (·.2)).or _
      cases m.keys.find? (·.1 = identifier) with
      | some key => rfl
      | none =>
          by_cases heq : field.identifier = identifier
          · simp [heq]
          · simp [heq]

theorem Indexed.foldl {m : Message} (h : m.Indexed) (fields : List Field) :
    (fields.foldl Message.pushDecoded m).Indexed := by
  induction fields generalizing m with
  | nil => exact h
  | cons field fields ih => exact ih (h.pushDecoded field)

/-- Reading by name goes by the first field of the name: its value if it has one, and
whatever is there if it has not. -/
theorem Indexed.getDataField {m : Message} (h : m.Indexed) (identifier : CString) :
    m.getDataField identifier =
      match (m.payload.map Field.entry).find? (·.1 = identifier) with
      | none => .ok none
      | some (_, some value) => .ok (some value)
      | some (_, none) => .error .badCast := by
  have hentry : ((fun entry : Entry => decide (entry.1 = identifier)) ∘ Field.entry) =
      fun field : Field => decide (field.identifier = identifier) := by
    funext field
    cases field <;> rfl
  rw [List.find?_map, hentry, List.find?_eq_bind_findIdx?_getElem?, Message.getDataField,
    h identifier]
  cases hidx : m.payload.findIdx? fun field => decide (field.identifier = identifier) with
  | none => rfl
  | some index =>
      obtain ⟨hlt, -⟩ := List.findIdx?_eq_some_iff_getElem.mp hidx
      dsimp only
      rw [Option.bind_some, List.getElem?_eq_getElem hlt]
      cases m.payload[index] <;> rfl

end Message

/-! ## The condition -/

namespace Bootstrap

def subjectAt (r : Bytes) : Subject UInt64 :=
  .new stringHash (.ofArray (r.drop MsgAddressing.size))

/-- Fields among which the first `subject`, if there is one, has a value that is empty or
has a terminator. -/
def Nameable (entries : List Entry) : Prop :=
  ∀ entry ∈ entries.find? (·.1 = .ofString "subject"), ∃ value ∈ entry.2, value = [] ∨ 0 ∈ value

instance (entries : List Entry) : Decidable (Nameable entries) :=
  inferInstanceAs (Decidable (∀ entry ∈ entries.find? (·.1 = .ofString "subject"),
    ∃ value ∈ entry.2, value = [] ∨ 0 ∈ value))

/-- What a registration has to be, beyond what every message for the router has to. -/
def Registers (subject : Subject UInt64) (entries : List Entry) : Prop :=
  subject.subjectHash = PeerConnection.registerObserver.subjectHash → Nameable entries

instance (subject : Subject UInt64) : DecidablePred (Registers subject) := fun entries =>
  inferInstanceAs (Decidable
    (subject.subjectHash = PeerConnection.registerObserver.subjectHash → Nameable entries))

/-- The buffers `process_buffer` reads within their bounds, by the message in front. -/
def Routable (r : Bytes) : Prop :=
  (frameStatus r).1 = .complete →
    MsgAddressing.size + subjectLengthAt r ≤ r.length ∧
      (0 < subjectLengthAt r → (0 : UInt8) ∈ r.drop MsgAddressing.size ∧
        ((subjectAt r).isAdmin = true →
          (messageExtent (r.take (frameStatus r).2)).Stays (Registers (subjectAt r))))

instance (r : Bytes) : Decidable (Routable r) :=
  inferInstanceAs (Decidable ((frameStatus r).1 = .complete →
    MsgAddressing.size + subjectLengthAt r ≤ r.length ∧
      (0 < subjectLengthAt r → (0 : UInt8) ∈ r.drop MsgAddressing.size ∧
        ((subjectAt r).isAdmin = true →
          (messageExtent (r.take (frameStatus r).2)).Stays (Registers (subjectAt r))))))

/-! ## Messages for the router -/

/-- A registration whose `subject` cannot be read is read all the same; every other message
is handled. -/
theorem handleAdminMessage_follows {m : Message} (hindex : m.Indexed) (subject : Subject UInt64)
    (subscriptions : Subscriptions) :
    (Registers subject (m.payload.map Field.entry) →
        ∃ subscriptions', PeerConnection.handleAdminMessage subject m subscriptions =
          .ok subscriptions') ∧
      (¬ Registers subject (m.payload.map Field.entry) →
        ∃ e, PeerConnection.handleAdminMessage subject m subscriptions = .error e ∧
          e.isMemory = true) := by
  rw [PeerConnection.handleAdminMessage, Registers, Nameable]
  by_cases hregister : subject.subjectHash = PeerConnection.registerObserver.subjectHash
  · rw [if_pos hregister, hindex.getDataField]
    simp only [hregister, true_implies]
    cases (m.payload.map Field.entry).find? (·.1 = .ofString "subject") with
    | none => simp
    | some entry =>
        obtain ⟨identifier, stored⟩ := entry
        cases stored with
        | none => simp [Fault.isMemory]
        | some value =>
            dsimp only
            by_cases hempty : value = []
            · simp [hempty]
            · rw [if_neg (by rwa [List.length_eq_zero_iff]), CString.readFrom]
              by_cases hnul : (0 : UInt8) ∈ value
              · simp [hnul, Except.map]
              · simp [hnul, hempty, Except.map, Fault.isMemory]
  · rw [if_neg hregister, if_neg hregister]
    simp [hregister]

/-- The admin branch goes where the walk over the message goes, and moves no cursor of its
own. What is refused is thrown and not caught. -/
theorem processAdmin_follows (source : Nat) (subject : Subject UInt64) (l : Bytes) (s : Routing) :
    match messageExtent l with
    | .within [] _ => (processAdmin source subject (.ofBytes l)).run s = (.ok .corrupt, s)
    | .within entries _ =>
        (Registers subject entries →
            ∃ router, (processAdmin source subject (.ofBytes l)).run s =
              (.ok .complete, ⟨router, s.storage⟩)) ∧
          (¬ Registers subject entries →
            ∃ e, (processAdmin source subject (.ofBytes l)).run s = (.error e, s) ∧
              e.isMemory = true)
    | .refused => ∃ what, (processAdmin source subject (.ofBytes l)).run s =
        (.error (.exception what), s)
    | .past => ∃ e, (processAdmin source subject (.ofBytes l)).run s = (.error e, s) ∧
        e.isMemory = true := by
  have htracks := decode_tracks (s := ⟨Message.new, .ofBytes l⟩) (Nat.zero_le _)
  rw [ByteStorage.rest_ofBytes] at htracks
  simp only [processAdmin]
  cases hext : messageExtent l with
  | within entries rest =>
      rw [hext] at htracks
      obtain ⟨answer, msg, n, hrun, -, -, hanswer, base, fields, hpayload, hkeys, rfl, hentries⟩ :=
        htracks
      rw [hrun]
      have hindex : (fields.foldl Message.pushDecoded base).Indexed := by
        apply Message.Indexed.foldl
        intro identifier
        rw [Message.find, hkeys, hpayload]
        rfl
      have hfields : (fields.foldl Message.pushDecoded base).payload = fields := by
        rw [(foldl_pushDecoded fields base).1, hpayload]
        rfl
      have hhandled := handleAdminMessage_follows hindex subject
        (s.router.peer source).subscriptions
      rw [hfields, hentries] at hhandled
      cases entries with
      | nil =>
          have hfalse : answer = false := Bool.eq_false_iff.mpr fun h => hanswer.mp h rfl
          rw [hfalse]
      | cons entry entries =>
          have htrue : answer = true := hanswer.mpr (List.cons_ne_nil _ _)
          rw [htrue]
          dsimp only
          refine ⟨fun hregisters => ?_, fun hregisters => ?_⟩
          · obtain ⟨subscriptions, hok⟩ := hhandled.1 hregisters
            rw [hok]
            exact ⟨_, rfl⟩
          · obtain ⟨e, herror, he⟩ := hhandled.2 hregisters
            rw [herror]
            exact ⟨e, rfl, he⟩
  | refused =>
      rw [hext] at htracks
      obtain ⟨what, msg, n, hrun, -⟩ := htracks
      rw [hrun]
      exact ⟨what, rfl⟩
  | past =>
      rw [hext] at htracks
      obtain ⟨e, s', hrun, he⟩ := htracks
      rw [hrun]
      exact ⟨e, rfl, he⟩

theorem processAdmin_inside (source : Nat) (subject : Subject UInt64) (l : Bytes) (s : Routing) :
    ((processAdmin source subject (.ofBytes l)).run s).2.storage = s.storage ∧
      ((∀ e, ((processAdmin source subject (.ofBytes l)).run s).1 = .error e →
          e.isMemory = false) ↔
        (messageExtent l).Stays (Registers subject)) := by
  have hfollows := processAdmin_follows source subject l s
  cases hext : messageExtent l with
  | within entries rest =>
      rw [hext] at hfollows
      cases entries with
      | nil =>
          dsimp only at hfollows
          rw [hfollows]
          refine ⟨rfl, fun _ _ entry hentry => ?_, fun _ e he => by cases he⟩
          cases hentry
      | cons entry entries =>
          dsimp only at hfollows
          rw [Extent.Stays]
          by_cases hregisters : Registers subject (entry :: entries)
          · obtain ⟨router, hrun⟩ := hfollows.1 hregisters
            rw [hrun]
            exact ⟨rfl, fun _ => hregisters, fun _ e he => by cases he⟩
          · obtain ⟨e, hrun, he⟩ := hfollows.2 hregisters
            rw [hrun]
            refine ⟨rfl, fun h => ?_, fun h => absurd h hregisters⟩
            rw [h e rfl] at he
            cases he
  | refused =>
      rw [hext] at hfollows
      obtain ⟨what, hrun⟩ := hfollows
      rw [hrun]
      refine ⟨rfl, fun _ => trivial, fun _ e he => ?_⟩
      cases he
      rfl
  | past =>
      rw [hext] at hfollows
      obtain ⟨e, hrun, he⟩ := hfollows
      rw [hrun]
      refine ⟨rfl, fun h => ?_, fun h => absurd h id⟩
      rw [h e rfl] at he
      cases he

/-! ## The whole of `process_buffer` -/

/-- `process_buffer` reads inside the buffer and keeps its cursor there: when the
addressing has been stepped over, when the message it decodes has been, and when it
returns. Between two of these places the cursor only moves forward or back to the
mark. -/
structure ProcessesInside (source : Nat) (s : Routing) : Prop where
  memory : ∀ e, ((processBuffer source).run s).1 = .error e → e.isMemory = false
  addressing : (addressingDetails.run s.storage.mark).2.InRange
  decoding : ∀ a subject, (addressingDetails.run s.storage.mark).1 = .ok (.complete, some a) →
    0 < a.subjectLength →
      (readSubject a.subject).run s.storage.mark = (.ok subject, s.storage.mark) →
    subject.isAdmin = true → Message.new.DecodesInside (s.storage.segment a.msgLength).1
  cursor : ((processBuffer source).run s).2.storage.InRange

theorem processesInside_other (source : Nat) {s : Routing} {status : DecodeStatus} {n : Nat}
    (hin : s.storage.InRange) (h : frameStatus s.storage.rest = (status, n))
    (hne : status ≠ .complete) : ProcessesInside source s := by
  have haddr := addressingDetails_other (s := s.storage.mark) hin h hne
  have hrun := processBuffer_other source hin h hne
  refine ⟨?_, ?_, ?_, ?_⟩
  · intro e he
    rw [hrun] at he
    cases he
  · rw [haddr]
    exact hin
  · intro a subject ha
    rw [haddr] at ha
    cases ha
  · rw [hrun]
    exact hin

/-- In front of a complete message, the cursor is where its subject ends. -/
theorem addressing_inRange {s : ByteStorage} {n : Nat} (hin : s.InRange)
    (h : frameStatus s.rest = (.complete, n)) :
    (addressingDetails.run s.mark).2.InRange ↔
      MsgAddressing.size + subjectLengthAt s.rest ≤ s.rest.length := by
  rw [addressingDetails_complete (s := s.mark) hin h]
  show s.read + (MsgAddressing.size + subjectLengthAt s.rest) ≤ s.bytes.length ↔ _
  rw [ByteStorage.InRange] at hin
  rw [ByteStorage.length_rest]
  omega

/-- In front of a message with a subject that can be read: the run from there, and what is
left of the conditions. -/
theorem processBuffer_inside (source : Nat) {s : Routing} {n : Nat} (hin : s.storage.InRange)
    (hstatus : frameStatus s.storage.rest = (.complete, n))
    (hlength : 0 < subjectLengthAt s.storage.rest)
    (hnul : (0 : UInt8) ∈ s.storage.rest.drop MsgAddressing.size) :
    ((processBuffer source).run s).2.storage.InRange ∧
      ((∀ e, ((processBuffer source).run s).1 = .error e → e.isMemory = false) ↔
        ((subjectAt s.storage.rest).isAdmin = true →
          (messageExtent (s.storage.rest.take n)).Stays
            (Registers (subjectAt s.storage.rest)))) := by
  have hread : CString.readFrom (s.storage.rest.drop MsgAddressing.size) =
      .ok (.ofArray (s.storage.rest.drop MsgAddressing.size)) := by
    rw [CString.readFrom, if_pos hnul]
  have hend : (s.storage.mark.advanceRead n).InRange :=
    ByteStorage.InRange.advanceRead (s := s.storage.mark) hin (size_le_of_complete hstatus).2
  rw [processBuffer_addressed source hin hstatus hlength hread]
  show _ ∧ (_ ↔ ((subjectAt s.storage.rest).isAdmin = true → _))
  rw [← subjectAt]
  cases hadmin : (subjectAt s.storage.rest).isAdmin with
  | true =>
      obtain ⟨hstorage, hinside⟩ := processAdmin_inside source (subjectAt s.storage.rest)
        (s.storage.rest.take n) ⟨s.router, s.storage.mark.advanceRead n⟩
      rw [if_pos rfl]
      simp only [true_implies]
      rw [← hinside]
      generalize hout : (processAdmin source (subjectAt s.storage.rest)
        (.ofBytes (s.storage.rest.take n))).run ⟨s.router, s.storage.mark.advanceRead n⟩ = out
        at hstorage
      obtain ⟨answer, s'⟩ := out
      cases answer with
      | ok status =>
          rw [Exec.bind_ok hout]
          refine ⟨?_, ?_⟩
          · show s'.storage.InRange
            rw [hstorage]
            exact hend
          · exact ⟨fun _ e he => (by cases he), fun _ e he => (by cases he)⟩
      | error e =>
          rw [Exec.bind_error hout]
          refine ⟨?_, Iff.rfl⟩
          show s'.storage.InRange
          rw [hstorage]
          exact hend
  | false =>
      rw [if_neg Bool.false_ne_true]
      refine ⟨hend, fun _ hfalse => absurd hfalse Bool.false_ne_true, fun _ e he => ?_⟩
      cases he

theorem readSubject_unterminated {s : ByteStorage}
    (hnul : (0 : UInt8) ∉ s.rest.drop MsgAddressing.size) :
    (readSubject (s.read + MsgAddressing.size)).run s = (.error .outOfBounds, s) := by
  rw [ByteStorage.rest, List.drop_drop] at hnul
  have hfail : CString.readFrom (s.bytes.drop (s.read + MsgAddressing.size)) =
      .error .outOfBounds := by
    rw [CString.readFrom, if_neg hnul]
  simp only [readSubject, hfail]

/-- A subject without a terminator is read to the end of the buffer and on. -/
theorem processBuffer_unterminated (source : Nat) {s : Routing} {n : Nat}
    (hin : s.storage.InRange) (hstatus : frameStatus s.storage.rest = (.complete, n))
    (hlength : 0 < subjectLengthAt s.storage.rest)
    (hnul : (0 : UInt8) ∉ s.storage.rest.drop MsgAddressing.size) :
    ((processBuffer source).run s).1 = .error .outOfBounds := by
  have hread : (onStorage (readSubject (s.storage.mark.read + MsgAddressing.size))).run
      ⟨s.router, s.storage.mark⟩ = (.error .outOfBounds, ⟨s.router, s.storage.mark⟩) :=
    Exec.zoom_error (readSubject_unterminated (s := s.storage.mark) hnul)
  rw [processBuffer_complete source hin hstatus, if_pos hlength, Exec.bind_error hread]

theorem processesInside_complete (source : Nat) {s : Routing} {n : Nat} (hin : s.storage.InRange)
    (hstatus : frameStatus s.storage.rest = (.complete, n)) :
    ProcessesInside source s ↔ Routable s.storage.rest := by
  have haddr := addressing_inRange hin hstatus
  have hfirst := addressingDetails_complete (s := s.storage.mark) hin hstatus
  rw [Routable, hstatus]
  simp only [true_implies]
  by_cases hlength : 0 < subjectLengthAt s.storage.rest
  · by_cases hnul : (0 : UInt8) ∈ s.storage.rest.drop MsgAddressing.size
    · obtain ⟨hcursor, hmemory⟩ := processBuffer_inside source hin hstatus hlength hnul
      simp only [hlength, hnul, true_implies, true_and]
      rw [← hmemory, ← haddr]
      refine ⟨fun h => ⟨h.addressing, h.memory⟩, fun ⟨haddressing, hinside⟩ =>
        ⟨hinside, haddressing, ?_, hcursor⟩⟩
      intro a subject ha _ hsubject hadmin
      have hread : CString.readFrom (s.storage.rest.drop MsgAddressing.size) =
          .ok (.ofArray (s.storage.rest.drop MsgAddressing.size)) := by
        rw [CString.readFrom, if_pos hnul]
      rw [hfirst] at ha
      cases ha
      rw [readSubject_run (s := s.storage.mark) hread] at hsubject
      cases hsubject
      apply (Message.decodesInside_of_stays (Nat.zero_le _) Message.new).mpr
      exact (hmemory.mp hinside hadmin).mono fun _ _ => trivial
    · refine ⟨fun h => ?_, fun h => absurd (h.2 hlength).1 hnul⟩
      cases h.memory _ (processBuffer_unterminated source hin hstatus hlength hnul)
  · have hrun : (processBuffer source).run s = (.ok .corrupt, ⟨s.router, s.storage.mark⟩) := by
      rw [processBuffer_complete source hin hstatus, if_neg hlength, Exec.pure_run]
    simp only [hlength, false_implies, and_true]
    rw [← haddr]
    refine ⟨fun h => h.addressing, fun haddressing => ⟨?_, haddressing, ?_, ?_⟩⟩
    · intro e he
      rw [hrun] at he
      cases he
    · intro a subject ha hpos
      rw [hfirst] at ha
      cases ha
      exact absurd hpos hlength
    · rw [hrun]
      exact hin

/-- Over every buffer and from every cursor within it, `process_buffer` stays inside if and
only if the message in front is routable, and `decode` if and only if the walk does. -/
theorem inside_iff (source : Nat) (target : Message) {s : Routing} (hin : s.storage.InRange) :
    (ProcessesInside source s ↔ Routable s.storage.rest) ∧
      (target.DecodesInside s.storage ↔ (messageExtent s.storage.rest).Stays fun _ => True) := by
  refine ⟨?_, Message.decodesInside_of_stays hin target⟩
  obtain ⟨status, n, hstatus⟩ : ∃ status n, frameStatus s.storage.rest = (status, n) :=
    ⟨_, _, rfl⟩
  by_cases hcomplete : status = .complete
  · rw [hcomplete] at hstatus
    exact processesInside_complete source hin hstatus
  · refine ⟨fun _ hfalse => ?_, fun _ => processesInside_other source hin hstatus hcomplete⟩
    rw [hstatus] at hfalse
    exact absurd hfalse hcomplete

/-- A registration, on a router that has just accepted its connection. -/
theorem registration_inside :
    let bytes := (MessageListener.observerMessage MessageListener.registerTopic 4096
      (.ofString "a.*")).encoded
    let s : Routing := ⟨start [1] (fun _ => []) fun _ _ => 0, .ofBytes bytes⟩
    (ProcessesInside 1 s ↔ Routable s.storage.rest) ∧
      (Message.new.DecodesInside s.storage ↔ (messageExtent s.storage.rest).Stays fun _ => True) ∧
      Routable s.storage.rest := by
  intro bytes s
  obtain ⟨hprocess, hdecode⟩ := inside_iff 1 Message.new (s := s) (Nat.zero_le _)
  exact ⟨hprocess, hdecode, by decide +kernel⟩

/-- A subject of one character and no terminator is read past the end of the buffer, and so
is the header of a field of which one byte has arrived. -/
theorem unterminated_and_truncated :
    let unterminated : Bytes := [1, 8, 0, 0, 0, 0, 0, 0, 0, 255, 0, 0, 0, 0, 1, 0, 65]
    let truncated : Bytes :=
      [1, 15, 0, 0, 0, 0, 0, 0, 0, 255, 0, 0, 0, 0, 2, 0, 65, 0, 2, 1, 0, 0, 0, 4]
    let router := start [1] (fun _ => []) fun _ _ => 0
    ((processBuffer 1).run ⟨router, .ofBytes unterminated⟩).1 = .error .outOfBounds ∧
      (Message.decode.run ⟨Message.new, .ofBytes truncated⟩).1 = .error .outOfBounds ∧
      ¬ ProcessesInside 1 ⟨router, .ofBytes unterminated⟩ ∧
      ¬ Message.new.DecodesInside (.ofBytes truncated) := by
  intro unterminated truncated router
  have hprocess : ((processBuffer 1).run ⟨router, .ofBytes unterminated⟩).1 =
      .error .outOfBounds :=
    processBuffer_unterminated 1 (n := 17) (Nat.zero_le _) (by decide) (by decide) (by decide)
  have hdecode : (Message.decode.run ⟨Message.new, .ofBytes truncated⟩).1 =
      .error .outOfBounds := by
    decide +kernel
  refine ⟨hprocess, hdecode, fun h => ?_, fun h => ?_⟩
  · cases h.memory _ hprocess
  · cases h.1 _ hdecode

end Bootstrap

end Fastpath
