import Fastpath.Proofs.Reach

/-!
# What a recycled message carries over

A message comes out of the pool cleared, and clearing drops its fields, resets
its flags and ends its subject before the first character. The array behind that
character keeps what it held.

The decoder writes flags and fields from the bytes alone, whatever the array
holds: `Oblivious` says so for a run, and is closed under sequencing. Into the
array it copies as many bytes as the sender declared and nothing behind them. If
there is a terminator among them, or none of them at all, the subject is theirs;
if there is not, it goes on with what the array held.

Bytes declared but not sent are copied all the same, and a message that goes on
behind the buffer may decode all the same. So the terminator has to be among the
bytes that are there, unless the message is certain to be no message.
-/

namespace Fastpath

open Fastpath.Lib

namespace Exposed

/-! ## Runs that do not look at the subject -/

def Decoding.setSubject (subject : Bytes) (d : Decoding) : Decoding :=
  { d with msg := { d.msg with subject := subject } }

section Oblivious

variable {α β : Type}

/-- A run that neither reads nor writes the subject of the message it works for. -/
def Oblivious (x : Exec Fault Decoding α) : Prop :=
  ∀ (d : Decoding) (subject : Bytes),
    x.run (d.setSubject subject) = ((x.run d).1, (x.run d).2.setSubject subject)

theorem Oblivious.bind {x : Exec Fault Decoding α} {f : α → Exec Fault Decoding β}
    (hx : Oblivious x) (hf : ∀ a, Oblivious (f a)) : Oblivious (x >>= f) := by
  intro d subject
  have hfirst := hx d subject
  cases hrun : x.run d with
  | mk answer d' =>
      rw [hrun] at hfirst
      cases answer with
      | ok a => rw [Exec.bind_ok hfirst, Exec.bind_ok hrun, hf a d' subject]
      | error e => rw [Exec.bind_error hfirst, Exec.bind_error hrun]

theorem Oblivious.pure (a : α) : Oblivious (Pure.pure a) := fun _ _ => rfl

theorem Oblivious.throw (e : Fault) : Oblivious (Exec.throw e : Exec Fault Decoding α) :=
  fun _ _ => rfl

theorem Oblivious.onSource (x : Exec Fault Exposed α) : Oblivious (Exposed.onSource x) :=
  fun _ _ => rfl

/-- Another message is decoded into than the one the run works for. -/
theorem Oblivious.onFresh (x : Exec Fault Decoding α) : Oblivious (Exposed.onFresh x) := by
  intro d subject
  simp only [Exposed.onFresh, Decoding.setSubject]
  cases x.run ⟨Message.new, d.source⟩ with
  | mk answer sub => cases answer <;> rfl

theorem Oblivious.push (field : Field) : Oblivious (Exec.modify (Exposed.push field)) := by
  intro d subject
  simp only [Exec.modify_run, Exposed.push, Decoding.setSubject, Message.pushDecoded,
    Message.insertKey, Message.find]
  cases List.find? (fun key => decide (key.1 = field.identifier)) d.msg.keys <;> rfl

end Oblivious

theorem decodeField_oblivious (body : Exec Fault Decoding Bool) :
    Oblivious (decodeField body) := by
  refine .bind (.onSource _) fun header => ?_
  obtain ⟨type, identifierLength, dataSize⟩ := header
  cases type with
  | message => exact .bind (.onSource _) fun _ => .bind (.onFresh _) fun _ => .pure _
  | _ => exact .onSource _

theorem decodeBody_oblivious {fields : Nat → Exec Fault Decoding Unit}
    (hfields : ∀ count, Oblivious (fields count)) : Oblivious (decodeBody fields) := by
  intro d subject
  rw [decodeBody, Exec.bind_ok (Exec.get_run _), Exec.bind_ok (Exec.get_run _)]
  show (if d.source.view.remainingReadLength > MsgHeader.size then _ else _ :
    Exec Fault Decoding Bool).run _ = _
  split
  · refine Oblivious.bind (.onSource _) (fun chk => ?_) d subject
    split
    · exact .throw _
    · exact .bind (.onSource _) fun count => .bind (hfields count) fun _ => .pure _
  · rfl

theorem decodeFields_oblivious (fuel : Nat) : ∀ count, Oblivious (decodeFields fuel count) := by
  induction fuel with
  | zero =>
      intro count
      cases count with
      | zero => exact .pure _
      | succ count => exact .throw _
  | succ fuel ih =>
      intro count
      cases count with
      | zero => exact .pure _
      | succ count =>
          exact .bind (decodeField_oblivious _) fun field => .bind (.push field) fun _ => ih count

/-! ## Decoding into a cleared message -/

/-- What `decode` makes of an array. -/
def subjectAfter (array : Bytes) (s : Exposed) : Bytes :=
  if (frameStatus s.view.rest).1 = .complete ∧
      MsgAddressing.size + subjectLengthAt s.view.rest ≤ s.unread.length then
    Message.copyFront array s.subjectOf
  else array

section Clear

variable {s : Exposed}

/-- Into a cleared message as into a new one, but for the array. -/
theorem decode_clear (hin : s.view.InRange) (m : Message) :
    decode.run ⟨m.clear, s⟩ = ((decode.run ⟨Message.new, s⟩).1,
      (decode.run ⟨Message.new, s⟩).2.setSubject (subjectAfter m.clear.subject s)) := by
  obtain ⟨status, n, hstatus⟩ : ∃ status n, frameStatus s.view.rest = (status, n) := ⟨_, _, rfl⟩
  rw [subjectAfter, hstatus]
  cases status with
  | complete =>
      obtain ⟨hfits, hrun⟩ | ⟨hlong, hrun⟩ := decode_complete (d := ⟨m.clear, s⟩) hin hstatus
      · obtain ⟨-, hnew⟩ | ⟨hlong, -⟩ := decode_complete (d := ⟨Message.new, s⟩) hin hstatus
        · rw [if_pos ⟨rfl, hfits⟩, hrun, hnew]
          exact decodeBody_oblivious (decodeFields_oblivious _) (addressed ⟨Message.new, s⟩) _
        · exact absurd hfits (Nat.not_le.mpr hlong)
      · obtain ⟨hfits, -⟩ | ⟨-, hnew⟩ := decode_complete (d := ⟨Message.new, s⟩) hin hstatus
        · exact absurd hfits (Nat.not_le.mpr hlong)
        · rw [if_neg fun h => absurd h.2 (Nat.not_le.mpr hlong), hrun, hnew]
          rfl
  | incomplete =>
      rw [if_neg fun h => (by cases h.1), decode_incomplete (d := ⟨m.clear, s⟩) hin hstatus,
        decode_incomplete (d := ⟨Message.new, s⟩) hin hstatus]
      rfl
  | corrupt =>
      rw [if_neg fun h => (by cases h.1), decode_corrupt (d := ⟨m.clear, s⟩) hin hstatus,
        decode_corrupt (d := ⟨Message.new, s⟩) hin hstatus]
      rfl

/-- Where `decode` answers that it has a message, the subject was copied whole. -/
theorem subjectAfter_of_ok {d d' : Decoding} (hin : d.source.view.InRange)
    (hrun : decode.run d = (.ok true, d')) (array : Bytes) :
    (frameStatus d.source.view.rest).1 = .complete ∧
      d.source.subjectOf.length = subjectLengthAt d.source.view.rest ∧
      subjectAfter array d.source = Message.copyFront array d.source.subjectOf := by
  obtain ⟨status, n, hstatus⟩ : ∃ status n, frameStatus d.source.view.rest = (status, n) :=
    ⟨_, _, rfl⟩
  cases status with
  | complete =>
      obtain ⟨hfits, -⟩ | ⟨-, herror⟩ := decode_complete hin hstatus
      · have hcomplete := congrArg Prod.fst hstatus
        refine ⟨hcomplete, ?_, if_pos ⟨hcomplete, hfits⟩⟩
        rw [subjectOf, List.length_take_of_le]
        rw [List.length_drop]
        omega
      · rw [herror] at hrun
        cases congrArg Prod.fst hrun
  | incomplete =>
      rw [decode_incomplete hin hstatus] at hrun
      cases hrun
  | corrupt =>
      rw [decode_corrupt hin hstatus] at hrun
      cases hrun

end Clear

/-! ## Two histories -/

/-- Two messages no accessor tells apart: every field accessor goes by the payload and the
index, and `subject()` is read as a C string. -/
structure Indistinguishable (m m' : Message) : Prop where
  flags : m.flags = m'.flags
  subject : ∃ subject, CString.readFrom m.subject = .ok subject ∧
    CString.readFrom m'.subject = .ok subject
  size : m.size = m'.size
  payload : m.payload = m'.payload
  keys : m.keys = m'.keys

/-- Whatever two messages held before they were cleared, decoding into one of them and into
the other comes to the same. -/
def CarriesNothing (s : Exposed) : Prop :=
  ∀ m m' : Message,
    (decode.run ⟨m.clear, s⟩).1 = (decode.run ⟨m'.clear, s⟩).1 ∧
      (decode.run ⟨m.clear, s⟩).2.source = (decode.run ⟨m'.clear, s⟩).2.source ∧
      ((decode.run ⟨m.clear, s⟩).1 = .ok true →
        Indistinguishable (decode.run ⟨m.clear, s⟩).2.msg (decode.run ⟨m'.clear, s⟩).2.msg)

/-- The subject on the wire ends where the decoder copies it to, or there is none. -/
def TerminatesSubject (r : Bytes) : Prop := subjectLengthAt r = 0 ∨ (0 : UInt8) ∈ wireSubject r

instance : DecidablePred TerminatesSubject := fun r =>
  inferInstanceAs (Decidable (subjectLengthAt r = 0 ∨ (0 : UInt8) ∈ wireSubject r))

/-- The message in front decodes, or does so for what is in memory behind it. -/
def MayDecode (r : Bytes) : Prop :=
  (frameStatus r).1 = .complete ∧
    (SubjectFits r → ¬ BodyEmpty (bodyAt r) ∧ messageReach r ≠ .refused)

instance : DecidablePred MayDecode := fun r =>
  inferInstanceAs (Decidable ((frameStatus r).1 = .complete ∧
    (SubjectFits r → ¬ BodyEmpty (bodyAt r) ∧ messageReach r ≠ .refused)))

theorem mayDecode_of_ok {d d' : Decoding} (hin : d.source.view.InRange)
    (hrun : decode.run d = (.ok true, d')) : MayDecode d.source.view.rest := by
  obtain ⟨hcomplete, -⟩ := subjectAfter_of_ok hin hrun []
  have hstatus := frameStatus_of_complete hcomplete
  refine ⟨hcomplete, fun hsubject => ⟨(decode_answer hin hstatus hsubject hrun).mp rfl, ?_⟩⟩
  intro hrefused
  have hreaches := decode_reaches hin hstatus hsubject
  rw [hrefused] at hreaches
  obtain ⟨e, d'', hrun'⟩ := hreaches
  rw [hrun] at hrun'
  cases hrun'

/-- For some memory behind it, it does, with a terminator in its subject only if there was one on
the wire. -/
theorem MayDecode.run {view : ByteStorage} (h : MayDecode view.rest) (hin : view.InRange)
    (hsize : view.rest.length < 2 ^ 26) (target : Message) :
    ∃ behind d', decode.run ⟨target, ⟨view, behind, []⟩⟩ = (.ok true, d') ∧
      (0 ∈ subjectOf ⟨view, behind, []⟩ → 0 ∈ wireSubject view.rest) := by
  obtain ⟨hcomplete, hparts⟩ := h
  have hstatus := frameStatus_of_complete hcomplete
  by_cases hover : Overruns view.rest
  · obtain ⟨behind, hruns⟩ := decode_overruns hstatus hover hsize
    obtain ⟨d', hrun, -, hends⟩ := hruns view target [] hin rfl
    exact ⟨behind, d', hrun, hends⟩
  · rw [Overruns, not_or, not_not, not_exists] at hover
    obtain ⟨hsubject, hnopast⟩ := hover
    obtain ⟨hfield, hrefused⟩ := hparts hsubject
    have hreaches := decode_reaches (d := ⟨target, ⟨view, [], []⟩⟩) hin hstatus hsubject
    dsimp only at hreaches
    cases hreach : messageReach view.rest with
    | within n =>
        rw [hreach] at hreaches
        obtain ⟨-, answer, d', hrun, -⟩ := hreaches
        obtain rfl : answer = true :=
          (decode_answer (d := ⟨target, ⟨view, [], []⟩⟩) hin hstatus hsubject hrun).mpr hfield
        refine ⟨[], d', hrun, fun hmem => ?_⟩
        rw [SubjectFits] at hsubject
        rwa [subjectOf, take_unread hin hsubject] at hmem
    | refused => exact absurd hreach hrefused
    | past excess pending => exact absurd ⟨pending, hreach⟩ (hnopast excess)

/-- A copy that has a terminator in it is read alike over every array. -/
theorem readFrom_copyFront {data : Bytes} (h : (0 : UInt8) ∈ data) (array : Bytes) :
    CString.readFrom (Message.copyFront array data) = .ok (.ofArray data) := by
  rw [Message.copyFront]
  exact CString.readFrom_append (by rw [CString.readFrom, if_pos h]) _

/-- What is declared and there is copied, with whatever is copied behind it. -/
theorem mem_subjectOf {s : Exposed} (hin : s.view.InRange) {b : UInt8}
    (h : b ∈ wireSubject s.view.rest) : b ∈ s.subjectOf := by
  rw [subjectOf, unread_eq hin, List.drop_append, List.take_append]
  exact List.mem_append_left _ h

theorem readFrom_subjectAfter {d d' : Decoding} (hin : d.source.view.InRange)
    (hrun : decode.run d = (.ok true, d')) (hends : TerminatesSubject d.source.view.rest) :
    ∃ subject, ∀ m : Message,
      CString.readFrom (subjectAfter m.clear.subject d.source) = .ok subject := by
  obtain hnone | hnul := hends
  · refine ⟨.ofArray [0], fun m => ?_⟩
    rw [(subjectAfter_of_ok hin hrun _).2.2, subjectOf, hnone, List.take_zero]
    exact readFrom_copyFront (show (0 : UInt8) ∈ [0] from List.mem_cons_self) m.subject
  · refine ⟨.ofArray d.source.subjectOf, fun m => ?_⟩
    rw [(subjectAfter_of_ok hin hrun _).2.2]
    exact readFrom_copyFront (mem_subjectOf hin hnul) m.clear.subject

theorem CarriesNothing.of_terminates {s : Exposed} (hin : s.view.InRange)
    (h : MayDecode s.view.rest → TerminatesSubject s.view.rest) : CarriesNothing s := by
  intro m m'
  rw [decode_clear hin m, decode_clear hin m']
  refine ⟨rfl, rfl, fun hok => ?_⟩
  have hrun : decode.run ⟨Message.new, s⟩ = (.ok true, _) := Prod.ext hok rfl
  obtain ⟨subject, hread⟩ := readFrom_subjectAfter (d := ⟨Message.new, s⟩) hin hrun
    (h (mayDecode_of_ok (d := ⟨Message.new, s⟩) hin hrun))
  exact ⟨rfl, ⟨subject, hread m, hread m'⟩, rfl, rfl, rfl⟩

/-- Two new messages will do: behind the copy nothing was ever written. -/
theorem not_carriesNothing {s : Exposed} (hin : s.view.InRange) {d' : Decoding}
    (hrun : decode.run ⟨Message.new, s⟩ = (.ok true, d')) (hsome : subjectLengthAt s.view.rest ≠ 0)
    (hends : 0 ∉ s.subjectOf) : ¬ CarriesNothing s := by
  intro h
  obtain ⟨-, -, hsame⟩ := h Message.new Message.new
  have hclear := decode_clear hin Message.new
  rw [hrun] at hclear
  obtain ⟨subject, hread, -⟩ := (hsame (congrArg Prod.fst hclear)).subject
  rw [hclear] at hread
  obtain ⟨-, hlength, hafter⟩ :=
    subjectAfter_of_ok (d := ⟨Message.new, s⟩) hin hrun Message.new.clear.subject
  change CString.readFrom (subjectAfter Message.new.clear.subject s) = .ok subject at hread
  have hall : Message.copyFront Message.new.clear.subject s.subjectOf = s.subjectOf := by
    rw [Message.copyFront, List.drop_of_length_le, List.append_nil]
    rw [hlength]
    exact Nat.one_le_iff_ne_zero.mpr hsome
  rw [hafter, hall, CString.readFrom, if_neg hends] at hread
  cases hread

/-- Whatever is in memory behind the buffer, a recycled message carries nothing over from what it
held before, as long as the message that is decoded into it, if any may be, has the end of its own
subject in the buffer. In less than 64 MiB only then. -/
theorem carriesNothing_iff {view : ByteStorage} (hin : view.InRange) :
    ((MayDecode view.rest → TerminatesSubject view.rest) →
        ∀ behind, CarriesNothing ⟨view, behind, []⟩) ∧
      (view.rest.length < 2 ^ 26 → (∀ behind, CarriesNothing ⟨view, behind, []⟩) →
        MayDecode view.rest → TerminatesSubject view.rest) := by
  refine ⟨fun h behind => .of_terminates hin h, fun hsize h hmay => ?_⟩
  by_contra hnot
  rw [TerminatesSubject, not_or] at hnot
  obtain ⟨behind, d', hrun, hends⟩ := hmay.run hin hsize Message.new
  exact not_carriesNothing hin hrun hnot.1 (fun hmem => hnot.2 (hends hmem)) (h behind)

theorem probe_carriesNothing : CarriesNothing ⟨.ofBytes probe.wire, [2, 0], []⟩ :=
  (carriesNothing_iff (Nat.zero_le _)).1 (by decide) [2, 0]

/-- The subject `X`, one byte and no terminator, and a number. -/
def unterminated : Exposed where
  view := .ofBytes [1, 21, 0, 0, 0, 0, 0, 0, 0, 255, 0, 0, 0, 0, 1, 0, 88, 2, 1, 0, 0, 0,
    4, 1, 1, 0, 0, 0, 118, 7]
  behind := []
  copies := []

/-- The same, and a time that is declared to have no bytes and is read from behind the buffer. -/
def unterminatedTime : Exposed where
  view := .ofBytes [1, 20, 0, 0, 0, 0, 0, 0, 0, 255, 0, 0, 0, 0, 1, 0, 88, 2, 1, 0, 0, 0,
    2, 1, 0, 0, 0, 0, 116]
  behind := List.replicate 16 0
  copies := []

/-- A message that was once about something. -/
def held (subject : String) : Message :=
  (MutableMessage.setSubject (.ofString subject) Message.new).1

/-- Both decode, into a message that was once about `hello` and into one that was about `world`,
and the subject is not the same. -/
theorem unterminated_carries :
    (∀ s ∈ [unterminated, unterminatedTime],
      (decode.run ⟨Message.new, s⟩).1 = .ok true ∧ ¬ CarriesNothing s) ∧
      (decode.run ⟨(held "hello").clear, unterminated⟩).2.msg.subjectString = .ofString "Xello" ∧
      (decode.run ⟨(held "world").clear, unterminated⟩).2.msg.subjectString =
        .ofString "Xorld" := by
  refine ⟨fun s hs => ?_, by decide +kernel, by decide +kernel⟩
  rw [List.mem_cons, List.mem_singleton] at hs
  obtain rfl | rfl := hs
  · have hrun : (decode.run ⟨Message.new, unterminated⟩).1 = .ok true := rfl
    exact ⟨hrun, not_carriesNothing (Nat.zero_le _) (Prod.ext hrun rfl) (by decide) (by decide)⟩
  · have hrun : (decode.run ⟨Message.new, unterminatedTime⟩).1 = .ok true := rfl
    exact ⟨hrun, not_carriesNothing (Nat.zero_le _) (Prod.ext hrun rfl) (by decide) (by decide)⟩

end Exposed

end Fastpath
