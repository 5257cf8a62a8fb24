import Fastpath.Proofs.Codec

/-!
# What follows an encoding

`decode` looks for a body only where more than the five bytes of its header are
left. In mid-stream that is always so; at the very end of a buffer it is not so
for an empty body, which is then left unread, at whatever depth it stands: the
bodies around it end where it ends.

So an image decodes on its own as it does in front of more bytes in everything
but the cursor, and in the cursor too unless its last body is empty. The one
other thing that can keep the cursor off the end is a field count that does not
fit its slot.
-/

namespace Fastpath

open Fastpath.Lib

/-- Decoding `e` is the same on its own and in front of any suffix, and takes `e` off the
buffer both times. -/
def Independent (e : Bytes) : Prop :=
  ∀ (suffix : Bytes) (target : Message) (alone followed : ByteStorage),
    alone.rest = e → followed.rest = e ++ suffix →
    ∃ answer out,
      Message.decode.run ⟨target, alone⟩ = (answer, ⟨out, alone.advanceRead e.length⟩) ∧
      Message.decode.run ⟨target, followed⟩ = (answer, ⟨out, followed.advanceRead e.length⟩)

/-! ## The fields that are counted -/

namespace Message

/-- As many fields as the four bytes of `field_count` say. -/
def counted (m : Message) : List Field := m.payload.take (m.payload.length % 2 ^ 32)

def uncounted (m : Message) : List Field := m.payload.drop (m.payload.length % 2 ^ 32)

theorem counted_append (m : Message) : m.counted ++ m.uncounted = m.payload :=
  List.take_append_drop _ _

theorem length_counted (m : Message) : m.counted.length = m.payload.length % 2 ^ 32 := by
  rw [counted, List.length_take]
  exact Nat.min_eq_left (Nat.mod_le _ _)

theorem uncounted_eq_nil {m : Message} (h : m.payload.length < 2 ^ 32) : m.uncounted = [] := by
  rw [uncounted, Nat.mod_eq_of_lt h, List.drop_length]

theorem uncounted_ne_nil {m : Message} (h : 2 ^ 32 ≤ m.payload.length) : m.uncounted ≠ [] := by
  intro hnil
  have hlen := congrArg List.length m.counted_append
  have hmod := Nat.mod_lt m.payload.length (Nat.two_pow_pos 32)
  rw [hnil, List.append_nil, length_counted] at hlen
  omega

end Message

theorem fieldsWire_append (fields more : List Field) :
    fieldsWire (fields ++ more) = fieldsWire fields ++ fieldsWire more := by
  induction fields with
  | nil => rfl
  | cons field rest ih => rw [List.cons_append, fieldsWire, fieldsWire, ih, List.append_assoc]

theorem FieldsFormed.left {fields more : List Field} (h : FieldsFormed (fields ++ more)) :
    FieldsFormed fields := by
  induction fields with
  | nil => trivial
  | cons field rest ih => exact ⟨h.1, ih h.2⟩

theorem FieldsMeasured.left {fields more : List Field} (h : FieldsMeasured (fields ++ more)) :
    FieldsMeasured fields := by
  induction fields with
  | nil => trivial
  | cons field rest ih => exact ⟨h.1, ih h.2⟩

theorem Message.body_counted (m : Message) :
    m.body = bodyWire m.counted.length (fieldsWire m.counted) ++ fieldsWire m.uncounted := by
  rw [Message.body, bodyWire, bodyWire, m.length_counted, leBytes_mod_four]
  simp only [List.append_assoc]
  rw [← fieldsWire_append, m.counted_append]

/-! ## Where the cursor stops -/

theorem unread_append_le (t suffix : Bytes) (endsEmpty : Bool) :
    unread (t ++ suffix) endsEmpty ≤ unread t endsEmpty := by
  cases t with
  | nil =>
      cases endsEmpty with
      | false => rw [unread_false]; exact Nat.zero_le _
      | true => exact unread_le _ _
  | cons b t => rw [unread_of_ne_nil (by simp)]; exact Nat.zero_le _

theorem decode_wire_leaves {m : Message} (hfits : m.wire.length < 2 ^ 64)
    (hsubject : m.subjectString.length < Message.maxSubjectLength)
    (hformed : FieldsFormed m.payload) (hmeasured : FieldsMeasured m.payload)
    (target : Message) {b : ByteStorage} {t : Bytes} (h : b.rest = m.wire ++ t) :
    Message.decode.run ⟨target, b⟩ =
      (.ok (decide (0 < m.counted.length)),
        ⟨target.receivedInto { m with payload := m.counted },
          b.advanceRead (m.wire.length - ((fieldsWire m.uncounted).length +
            unread (fieldsWire m.uncounted ++ t)
              (m.counted.isEmpty || fieldsEndEmpty m.counted)))⟩) := by
  obtain ⟨hrun, hrest⟩ := decode_wire_addressing hfits hsubject target h
  rw [m.body_counted, List.append_assoc] at hrest
  have hsplit := m.counted_append
  rw [← hsplit] at hformed hmeasured
  have hpayload := leavesPayload m.counted hformed.left hmeasured.left
  have hcount : m.counted.length < 2 ^ 32 := by
    rw [m.length_counted]
    exact Nat.mod_lt _ (Nat.two_pow_pos 32)
  generalize hb' : b.advanceRead (MsgAddressing.size + (m.subjectString.length + 1)) = b'
    at hrun hrest
  have hcover : b'.rest.length ≤ b.rest.length + MsgHeader.size := by
    rw [← hb', ByteStorage.rest_advanceRead, List.length_drop]
    omega
  have hdecode := decodeBody_leaves hpayload hcount (s := ⟨{ target with
        flags := m.flags
        subject := Message.copyFront target.subject m.subjectString.terminated }, b'⟩)
    hrest hcover
  have htotal := m.length_wire
  have hbehind := m.length_afterLength
  have hbody := congrArg List.length m.body_counted
  have hleft := unread_le (fieldsWire m.uncounted ++ t)
    (m.counted.isEmpty || fieldsEndEmpty m.counted)
  generalize unread (fieldsWire m.uncounted ++ t)
    (m.counted.isEmpty || fieldsEndEmpty m.counted) = left at hdecode hleft
  rw [List.length_append, length_bodyWire] at hbody
  rw [MsgAddressing.msgLengthOffset] at htotal
  rw [hrun, hdecode, ← hb', ByteStorage.advanceRead_advanceRead, length_bodyWire,
    MsgAddressing.size]
  rw [show 16 + (m.subjectString.length + 1) +
    (MsgHeader.size + (fieldsWire m.counted).length - left) =
      m.wire.length - ((fieldsWire m.uncounted).length + left) by omega]
  rfl

/-- The image is all read, on its own, if all its fields are counted and its last body is
not empty. -/
theorem leaves_nothing {m : Message} :
    (fieldsWire m.uncounted).length +
        unread (fieldsWire m.uncounted) (m.counted.isEmpty || fieldsEndEmpty m.counted) = 0 ↔
      m.payload.length < 2 ^ 32 ∧ m.endsEmpty = false := by
  by_cases hcount : m.payload.length < 2 ^ 32
  · have hall : m.counted = m.payload := by
      have hsplit := m.counted_append
      rwa [Message.uncounted_eq_nil hcount, List.append_nil] at hsplit
    rw [Message.uncounted_eq_nil hcount, hall, fieldsWire, and_iff_right hcount]
    change 0 + unread [] m.endsEmpty = 0 ↔ m.endsEmpty = false
    cases m.endsEmpty <;> decide
  · have hpos := List.length_pos_iff.mpr
      (fieldsWire_ne_nil (Message.uncounted_ne_nil (Nat.le_of_not_lt hcount)))
    constructor
    · intro hnone
      omega
    · intro hall
      exact absurd hall.1 hcount

theorem Message.wire_independent_iff {m : Message} (hfits : m.wire.length < 2 ^ 64)
    (hsubject : m.subjectString.length < Message.maxSubjectLength)
    (hformed : FieldsFormed m.payload) (hmeasured : FieldsMeasured m.payload) :
    Independent m.wire ↔ m.payload.length < 2 ^ 32 ∧ m.endsEmpty = false := by
  have hdecode (target : Message) {b : ByteStorage} {t : Bytes} (h : b.rest = m.wire ++ t) :=
    decode_wire_leaves hfits hsubject hformed hmeasured target h
  rw [← leaves_nothing]
  constructor
  · intro hindep
    obtain ⟨answer, out, halone, -⟩ := hindep [] Message.new (.ofBytes m.wire) (.ofBytes m.wire)
      rfl (List.append_nil _).symm
    rw [hdecode Message.new (b := .ofBytes m.wire) (List.append_nil _).symm, List.append_nil]
      at halone
    have hread := congrArg (fun r => r.2.buffer.read) halone
    change 0 + (m.wire.length - _) = 0 + m.wire.length at hread
    have hsize := m.size_le_length_wire
    rw [MsgAddressing.size] at hsize
    omega
  · intro hnone suffix target alone followed halone hfollowed
    refine ⟨.ok (decide (0 < m.counted.length)),
      target.receivedInto { m with payload := m.counted }, ?_, ?_⟩
    · rw [hdecode target (t := []) (by rw [halone, List.append_nil]), List.append_nil, hnone,
        Nat.sub_zero]
    · have hfewer := unread_append_le (fieldsWire m.uncounted) suffix
        (m.counted.isEmpty || fieldsEndEmpty m.counted)
      rw [hdecode target hfollowed]
      rw [show (fieldsWire m.uncounted).length + unread (fieldsWire m.uncounted ++ suffix)
        (m.counted.isEmpty || fieldsEndEmpty m.counted) = 0 by omega, Nat.sub_zero]

/-- The encoding of a message whose lengths fit their slots is decoded alike whatever
follows it, unless a field is not counted or the last body is empty. -/
theorem encode_independent_iff {m : Message} {dst : MutableByteStorage}
    (hsubject : m.subjectString.length < Message.maxSubjectLength)
    (hformed : FieldsFormed m.payload) (hmeasured : FieldsMeasured m.payload)
    (hsize : dst.capacity < 2 ^ 64) (hstays : (m.encode dst).2.block = dst.block) :
    ∃ e, (m.encode dst).2.stored = dst.stored ++ e ∧
      (Independent e ↔ m.payload.length < 2 ^ 32 ∧ m.endsEmpty = false) := by
  obtain ⟨-, hwrites⟩ := m.encode_encodes dst
  have hroom : dst.stored.length + m.wire.length ≤ dst.capacity := by
    by_contra hmoves
    have := hwrites.moves (Nat.lt_of_not_le hmoves)
    omega
  exact ⟨m.wire, (hwrites.stays hroom).2.2,
    Message.wire_independent_iff (by omega) hsubject hformed hmeasured⟩

theorem probe_independent :
    ∃ e, (probe.encode (MutableByteStorage.new 64 fun _ _ => 0)).2.stored = [] ++ e ∧
      (Independent e ↔ probe.payload.length < 2 ^ 32 ∧ probe.endsEmpty = false) :=
  encode_independent_iff probe_built.subject_lt probe_built.formed ⟨trivial, trivial⟩ (by decide)
    (by decide)

/-- A message on the subject `A` whose one field is a message without fields. -/
def hollow : Message :=
  ((MutableMessage.addMessageField (.ofString "v") Message.new).run
    (MutableMessage.setSubject (.ofString "A") Message.new).1).2

theorem hollow_built : Built hollow := by
  have hadd : (MutableMessage.addMessageField (.ofString "v") Message.new).run
      (MutableMessage.setSubject (.ofString "A") Message.new).1 = (.ok true, hollow) := rfl
  exact .addMessageField (.setSubject _ .new) .new hadd

/-- On its own, `decode` leaves the empty body at the end of `hollow` in the buffer; with one
byte behind it, it does not. -/
theorem hollow_not_independent :
    let dst := MutableByteStorage.new 64 fun _ _ => 0
    let e := hollow.wire
    Built hollow ∧ (hollow.encode dst).2.block = dst.block ∧
      (hollow.encode dst).2.stored = dst.stored ++ e ∧
      (Message.decode.run ⟨Message.new, .ofBytes e⟩).2.buffer.read + MsgHeader.size = e.length ∧
      (Message.decode.run ⟨Message.new, .ofBytes (e ++ [0])⟩).2.buffer.read = e.length ∧
      ¬ Independent e := by
  intro dst e
  have hshort : (Message.decode.run ⟨Message.new, .ofBytes e⟩).2.buffer.read + MsgHeader.size =
      e.length := by decide
  refine ⟨hollow_built, by decide, by decide, hshort, by decide, ?_⟩
  intro hindep
  obtain ⟨answer, out, halone, -⟩ := hindep [] Message.new (.ofBytes e) (.ofBytes e) rfl
    (List.append_nil e).symm
  rw [halone] at hshort
  change 0 + e.length + 5 = e.length at hshort
  omega

end Fastpath
