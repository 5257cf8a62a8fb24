import Fastpath.Proofs.Built
import Fastpath.Proofs.Capacity
import Fastpath.Proofs.Frame

/-!
# The codec round trip

An image decodes to a message that says the same. The two halves are in place:
the encoder leaves the image wherever its storage did not move, and the decoder
takes the image apart field by field. What is left is the addressing in front,
and one slot the claim that every message survives does not mention.

`field_count` is four bytes and `size()` is a `uint32_t`, so a body says how
many fields it has modulo `2 ^ 32`. A nested body cannot reach that number
without outgrowing its own four-byte length, but nothing bounds the outermost
one. `crowd` is a message with `2 ^ 32` fields: its image declares none, and the
decoder answers `false` in front of it.
-/

namespace Fastpath

open Fastpath.Lib

/-! ## Decoding the image of a message -/

theorem ByteStorage.inRange_of_rest {s : ByteStorage} {n : Nat} (hpos : 0 < n)
    (h : n ≤ s.rest.length) : s.read ≤ s.bytes.length := by
  rw [ByteStorage.length_rest] at h
  omega

/-- `decode` in front of an image, up to its field loop. -/
theorem decode_wire_addressing {m : Message} (hfits : m.wire.length < 2 ^ 64)
    (hsubject : m.subjectString.length < Message.maxSubjectLength) (target : Message)
    {b : ByteStorage} {t : Bytes} (h : b.rest = m.wire ++ t) :
    Message.decode.run ⟨target, b⟩ =
        (decodeBody (decodeFields b.rest.length)).run
          ⟨{ target with
              flags := m.flags
              subject := Message.copyFront target.subject m.subjectString.terminated },
            b.advanceRead (MsgAddressing.size + (m.subjectString.length + 1))⟩ ∧
      (b.advanceRead (MsgAddressing.size + (m.subjectString.length + 1))).rest = m.body ++ t := by
  have hin : b.read ≤ b.bytes.length := by
    apply ByteStorage.inRange_of_rest Nat.one_pos
    have := m.size_le_length_wire
    rw [MsgAddressing.size] at this
    rw [h, List.length_append]
    omega
  have hstatus : frameStatus b.rest = (.complete, m.wire.length) := by
    rw [h, Message.frameStatus_wire hfits]
  have haddr := addressingDetails_complete hin hstatus
  rw [h, Message.subjectLengthAt_wire hsubject, Message.flagsAt_wire] at haddr
  have hbehind : b.rest.drop MsgAddressing.size = m.subjectString.terminated ++ (m.body ++ t) := by
    rw [h, Message.drop_size_wire]
  have hcopy := ByteStorage.copyFrom_append hbehind
    (MsgAddressing.size + (m.subjectString.length + 1))
  rw [CString.length_terminated] at hcopy
  refine ⟨?_, ?_⟩
  · rw [Message.decode, Exec.bind_ok (Exec.get_run _),
      Exec.bind_ok (DecodeState.onBuffer_ok haddr)]
    dsimp only
    rw [Exec.bind_ok (Exec.modify_run _ _), Exec.bind_ok (DecodeState.onBuffer_ok hcopy),
      Exec.bind_ok (Exec.modify_run _ _)]
  · rw [ByteStorage.rest_advanceRead, ← List.drop_drop, hbehind, ← CString.length_terminated,
      List.drop_left]

theorem fieldsWire_ne_nil {fields : List Field} (h : fields ≠ []) : fieldsWire fields ≠ [] := by
  intro hnil
  have hlen := length_le_fieldsWire fields
  rw [hnil] at hlen
  exact h (List.eq_nil_of_length_eq_zero (Nat.le_zero.mp hlen))

theorem decode_wire {m : Message} (hm : m.Sendable) (hcount : m.payload.length < 2 ^ 32)
    (target : Message) {b : ByteStorage} {t : Bytes} (h : b.rest = m.wire ++ t) :
    Message.decode.run ⟨target, b⟩ =
      (.ok true, ⟨target.receivedInto m, b.advanceRead m.wire.length⟩) := by
  obtain ⟨hrun, hrest⟩ :=
    decode_wire_addressing hm.fits hm.built.subject_lt target h
  have hfields := List.append_ne_nil_of_left_ne_nil (fieldsWire_ne_nil hm.nonempty) t
  generalize hb' : b.advanceRead (MsgAddressing.size + (m.subjectString.length + 1))
    = b' at hrun hrest
  have hpayload : (b'.advanceRead MsgHeader.size).rest = fieldsWire m.payload ++ t := by
    rw [ByteStorage.rest_advanceRead, hrest, Message.body, bodyWire, List.append_assoc,
      List.drop_left' (by simp [MsgHeader.size])]
  have hcover : (b'.advanceRead MsgHeader.size).rest.length ≤ b.rest.length := by
    rw [← hb', ByteStorage.rest_advanceRead, ByteStorage.rest_advanceRead, List.drop_drop,
      List.length_drop]
    omega
  have hloop := decodesPayload m.payload hm.built.formed hm.bounded b.rest.length
    ⟨{ target with
        flags := m.flags
        subject := Message.copyFront target.subject m.subjectString.terminated },
      b'.advanceRead MsgHeader.size⟩ t hpayload hcover
  have hdecode := decodeBody_wire (s := ⟨{ target with
        flags := m.flags
        subject := Message.copyFront target.subject m.subjectString.terminated }, b'⟩)
    hrest hcount hfields hloop
  have hpos : 0 < m.payload.length := List.length_pos_iff.mpr hm.nonempty
  have htotal := m.length_wire
  have hbehind := m.length_afterLength
  rw [hrun, hdecode, decide_eq_true hpos, ← hb', Message.receivedInto]
  simp only [ByteStorage.advanceRead_advanceRead]
  rw [Message.body, length_bodyWire] at hbehind
  rw [MsgAddressing.msgLengthOffset] at htotal
  rw [show MsgAddressing.size + (m.subjectString.length + 1) + MsgHeader.size +
    (fieldsWire m.payload).length = m.wire.length by rw [MsgAddressing.size]; omega]

/-- A body whose fields are a multiple of `2 ^ 32` declares none, and `decode`
stops in front of them. -/
theorem decode_wire_uncounted {m : Message} (hfits : m.wire.length < 2 ^ 64)
    (hsubject : m.subjectString.length < Message.maxSubjectLength) (hnonempty : m.payload ≠ [])
    (hcount : m.payload.length % 2 ^ 32 = 0) (target : Message) {b : ByteStorage} {t : Bytes}
    (h : b.rest = m.wire ++ t) :
    ∃ out n, Message.decode.run ⟨target, b⟩ = (.ok false, ⟨out, b.advanceRead n⟩) := by
  obtain ⟨hrun, hrest⟩ := decode_wire_addressing hfits hsubject target h
  rw [Message.body, bodyWire, ← leBytes_mod_four, hcount] at hrest
  have hloop : ∀ fuel (s : DecodeState), (decodeFields fuel 0).run s = (.ok (), s) := by
    intro fuel s
    cases fuel <;> rfl
  have hdecode := fun target : Message =>
    decodeBody_wire (s := ⟨target, b.advanceRead (MsgAddressing.size +
      (m.subjectString.length + 1))⟩) hrest (by decide)
      (List.append_ne_nil_of_left_ne_nil (fieldsWire_ne_nil hnonempty) t) (hloop b.rest.length _)
  rw [hrun, hdecode, ByteStorage.advanceRead_advanceRead]
  exact ⟨_, _, rfl⟩

/-! ## What was received says what was sent -/

theorem Message.pushDecoded_payload (m : Message) (field : Field) :
    (m.pushDecoded field).payload = m.payload ++ [field] := by
  rw [Message.pushDecoded, Message.insertKey]
  split <;> rfl

theorem Message.pushDecoded_head (m : Message) (field : Field) :
    (m.pushDecoded field).flags = m.flags ∧ (m.pushDecoded field).subject = m.subject := by
  rw [Message.pushDecoded, Message.insertKey]
  split <;> exact ⟨rfl, rfl⟩

theorem foldl_pushDecoded (fields : List Field) (m : Message) :
    (fields.foldl Message.pushDecoded m).payload = m.payload ++ fields ∧
      (fields.foldl Message.pushDecoded m).flags = m.flags ∧
      (fields.foldl Message.pushDecoded m).subject = m.subject := by
  induction fields generalizing m with
  | nil => exact ⟨(List.append_nil _).symm, rfl, rfl⟩
  | cons field rest ih =>
      obtain ⟨hpayload, hflags, hsubject⟩ := ih (m.pushDecoded field)
      obtain ⟨hf, hs⟩ := m.pushDecoded_head field
      rw [List.foldl_cons, hpayload, hflags, hsubject, m.pushDecoded_payload field, hf, hs,
        List.append_assoc]
      exact ⟨rfl, rfl, rfl⟩

theorem createData_content (identifier : CString) (type : StorageType) (value : Bytes) :
    (Field.createData identifier type value).content = .value identifier.bytes type value := by
  rw [Field.createData]
  split <;> rfl

mutual

theorem Field.content_received : ∀ field : Field, field.received.content = field.content
  | .scalar _ _ _ => rfl
  | .dateTime _ _ _ _ => rfl
  | .smallData identifier type value => createData_content identifier type value
  | .largeData identifier type value => createData_content identifier type value
  | .message identifier ⟨_, _, payload, _⟩ => by
      have hpayload := (foldl_pushDecoded (receivedAll payload) Message.new).1
      have hcontents := contents_receivedAll payload
      rw [Field.received, Field.content]
      generalize (receivedAll payload).foldl Message.pushDecoded Message.new = sub at hpayload ⊢
      obtain ⟨_, _, received, _⟩ := sub
      rw [Field.content, show received = receivedAll payload from hpayload, hcontents]
termination_by structural field => field

theorem contents_receivedAll : ∀ fields : List Field,
    contents (receivedAll fields) = contents fields
  | [] => rfl
  | field :: rest => by
      rw [receivedAll, contents, contents, Field.content_received field, contents_receivedAll rest]
termination_by structural fields => fields

end

theorem Message.agree_receivedInto {target : Message} (m : Message)
    (htarget : target.payload = []) :
    m.Agree (target.receivedInto m) := by
  obtain ⟨hpayload, hflags, hsubject⟩ := foldl_pushDecoded (receivedAll m.payload)
    { target with
      flags := m.flags
      subject := Message.copyFront target.subject m.subjectString.terminated }
  refine ⟨?_, ?_, ?_⟩
  · rw [Message.receivedInto, hflags]
  · rw [Message.receivedInto, Message.subjectString, hsubject]
    simp only [Message.copyFront, CString.terminated, List.append_assoc, List.singleton_append]
    rw [CString.ofArray_append_nul]
  · rw [Message.receivedInto, hpayload]
    dsimp only
    rw [htarget, List.nil_append, contents_receivedAll]

/-! ## The round trip -/

/-- Encoding `m` into `dst` appends as many bytes as it says, and whatever
follows them, decoding those bytes into a cleared message succeeds, moves the
cursor over exactly them and gives a message that says the same. -/
def Message.RoundTrips (m : Message) (dst : MutableByteStorage) : Prop :=
  ∃ image : Bytes,
    (m.encode dst).2.stored = dst.stored ++ image ∧ image.length = (m.encode dst).1 ∧
      ∀ (suffix : Bytes) (target : Message) (b : ByteStorage), b.rest = image ++ suffix →
        ∃ out, Message.decode.run ⟨target.clear, b⟩ =
            (.ok true, ⟨out, b.advanceRead (m.encode dst).1⟩) ∧ m.Agree out

theorem Message.encode_of_room {m : Message} {dst : MutableByteStorage}
    (hroom : (m.encode dst).1 ≤ dst.spare.length) :
    (m.encode dst).1 = m.wire.length ∧ (m.encode dst).2.stored = dst.stored ++ m.wire := by
  obtain ⟨hlen, hwrites⟩ := m.encode_encodes dst
  rw [hlen] at hroom
  refine ⟨hlen, (hwrites.stays ?_).2.2⟩
  rw [MutableByteStorage.capacity]
  omega

theorem Message.encoded_eq (m : Message) : m.encoded = m.wire := by
  rw [Message.encoded]
  generalize hdst : MutableByteStorage.new _ _ = dst
  have hroom : (m.encode dst).1 ≤ dst.spare.length := by
    rw [(m.encode_encodes dst).1, ← hdst, MutableByteStorage.new, List.length_map,
      List.length_range, (m.encode_encodes _).1]
    exact le_allocateStorage _
  rw [(Message.encode_of_room hroom).2, ← hdst]
  rfl

/-- Every message of fewer than `2 ^ 32` fields survives the codec. -/
theorem encode_decode_roundTrips {m : Message} {dst : MutableByteStorage} (hbuilt : Built m)
    (hnonempty : m.payload ≠ []) (hbounded : FieldsBounded m.payload)
    (hcount : m.payload.length < 2 ^ 32) (hsize : dst.capacity < 2 ^ 64)
    (hroom : (m.encode dst).1 ≤ dst.spare.length) : m.RoundTrips dst := by
  obtain ⟨hlen, hstored⟩ := Message.encode_of_room hroom
  have hfits : m.wire.length < 2 ^ 64 := by
    rw [hlen] at hroom
    rw [MutableByteStorage.capacity] at hsize
    omega
  refine ⟨m.wire, hstored, hlen.symm, ?_⟩
  intro suffix target b hb
  refine ⟨target.clear.receivedInto m, ?_, Message.agree_receivedInto m rfl⟩
  rw [hlen]
  exact decode_wire ⟨hbuilt, hnonempty, hbounded, hfits⟩ hcount target.clear hb

theorem probe_roundTrips : probe.RoundTrips (MutableByteStorage.new 64 fun _ _ => 0) :=
  encode_decode_roundTrips probe_built (by decide) ⟨trivial, trivial⟩ (by decide) (by decide)
    (by decide)

/-! ## A message too wide to travel -/

/-- The last `width` digits of `i` to the base 255, none of them a zero byte. -/
def digits : Nat → Nat → Bytes
  | 0, _ => []
  | width + 1, i => UInt8.ofNat (i % 255 + 1) :: digits width (i / 255)

theorem digits_length (width i : Nat) : (digits width i).length = width := by
  induction width generalizing i with
  | zero => rfl
  | succ width ih => rw [digits, List.length_cons, ih]

theorem digits_noNul (width i : Nat) : (0 : UInt8) ∉ digits width i := by
  induction width generalizing i with
  | zero => exact List.not_mem_nil
  | succ width ih =>
      rw [digits, List.mem_cons, not_or]
      refine ⟨fun h => ?_, ih (i / 255)⟩
      have hnat : 0 = (i % 255 + 1) % 2 ^ 8 := congrArg UInt8.toNat h
      omega

theorem digits_inj {width i j : Nat} (hi : i < 255 ^ width) (hj : j < 255 ^ width)
    (h : digits width i = digits width j) : i = j := by
  induction width generalizing i j with
  | zero =>
      rw [pow_zero] at hi hj
      omega
  | succ width ih =>
      rw [pow_succ] at hi hj
      obtain ⟨hhead, htail⟩ := List.cons.inj h
      have hnat := congrArg UInt8.toNat hhead
      rw [UInt8.toNat_ofNat', UInt8.toNat_ofNat'] at hnat
      have hquot : i / 255 = j / 255 :=
        ih (Nat.div_lt_of_lt_mul (by omega)) (Nat.div_lt_of_lt_mul (by omega)) htail
      omega

/-- An identifier of five bytes for each of the first `255 ^ 5` numbers. -/
def numbered (i : Nat) : CString := ⟨digits 5 i, digits_noNul 5 i⟩

/-- One flag each under the first `n` numbered identifiers. -/
def crowdOf : Nat → Message
  | 0 => (MutableMessage.setSubject (.ofString "A") Message.new).1
  | n + 1 => ((MutableMessage.addScalarField (numbered n) (.boolean true)).run (crowdOf n)).2

def crowdField (i : Nat) : Field := .scalar (numbered i) .boolean [1]

theorem Message.find_eq_none {m : Message} {identifier : CString}
    (h : ∀ key ∈ m.keys, key.1 ≠ identifier) : m.find identifier = none := by
  rw [Message.find, List.find?_eq_none.mpr]
  · rfl
  · intro key hkey
    exact (decide_eq_false (h key hkey)).symm ▸ Bool.false_ne_true

/-- Adding under a new identifier that fits keeps the field. -/
theorem MutableMessage.add_new {e : Field} {m : Message}
    (hid : e.identifier.length < Field.identifierSize) (hnew : m.find e.identifier = none) :
    (MutableMessage.add e).run m =
      (.ok true, { m with
        payload := m.payload ++ [e]
        keys := m.keys ++ [(e.identifier, m.payload.length)] }) := by
  have hcopy : (Field.copyIdentifier e.identifier : Exec Fault Message Unit).run m =
      (.ok (), m) := by
    rw [Field.copyIdentifier, if_pos hid, Exec.pure_run]
  rw [MutableMessage.add, Exec.bind_ok hcopy]
  simp only [MutableMessage.addField, Message.insertKey, hnew]

theorem crowdOf_built {n : Nat} (h : n ≤ 255 ^ 5) :
    Built (crowdOf n) ∧ (crowdOf n).payload = (List.range n).map crowdField ∧
      (∀ key ∈ (crowdOf n).keys, ∃ i < n, key.1 = numbered i) := by
  induction n with
  | zero => exact ⟨.setSubject _ .new, rfl, fun _ hkey => absurd hkey List.not_mem_nil⟩
  | succ n ih =>
      obtain ⟨hbuilt, hpayload, hkeys⟩ := ih (by omega)
      have hnew : (crowdOf n).find (numbered n) = none := by
        apply Message.find_eq_none
        intro key hkey heq
        obtain ⟨i, hi, hnum⟩ := hkeys key hkey
        have hsame : numbered i = numbered n := hnum.symm.trans heq
        have := digits_inj (by omega) (by omega) (congrArg CString.bytes hsame)
        omega
      have hid : (crowdField n).identifier.length < Field.identifierSize := by
        show (digits 5 n).length < 256
        rw [digits_length]
        decide
      have hadd : (MutableMessage.addScalarField (numbered n) (.boolean true)).run (crowdOf n) =
          _ := MutableMessage.add_new (e := crowdField n) hid hnew
      refine ⟨?_, ?_, ?_⟩
      · rw [crowdOf, hadd]
        exact .addScalarField hbuilt hadd
      · rw [crowdOf, hadd, List.range_succ, List.map_append]
        dsimp only
        rw [hpayload]
        rfl
      · intro key hkey
        rw [crowdOf, hadd] at hkey
        rcases List.mem_append.mp hkey with hold | hlast
        · obtain ⟨i, hi, hnum⟩ := hkeys key hold
          exact ⟨i, by omega, hnum⟩
        · rw [List.mem_singleton.mp hlast]
          exact ⟨n, by omega, rfl⟩

theorem crowdFields_bounded (l : List Nat) : FieldsBounded (l.map crowdField) := by
  induction l with
  | nil => trivial
  | cons i l ih => exact ⟨trivial, ih⟩

theorem length_crowdFields (l : List Nat) :
    (fieldsWire (l.map crowdField)).length = 12 * l.length := by
  induction l with
  | nil => rfl
  | cons i l ih =>
      have hid : (numbered i).length = 5 := digits_length 5 i
      rw [List.map_cons, fieldsWire, List.length_append, ih, crowdField, Field.wire,
        length_fieldWire, hid, MsgField.size]
      simp only [List.length_cons, List.length_nil]
      omega

theorem crowdOf_spec {n : Nat} (h : n ≤ 255 ^ 5) :
    Built (crowdOf n) ∧ FieldsBounded (crowdOf n).payload ∧ (crowdOf n).payload.length = n ∧
      (crowdOf n).wire.length < 2 ^ 17 + 12 * n := by
  obtain ⟨hbuilt, hpayload, -⟩ := crowdOf_built h
  have hsubject := hbuilt.subject_lt
  rw [Message.maxSubjectLength] at hsubject
  refine ⟨hbuilt, ?_, ?_, ?_⟩
  · rw [hpayload]
    exact crowdFields_bounded _
  · rw [hpayload, List.length_map, List.length_range]
  · rw [Message.length_wire, Message.length_afterLength, Message.body, length_bodyWire, hpayload,
      length_crowdFields, List.length_range, MsgAddressing.msgLengthOffset, MsgHeader.size]
    omega

-- from here on only its specification is used: it is not to be evaluated
attribute [irreducible] crowdOf

def crowd : Message := crowdOf (2 ^ 32)

theorem crowd_spec :
    Built crowd ∧ FieldsBounded crowd.payload ∧ crowd.payload.length = 2 ^ 32 ∧
      crowd.wire.length < 2 ^ 64 := by
  obtain ⟨hbuilt, hbounded, hlen, hwire⟩ := crowdOf_spec (n := 2 ^ 32) (by norm_num)
  exact ⟨hbuilt, hbounded, hlen, hwire.trans (by norm_num)⟩

theorem crowd_payload_ne_nil : crowd.payload ≠ [] := by
  intro hnil
  have hlen := crowd_spec.2.2.1
  rw [hnil, List.length_nil] at hlen
  omega

/-- `crowd` meets every condition on a message and its destination, and the decoder
refuses its image. -/
theorem crowd_not_roundTrips :
    let dst := Message.filledStorage [] crowd.wire.length 0
    Built crowd ∧ crowd.payload ≠ [] ∧ FieldsBounded crowd.payload ∧ dst.capacity < 2 ^ 64 ∧
      (crowd.encode dst).1 ≤ dst.spare.length ∧ ¬ crowd.RoundTrips dst := by
  intro dst
  obtain ⟨hbuilt, hbounded, hlen, hfits⟩ := crowd_spec
  have hne := crowd_payload_ne_nil
  have hspare : dst.spare.length = crowd.wire.length := List.length_replicate
  have hroom : (crowd.encode dst).1 ≤ dst.spare.length := by
    rw [(crowd.encode_encodes dst).1, hspare]
  refine ⟨hbuilt, hne, hbounded, ?_, hroom, ?_⟩
  · rw [Message.filledStorage_capacity, List.length_nil, Nat.zero_add]
    exact hfits
  · intro h
    obtain ⟨image, hstored, -, hdecode⟩ := h
    rw [(Message.encode_of_room hroom).2] at hstored
    have himage : crowd.wire = image := List.append_cancel_left hstored
    obtain ⟨out, hout, -⟩ := hdecode [] Message.new (.ofBytes (image ++ [])) rfl
    obtain ⟨s, n, hfalse⟩ := decode_wire_uncounted hfits hbuilt.subject_lt hne
      (by rw [hlen, Nat.mod_self]) Message.new.clear (b := .ofBytes (image ++ [])) (t := [])
      (by rw [himage]; rfl)
    rw [hout] at hfalse
    cases (Prod.mk.inj hfalse).1

end Fastpath
