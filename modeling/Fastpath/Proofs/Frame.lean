import Fastpath.Proofs.Cursor
import Fastpath.Proofs.Encode

/-!
# The head of a buffer

Both ends of the protocol decide what to do next by looking at the first
sixteen unread bytes. `frameStatus` is that look as a function of the unread
bytes alone, and with it the two cursor functions become equations:
`have_complete_message` answers `frameStatus` and moves nothing, and
`addressing_details` steps over the addressing and the subject when the
message is all there.

In front of an image the status is complete and the length is the image's; in
front of any proper prefix of an image it is incomplete. That is everything the
receive loops need to know about framing.
-/

namespace Fastpath

open Fastpath.Lib

/-- `have_complete_message` on the unread bytes. -/
def frameStatus (r : Bytes) : DecodeStatus × Nat :=
  if MsgAddressing.size ≤ r.length then
    if leNat (r.take 1) ≠ addressingFlag then (.corrupt, 0)
    else
      let msgLength := (leNat ((r.drop 1).take 8) + MsgAddressing.msgLengthOffset) % 2 ^ 64
      if msgLength ≤ r.length then (.complete, msgLength) else (.incomplete, msgLength)
  else (.incomplete, 0)

def flagsAt (r : Bytes) : UInt8 := UInt8.ofNat (leNat ((r.drop 9).take 1))

def subjectLengthAt (r : Bytes) : Nat := leNat ((r.drop 14).take 2)

theorem haveCompleteMessage_run {s : ByteStorage} (hin : s.read ≤ s.bytes.length) :
    haveCompleteMessage.run s = (.ok (frameStatus s.rest), s) := by
  rw [haveCompleteMessage, Exec.bind_ok (Exec.get_run s), ByteStorage.remaining_eq hin,
    frameStatus]
  by_cases hsize : MsgAddressing.size ≤ s.rest.length
  · rw [if_pos hsize, if_pos hsize]
    rw [MsgAddressing.size] at hsize
    rw [Exec.bind_ok (ByteStorage.peekScalar_ok (by omega)), List.drop_zero]
    by_cases hchk : leNat (s.rest.take 1) ≠ addressingFlag
    · rw [if_pos hchk, if_pos hchk, Exec.pure_run]
    · rw [if_neg hchk, if_neg hchk, Exec.bind_ok (ByteStorage.peekScalar_ok (by omega))]
      dsimp only
      split
      · rw [Exec.pure_run]
      · rw [Exec.pure_run]
  · rw [if_neg hsize, if_neg hsize, Exec.pure_run]

theorem frameStatus_of_complete {r : Bytes} (h : (frameStatus r).1 = .complete) :
    frameStatus r = (.complete, (frameStatus r).2) := Prod.ext h rfl

theorem size_le_of_complete {r : Bytes} {n : Nat} (h : frameStatus r = (.complete, n)) :
    MsgAddressing.size ≤ r.length ∧ n ≤ r.length := by
  rw [frameStatus] at h
  split at h
  · next hsize =>
      split at h
      · cases h
      · dsimp only at h
        split at h
        · next hle =>
            cases h
            exact ⟨hsize, hle⟩
        · cases h
  · cases h

theorem addressingDetails_complete {s : ByteStorage} {n : Nat} (hin : s.read ≤ s.bytes.length)
    (h : frameStatus s.rest = (.complete, n)) :
    addressingDetails.run s =
      (.ok (.complete, some ⟨s.read + MsgAddressing.size, subjectLengthAt s.rest,
          flagsAt s.rest, n⟩),
        s.advanceRead (MsgAddressing.size + subjectLengthAt s.rest)) := by
  have hsize := (size_le_of_complete h).1
  rw [MsgAddressing.size] at hsize
  have hflags : (ByteStorage.peekScalar 0 1).run (s.advanceRead 9) =
      (.ok (leNat ((s.rest.drop 9).take 1)), s.advanceRead 9) := by
    rw [ByteStorage.peekScalar_ok (by rw [ByteStorage.rest_advanceRead, List.length_drop]; omega),
      ByteStorage.rest_advanceRead, List.drop_zero]
  have hlength : (ByteStorage.peekScalar 0 2).run (s.advanceRead 14) =
      (.ok (subjectLengthAt s.rest), s.advanceRead 14) := by
    rw [ByteStorage.peekScalar_ok (by rw [ByteStorage.rest_advanceRead, List.length_drop]; omega),
      ByteStorage.rest_advanceRead, List.drop_zero, subjectLengthAt]
  rw [addressingDetails, Exec.bind_ok (haveCompleteMessage_run hin), h]
  dsimp only
  rw [Exec.bind_ok (Exec.modify_run _ _), Exec.bind_ok (Exec.modify_run _ _),
    ByteStorage.advanceRead_advanceRead, Exec.bind_ok hflags, Exec.bind_ok (Exec.modify_run _ _),
    Exec.bind_ok (Exec.modify_run _ _), ByteStorage.advanceRead_advanceRead,
    ByteStorage.advanceRead_advanceRead, Exec.bind_ok hlength, Exec.bind_ok (Exec.modify_run _ _),
    Exec.bind_ok (Exec.get_run _), Exec.bind_ok (Exec.modify_run _ _), Exec.pure_run,
    ByteStorage.advanceRead_advanceRead, ByteStorage.advanceRead_advanceRead]
  rfl

theorem addressingDetails_other {s : ByteStorage} {status : DecodeStatus} {n : Nat}
    (hin : s.read ≤ s.bytes.length) (h : frameStatus s.rest = (status, n))
    (hne : status ≠ .complete) : addressingDetails.run s = (.ok (status, none), s) := by
  rw [addressingDetails, Exec.bind_ok (haveCompleteMessage_run hin), h]
  cases status with
  | complete => exact absurd rfl hne
  | incomplete => rfl
  | corrupt => rfl

/-! ## In front of an image -/

namespace Message

variable {m : Message}

theorem size_le_length_wire (m : Message) : MsgAddressing.size ≤ m.wire.length := by
  rw [length_wire, length_afterLength, MsgAddressing.size, MsgAddressing.msgLengthOffset]
  omega

theorem frameStatus_wire (hfits : m.wire.length < 2 ^ 64) (t : Bytes) :
    frameStatus (m.wire ++ t) = (.complete, m.wire.length) := by
  have hlen := m.length_wire
  have hsize := m.size_le_length_wire
  have hmark : (m.wire ++ t).take 1 = leBytes 1 addressingFlag := by
    simp only [wire, List.append_assoc]
    exact List.take_left' (leBytes_length 1 _)
  have hfield : ((m.wire ++ t).drop 1).take 8 = leBytes 8 m.afterLength.length := by
    simp only [wire, List.append_assoc]
    rw [List.drop_left' (leBytes_length 1 _), List.take_left' (leBytes_length 8 _)]
  rw [MsgAddressing.msgLengthOffset] at hlen
  have hvalue : leNat (leBytes 8 m.afterLength.length) = m.afterLength.length := by
    apply leNat_leBytes_of_lt
    rw [show 256 ^ 8 = 2 ^ 64 by norm_num]
    omega
  have htotal : (m.afterLength.length + MsgAddressing.msgLengthOffset) % 2 ^ 64 =
      m.wire.length := by
    rw [MsgAddressing.msgLengthOffset, Nat.mod_eq_of_lt (by omega)]
    omega
  have hle : m.wire.length ≤ (m.wire ++ t).length := by
    rw [List.length_append]
    omega
  rw [frameStatus, if_pos (hsize.trans hle), hmark, if_neg (by decide), hfield, hvalue, htotal,
    if_pos hle]

/-- A proper prefix of an image is an unfinished message, and once the addressing is
there its length is known. -/
theorem frameStatus_short (hfits : m.wire.length < 2 ^ 64) {p r : Bytes}
    (h : m.wire = p ++ r) (hne : r ≠ []) :
    frameStatus p =
      (.incomplete, if MsgAddressing.size ≤ p.length then m.wire.length else 0) := by
  have hfull := frameStatus_wire hfits []
  have hlt : p.length < m.wire.length := by
    have := List.length_pos_iff.mpr hne
    rw [h, List.length_append]
    omega
  rw [List.append_nil] at hfull
  rw [frameStatus] at hfull ⊢
  split
  · next hsize =>
      rw [MsgAddressing.size] at hsize
      have htake : m.wire.take 1 = p.take 1 := by
        rw [h, List.take_append_of_le_length (by omega)]
      have hdrop : (m.wire.drop 1).take 8 = (p.drop 1).take 8 := by
        rw [h, List.drop_append_of_le_length (by omega),
          List.take_append_of_le_length (by rw [List.length_drop]; omega)]
      rw [if_pos m.size_le_length_wire, htake, hdrop] at hfull
      split at hfull
      · cases hfull
      · next hchk =>
          rw [if_neg hchk]
          dsimp only at hfull ⊢
          split at hfull
          · have hlength := (Prod.mk.inj hfull).2
            rw [hlength, if_neg (by omega)]
          · cases (Prod.mk.inj hfull).1
  · rfl

theorem frameStatus_prefix (hfits : m.wire.length < 2 ^ 64) {p r : Bytes}
    (h : m.wire = p ++ r) (hne : r ≠ []) : (frameStatus p).1 = .incomplete := by
  rw [frameStatus_short hfits h hne]

theorem flagsAt_wire (m : Message) (t : Bytes) : flagsAt (m.wire ++ t) = m.flags := by
  have hbyte : ((m.wire ++ t).drop 9).take 1 = leBytes 1 m.flags.toNat := by
    simp only [wire, afterLength, List.append_assoc]
    rw [← List.append_assoc, List.drop_left' (by simp), List.take_left' (leBytes_length 1 _)]
  rw [flagsAt, hbyte, leNat_leBytes, pow_one, Nat.mod_eq_of_lt m.flags.toNat_lt,
    UInt8.ofNat_toNat]

theorem drop_size_wire (m : Message) (t : Bytes) :
    (m.wire ++ t).drop MsgAddressing.size = m.subjectString.terminated ++ (m.body ++ t) := by
  have hsplit : m.wire ++ t =
      (leBytes 1 addressingFlag ++ leBytes 8 m.afterLength.length ++ leBytes 1 m.flags.toNat ++
        leBytes 4 0 ++ leBytes 2 (m.subjectString.length + 1)) ++
        (m.subjectString.terminated ++ (m.body ++ t)) := by
    simp only [wire, afterLength, List.append_assoc]
  rw [hsplit, List.drop_left' (by simp [MsgAddressing.size])]

theorem subjectLengthAt_wire (hsubject : m.subjectString.length < maxSubjectLength) (t : Bytes) :
    subjectLengthAt (m.wire ++ t) = m.subjectString.length + 1 := by
  have hsplit : m.wire ++ t =
      (leBytes 1 addressingFlag ++ leBytes 8 m.afterLength.length ++ leBytes 1 m.flags.toNat ++
        leBytes 4 0) ++ (leBytes 2 (m.subjectString.length + 1) ++
          (m.subjectString.terminated ++ (m.body ++ t))) := by
    simp only [wire, afterLength, List.append_assoc]
  rw [maxSubjectLength] at hsubject
  rw [subjectLengthAt, hsplit, List.drop_left' (by simp), List.take_left' (leBytes_length 2 _)]
  apply leNat_leBytes_of_lt
  omega

end Message

/-! ## Images are prefix free -/

/-- Short of a complete message `decode` leaves everything as it found it. -/
theorem decode_incomplete {b : ByteStorage} {n : Nat} (hin : b.read ≤ b.bytes.length)
    (h : frameStatus b.rest = (.incomplete, n)) (target : Message) :
    Message.decode.run ⟨target, b⟩ = (.ok false, ⟨target, b⟩) := by
  have haddr : (DecodeState.onBuffer addressingDetails).run ⟨target, b⟩ =
      (.ok (.incomplete, none), ⟨target, b⟩) :=
    Exec.zoom_ok (addressingDetails_other hin h (by decide))
  rw [Message.decode, Exec.bind_ok (Exec.get_run _), Exec.bind_ok haddr]
  rfl

/-- No proper prefix of `e` is taken for a message or for the beginning of anything else,
and `e` is recognised whatever follows it. -/
structure PrefixFree (e : Bytes) : Prop where
  short : ∀ p r : Bytes, e = p ++ r → r ≠ [] →
    ∀ b : ByteStorage, b.read ≤ b.bytes.length → b.rest = p →
      (∃ n, haveCompleteMessage.run b = (.ok (.incomplete, n), b) ∧
        (MsgAddressing.size ≤ p.length → n = e.length)) ∧
      ∀ target : Message, Message.decode.run ⟨target, b⟩ = (.ok false, ⟨target, b⟩)
  whole : ∀ (suffix : Bytes) (b : ByteStorage), b.read ≤ b.bytes.length →
    b.rest = e ++ suffix → haveCompleteMessage.run b = (.ok (.complete, e.length), b)

theorem Message.wire_prefixFree {m : Message} (hfits : m.wire.length < 2 ^ 64) :
    PrefixFree m.wire where
  short p r h hne b hin hrest := by
    subst hrest
    have hstatus := m.frameStatus_short hfits h hne
    refine ⟨⟨if MsgAddressing.size ≤ b.rest.length then m.wire.length else 0, ?_, ?_⟩,
      decode_incomplete hin hstatus⟩
    · rw [haveCompleteMessage_run hin, hstatus]
    · intro hsize
      rw [if_pos hsize]
  whole suffix b hin hrest := by
    rw [haveCompleteMessage_run hin, hrest, m.frameStatus_wire hfits]

/-- Whatever a message holds, the bytes `encode` appends to a storage that does not move
are prefix free, and there are as many of them as it says. -/
theorem encode_prefixFree {m : Message} {dst : MutableByteStorage}
    (hsize : dst.capacity < 2 ^ 64) (hstays : (m.encode dst).2.block = dst.block) :
    ∃ e, (m.encode dst).2.stored = dst.stored ++ e ∧ (m.encode dst).1 = e.length ∧
      PrefixFree e := by
  obtain ⟨hlen, hwrites⟩ := m.encode_encodes dst
  have hroom : dst.stored.length + m.wire.length ≤ dst.capacity := by
    by_contra hmoves
    have := hwrites.moves (Nat.lt_of_not_le hmoves)
    omega
  refine ⟨m.wire, (hwrites.stays hroom).2.2, hlen, Message.wire_prefixFree ?_⟩
  omega

theorem probe_prefixFree :
    ∃ e, (probe.encode (MutableByteStorage.new 64 fun _ _ => 0)).2.stored = [] ++ e ∧
      (probe.encode (MutableByteStorage.new 64 fun _ _ => 0)).1 = e.length ∧ PrefixFree e :=
  encode_prefixFree (by decide) (by decide)

end Fastpath
