import Fastpath.Lib.Smear
import Fastpath.Spec.Wire

/-!
# What the encoder leaves in a storage

Every encoder appends, and the only thing that can go wrong is that the storage
moves between the reservation of a length slot and the store that fills it. The
relation `Writes s s' w` says what survives either way. Some bytes of the right
number stand behind what was stored before. If there was room for all of them
the storage has not moved and they are `w`; if there was not, it has moved and
its block number is larger.

`Writes` composes along `++`, and `Writes.slot` is its rule for a reserved
slot: the store through the kept pointer lands exactly when nothing in between
moved the storage, and that is the only case in which `Writes` promises the
bytes. From there every encoder is a chain of appends.
-/

namespace Fastpath

open Fastpath.Lib

/-! ## One append -/

/-- The ladder is five rungs of a smear. -/
theorem allocateStorage_smeared {n : Nat} (hn : n ≠ 0) :
    ∃ w, Smeared 32 (n - 1) w ∧ allocateStorage n = w + 1 := by
  refine ⟨_, ?_, by rw [allocateStorage, if_neg hn]⟩
  exact (smeared_one (n - 1)).or_shiftRight.or_shiftRight.or_shiftRight.or_shiftRight.or_shiftRight

theorem le_allocateStorage (n : Nat) : n ≤ allocateStorage n := by
  by_cases hn : n = 0
  · rw [hn]
    exact Nat.zero_le _
  · obtain ⟨w, hw, heq⟩ := allocateStorage_smeared hn
    have hle := hw.le (by omega)
    omega

namespace MutableByteStorage

@[simp] theorem reserve_stored (s : MutableByteStorage) (n : Nat) :
    (s.reserve n).stored = s.stored := by
  rw [reserve]
  split <;> rfl

theorem reserve_of_le {s : MutableByteStorage} {n : Nat}
    (h : s.stored.length + n ≤ s.capacity) : s.reserve n = s := by
  rw [reserve, if_neg (by omega)]

theorem reserve_of_lt {s : MutableByteStorage} {n : Nat}
    (h : s.capacity < s.stored.length + n) : s.reserve n = s.grow n := by
  rw [reserve, if_pos h]

theorem le_spare_reserve (s : MutableByteStorage) (n : Nat) :
    n ≤ (s.reserve n).spare.length := by
  rcases Nat.lt_or_ge s.capacity (s.stored.length + n) with h | h
  · have hcap := le_allocateStorage (s.capacity + n)
    rw [reserve_of_lt h]
    simp only [grow, List.length_append, List.length_map, List.length_range]
    simp only [capacity] at h hcap ⊢
    omega
  · rw [reserve_of_le h]
    rw [capacity] at h
    omega

theorem length_reserved (s : MutableByteStorage) (n : Nat) :
    ((s.reserve n).spare.take n).length = n := by
  rw [List.length_take, Nat.min_eq_left (s.le_spare_reserve n)]

theorem allocate_stored (s : MutableByteStorage) (n : Nat) :
    (s.allocate n).2.stored = s.stored ++ (s.reserve n).spare.take n := by
  simp only [allocate, reserve_stored]

theorem allocate_ptr (s : MutableByteStorage) (n : Nat) :
    (s.allocate n).1 = ⟨(s.allocate n).2.block, s.stored.length⟩ := by
  simp only [allocate, reserve_stored]

/-- An append stores the bytes it was given, wherever the storage ends up. -/
theorem append_eq (s : MutableByteStorage) (data : Bytes) :
    s.append data =
      { s.reserve data.length with
        stored := s.stored ++ data
        spare := (s.reserve data.length).spare.drop data.length } := by
  have hroom := le_spare_reserve s data.length
  generalize hr : s.reserve data.length = r at hroom
  have hst : r.stored = s.stored := by rw [← hr, reserve_stored]
  have hsplice : splice (s.stored ++ r.spare) s.stored.length data =
      s.stored ++ data ++ r.spare.drop data.length := by
    simp [splice]
  simp only [append, allocate, writeThrough, hr, if_true, hst, List.append_assoc,
    List.take_append_drop, hsplice, List.length_append, List.length_take,
    Nat.min_eq_left hroom]
  rw [← List.append_assoc, ← List.length_append, List.take_left, List.drop_left]

theorem append_block (s : MutableByteStorage) (data : Bytes) :
    (s.append data).block = (s.reserve data.length).block := by
  rw [append_eq]

theorem reserve_block_lt {s : MutableByteStorage} {n : Nat}
    (h : s.capacity < s.stored.length + n) : s.block < (s.reserve n).block := by
  rw [reserve_of_lt h]
  exact Nat.lt_succ_self s.block

@[simp] theorem writeThrough_block (s : MutableByteStorage) (p : Ptr) (data : Bytes) :
    (s.writeThrough p data).block = s.block := by
  rw [writeThrough]
  split <;> rfl

theorem writeThrough_stored {s : MutableByteStorage} {l old r data : Bytes} {p : Ptr}
    (hs : s.stored = l ++ old ++ r) (hp : p = ⟨s.block, l.length⟩)
    (hlen : data.length = old.length) :
    (s.writeThrough p data).stored = l ++ data ++ r ∧ (s.writeThrough p data).spare = s.spare := by
  have hmem : splice (s.stored ++ s.spare) l.length data = l ++ data ++ r ++ s.spare := by
    simp [splice, hs, hlen]
  have hl : s.stored.length = (l ++ data ++ r).length := by
    simp [hs, hlen]
  simp only [writeThrough, hp, if_true, hmem, hl, List.take_left, List.drop_left, and_self]

theorem writeThrough_of_ne {s : MutableByteStorage} {p : Ptr} {data : Bytes}
    (h : p.block ≠ s.block) : s.writeThrough p data = s := by
  rw [writeThrough, if_neg h]

theorem le_capacity_writeThrough (s : MutableByteStorage) (p : Ptr) (data : Bytes) :
    s.capacity ≤ (s.writeThrough p data).capacity := by
  rw [writeThrough]
  split
  · simp only [capacity, splice, List.length_take, List.length_drop, List.length_append]
    omega
  · exact Nat.le_refl _

theorem le_capacity_allocate (s : MutableByteStorage) (n : Nat) :
    s.capacity ≤ (s.allocate n).2.capacity := by
  have hspare := s.le_spare_reserve n
  have hreserve : s.capacity ≤ (s.reserve n).capacity := by
    rw [reserve]
    split
    · simp only [capacity, grow, List.length_append]
      omega
    · exact Nat.le_refl _
  refine hreserve.trans ?_
  simp only [allocate, capacity, List.length_append, List.length_take, List.length_drop]
  omega

theorem le_capacity_append (s : MutableByteStorage) (data : Bytes) :
    s.capacity ≤ (s.append data).capacity :=
  (s.le_capacity_allocate data.length).trans (le_capacity_writeThrough _ _ data)

end MutableByteStorage

/-! ## Runs of appends -/

/-- What appending `w` to `s` can have led to. -/
structure Writes (s s' : MutableByteStorage) (w : Bytes) : Prop where
  /-- Everything stored before is still there, with as many bytes behind it. -/
  stored : ∃ t, t.length = w.length ∧ s'.stored = s.stored ++ t
  /-- With room for all of it, nothing moves and the bytes are `w`. -/
  stays : s.stored.length + w.length ≤ s.capacity →
    s'.block = s.block ∧ s'.spare = s.spare.drop w.length ∧ s'.stored = s.stored ++ w
  /-- Without, the storage is in a later allocation. -/
  moves : s.capacity < s.stored.length + w.length → s.block < s'.block
  /-- A later allocation is no smaller. -/
  keeps : s.capacity ≤ s'.capacity

namespace Writes

theorem refl (s : MutableByteStorage) : Writes s s [] where
  stored := ⟨[], rfl, by simp⟩
  stays _ := ⟨rfl, by simp, by simp⟩
  moves h := by
    simp only [MutableByteStorage.capacity, List.length_nil] at h
    omega
  keeps := Nat.le_refl _

theorem block_le {s s' : MutableByteStorage} {w : Bytes} (h : Writes s s' w) :
    s.block ≤ s'.block := by
  rcases Nat.lt_or_ge s.capacity (s.stored.length + w.length) with hlt | hle
  · exact Nat.le_of_lt (h.moves hlt)
  · exact Nat.le_of_eq (h.stays hle).1.symm

theorem capacity_eq {s s' : MutableByteStorage} {w : Bytes} (h : Writes s s' w)
    (hfit : s.stored.length + w.length ≤ s.capacity) : s'.capacity = s.capacity := by
  obtain ⟨-, hspare, hstored⟩ := h.stays hfit
  simp only [MutableByteStorage.capacity] at hfit ⊢
  simp only [hspare, hstored, List.length_append, List.length_drop]
  omega

theorem stored_length {s s' : MutableByteStorage} {w : Bytes} (h : Writes s s' w) :
    s'.stored.length = s.stored.length + w.length := by
  obtain ⟨t, ht, hs⟩ := h.stored
  rw [hs, List.length_append, ht]

theorem append (s : MutableByteStorage) (data : Bytes) : Writes s (s.append data) data where
  stored := ⟨data, rfl, by rw [MutableByteStorage.append_eq]⟩
  stays h := by
    rw [MutableByteStorage.append_eq, MutableByteStorage.reserve_of_le h]
    exact ⟨rfl, rfl, rfl⟩
  moves h := by
    rw [MutableByteStorage.append_block]
    exact MutableByteStorage.reserve_block_lt h
  keeps := s.le_capacity_append data

theorem trans {s s₁ s₂ : MutableByteStorage} {a b : Bytes} (h₁ : Writes s s₁ a)
    (h₂ : Writes s₁ s₂ b) : Writes s s₂ (a ++ b) where
  stored := by
    obtain ⟨t₁, hl₁, hs₁⟩ := h₁.stored
    obtain ⟨t₂, hl₂, hs₂⟩ := h₂.stored
    refine ⟨t₁ ++ t₂, ?_, ?_⟩
    · rw [List.length_append, List.length_append, hl₁, hl₂]
    · rw [hs₂, hs₁, List.append_assoc]
  stays h := by
    rw [List.length_append] at h
    have hfit₁ : s.stored.length + a.length ≤ s.capacity := by omega
    obtain ⟨hb₁, hsp₁, hst₁⟩ := h₁.stays hfit₁
    have hfit₂ : s₁.stored.length + b.length ≤ s₁.capacity := by
      rw [h₁.stored_length, h₁.capacity_eq hfit₁]
      omega
    obtain ⟨hb₂, hsp₂, hst₂⟩ := h₂.stays hfit₂
    refine ⟨hb₂.trans hb₁, ?_, ?_⟩
    · rw [hsp₂, hsp₁, List.drop_drop, List.length_append]
    · rw [hst₂, hst₁, List.append_assoc]
  moves h := by
    rw [List.length_append] at h
    rcases Nat.lt_or_ge s.capacity (s.stored.length + a.length) with hlt | hfit₁
    · exact Nat.lt_of_lt_of_le (h₁.moves hlt) h₂.block_le
    · have hb₁ := (h₁.stays hfit₁).1
      have hlt₂ : s₁.capacity < s₁.stored.length + b.length := by
        rw [h₁.stored_length, h₁.capacity_eq hfit₁]
        omega
      rw [← hb₁]
      exact h₂.moves hlt₂
  keeps := h₁.keeps.trans h₂.keeps

/-- A reservation is an append of whatever the memory held. -/
theorem allocate (s : MutableByteStorage) (n : Nat) :
    Writes s (s.allocate n).2 ((s.reserve n).spare.take n) := by
  have hlen := s.length_reserved n
  have hstored := s.allocate_stored n
  refine ⟨⟨_, rfl, hstored⟩, ?_, ?_, s.le_capacity_allocate n⟩
  · intro h
    rw [hlen] at h ⊢
    refine ⟨?_, ?_, hstored⟩
    · simp only [MutableByteStorage.allocate, MutableByteStorage.reserve_of_le h]
    · simp only [MutableByteStorage.allocate, MutableByteStorage.reserve_of_le h]
  · intro h
    rw [hlen] at h
    exact MutableByteStorage.reserve_block_lt h

/-- The rule for a slot: reserve it, write `b` behind it, then fill it through
the pointer. If the storage never moved the fill lands; if it did, the promise is
only about lengths and block numbers, which the fill does not touch. -/
theorem slot {s s₂ : MutableByteStorage} {b d : Bytes} {n : Nat}
    (h : Writes (s.allocate n).2 s₂ b) (hd : d.length = n) :
    Writes s (s₂.writeThrough (s.allocate n).1 d) (d ++ b) := by
  have ha := Writes.allocate s n
  have hab := ha.trans h
  have hlen := s.length_reserved n
  have hsum : ((s.reserve n).spare.take n ++ b).length = (d ++ b).length := by
    rw [List.length_append, List.length_append, hlen, hd]
  obtain ⟨ta, hta, hsa⟩ := ha.stored
  obtain ⟨tb, htb, hsb⟩ := h.stored
  have hst₂ : s₂.stored = s.stored ++ ta ++ tb := by rw [hsb, hsa]
  have hptr := s.allocate_ptr n
  have hdta : d.length = ta.length := by rw [hd, hta, hlen]
  refine ⟨?_, ?_, ?_, hab.keeps.trans (s₂.le_capacity_writeThrough _ d)⟩
  · by_cases hblock : (s.allocate n).1.block = s₂.block
    · have hp : (s.allocate n).1 = ⟨s₂.block, s.stored.length⟩ := by
        rw [hptr] at hblock ⊢
        rw [show (s.allocate n).2.block = s₂.block from hblock]
      obtain ⟨hw, -⟩ := MutableByteStorage.writeThrough_stored hst₂ hp hdta
      refine ⟨d ++ tb, ?_, ?_⟩
      · rw [List.length_append, List.length_append, htb]
      · rw [hw, List.append_assoc]
    · rw [MutableByteStorage.writeThrough_of_ne hblock]
      refine ⟨ta ++ tb, ?_, ?_⟩
      · rw [List.length_append, List.length_append, hta, htb, hlen, hd]
      · rw [hst₂, List.append_assoc]
  · intro hfit
    rw [← hsum] at hfit
    obtain ⟨hb, hsp, hst⟩ := hab.stays hfit
    have hfita : s.stored.length + ((s.reserve n).spare.take n).length ≤ s.capacity := by
      rw [List.length_append] at hfit
      omega
    have hba := (ha.stays hfita).1
    have hp : (s.allocate n).1 = ⟨s₂.block, s.stored.length⟩ := by
      rw [hptr, hba, hb]
    rw [← List.append_assoc] at hst
    obtain ⟨hw, hwsp⟩ := MutableByteStorage.writeThrough_stored hst hp (hd.trans hlen.symm)
    refine ⟨?_, ?_, ?_⟩
    · rw [MutableByteStorage.writeThrough_block, hb]
    · rw [hwsp, hsp, hsum]
    · rw [hw, List.append_assoc]
  · intro hlt
    rw [← hsum] at hlt
    rw [MutableByteStorage.writeThrough_block]
    exact hab.moves hlt

theorem appendScalar (s : MutableByteStorage) (w v : Nat) :
    Writes s (s.appendScalar w v) (leBytes w v) :=
  Writes.append s (leBytes w v)

end Writes

/-! ## The encoders -/

theorem leBytes_mod (w n : Nat) : leBytes w (n % 256 ^ w) = leBytes w n := by
  have h := leBytes_leNat (leBytes w n)
  rwa [leBytes_length, leNat_leBytes] at h

theorem leBytes_mod_four (n : Nat) : leBytes 4 (n % 2 ^ 32) = leBytes 4 n := by
  have h := leBytes_mod 4 n
  rwa [show 256 ^ 4 = 2 ^ 32 by norm_num] at h

theorem length_fieldWire (identifier : CString) (type : StorageType) (value : Bytes) :
    (fieldWire identifier type value).length =
      MsgField.size + identifier.length + value.length := by
  simp only [fieldWire, List.length_append, leBytes_length, MsgField.size, CString.length]

theorem length_bodyWire (count : Nat) (fields : Bytes) :
    (bodyWire count fields).length = MsgHeader.size + fields.length := by
  simp only [bodyWire, List.length_append, leBytes_length, MsgHeader.size]

/-- What an encoder owes: the bytes it says it wrote, and no others. -/
def Encodes (s : MutableByteStorage) (r : Nat × MutableByteStorage) (w : Bytes) : Prop :=
  r.1 = w.length ∧ Writes s r.2 w

theorem encodeData_encodes (identifier : CString) (type : StorageType) (data : Bytes)
    (s : MutableByteStorage) :
    Encodes s (Field.encodeData identifier type data s) (fieldWire identifier type data) := by
  refine ⟨(length_fieldWire identifier type data).symm, ?_⟩
  exact ((((Writes.appendScalar s 1 _).trans (Writes.appendScalar _ 1 _)).trans
    (Writes.appendScalar _ 4 _)).trans (Writes.append _ _)).trans (Writes.append _ _)

/-- A message field, given its body: the slot is reserved behind type and
identifier length, and everything from the identifier on is written before it is
filled. -/
theorem encodeMessage_encodes (identifier : CString) (msg : Message)
    (hbody : ∀ s, Encodes s (msg.encodeBody s) msg.body) (s : MutableByteStorage) :
    Encodes s ((Field.message identifier msg).encode s)
      (fieldWire identifier .message msg.body) := by
  generalize hs₁ : (s.appendScalar 1 StorageType.message.code.toNat).appendScalar 1
    identifier.length = s₁
  generalize hs₂ : (s₁.allocate 4).2.append identifier.bytes = s₂
  have henc : (Field.message identifier msg).encode s =
      (MsgField.size + identifier.length + (msg.encodeBody s₂).1,
        (msg.encodeBody s₂).2.writeThrough (s₁.allocate 4).1
          (leBytes 4 (msg.encodeBody s₂).1)) := by
    simp only [Field.encode, hs₁, hs₂, MutableByteStorage.writeScalar]
  obtain ⟨hlen, hwrites⟩ := hbody s₂
  have hhead : Writes s s₁
      (leBytes 1 StorageType.message.code.toNat ++ leBytes 1 identifier.length) := by
    rw [← hs₁]
    exact (Writes.appendScalar s 1 _).trans (Writes.appendScalar _ 1 _)
  have htail : Writes (s₁.allocate 4).2 (msg.encodeBody s₂).2
      (identifier.bytes ++ msg.body) := by
    refine Writes.trans ?_ hwrites
    rw [← hs₂]
    exact Writes.append _ _
  rw [henc]
  refine ⟨?_, ?_⟩
  · rw [length_fieldWire, hlen]
  · rw [fieldWire, ← hlen, List.append_assoc _ identifier.bytes,
      List.append_assoc _ (leBytes 4 _)]
    exact hhead.trans (Writes.slot htail (leBytes_length 4 _))

theorem encodeBody_encodes_of (m : Message)
    (hfields : ∀ s, Encodes s (encodeFields m.payload s) (fieldsWire m.payload))
    (s : MutableByteStorage) : Encodes s (m.encodeBody s) m.body := by
  obtain ⟨flags, subject, payload, keys⟩ := m
  generalize hs₁ : (s.appendScalar 1 bodyFlag).appendScalar 4 (payload.length % 2 ^ 32) = s₁
  have henc : Message.encodeBody ⟨flags, subject, payload, keys⟩ s =
      (MsgHeader.size + (encodeFields payload s₁).1, (encodeFields payload s₁).2) := by
    simp only [Message.encodeBody, hs₁]
  have hhead : Writes s s₁ (leBytes 1 bodyFlag ++ leBytes 4 payload.length) := by
    rw [← hs₁, ← leBytes_mod_four payload.length]
    exact (Writes.appendScalar s 1 _).trans (Writes.appendScalar _ 4 _)
  obtain ⟨hlen, hwrites⟩ := hfields s₁
  rw [henc]
  refine ⟨?_, hhead.trans hwrites⟩
  rw [Message.body, length_bodyWire, hlen]

mutual

theorem Field.encode_encodes :
    ∀ (field : Field) (s : MutableByteStorage), Encodes s (field.encode s) field.wire
  | .scalar identifier type data, s => encodeData_encodes identifier type data s
  | .dateTime identifier _ seconds microseconds, s =>
      encodeData_encodes identifier .dateTime (Field.timeBytes seconds microseconds) s
  | .smallData identifier type value, s => encodeData_encodes identifier type value s
  | .largeData identifier type value, s => encodeData_encodes identifier type value s
  | .message identifier msg, s =>
      encodeMessage_encodes identifier msg (Message.encodeBody_encodes msg) s
termination_by structural field => field

theorem Message.encodeBody_encodes :
    ∀ (m : Message) (s : MutableByteStorage), Encodes s (m.encodeBody s) m.body
  | ⟨flags, subject, payload, keys⟩, s =>
      encodeBody_encodes_of ⟨flags, subject, payload, keys⟩ (encodeFields_encodes payload) s
termination_by structural m => m

theorem encodeFields_encodes :
    ∀ (fields : List Field) (s : MutableByteStorage),
      Encodes s (encodeFields fields s) (fieldsWire fields)
  | [], s => ⟨rfl, Writes.refl s⟩
  | field :: rest, s => by
      obtain ⟨hlen, hwrites⟩ := Field.encode_encodes field s
      obtain ⟨hlen', hwrites'⟩ := encodeFields_encodes rest (field.encode s).2
      rw [encodeFields, fieldsWire]
      refine ⟨?_, hwrites.trans hwrites'⟩
      simp only [List.length_append, hlen, hlen']
termination_by structural fields => fields

end

/-! ## A whole message -/

namespace Message

abbrev marked (s : MutableByteStorage) : MutableByteStorage := s.appendScalar 1 addressingFlag

theorem length_wire (m : Message) :
    m.wire.length = MsgAddressing.msgLengthOffset + m.afterLength.length := by
  simp only [wire, List.length_append, leBytes_length, MsgAddressing.msgLengthOffset]

theorem length_afterLength (m : Message) :
    m.afterLength.length = 7 + (m.subjectString.length + 1) + m.body.length := by
  simp only [afterLength, List.length_append, leBytes_length, CString.terminated,
    List.length_cons, List.length_nil, CString.length]

/-- `encode` in three parts: marker and slot, everything behind the slot, and the
fill. -/
theorem encode_shape (m : Message) (s : MutableByteStorage) :
    ∃ tail, Writes ((marked s).allocate 8).2 tail m.afterLength ∧
      m.encode s = (m.wire.length,
        tail.writeThrough ((marked s).allocate 8).1 (leBytes 8 m.afterLength.length)) := by
  generalize hs₂ : ((marked s).allocate 8).2 = s₂
  generalize hp : ((marked s).allocate 8).1 = p
  generalize hs₃ : (((s₂.appendScalar 1 m.flags.toNat).appendScalar 4 0).appendScalar 2
    (m.subjectString.length + 1)).append m.subjectString.terminated = s₃
  obtain ⟨hlen, hwrites⟩ := m.encodeBody_encodes s₃
  have hbehind := m.length_afterLength
  have htotal := m.length_wire
  simp only [MsgAddressing.msgLengthOffset] at htotal
  refine ⟨(m.encodeBody s₃).2, ?_, ?_⟩
  · refine Writes.trans ?_ hwrites
    rw [← hs₃]
    exact (((Writes.appendScalar s₂ 1 _).trans (Writes.appendScalar _ 4 _)).trans
      (Writes.appendScalar _ 2 _)).trans (Writes.append _ _)
  · simp only [encode, hs₂, hp, hs₃, hlen, MutableByteStorage.writeScalar, MsgAddressing.size,
      MsgAddressing.msgLengthOffset]
    rw [show 16 + (m.subjectString.length + 1) + m.body.length = m.wire.length by omega,
      show m.wire.length - 9 = m.afterLength.length by omega]

theorem encode_encodes (m : Message) (s : MutableByteStorage) :
    Encodes s (m.encode s) m.wire := by
  obtain ⟨tail, htail, henc⟩ := m.encode_shape s
  rw [henc]
  refine ⟨rfl, ?_⟩
  rw [wire, List.append_assoc]
  exact (Writes.appendScalar s 1 _).trans (Writes.slot htail (leBytes_length 8 _))

/-- Behind the slot there is as much to write as behind the marker and the slot. -/
theorem length_allocate_marked (m : Message) (s : MutableByteStorage) :
    ((marked s).allocate 8).2.stored.length + m.afterLength.length =
      s.stored.length + m.wire.length := by
  have hm := Writes.appendScalar s 1 addressingFlag
  have ha := Writes.allocate (marked s) 8
  rw [ha.stored_length, hm.stored_length, (marked s).length_reserved, leBytes_length, length_wire,
    MsgAddressing.msgLengthOffset]
  omega

/-- With the slot's allocation still current at the end, the image is there. -/
theorem encode_stored_of_stays {m : Message} {s : MutableByteStorage}
    (h : s.stored.length + m.wire.length ≤ ((marked s).allocate 8).2.capacity) :
    (m.encode s).2.stored = s.stored ++ m.wire := by
  obtain ⟨tail, htail, henc⟩ := m.encode_shape s
  rw [← m.length_allocate_marked s] at h
  obtain ⟨hblock, -, hstored⟩ := htail.stays h
  rw [(marked s).allocate_stored 8] at hstored
  have hp : ((marked s).allocate 8).1 = ⟨tail.block, (marked s).stored.length⟩ := by
    rw [hblock]
    exact (marked s).allocate_ptr 8
  have hlen : (leBytes 8 m.afterLength.length).length =
      (((marked s).reserve 8).spare.take 8).length := by
    rw [leBytes_length, (marked s).length_reserved]
  have hmst : (marked s).stored = s.stored ++ leBytes 1 addressingFlag := by
    rw [marked, MutableByteStorage.appendScalar, MutableByteStorage.append_eq]
  obtain ⟨hw, -⟩ := MutableByteStorage.writeThrough_stored hstored hp hlen
  rw [henc]
  show (tail.writeThrough _ _).stored = _
  rw [hw, hmst, wire]
  simp only [List.append_assoc]

/-- With the storage gone from under the slot, the slot holds what the memory held
when it was reserved. -/
theorem encode_stored_of_moved {m : Message} {s : MutableByteStorage}
    (h : ((marked s).allocate 8).2.capacity < s.stored.length + m.wire.length) :
    ∃ t, (m.encode s).2.stored =
      s.stored ++ leBytes 1 addressingFlag ++ ((marked s).reserve 8).spare.take 8 ++ t := by
  obtain ⟨tail, htail, henc⟩ := m.encode_shape s
  rw [← m.length_allocate_marked s] at h
  have hmoved := htail.moves h
  have hne : ((marked s).allocate 8).1.block ≠ tail.block := by
    intro heq
    have hsame : ((marked s).allocate 8).1.block = ((marked s).allocate 8).2.block := rfl
    omega
  obtain ⟨t, -, ht⟩ := htail.stored
  refine ⟨t, ?_⟩
  rw [henc]
  show (tail.writeThrough _ _).stored = _
  rw [MutableByteStorage.writeThrough_of_ne hne, ht]
  simp only [MutableByteStorage.allocate, MutableByteStorage.reserve_stored, marked,
    MutableByteStorage.appendScalar, MutableByteStorage.append_eq]

end Message

end Fastpath
