import Fastpath.Proofs.Encode

/-!
# When an encoding depends on the capacity it was made in

`encode` keeps a pointer to the eight bytes it reserved for the message length
and stores through it at the very end. The store reaches the storage only if
the allocation the slot was reserved in is still the current one, so the one
question is whether everything behind the slot fits the capacity the storage
has once the slot is in. `Message.StaysPut` is that question as arithmetic on
lengths.

If it does not fit, the slot keeps whatever the memory held, and memory is not
initialised: two fillings of the unused bytes already give two different
results. So the condition is not only sufficient. Sub-messages add nothing to
it: their slots are reserved later, in memory the outer condition covers.
-/

namespace Fastpath

open Fastpath.Lib

def capacityAfter (capacity length n : Nat) : Nat :=
  if capacity < length + n then allocateStorage (capacity + n) else capacity

/-- The capacity once the addressing marker and the length slot are in. -/
def slotCapacity (length capacity : Nat) : Nat :=
  capacityAfter (capacityAfter capacity length 1) (length + 1) 8

/-- Everything `encode` writes fits the allocation the length slot is in. -/
def Message.StaysPut (m : Message) (length capacity : Nat) : Prop :=
  length + m.wire.length ≤ slotCapacity length capacity

instance (m : Message) (length capacity : Nat) : Decidable (m.StaysPut length capacity) :=
  inferInstanceAs (Decidable (_ ≤ _))

/-- Encoding `m` behind `stored` leaves the same bytes, lengths in place, in every
two storages with `room₁` and `room₂` bytes to spare, whatever their unused
memory holds. -/
def Message.EncodesAlike (m : Message) (stored : Bytes) (room₁ room₂ : Nat) : Prop :=
  ∀ s₁ s₂ : MutableByteStorage,
    s₁.stored = stored → s₁.spare.length = room₁ →
    s₂.stored = stored → s₂.spare.length = room₂ →
    (m.encode s₁).2.stored = (m.encode s₂).2.stored ∧
      (m.encode s₁).2.stored = stored ++ m.wire

namespace MutableByteStorage

theorem reserve_capacity (s : MutableByteStorage) (n : Nat) :
    (s.reserve n).capacity = capacityAfter s.capacity s.stored.length n := by
  rw [reserve, capacityAfter]
  split
  · have hle := le_allocateStorage (s.capacity + n)
    simp only [grow, capacity, List.length_append, List.length_map, List.length_range] at hle ⊢
    omega
  · rfl

theorem append_capacity (s : MutableByteStorage) (data : Bytes) :
    (s.append data).capacity = capacityAfter s.capacity s.stored.length data.length := by
  have hroom := s.le_spare_reserve data.length
  rw [← reserve_capacity, append_eq]
  simp only [capacity, List.length_append, List.length_drop, reserve_stored]
  omega

theorem allocate_capacity (s : MutableByteStorage) (n : Nat) :
    (s.allocate n).2.capacity = capacityAfter s.capacity s.stored.length n := by
  have hroom := s.le_spare_reserve n
  rw [← reserve_capacity]
  simp only [allocate, capacity, List.length_append, List.length_take, List.length_drop]
  omega

/-- A storage whose unused memory, present and future, is all `c`. -/
structure Filled (c : UInt8) (s : MutableByteStorage) : Prop where
  spare : ∀ b ∈ s.spare, b = c
  heap : ∀ block i, s.heap block i = c

theorem Filled.reserve {c : UInt8} {s : MutableByteStorage} (h : Filled c s) (n : Nat) :
    Filled c (s.reserve n) := by
  rw [MutableByteStorage.reserve]
  split
  · refine ⟨?_, h.heap⟩
    intro b hb
    rcases List.mem_append.mp hb with hb | hb
    · exact h.spare b hb
    · obtain ⟨i, -, rfl⟩ := List.mem_map.mp hb
      exact h.heap _ _
  · exact h

theorem Filled.append {c : UInt8} {s : MutableByteStorage} (h : Filled c s) (data : Bytes) :
    Filled c (s.append data) := by
  have hr := h.reserve data.length
  rw [append_eq]
  exact ⟨fun b hb => hr.spare b (List.mem_of_mem_drop hb), hr.heap⟩

end MutableByteStorage

namespace Message

theorem slotCapacity_eq (s : MutableByteStorage) :
    ((marked s).allocate 8).2.capacity = slotCapacity s.stored.length s.capacity := by
  have hlen := (Writes.appendScalar s 1 addressingFlag).stored_length
  rw [leBytes_length] at hlen
  have hcap : (marked s).capacity = capacityAfter s.capacity s.stored.length 1 := by
    have h := s.append_capacity (leBytes 1 addressingFlag)
    rwa [leBytes_length] at h
  rw [MutableByteStorage.allocate_capacity, hlen, hcap, slotCapacity]

theorem encode_stored {m : Message} {s : MutableByteStorage}
    (h : m.StaysPut s.stored.length s.capacity) :
    (m.encode s).2.stored = s.stored ++ m.wire := by
  apply encode_stored_of_stays
  rw [slotCapacity_eq]
  exact h

/-- A slot the storage moved away from holds the filling of the memory. -/
theorem slot_of_filled {m : Message} {s : MutableByteStorage} {c : UInt8}
    (hfill : s.Filled c) (h : ¬ m.StaysPut s.stored.length s.capacity)
    (henc : (m.encode s).2.stored = s.stored ++ m.wire) :
    leBytes 8 m.afterLength.length = List.replicate 8 c := by
  have hmoved : ((marked s).allocate 8).2.capacity < s.stored.length + m.wire.length := by
    rw [slotCapacity_eq]
    exact Nat.lt_of_not_le h
  obtain ⟨t, ht⟩ := encode_stored_of_moved hmoved
  have hfilled := (hfill.append (leBytes 1 addressingFlag)).reserve 8
  have hslot : ((marked s).reserve 8).spare.take 8 = List.replicate 8 c := by
    refine List.eq_replicate_iff.mpr ⟨(marked s).length_reserved 8, fun b hb => ?_⟩
    exact hfilled.spare b (List.mem_of_mem_take hb)
  rw [henc, hslot, wire] at ht
  simp only [List.append_assoc, List.append_cancel_left_eq] at ht
  exact (List.append_inj ht (by rw [leBytes_length, List.length_replicate])).1

/-- A storage with the given bytes stored, room to spare and memory all `c`. -/
def filledStorage (stored : Bytes) (room : Nat) (c : UInt8) : MutableByteStorage where
  block := 0
  stored := stored
  spare := List.replicate room c
  readPtr := ⟨0, 0⟩
  markPtr := ⟨0, 0⟩
  heap := fun _ _ => c

theorem filledStorage_filled (stored : Bytes) (room : Nat) (c : UInt8) :
    (filledStorage stored room c).Filled c :=
  ⟨fun _ hb => List.eq_of_mem_replicate hb, fun _ _ => rfl⟩

theorem filledStorage_capacity (stored : Bytes) (room : Nat) (c : UInt8) :
    (filledStorage stored room c).capacity = stored.length + room := by
  simp only [MutableByteStorage.capacity, filledStorage, List.length_replicate]

/-- If the image appears whatever the memory holds, it was made in place. -/
theorem staysPut_of_encode {m : Message} {stored : Bytes} {room : Nat}
    (h : ∀ c, (m.encode (filledStorage stored room c)).2.stored = stored ++ m.wire) :
    m.StaysPut stored.length (stored.length + room) := by
  by_contra hnot
  have hslot : ∀ c, leBytes 8 m.afterLength.length = List.replicate 8 c := by
    intro c
    have hcap : ¬ m.StaysPut (filledStorage stored room c).stored.length
        (filledStorage stored room c).capacity := by
      rw [filledStorage_capacity]
      exact hnot
    exact slot_of_filled (filledStorage_filled stored room c) hcap (h c)
  have hne : List.replicate 8 (0 : UInt8) ≠ List.replicate 8 1 := by decide
  exact hne ((hslot 0).symm.trans (hslot 1))

end Message

/-- Encoding is independent of the two capacities exactly when neither storage
moves away from its length slot. -/
theorem encode_capacity_independent_iff (m : Message) (stored : Bytes) (room₁ room₂ : Nat) :
    m.EncodesAlike stored room₁ room₂ ↔
      m.StaysPut stored.length (stored.length + room₁) ∧
        m.StaysPut stored.length (stored.length + room₂) := by
  constructor
  · intro h
    constructor
    · apply Message.staysPut_of_encode
      intro c
      exact (h (Message.filledStorage stored room₁ c) (Message.filledStorage stored room₂ 0)
        rfl (List.length_replicate ..) rfl (List.length_replicate ..)).2
    · apply Message.staysPut_of_encode
      intro c
      obtain ⟨hsame, himage⟩ :=
        h (Message.filledStorage stored room₁ 0) (Message.filledStorage stored room₂ c)
          rfl (List.length_replicate ..) rfl (List.length_replicate ..)
      rw [← hsame, himage]
  · intro h s₁ s₂ hs₁ hr₁ hs₂ hr₂
    obtain ⟨h₁, h₂⟩ := h
    have himage : ∀ (s : MutableByteStorage) (room : Nat),
        m.StaysPut stored.length (stored.length + room) → s.stored = stored →
        s.spare.length = room → (m.encode s).2.stored = stored ++ m.wire := by
      intro s room hstay hst hr
      have hput : m.StaysPut s.stored.length s.capacity := by
        rw [MutableByteStorage.capacity, hr, hst]
        exact hstay
      rw [Message.encode_stored hput, hst]
    rw [himage s₁ room₁ h₁ hs₁ hr₁, himage s₂ room₂ h₂ hs₂ hr₂]
    exact ⟨rfl, rfl⟩

/-- `probe` takes 31 bytes. From 16 bytes of zeroed memory its storage moves while
the subject is written, and the length slot stays zero. -/
theorem probe_encode_ne :
    (probe.encode (MutableByteStorage.new 16 fun _ _ => 0)).2.stored ≠
      (probe.encode (MutableByteStorage.new 64 fun _ _ => 0)).2.stored := by
  decide

end Fastpath
