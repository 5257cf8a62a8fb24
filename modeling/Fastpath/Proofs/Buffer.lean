import Fastpath.Lib.Steps
import Fastpath.Model.Transport
import Fastpath.Proofs.Encode

/-!
# The message buffer as a queue of bytes

Compaction, growth, the start index and the truncation of what a read left
unused are all invisible. Seen through `bytes`, filling the buffer appends what
was read and `erase_front` drops from the front, as long as the start index
stays inside what is stored, which every operation keeps.
-/

namespace Fastpath

open Fastpath.Lib

namespace MessageBuffer

/-- The start index is inside what is stored. -/
def Sound (b : MessageBuffer) : Prop := b.startIndex ≤ b.storage.stored.length

theorem new_sound (n : Nat) (heap : Nat → Nat → UInt8) : (new n heap).Sound := Nat.zero_le _

theorem bytes_append {b : MessageBuffer} (h : b.Sound) {c : MessageBuffer} {data : Bytes}
    (hstart : c.startIndex = b.startIndex) (hstored : c.storage.stored = b.storage.stored ++ data) :
    c.bytes = b.bytes ++ data ∧ c.Sound := by
  refine ⟨?_, ?_⟩
  · rw [bytes, hstart, hstored, List.drop_append_of_le_length h, bytes]
  · rw [Sound, hstart, hstored, List.length_append]
    exact Nat.le_add_right_of_le h

theorem compact_bytes (b : MessageBuffer) : b.compact.bytes = b.bytes ∧ b.compact.Sound :=
  ⟨rfl, Nat.zero_le _⟩

theorem allocate_eq (b : MessageBuffer) (n : Nat) :
    ∃ c : MessageBuffer, (b.Sound → c.bytes = b.bytes ∧ c.Sound) ∧
      b.allocate n = ((c.storage.allocate n).1,
        { c with storage := (c.storage.allocate n).2 }) := by
  rw [allocate]
  by_cases hcompact : b.startIndex ≠ 0 ∧ b.storage.capacity < b.storage.length + n
  · exact ⟨b.compact, fun _ => b.compact_bytes, by rw [if_pos hcompact]⟩
  · exact ⟨b, fun h => ⟨rfl, h⟩, by rw [if_neg hcompact]⟩

/-- Writing over the front of what was just allocated and giving back the rest of it
stores exactly what was written. -/
theorem fill_stored (c : MessageBuffer) {n : Nat} {data : Bytes} (hdata : data.length ≤ n) :
    (({ c with storage := (c.storage.allocate n).2 }.writeThrough (c.storage.allocate n).1
      data).eraseBack (n - data.length)).storage.stored = c.storage.stored ++ data := by
  have hlen := c.storage.length_reserved n
  have hstored := c.storage.allocate_stored n
  generalize (c.storage.reserve n).spare.take n = t at hlen hstored
  have hsplit : (c.storage.allocate n).2.stored =
      c.storage.stored ++ t.take data.length ++ t.drop data.length := by
    rw [hstored, List.append_assoc, List.take_append_drop]
  have hold : data.length = (t.take data.length).length := by
    rw [List.length_take, hlen, Nat.min_eq_left hdata]
  have hwritten := (MutableByteStorage.writeThrough_stored hsplit
    (c.storage.allocate_ptr n) hold).1
  rw [eraseBack]
  split
  · simp only [writeThrough, MutableByteStorage.truncate, MutableByteStorage.length, hwritten,
      List.length_append, List.length_drop, hlen]
    rw [show c.storage.stored.length + data.length + (n - data.length) - (n - data.length) =
      (c.storage.stored ++ data).length by rw [List.length_append]; omega, List.take_left]
  · next hfull =>
      have hrest : t.drop data.length = [] := by
        rw [List.drop_eq_nil_iff]
        omega
      simp only [writeThrough, hwritten, hrest, List.append_nil]

theorem fill_startIndex (c : MessageBuffer) (p : Ptr) (data : Bytes) (n : Nat) :
    ((c.writeThrough p data).eraseBack n).startIndex = c.startIndex := by
  rw [eraseBack]
  split <;> rfl

theorem fill_bytes {b : MessageBuffer} (h : b.Sound) (data : Bytes)
    (hdata : data.length ≤ mtuSize) :
    (b.fill data).bytes = b.bytes ++ data ∧ (b.fill data).Sound := by
  obtain ⟨c, hc, halloc⟩ := b.allocate_eq mtuSize
  obtain ⟨hbytes, hsound⟩ := hc h
  have hfill : b.fill data =
      ({ c with storage := (c.storage.allocate mtuSize).2 }.writeThrough
        (c.storage.allocate mtuSize).1 data).eraseBack (mtuSize - data.length) := by
    rw [fill, halloc]
  rw [hfill, ← hbytes]
  exact bytes_append hsound (fill_startIndex _ _ _ _) (fill_stored c hdata)

theorem eraseFront_bytes {b : MessageBuffer} (n : Nat) :
    (b.eraseFront n).bytes = b.bytes.drop n ∧ (b.Sound → (b.eraseFront n).Sound) := by
  rw [eraseFront]
  split
  · next hall =>
      rw [MutableByteStorage.length] at hall
      refine ⟨?_, fun _ => Nat.zero_le _⟩
      have hnil : b.bytes.drop n = [] := by
        rw [bytes, List.drop_drop, List.drop_eq_nil_iff]
        omega
      rw [hnil]
      rfl
  · next hsome =>
      rw [MutableByteStorage.length] at hsome
      rw [if_neg (by rw [MutableByteStorage.length]; omega)]
      refine ⟨?_, fun _ => ?_⟩
      · rw [bytes, bytes, List.drop_drop]
      · show b.startIndex + n ≤ b.storage.stored.length
        omega

theorem eraseBack_bytes {b : MessageBuffer} {n : Nat} (h : n ≤ b.length) :
    (b.eraseBack n).bytes = b.bytes.take (b.bytes.length - n) ∧
      (b.Sound → (b.eraseBack n).Sound) := by
  rw [length, MutableByteStorage.length] at h
  rw [eraseBack]
  split
  · refine ⟨?_, fun hs => ?_⟩
    · show (b.storage.stored.take (b.storage.stored.length - n)).drop b.startIndex = _
      rw [bytes, List.drop_take, List.length_drop]
      congr 1
      omega
    · rw [Sound] at hs
      show b.startIndex ≤ (b.storage.stored.take (b.storage.stored.length - n)).length
      rw [List.length_take]
      omega
  · next hzero =>
      rw [Nat.eq_zero_of_not_pos hzero, Nat.sub_zero, List.take_length]
      exact ⟨rfl, id⟩

/-! ## Any sequence of calls -/

inductive Call where
  | append (data : Bytes)
  /-- `allocate(data.length)`, and the bytes it answers with filled in. -/
  | allocate (data : Bytes)
  | mutableAppend (data : Bytes)
  | mutableAppendFrom (src : ByteStorage) (length : Nat)
  | mutableAppendScalar (w value : Nat)
  | eraseBack (length : Nat)
  | eraseFront (length : Nat)
  | clear

def call (b : MessageBuffer) : Call → MessageBuffer
  | .append data => b.append data
  | .allocate data => (b.allocate data.length).2.writeThrough (b.allocate data.length).1 data
  | .mutableAppend data => b.mutableBuffer (·.append data)
  | .mutableAppendFrom src length => b.mutableBuffer (·.appendFrom src length)
  | .mutableAppendScalar w value => b.mutableBuffer (·.appendScalar w value)
  | .eraseBack length => b.eraseBack length
  | .eraseFront length => b.eraseFront length
  | .clear => b.clear

/-- What a call does to a queue. -/
def queued (l : Bytes) : Call → Bytes
  | .append data | .allocate data | .mutableAppend data => l ++ data
  | .mutableAppendFrom src length => l ++ src.bytes.take length
  | .mutableAppendScalar w value => l ++ leBytes w value
  | .eraseBack length => l.take (l.length - length)
  | .eraseFront length => l.drop length
  | .clear => []

/-- A buffer and a queue, side by side. -/
def step (s : MessageBuffer × Bytes) (c : Call) : MessageBuffer × Bytes :=
  (s.1.call c, queued s.2 c)

/-- No more is erased than there is. -/
def Within (s : MessageBuffer × Bytes) : Call → Prop
  | .eraseBack length | .eraseFront length => length ≤ s.1.length
  | _ => True

instance decidableWithin (s : MessageBuffer × Bytes) (c : Call) : Decidable (Within s c) :=
  match c with
  | .eraseBack length | .eraseFront length => inferInstanceAs (Decidable (length ≤ s.1.length))
  | .append _ | .allocate _ | .mutableAppend _ | .mutableAppendFrom .. | .mutableAppendScalar ..
  | .clear => .isTrue trivial

/-- The buffer shows the queue, through whatever it is looked at. -/
structure Shows (b : MessageBuffer) (l : Bytes) : Prop where
  bytes : b.bytes = l
  get : ∀ i (h : i < l.length), b.get i = some l[i]
  byteStorage : b.byteStorage = .ofBytes l
  length : b.length = l.length
  start : b.startIndex ≤ b.storage.length
  capacity : b.storage.length ≤ b.storage.capacity
  compacted : b.compact.bytes = b.bytes
  grown : ∀ n, (b.mutableBuffer (·.grow n)).bytes = b.bytes

theorem shows_of_bytes {b : MessageBuffer} {l : Bytes} (h : b.bytes = l) (hs : b.Sound) :
    b.Shows l where
  bytes := h
  get i hi := by
    rw [← h, MessageBuffer.bytes, List.length_drop] at hi
    rw [MessageBuffer.get, if_pos (by rw [MutableByteStorage.length]; omega),
      List.getElem?_append_left (by omega), List.getElem?_eq_getElem (by omega)]
    simp only [← h, MessageBuffer.bytes, List.getElem_drop]
  byteStorage := congrArg ByteStorage.ofBytes h
  length := by
    rw [← h, MessageBuffer.bytes, List.length_drop, MessageBuffer.length, MutableByteStorage.length]
  start := hs
  capacity := Nat.le_add_right _ _
  compacted := b.compact_bytes.1
  grown _ := rfl

theorem append_bytes {b : MessageBuffer} (h : b.Sound) (data : Bytes) :
    (b.append data).bytes = b.bytes ++ data ∧ (b.append data).Sound := by
  refine bytes_append h rfl ?_
  rw [append, MutableByteStorage.append_eq]

theorem allocate_bytes {b : MessageBuffer} (h : b.Sound) (data : Bytes) :
    (b.call (.allocate data)).bytes = b.bytes ++ data ∧ (b.call (.allocate data)).Sound := by
  obtain ⟨c, hc, halloc⟩ := b.allocate_eq data.length
  obtain ⟨hbytes, hsound⟩ := hc h
  have hstored := c.fill_stored (Nat.le_refl data.length)
  rw [Nat.sub_self, eraseBack, if_neg (Nat.lt_irrefl 0)] at hstored
  rw [call, halloc, ← hbytes]
  exact bytes_append hsound rfl hstored

theorem call_bytes {b : MessageBuffer} (h : b.Sound) {c : Call} (hc : Within (b, b.bytes) c) :
    (b.call c).bytes = queued b.bytes c ∧ (b.call c).Sound := by
  cases c with
  | append data => exact append_bytes h data
  | allocate data => exact allocate_bytes h data
  | mutableAppend data => exact append_bytes h data
  | mutableAppendFrom src length =>
      have htake : src.bytes.take (min src.length length) = src.bytes.take length := by
        rw [ByteStorage.length, Nat.min_comm, ← List.take_take, List.take_length]
      rw [queued, ← htake]
      exact append_bytes h _
  | mutableAppendScalar w value => exact append_bytes h (leBytes w value)
  | eraseBack length => exact ⟨(eraseBack_bytes hc).1, (eraseBack_bytes hc).2 h⟩
  | eraseFront length => exact ⟨(eraseFront_bytes length).1, (eraseFront_bytes length).2 h⟩
  | clear => exact ⟨rfl, Nat.zero_le _⟩

/-- A buffer is a queue of bytes, whatever it does with its memory. -/
theorem always_shows (initialAllocation : Nat) (heap : Nat → Nat → UInt8) (calls : List Call)
    (hwithin : Along step Within (new initialAllocation heap, []) calls) :
    Always step (fun s => s.1.Shows s.2) (new initialAllocation heap, []) calls := by
  have hinit : (new initialAllocation heap).bytes = [] ∧ (new initialAllocation heap).Sound :=
    ⟨rfl, new_sound _ _⟩
  refine (hwithin.always (I := fun s => s.1.bytes = s.2 ∧ s.1.Sound) ?_ hinit).mono
    fun s hs => shows_of_bytes hs.1 hs.2
  rintro ⟨b, l⟩ c ⟨hbytes, hs⟩ hc
  dsimp only at hbytes hs
  subst hbytes
  exact call_bytes hs hc

theorem compacted_shows :
    Always step (fun s => s.1.Shows s.2) (new 4 fun _ _ => 0, [])
      [.append [1, 2, 3], .eraseFront 2, .allocate [4, 5], .eraseBack 3, .eraseFront 0,
        .mutableAppendScalar 2 258] :=
  always_shows 4 _ _ (by decide)

end MessageBuffer

end Fastpath
