import Fastpath.Lib.Steps
import Fastpath.Proofs.Encode

/-!
# A storage without its capacity

Seen from outside a storage is a stream: what has been written at each position,
how much of that is stored, and two positions. Two storages of different
capacities that are used alike follow one stream, and neither moves without
carrying its pointers over, except in `setData`: there the old allocation is
gone and both pointers still point into it.

A byte that is stored but that nobody has written is whatever the memory held,
so it is only the written ones that two storages have in common.
-/

namespace Fastpath

open Fastpath.Lib

/-! ## The stream -/

structure Stream where
  /-- The byte that was written at a position last, if there was one. -/
  written : Nat → Option UInt8
  length : Nat
  read : Nat
  marked : Nat

namespace Stream

def new : Stream := ⟨fun _ => none, 0, 0, 0⟩

def write (t : Stream) (offset : Nat) (data : Bytes) : Stream :=
  { t with
    written := fun i =>
      if offset ≤ i ∧ i < offset + data.length then data[i - offset]? else t.written i }

def allocate (t : Stream) (length : Nat) : Stream := { t with length := t.length + length }

end Stream

namespace MutableByteStorage

inductive Call where
  | setData (data : Bytes)
  /-- `allocate(length)`, and some bytes from the one it answers with on filled in. -/
  | allocate (length : Nat) (fill : Bytes)
  | append (data : Bytes)
  | appendScalar (w value : Nat)
  | clear
  | advanceRead (distance : Nat)
  | readScalar (w : Nat)
  | mark
  | resetRead

def call (s : MutableByteStorage) : Call → MutableByteStorage
  | .setData data => s.setData data
  | .allocate length fill => (s.allocate length).2.writeThrough (s.allocate length).1 fill
  | .append data => s.append data
  | .appendScalar w value => s.appendScalar w value
  | .clear => s.clear
  | .advanceRead distance => s.advanceRead distance
  | .readScalar w => ((readScalar w).run s).2
  | .mark => s.mark
  | .resetRead => s.resetRead

/-- What a call does to a stream. -/
def asked (t : Stream) : Call → Stream
  | .setData data => { t.write 0 data with length := data.length }
  | .allocate length fill => (t.allocate length).write t.length fill
  | .append data => (t.allocate data.length).write t.length data
  | .appendScalar w value => (t.allocate w).write t.length (leBytes w value)
  | .clear => { t with length := 0, read := 0, marked := 0 }
  | .advanceRead distance | .readScalar distance => { t with read := t.read + distance }
  | .mark => { t with marked := t.read }
  | .resetRead => { t with read := t.marked }

/-! ## One storage -/

/-- All of the allocation. -/
def memory (s : MutableByteStorage) : Bytes := s.stored ++ s.spare

theorem capacity_eq (s : MutableByteStorage) : s.capacity = s.memory.length :=
  List.length_append.symm

/-- The allocation, with `length` bytes of it stored. -/
def resplit (s : MutableByteStorage) (length : Nat) : MutableByteStorage :=
  { s with stored := s.memory.take length, spare := s.memory.drop length }

theorem memory_resplit (s : MutableByteStorage) (length : Nat) :
    (s.resplit length).memory = s.memory := List.take_append_drop _ _

/-- The storage and the stream agree, and the pointers are into the allocation. -/
structure Follows (s : MutableByteStorage) (t : Stream) : Prop where
  length : s.length = t.length
  read : s.readPtr = ⟨s.block, t.read⟩
  marked : s.markPtr = ⟨s.block, t.marked⟩
  inside : t.read ≤ s.capacity ∧ t.marked ≤ s.capacity
  written : ∀ i b, t.written i = some b → s.memory[i]? = some b

theorem follows_new (allocation : Nat) (heap : Nat → Nat → UInt8) :
    (new allocation heap).Follows .new where
  length := rfl
  read := rfl
  marked := rfl
  inside := ⟨Nat.zero_le _, Nat.zero_le _⟩
  written i b h := by cases h

variable {s : MutableByteStorage} {t : Stream}

theorem Follows.resplit (h : s.Follows t) {length : Nat} (hfits : length ≤ s.capacity) :
    (s.resplit length).Follows { t with length := length } where
  length := by
    rw [capacity_eq] at hfits
    rw [MutableByteStorage.length, MutableByteStorage.resplit, List.length_take,
      Nat.min_eq_left hfits]
  read := h.read
  marked := h.marked
  inside := by
    rw [capacity_eq, memory_resplit, ← capacity_eq]
    exact h.inside
  written := by
    rw [memory_resplit]
    exact h.written

/-- A move to a larger allocation takes everything along. -/
theorem Follows.reserve (h : s.Follows t) (n : Nat) : (s.reserve n).Follows t := by
  rw [MutableByteStorage.reserve]
  split
  · refine ⟨h.length, ?_, ?_, ?_, fun i b hb => ?_⟩
    · show s.rebase s.readPtr = _
      rw [rebase, h.read, if_pos rfl]
      rfl
    · show s.rebase s.markPtr = _
      rw [rebase, h.marked, if_pos rfl]
      rfl
    · have hinside := h.inside
      simp only [capacity, grow, List.length_append] at hinside ⊢
      omega
    · have hold := h.written i b hb
      obtain ⟨hlt, -⟩ := List.getElem?_eq_some_iff.mp hold
      rw [memory, grow, ← List.append_assoc]
      exact (List.getElem?_append_left hlt).trans hold
  · exact h

theorem getElem?_splice {l data : Bytes} {i : Nat} (hfits : i + data.length ≤ l.length) (j : Nat) :
    (splice l i data)[j]? = if i ≤ j ∧ j < i + data.length then data[j - i]? else l[j]? := by
  have hfront : (l.take i).length = i := by
    rw [List.length_take]
    omega
  rw [splice, List.append_assoc]
  split
  · next hin =>
      rw [List.getElem?_append_right (by omega), hfront, List.getElem?_append_left (by omega)]
  · next hout =>
      rcases Nat.lt_or_ge j i with hlt | hge
      · rw [List.getElem?_append_left (by omega), List.getElem?_take_of_lt hlt]
      · rw [List.getElem?_append_right (by omega), List.getElem?_append_right (by omega), hfront,
          List.getElem?_drop]
        congr 1
        omega

theorem length_splice {l data : Bytes} {i : Nat} (hfits : i + data.length ≤ l.length) :
    (splice l i data).length = l.length := by
  rw [splice, List.length_append, List.length_append, List.length_take, List.length_drop]
  omega

/-- Written into memory, with the same length stored as before. -/
def overwrite (s : MutableByteStorage) (offset : Nat) (data : Bytes) : MutableByteStorage :=
  { s with
    stored := (splice s.memory offset data).take s.stored.length
    spare := (splice s.memory offset data).drop s.stored.length }

theorem memory_overwrite (s : MutableByteStorage) (offset : Nat) (data : Bytes) :
    (s.overwrite offset data).memory = splice s.memory offset data := List.take_append_drop _ _

theorem capacity_overwrite {offset : Nat} {data : Bytes}
    (hfits : offset + data.length ≤ s.capacity) :
    (s.overwrite offset data).capacity = s.capacity := by
  rw [capacity_eq] at hfits
  rw [capacity_eq, memory_overwrite, length_splice hfits, ← capacity_eq]

theorem Follows.overwrite (h : s.Follows t) {offset : Nat} {data : Bytes}
    (hfits : offset + data.length ≤ s.capacity) :
    (s.overwrite offset data).Follows (t.write offset data) := by
  have hcapacity := capacity_overwrite hfits
  rw [capacity_eq] at hfits
  refine ⟨?_, h.read, h.marked, ?_, fun i b hb => ?_⟩
  · have hstored : s.stored.length ≤ s.memory.length := by
      rw [memory, List.length_append]
      exact Nat.le_add_right _ _
    show ((splice s.memory offset data).take s.stored.length).length = t.length
    rw [List.length_take, length_splice hfits, Nat.min_eq_left hstored]
    exact h.length
  · rw [hcapacity]
    exact h.inside
  · rw [memory_overwrite, getElem?_splice hfits]
    rw [Stream.write] at hb
    dsimp only at hb
    split
    · next hin => rwa [if_pos hin] at hb
    · next hout =>
        rw [if_neg hout] at hb
        exact h.written i b hb

theorem allocate_eq_resplit (s : MutableByteStorage) (n : Nat) :
    (s.allocate n).2 = (s.reserve n).resplit (s.length + n) := by
  have hstored : (s.reserve n).stored ++ (s.reserve n).spare.take n =
      (s.reserve n).memory.take (s.length + n) := by
    rw [memory, MutableByteStorage.length, ← s.reserve_stored n, List.take_length_add_append]
  have hspare : (s.reserve n).spare.drop n = (s.reserve n).memory.drop (s.length + n) := by
    rw [memory, MutableByteStorage.length, ← s.reserve_stored n, List.drop_length_add_append]
  rw [allocate, resplit, ← hstored, ← hspare]

theorem Follows.allocate (h : s.Follows t) {n : Nat} {fill : Bytes} (hfill : fill.length ≤ n) :
    ((s.allocate n).2.writeThrough (s.allocate n).1 fill).Follows
      ((t.allocate n).write t.length fill) := by
  have hroom : s.length + n ≤ (s.reserve n).capacity := by
    have hspare := s.le_spare_reserve n
    rw [capacity, reserve_stored, MutableByteStorage.length]
    omega
  have hgrown := (h.reserve n).resplit hroom
  have hptr : (s.allocate n).1 = ⟨((s.reserve n).resplit (s.length + n)).block, t.length⟩ := by
    rw [← h.length, MutableByteStorage.length, ← s.reserve_stored n]
    rfl
  rw [h.length] at hgrown hroom hptr
  rw [allocate_eq_resplit, h.length, hptr, writeThrough, if_pos rfl]
  refine hgrown.overwrite ?_
  rw [capacity_eq, memory_resplit, ← capacity_eq]
  exact (Nat.add_le_add_left hfill _).trans hroom

/-- As long as it need not move, `setData` writes over what there is. -/
theorem Follows.setData (h : s.Follows t) {data : Bytes} (hfits : data.length ≤ s.capacity) :
    (s.setData data).Follows { t.write 0 data with length := data.length } := by
  have hroom : 0 + data.length ≤ s.capacity := by rwa [Nat.zero_add]
  have heq : s.setData data = (s.overwrite 0 data).resplit data.length := by
    rw [MutableByteStorage.setData, if_neg (Nat.not_lt.mpr hfits), MutableByteStorage.resplit,
      memory_overwrite]
    rfl
  rw [heq]
  refine (h.overwrite hroom).resplit ?_
  rwa [capacity_overwrite hroom]

theorem Follows.clear (h : s.Follows t) :
    s.clear.Follows { t with length := 0, read := 0, marked := 0 } where
  length := rfl
  read := rfl
  marked := rfl
  inside := ⟨Nat.zero_le _, Nat.zero_le _⟩
  written := h.written

/-- Reading goes no further than what is stored, and what is allocated is filled in no further. -/
def Legal (t : Stream) : Call → Prop
  | .advanceRead distance | .readScalar distance => t.read + distance ≤ t.length
  | .allocate length fill => fill.length ≤ length
  | _ => True

instance decidableLegal (t : Stream) (c : Call) : Decidable (Legal t c) :=
  match c with
  | .advanceRead distance | .readScalar distance =>
      inferInstanceAs (Decidable (t.read + distance ≤ t.length))
  | .allocate length fill => inferInstanceAs (Decidable (fill.length ≤ length))
  | .setData _ | .append _ | .appendScalar .. | .clear | .mark | .resetRead => .isTrue trivial

/-- The call does not make the storage replace its allocation without a word to the pointers. -/
def Fits (s : MutableByteStorage) : Call → Prop
  | .setData data => data.length ≤ s.capacity
  | _ => True

theorem Follows.advanceRead (h : s.Follows t) {n : Nat} (hn : t.read + n ≤ t.length) :
    (s.advanceRead n).Follows { t with read := t.read + n } where
  length := h.length
  read := by rw [MutableByteStorage.advanceRead, h.read]
  marked := h.marked
  inside := by
    refine ⟨?_, h.inside.2⟩
    have hlen := h.length
    rw [MutableByteStorage.length] at hlen
    show t.read + n ≤ s.stored.length + s.spare.length
    omega
  written := h.written

theorem Follows.call (h : s.Follows t) {c : Call} (hlegal : Legal t c) (hfits : s.Fits c) :
    (s.call c).Follows (asked t c) := by
  cases c with
  | setData data => exact h.setData hfits
  | allocate length fill => exact h.allocate hlegal
  | append data => exact h.allocate (Nat.le_refl _)
  | appendScalar w value =>
      have happend := h.allocate (Nat.le_refl (leBytes w value).length)
      rw [leBytes_length] at happend
      show ((s.allocate (leBytes w value).length).2.writeThrough
        (s.allocate (leBytes w value).length).1 (leBytes w value)).Follows _
      rw [leBytes_length]
      exact happend
  | clear => exact h.clear
  | advanceRead distance => exact h.advanceRead hlegal
  | readScalar w => exact h.advanceRead hlegal
  | mark => exact ⟨h.length, h.read, h.read, ⟨h.inside.1, h.inside.1⟩, h.written⟩
  | resetRead => exact ⟨h.length, h.marked, h.marked, ⟨h.inside.2, h.inside.2⟩, h.written⟩

theorem Follows.bytesRead (h : s.Follows t) : s.bytesRead = some t.read := by
  rw [MutableByteStorage.bytesRead, h.read, if_pos rfl]

theorem Follows.bytesRead_resetRead (h : s.Follows t) :
    s.resetRead.bytesRead = some t.marked := by
  rw [MutableByteStorage.bytesRead, resetRead, h.marked, if_pos rfl]

theorem Follows.remainingReadLength (h : s.Follows t) :
    s.remainingReadLength =
      some (if t.read ≤ t.length then t.length - t.read else 2 ^ 64 - (t.read - t.length)) := by
  have hlen := h.length
  rw [MutableByteStorage.length] at hlen
  rw [MutableByteStorage.remainingReadLength, h.bytesRead, Option.map_some,
    ByteStorage.remainingReadLength, hlen]

theorem Follows.stored (h : s.Follows t) {i : Nat} {b : UInt8} (hi : i < t.length)
    (hb : t.written i = some b) : s.stored[i]? = some b := by
  have hmem := h.written i b hb
  have hlen := h.length
  rw [MutableByteStorage.length] at hlen
  rwa [memory, List.getElem?_append_left (by omega)] at hmem

/-- Once it has moved in `setData`, the storage has no read position. -/
theorem Follows.bytesRead_setData (h : s.Follows t) {data : Bytes}
    (hover : s.capacity < data.length) : (s.setData data).bytesRead = none := by
  rw [MutableByteStorage.setData, if_pos hover, MutableByteStorage.bytesRead]
  dsimp only
  rw [h.read, if_neg (Nat.ne_of_lt (Nat.lt_succ_self s.block))]

end MutableByteStorage

/-! ## Two storages -/

/-- Two storages that are used alike, and the stream that they are used as. -/
structure Twins where
  first : MutableByteStorage
  second : MutableByteStorage
  stream : Stream

namespace Twins

open MutableByteStorage

def new (allocation allocation' : Nat) (heap heap' : Nat → Nat → UInt8) : Twins :=
  ⟨.new allocation heap, .new allocation' heap', .new⟩

def step (w : Twins) (c : Call) : Twins := ⟨w.first.call c, w.second.call c, asked w.stream c⟩

/-- Nothing that can be asked of a storage tells the two apart, and both their positions are in
their allocations. -/
structure Alike (w : Twins) : Prop where
  length : w.first.length = w.second.length
  stored : ∀ i b, i < w.first.length → w.stream.written i = some b →
    w.first.stored[i]? = some b ∧ w.second.stored[i]? = some b
  read : ∃ r, w.first.bytesRead = some r ∧ w.second.bytesRead = some r ∧
    r ≤ w.first.capacity ∧ r ≤ w.second.capacity
  remaining : w.first.remainingReadLength = w.second.remainingReadLength
  marked : ∃ r, w.first.resetRead.bytesRead = some r ∧ w.second.resetRead.bytesRead = some r ∧
    r ≤ w.first.capacity ∧ r ≤ w.second.capacity

theorem alike_of_follows {w : Twins} (h : w.first.Follows w.stream)
    (h' : w.second.Follows w.stream) :
    w.Alike where
  length := h.length.trans h'.length.symm
  stored i b hi hb := by
    rw [h.length] at hi
    exact ⟨h.stored hi hb, h'.stored hi hb⟩
  read := ⟨w.stream.read, h.bytesRead, h'.bytesRead, h.inside.1, h'.inside.1⟩
  remaining := h.remainingReadLength.trans h'.remainingReadLength.symm
  marked := ⟨w.stream.marked, h.bytesRead_resetRead, h'.bytesRead_resetRead,
    h.inside.2, h'.inside.2⟩

/-- No capacity shows exactly if no data is set for which either storage has to move. -/
theorem always_alike_iff (allocation allocation' : Nat) (heap heap' : Nat → Nat → UInt8)
    (calls : List Call)
    (hlegal : Along step (fun w => Legal w.stream) (new allocation allocation' heap heap') calls) :
    Always step Alike (new allocation allocation' heap heap') calls ↔
      Along step (fun w c => w.first.Fits c ∧ w.second.Fits c)
        (new allocation allocation' heap heap') calls := by
  refine hlegal.always_iff (I := fun w => w.first.Follows w.stream ∧ w.second.Follows w.stream)
    (fun w hw => alike_of_follows hw.1 hw.2) (fun w c hw hc hfits => ?_)
    (fun w c hw _ hover halike => ?_) ⟨follows_new allocation heap, follows_new allocation' heap'⟩
  · exact ⟨hw.1.call hc hfits.1, hw.2.call hc hfits.2⟩
  · obtain ⟨r, hread, hread', -⟩ := halike.read
    cases c with
    | setData data =>
        rcases not_and_or.mp hover with hover | hover
        · have hnone := hw.1.bytesRead_setData (Nat.not_le.mp hover)
          exact Option.some_ne_none r (hread.symm.trans hnone)
        · have hnone := hw.2.bytesRead_setData (Nat.not_le.mp hover)
          exact Option.some_ne_none r (hread'.symm.trans hnone)
    | _ => exact hover ⟨trivial, trivial⟩

theorem read_alike :
    Always step Alike (new 1 4 (fun _ _ => 7) fun _ i => UInt8.ofNat i)
        [.append [1, 2], .advanceRead 1, .mark, .allocate 3 [5], .readScalar 2, .setData [9],
          .resetRead] ↔
      Along step (fun w c => w.first.Fits c ∧ w.second.Fits c)
        (new 1 4 (fun _ _ => 7) fun _ i => UInt8.ofNat i)
        [.append [1, 2], .advanceRead 1, .mark, .allocate 3 [5], .readScalar 2, .setData [9],
          .resetRead] :=
  always_alike_iff 1 4 _ _ _ (by decide)

/-- Two bytes are set in a storage that was made for one and in a storage that was made for two. -/
theorem moved_not_alike :
    ¬ Always step Alike (new 1 2 (fun _ _ => 0) fun _ _ => 0) [.setData [1, 2]] := by
  intro h
  obtain ⟨r, hread, -⟩ := h.2.read
  have hnone : ((new 1 2 (fun _ _ => 0) fun _ _ => 0).step (.setData [1, 2])).first.bytesRead =
      none := by decide
  exact Option.some_ne_none r (hread.symm.trans hnone)

end Twins

end Fastpath
