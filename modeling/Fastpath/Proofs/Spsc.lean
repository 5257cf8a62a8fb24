import Fastpath.Lib.Steps
import Fastpath.Model.Spsc
import Fastpath.Proofs.Ring

/-!
# The two threads of a ring

Cut into its accesses, the ring is still the atomic one. A `push` happens at its
store of `m_head`: before that it only scribbles on the cell at the head, which
holds nothing yet. A `pop` happens at its store of `m_tail`: before that it has
emptied the cell at the tail, and the ring as it was is had back by putting the
object where it came from. `settled` does that, and it is `settled` that
represents the list of what is held.

What one thread has read stays true while the other goes on, because only the
producer moves the head and only the consumer moves the tail: room once found is
still there at the store, and so is something to pop.
-/

namespace Fastpath

namespace RingBuffer.Represents

variable {α : Type} {size : Nat} {r : RingBuffer α size} {l : List α}

theorem head_eq_tail_iff (h : r.Represents l) : r.tail = r.head ↔ l = [] := by
  have htail := h.tail_lt
  have hroom := h.room
  rw [h.head, wrap htail (Nat.le_of_lt hroom), ← List.length_eq_zero_iff]
  split <;> omega

/-- The cell at the head holds nothing, so it may be written. -/
theorem update_head (h : r.Represents l) (cell : Option α) :
    ({ r with cells := Function.update r.cells r.head cell } : RingBuffer α size).Represents l := by
  refine ⟨h.tail_lt, h.room, h.head, fun i a hi => ?_⟩
  have hlt : i < l.length := (List.getElem?_eq_some_iff.mp hi).1
  have htail := h.tail_lt
  have hroom := h.room
  show Function.update r.cells r.head cell ((r.tail + i) % size) = some a
  rw [Function.update_of_ne, h.cells i a hi]
  rw [h.head, wrap htail (by omega), wrap htail (by omega)]
  split <;> split <;> omega

end RingBuffer.Represents

namespace Spsc

open Fastpath.Lib

variable {α : Type} {size : Nat} {s : Spsc α size} {l : List α}

/-- The ring, with an object that is being popped back in its cell. -/
def settled (s : Spsc α size) : RingBuffer α size :=
  match s.consumer with
  | .destroyed tail object => { s.ring with cells := Function.update s.ring.cells tail object }
  | _ => s.ring

@[simp] theorem head_settled (s : Spsc α size) : s.settled.head = s.ring.head := by
  rw [settled]
  split <;> rfl

@[simp] theorem tail_settled (s : Spsc α size) : s.settled.tail = s.ring.tail := by
  rw [settled]
  split <;> rfl

/-! No access of one thread moves the other. -/

@[simp] theorem consumer_startPush (object : α) :
    (s.startPush object).consumer = s.consumer := by
  rw [startPush]
  split <;> rfl

@[simp] theorem consumer_continuePush : s.continuePush.2.consumer = s.consumer := by
  rw [continuePush]
  split
  · rfl
  · split <;> rfl
  · rfl
  · rfl

@[simp] theorem producer_startPop : s.startPop.producer = s.producer := by
  rw [startPop]
  split <;> rfl

@[simp] theorem producer_continuePop : s.continuePop.2.producer = s.producer := by
  rw [continuePop]
  split
  · rfl
  · split <;> rfl
  · rfl
  · rfl
  · rfl

theorem producer_of_continuePush {answer : Bool} (h : s.continuePush.1 = some answer) :
    s.continuePush.2.producer = .idle := by
  cases hpc : s.producer with
  | idle =>
      rw [continuePush, hpc] at h
      cases h
  | loaded object head =>
      rw [continuePush, hpc] at h ⊢
      dsimp only at h ⊢
      split at h
      · next hfull =>
          rw [if_pos hfull]
      · cases h
  | checked object head =>
      rw [continuePush, hpc] at h
      cases h
  | constructed object head => rw [continuePush, hpc]

/-- What a `push` has found out and done holds on. -/
def Pushes (s : Spsc α size) (l : List α) : Prop :=
  match s.producer with
  | .idle => True
  | .loaded _ head => head = s.ring.head
  | .checked _ head => head = s.ring.head ∧ l.length + 1 < size
  | .constructed object head =>
      head = s.ring.head ∧ l.length + 1 < size ∧ s.ring.cells head = some object

/-- What a `pop` has found out and done holds on. -/
def Pops (s : Spsc α size) (l : List α) : Prop :=
  match s.consumer with
  | .idle => True
  | .loaded tail => tail = s.ring.tail
  | .checked tail => tail = s.ring.tail ∧ l ≠ []
  | .moved tail object => tail = s.ring.tail ∧ l ≠ [] ∧ s.ring.cells tail = object
  | .destroyed tail _ => tail = s.ring.tail ∧ l ≠ [] ∧ s.ring.cells tail = none

/-- The other thread has moved: the head is where it was, and its cell as it was, and there is
no less room. -/
theorem Pushes.frame {s' : Spsc α size} {l' : List α} (h : s.Pushes l)
    (hproducer : s'.producer = s.producer) (hhead : s'.ring.head = s.ring.head)
    (hroom : l'.length ≤ l.length)
    (hcell : s'.ring.cells s.ring.head = s.ring.cells s.ring.head) : s'.Pushes l' := by
  rw [Pushes] at h ⊢
  rw [hproducer, hhead]
  cases hpc : s.producer with
  | idle => trivial
  | loaded object head =>
      rw [hpc] at h
      exact h
  | checked object head =>
      rw [hpc] at h
      exact ⟨h.1, by omega⟩
  | constructed object head =>
      rw [hpc] at h
      obtain ⟨rfl, hlt, hobject⟩ := h
      exact ⟨rfl, by omega, hcell.trans hobject⟩

/-- The other thread has moved: the tail is where it was, and there is still something, as it
was. -/
theorem Pops.frame {s' : Spsc α size} {l' : List α} (h : s.Pops l)
    (hconsumer : s'.consumer = s.consumer) (htail : s'.ring.tail = s.ring.tail)
    (hsome : l ≠ [] → l' ≠ [])
    (hcell : l ≠ [] → s'.ring.cells s.ring.tail = s.ring.cells s.ring.tail) : s'.Pops l' := by
  rw [Pops] at h ⊢
  rw [hconsumer, htail]
  cases hpc : s.consumer with
  | idle => trivial
  | loaded tail =>
      rw [hpc] at h
      exact h
  | checked tail =>
      rw [hpc] at h
      exact ⟨h.1, hsome h.2⟩
  | moved tail object =>
      rw [hpc] at h
      obtain ⟨rfl, hne, hobject⟩ := h
      exact ⟨rfl, hsome hne, (hcell hne).trans hobject⟩
  | destroyed tail object =>
      rw [hpc] at h
      obtain ⟨rfl, hne, hempty⟩ := h
      exact ⟨rfl, hsome hne, (hcell hne).trans hempty⟩

/-- The two threads hold `l` between them. -/
structure Holds (s : Spsc α size) (l : List α) : Prop where
  ring : s.settled.Represents l
  accepted : s.accepted.map some = s.popped ++ l.map some
  producer : s.Pushes l
  consumer : s.Pops l
  refused : ∀ n ∈ s.refused, n + 1 = size
  missed : ∀ n ∈ s.missed, n = 0

/-- Everything that is promised of a ring between one producer and one consumer. -/
structure Linear (s : Spsc α size) : Prop where
  popped : s.popped <+: s.accepted.map some
  apart : ∀ i j, s.writing = some i → s.reading = some j → i ≠ j
  refused : ∀ n ∈ s.refused, n + 1 = size
  missed : ∀ n ∈ s.missed, n = 0
  length : s.producer = .idle → s.consumer = .idle →
    s.ring.length = s.accepted.length - s.popped.length

theorem holds_new (hsize : 0 < size) : (new : Spsc α size).Holds [] :=
  ⟨RingBuffer.represents_new hsize, rfl, trivial, trivial, fun _ h => (by cases h),
    fun _ h => (by cases h)⟩

namespace Holds

theorem held_eq (h : s.Holds l) : s.held = l.length := by
  have hlength := congrArg List.length h.accepted
  rw [List.length_append, List.length_map, List.length_map] at hlength
  rw [held]
  omega

/-- While there is something to pop, the cell at the head is not the one at the tail. -/
theorem head_ne_tail (h : s.Holds l) (hne : l ≠ []) : s.ring.head ≠ s.ring.tail := by
  intro heq
  have hiff := h.ring.head_eq_tail_iff
  rw [head_settled, tail_settled] at hiff
  exact hne (hiff.mp heq.symm)

theorem writing_eq (h : s.Holds l) {i : Nat} (hi : s.writing = some i) : i = s.ring.head := by
  have hproducer := h.producer
  rw [writing] at hi
  rw [Pushes] at hproducer
  split at hi
  · next hpc =>
      rw [hpc] at hproducer
      cases hi
      exact hproducer.1
  · next hpc =>
      rw [hpc] at hproducer
      cases hi
      exact hproducer.1
  · cases hi

theorem reading_eq (h : s.Holds l) {j : Nat} (hj : s.reading = some j) :
    j = s.ring.tail ∧ l ≠ [] := by
  have hconsumer := h.consumer
  rw [reading] at hj
  rw [Pops] at hconsumer
  split at hj
  · next hpc =>
      rw [hpc] at hconsumer
      cases hj
      exact hconsumer
  · next hpc =>
      rw [hpc] at hconsumer
      cases hj
      exact ⟨hconsumer.1, hconsumer.2.1⟩
  · next hpc =>
      rw [hpc] at hconsumer
      cases hj
      exact ⟨hconsumer.1, hconsumer.2.1⟩
  · cases hj

theorem linear (h : s.Holds l) : s.Linear := by
  refine ⟨⟨l.map some, h.accepted.symm⟩, fun i j hi hj => ?_, h.refused, h.missed, ?_⟩
  · obtain ⟨htail, hne⟩ := h.reading_eq hj
    rw [h.writing_eq hi, htail]
    exact h.head_ne_tail hne
  · intro _ hidle
    have hlength := h.ring.length_eq
    rw [settled, hidle] at hlength
    rw [hlength]
    exact h.held_eq.symm

theorem startPush (h : s.Holds l) (object : α) : (s.startPush object).Holds l := by
  rw [Spsc.startPush]
  split
  · exact ⟨h.ring, h.accepted, rfl, h.consumer, h.refused, h.missed⟩
  · exact h

theorem startPop (h : s.Holds l) : s.startPop.Holds l := by
  rw [Spsc.startPop]
  split
  · next hidle =>
      refine ⟨?_, h.accepted, h.producer, rfl, h.refused, h.missed⟩
      have hring := h.ring
      rw [settled, hidle] at hring
      exact hring
  · exact h

/-- `m_tail` is read: the ring has one cell to spare or it has not. -/
theorem full_iff (h : s.Holds l) :
    RingBuffer.next size s.ring.head = s.ring.tail ↔ l.length + 1 = size := by
  have hiff := h.ring.full_iff
  rwa [head_settled, tail_settled] at hiff

/-- A cell other than the one being popped is settled. -/
theorem settled_cells (h : s.Holds l) {i : Nat} (hi : l ≠ [] → i ≠ s.ring.tail) :
    s.settled.cells i = s.ring.cells i := by
  have hconsumer := h.consumer
  rw [Pops] at hconsumer
  rw [settled]
  split
  · next hpc =>
      rw [hpc] at hconsumer
      refine Function.update_of_ne ?_ _ _
      rw [hconsumer.1]
      exact hi hconsumer.2.1
  · rfl

/-- Writing the free cell: the settled ring is written there too. -/
theorem construct (h : s.Holds l) {object : α} {head : Nat}
    (hpc : s.producer = .checked object head) : s.continuePush.2.Holds l := by
  have hproducer := h.producer
  rw [Pushes, hpc] at hproducer
  obtain ⟨rfl, hroom⟩ := hproducer
  have hconsumer := h.consumer
  have hapart := h.head_ne_tail
  have hring := h.ring.update_head (some object)
  rw [head_settled] at hring
  rw [continuePush, hpc]
  refine ⟨?_, h.accepted, ⟨rfl, hroom, Function.update_self ..⟩, ?_, h.refused, h.missed⟩
  · rw [Pops] at hconsumer
    rw [settled] at hring ⊢
    dsimp only
    split
    · next tail popped hpop =>
        rw [hpop] at hring hconsumer
        obtain ⟨rfl, hne, -⟩ := hconsumer
        rw [Function.update_comm (hapart hne)]
        exact hring
    · next hpop =>
        split at hring
        · next tail popped hpop' => exact absurd hpop' (hpop tail popped)
        · exact hring
  · -- the consumer's cell is another one
    exact hconsumer.frame rfl rfl id fun hne => Function.update_of_ne (hapart hne).symm _ _

/-- The store of `m_head`: on the settled ring this is the whole push. -/
theorem settled_storeHead (h : s.Holds l) {object : α} {head : Nat}
    (hpc : s.producer = .constructed object head) :
    s.continuePush.2.settled = (s.settled.push object).2 := by
  have hproducer := h.producer
  rw [Pushes, hpc] at hproducer
  obtain ⟨rfl, hroom, hcell⟩ := hproducer
  have hfree : RingBuffer.next size s.settled.head ≠ s.settled.tail := by
    rw [head_settled, tail_settled]
    intro hfull
    exact absurd (h.full_iff.mp hfull) (by omega)
  -- the object is in its cell by now
  have hsame : Function.update s.settled.cells s.settled.head (some object) =
      s.settled.cells := by
    rw [head_settled, ← hcell, ← h.settled_cells h.head_ne_tail, Function.update_eq_self]
  rw [RingBuffer.push, if_neg hfree, hsame, head_settled, continuePush, hpc]
  rw [settled, settled]
  dsimp only
  split <;> rfl

theorem storeHead (h : s.Holds l) {object : α} {head : Nat}
    (hpc : s.producer = .constructed object head) : s.continuePush.2.Holds (l ++ [object]) := by
  have hproducer := h.producer
  rw [Pushes, hpc] at hproducer
  have hpushed := (h.ring.push_room (by omega) object).2
  rw [← h.settled_storeHead hpc] at hpushed
  rw [continuePush, hpc] at hpushed ⊢
  refine ⟨hpushed, ?_, trivial, ?_, h.refused, h.missed⟩
  · show (s.accepted ++ [object]).map some = s.popped ++ (l ++ [object]).map some
    rw [List.map_append, List.map_append, ← List.append_assoc, h.accepted]
  · exact h.consumer.frame rfl rfl
      (fun _ => List.append_ne_nil_of_right_ne_nil _ (List.cons_ne_nil _ _)) fun _ => rfl

/-- One more element is held when a push returns `true`, and at no other access of it. -/
theorem continuePush (h : s.Holds l) : ∃ l', s.continuePush.2.Holds l' ∧
    l'.length = l.length + if s.continuePush.1 = some true then 1 else 0 := by
  cases hpc : s.producer with
  | idle =>
      rw [Spsc.continuePush, hpc]
      exact ⟨l, h, rfl⟩
  | loaded object head =>
      have hproducer := h.producer
      rw [Pushes, hpc] at hproducer
      cases hproducer
      rw [Spsc.continuePush, hpc]
      dsimp only
      split
      · next hfull =>
          refine ⟨l, ⟨h.ring, h.accepted, trivial, h.consumer, fun n hn => ?_, h.missed⟩, rfl⟩
          rcases List.mem_append.mp hn with hn | hn
          · exact h.refused n hn
          · rw [List.mem_singleton.mp hn, h.held_eq]
            exact h.full_iff.mp hfull
      · next hfree =>
          refine ⟨l, ⟨h.ring, h.accepted, ⟨rfl, ?_⟩, h.consumer, h.refused, h.missed⟩, rfl⟩
          have hroom := h.ring.room
          have hnot := mt h.full_iff.mpr hfree
          omega
  | checked object head =>
      refine ⟨l, h.construct hpc, ?_⟩
      rw [Spsc.continuePush, hpc]
      rfl
  | constructed object head =>
      refine ⟨_, h.storeHead hpc, ?_⟩
      rw [Spsc.continuePush, hpc, List.length_append]
      rfl

/-- Destroying what is left in a cell: the settled ring has the object there still. -/
theorem destroy (h : s.Holds l) {object : Option α} {tail : Nat}
    (hpc : s.consumer = .moved tail object) : s.continuePop.2.Holds l := by
  have hconsumer := h.consumer
  rw [Pops, hpc] at hconsumer
  obtain ⟨rfl, hne, hcell⟩ := hconsumer
  have hring := h.ring
  rw [settled, hpc] at hring
  rw [continuePop, hpc]
  refine ⟨?_, h.accepted, ?_, ⟨rfl, hne, Function.update_self ..⟩, h.refused, h.missed⟩
  · rw [settled]
    dsimp only
    rw [Function.update_idem, ← hcell, Function.update_eq_self]
    exact hring
  · exact h.producer.frame rfl rfl (Nat.le_refl _)
      (Function.update_of_ne (h.head_ne_tail hne) _ _)

/-- The store of `m_tail`: on the settled ring this is the whole pop. -/
theorem settled_storeTail (h : s.Holds l) {object : Option α} {tail : Nat}
    (hpc : s.consumer = .destroyed tail object) :
    s.settled.pop = (object, s.continuePop.2.settled) := by
  have hconsumer := h.consumer
  rw [Pops, hpc] at hconsumer
  obtain ⟨rfl, hne, hcell⟩ := hconsumer
  have hnonempty : ¬ s.settled.tail = s.settled.head := mt h.ring.head_eq_tail_iff.mp hne
  rw [RingBuffer.pop, if_neg hnonempty, continuePop, hpc]
  rw [settled, settled, hpc]
  dsimp only
  -- the cell is empty by now
  rw [Function.update_self, Function.update_idem, ← hcell, Function.update_eq_self]

theorem storeTail (h : s.Holds l) {object : Option α} {tail : Nat}
    (hpc : s.consumer = .destroyed tail object) : ∃ l', s.continuePop.2.Holds l' := by
  have hconsumer := h.consumer
  rw [Pops, hpc] at hconsumer
  obtain ⟨first, l, rfl⟩ := List.exists_cons_of_ne_nil hconsumer.2.1
  obtain ⟨hfirst, hrest⟩ := h.ring.pop_cons
  rw [h.settled_storeTail hpc] at hfirst hrest
  dsimp only at hfirst hrest
  rw [continuePop, hpc] at hrest ⊢
  refine ⟨l, hrest, ?_, ?_, trivial, h.refused, h.missed⟩
  · show s.accepted.map some = (s.popped ++ [object]) ++ l.map some
    rw [h.accepted, hfirst, List.append_assoc]
    rfl
  · exact h.producer.frame rfl rfl (Nat.le_succ _) rfl

/-- Nothing is held when a pop returns `false`. -/
theorem continuePop (h : s.Holds l) : ∃ l', s.continuePop.2.Holds l' ∧
    (s.continuePop.1 = some false → l' = [] ∧ s.continuePop.2.consumer = .idle) := by
  have hring := h.ring
  cases hpc : s.consumer with
  | idle =>
      rw [Spsc.continuePop, hpc]
      exact ⟨l, h, fun hanswer => by cases hanswer⟩
  | loaded tail =>
      have hconsumer := h.consumer
      rw [Pops, hpc] at hconsumer
      cases hconsumer
      have hiff := h.ring.head_eq_tail_iff
      rw [head_settled, tail_settled] at hiff
      rw [settled, hpc] at hring
      rw [Spsc.continuePop, hpc]
      dsimp only
      split
      · next hempty =>
          refine ⟨l, ⟨hring, h.accepted, h.producer, trivial, h.refused, fun n hn => ?_⟩,
            fun _ => ⟨hiff.mp hempty, rfl⟩⟩
          rcases List.mem_append.mp hn with hn | hn
          · exact h.missed n hn
          · rw [List.mem_singleton.mp hn, h.held_eq, hiff.mp hempty]
            rfl
      · next hsome =>
          exact ⟨l, ⟨hring, h.accepted, h.producer, ⟨rfl, mt hiff.mpr hsome⟩, h.refused, h.missed⟩,
            fun hanswer => by cases hanswer⟩
  | checked tail =>
      have hconsumer := h.consumer
      rw [Pops, hpc] at hconsumer
      rw [settled, hpc] at hring
      rw [Spsc.continuePop, hpc]
      exact ⟨l, ⟨hring, h.accepted, h.producer, ⟨hconsumer.1, hconsumer.2, rfl⟩, h.refused,
        h.missed⟩, fun hanswer => by cases hanswer⟩
  | moved tail object =>
      refine ⟨l, h.destroy hpc, fun hanswer => ?_⟩
      rw [Spsc.continuePop, hpc] at hanswer
      cases hanswer
  | destroyed tail object =>
      obtain ⟨l', h'⟩ := h.storeTail hpc
      refine ⟨l', h', fun hanswer => ?_⟩
      rw [Spsc.continuePop, hpc] at hanswer
      cases hanswer

protected theorem step (h : s.Holds l) (i : Step α) : ∃ l', (s.step i).Holds l' := by
  cases i with
  | startPush object => exact ⟨l, h.startPush object⟩
  | continuePush => exact h.continuePush.imp fun _ h' => h'.1
  | startPop => exact ⟨l, h.startPop⟩
  | continuePop => exact h.continuePop.imp fun _ h' => h'.1

end Holds

/-- In every state of every interleaving of a producer and a consumer: what has been popped is
the beginning of what was accepted, the cell being written is not the one being read, a
push is refused only by a ring of `SIZE - 1` elements and a pop only by an empty one, and
between two calls `size()` is what was accepted and not popped. -/
theorem linear_always (hsize : 0 < size) (steps : List (Step α)) :
    Always step Linear (new : Spsc α size) steps := by
  have hholds : Always step (fun s => ∃ l, s.Holds l) (new : Spsc α size) steps :=
    always_of_step (fun _ i ⟨_, h⟩ => h.step i) ⟨[], holds_new hsize⟩
  exact hholds.mono fun _ ⟨_, h⟩ => h.linear

/-- A ring of three cells, so of two elements. A third push reads `m_tail` while the first
object is on its way out, and is refused. -/
def crossing : List (Step Nat) :=
  [.startPush 7, .continuePush, .continuePush, .continuePush, .startPop, .startPush 8,
    .continuePop, .continuePush, .continuePop, .continuePush, .continuePop, .continuePush,
    .startPush 9, .continuePush, .continuePop]

theorem linear_crossing :
    0 < 3 ∧ Always step Linear (new : Spsc Nat 3) crossing ∧
      (after step (new : Spsc Nat 3) crossing).accepted = [7, 8] ∧
      (after step (new : Spsc Nat 3) crossing).popped = [some 7] ∧
      (after step (new : Spsc Nat 3) crossing).refused = [2] :=
  ⟨by decide, linear_always (by decide) crossing, rfl, rfl, rfl⟩

end Spsc

namespace BlockingSpsc

open Fastpath.Lib

variable {α : Type} {size : Nat} {s : BlockingSpsc α size}

/-- A consumer that waits has found the ring empty. Whatever is held by now has been pushed
since, and every push that has returned has signalled since. -/
structure Wakeable (s : BlockingSpsc α size) : Prop where
  signalled : s.signalling = true → s.base.producer = .idle
  held : ∃ l, s.base.Holds l ∧ (s.consuming = .waiting → s.base.consumer = .idle ∧
    l.length ≤ s.semaphore + if s.signalling then 1 else 0)

theorem wakeable_new (hsize : 0 < size) : (new : BlockingSpsc α size).Wakeable :=
  ⟨fun h => (by cases h), [], Spsc.holds_new hsize, fun h => (by cases h)⟩

namespace Wakeable

theorem push (h : s.Wakeable) (object : α) : (s.step (.push object)).Wakeable := by
  obtain ⟨l, hl, hwaiting⟩ := h.held
  rw [step]
  split
  · exact h
  · next hnot =>
      refine ⟨fun hsignalling => absurd hsignalling hnot, l, hl.startPush object, fun hw => ?_⟩
      obtain ⟨hidle, hle⟩ := hwaiting hw
      exact ⟨(Spsc.consumer_startPush object).trans hidle, hle⟩

theorem continuePush (h : s.Wakeable) : (s.step .continuePush).Wakeable := by
  obtain ⟨l, hl, hwaiting⟩ := h.held
  obtain ⟨l', hl', hlength⟩ := hl.continuePush
  have hconsumer : s.base.continuePush.2.consumer = s.base.consumer :=
    Spsc.consumer_continuePush
  rw [step]
  split
  · next answer base hpush =>
      -- the push has returned, so it was not signalling
      have hnot : s.signalling ≠ true := by
        intro hsignalling
        rw [Spsc.continuePush, h.signalled hsignalling] at hpush
        cases hpush
      have hidle := Spsc.producer_of_continuePush (congrArg Prod.fst hpush)
      rw [hpush] at hl' hlength hconsumer hidle
      refine ⟨fun _ => hidle, l', hl', fun hw => ?_⟩
      obtain ⟨hc, hle⟩ := hwaiting hw
      refine ⟨hconsumer.trans hc, ?_⟩
      rw [if_neg hnot] at hle
      show l'.length ≤ s.semaphore + 1
      split at hlength
      · omega
      · omega
  · next base hpush =>
      rw [hpush] at hl' hlength hconsumer
      refine ⟨fun hsignalling => ?_, l', hl', fun hw => ?_⟩
      · rw [Spsc.continuePush, h.signalled hsignalling] at hpush
        cases hpush
        exact h.signalled hsignalling
      · obtain ⟨hc, hle⟩ := hwaiting hw
        rw [if_neg (by exact Option.some_ne_none true ∘ Eq.symm)] at hlength
        exact ⟨hconsumer.trans hc, Nat.le_trans (Nat.le_of_eq hlength) hle⟩

theorem signal (h : s.Wakeable) : (s.step .signal).Wakeable := by
  obtain ⟨l, hl, hwaiting⟩ := h.held
  rw [step]
  split
  · next hsignalling =>
      refine ⟨fun hnot => (by cases hnot), l, hl, fun hw => ?_⟩
      obtain ⟨hc, hle⟩ := hwaiting hw
      rw [if_pos hsignalling] at hle
      exact ⟨hc, hle⟩
  · exact h

/-- The consumer is on its way, and not to the semaphore. -/
theorem of_not_waiting {s' : BlockingSpsc α size} (h : s.Wakeable)
    (hheld : ∃ l, s'.base.Holds l) (hnot : s'.consuming ≠ .waiting)
    (hsignalling : s'.signalling = s.signalling) (hproducer : s'.base.producer = s.base.producer) :
    s'.Wakeable := by
  obtain ⟨l, hl⟩ := hheld
  refine ⟨fun hs => ?_, l, hl, fun hw => absurd hw hnot⟩
  rw [hproducer]
  exact h.signalled (hsignalling ▸ hs)

theorem pop (h : s.Wakeable) : (s.step .pop).Wakeable := by
  obtain ⟨l, hl, -⟩ := h.held
  rw [step]
  split
  · exact h.of_not_waiting ⟨l, hl.startPop⟩ (by simp) rfl Spsc.producer_startPop
  · exact h

theorem popWait (h : s.Wakeable) : (s.step .popWait).Wakeable := by
  obtain ⟨l, hl, -⟩ := h.held
  rw [step]
  split
  · exact h.of_not_waiting ⟨l, hl.startPop⟩ (by simp) rfl Spsc.producer_startPop
  · exact h

theorem continuePop (h : s.Wakeable) : (s.step .continuePop).Wakeable := by
  obtain ⟨l, hl, -⟩ := h.held
  obtain ⟨l', hl', hmissed⟩ := hl.continuePop
  have hproducer : s.base.continuePop.2.producer = s.base.producer := Spsc.producer_continuePop
  rw [step]
  split
  · next hretrying _ =>
      refine h.of_not_waiting ⟨l, hl.startPop⟩ ?_ rfl Spsc.producer_startPop
      show s.consuming ≠ .waiting
      rw [hretrying]
      simp
  · exact h
  · exact h
  · next hwaiting _ =>
      split
      · next base hpop =>
          rw [hpop] at hl' hproducer
          exact h.of_not_waiting ⟨l', hl'⟩ hwaiting rfl hproducer
      · next base hpop =>
          rw [hpop] at hl' hproducer
          exact h.of_not_waiting ⟨l', hl'⟩ (by simp) rfl hproducer
      · next base hpop =>
          -- nothing is held at this moment, so nothing has to be signalled for
          rw [hpop] at hl' hproducer hmissed
          obtain ⟨hnil, hconsumer⟩ := hmissed rfl
          refine ⟨fun hs => ?_, l', hl', fun _ => ⟨hconsumer, ?_⟩⟩
          · exact hproducer.trans (h.signalled hs)
          · rw [hnil]
            exact Nat.zero_le _

theorem wait (h : s.Wakeable) : (s.step .wait).Wakeable := by
  obtain ⟨l, hl, -⟩ := h.held
  rw [step]
  split
  · exact h.of_not_waiting ⟨l, hl⟩ (by simp) rfl rfl
  · exact h

protected theorem step (h : s.Wakeable) (i : Step α) : (s.step i).Wakeable := by
  cases i with
  | push object => exact h.push object
  | continuePush => exact h.continuePush
  | signal => exact h.signal
  | pop => exact h.pop
  | popWait => exact h.popWait
  | continuePop => exact h.continuePop
  | wait => exact h.wait

theorem not_lost (h : s.Wakeable) :
    ¬ (s.Blocked ∧ 1 ≤ s.base.ring.length ∧ ¬ s.InPush) := by
  intro h
  obtain ⟨⟨hw, hzero⟩, hsome, hnot⟩ := h
  obtain ⟨l, hl, hwaiting⟩ := h.held
  obtain ⟨hidle, hle⟩ := hwaiting hw
  have hlength := hl.ring.length_eq
  rw [Spsc.settled, hidle] at hlength
  rw [hzero, if_neg fun hs => hnot (.inr hs)] at hle
  dsimp only at hlength
  omega

end Wakeable

/-- In no state of any interleaving of a producer and a consumer is the consumer blocked on the
semaphore of a ring that holds something, with no push under way. -/
theorem never_lost (hsize : 0 < size) (steps : List (Step α)) :
    Always step (fun s => ¬ (s.Blocked ∧ 1 ≤ s.base.ring.length ∧ ¬ s.InPush))
      (new : BlockingSpsc α size) steps := by
  have hwakeable : Always step Wakeable (new : BlockingSpsc α size) steps :=
    always_of_step (fun _ i h => h.step i) (wakeable_new hsize)
  exact hwakeable.mono fun _ h => h.not_lost

/-- The consumer finds nothing, the push stores the head and then signals, and the consumer
waits in between. -/
theorem never_lost_between :
    0 < 2 ∧ Always step (fun s => ¬ (s.Blocked ∧ 1 ≤ s.base.ring.length ∧ ¬ s.InPush))
        (new : BlockingSpsc Nat 2)
        [.popWait, .continuePop, .push 7, .continuePush, .continuePush, .continuePush, .wait,
          .signal, .wait] ∧
      (after step (new : BlockingSpsc Nat 2)
        [.popWait, .continuePop, .push 7, .continuePush, .continuePush, .continuePush]).consuming =
        .waiting :=
  ⟨by decide, never_lost (by decide) _, rfl⟩

end BlockingSpsc

end Fastpath
