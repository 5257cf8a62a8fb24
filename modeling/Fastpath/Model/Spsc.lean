import Fastpath.Model.Ring

/-!
# The ring buffer under two threads

One thread calls `push` and one calls `pop`. Each call is cut at every access to
what the two share: the loads and the store of an index, the construction of an
object in a cell, the move out of a cell and the destruction of what is left
there. Between two accesses of one thread the other may take any number of its
own.

A call returns with its last access. What the calls answered is kept beside the
ring, and with a `false` how many elements were held when the other thread's
index was read.

`tf::blocking_ringbuffer` adds a semaphore: every push signals it, whatever
became of the push, and a `pop_wait` that finds nothing waits for it.
-/

namespace Fastpath

/-- Where a `push` stands. -/
inductive Pushing (α : Type) where
  | idle
  /-- `m_head` has been loaded. -/
  | loaded (object : α) (head : Nat)
  /-- `m_tail` has been loaded, and there is room. -/
  | checked (object : α) (head : Nat)
  /-- The object is in its cell. -/
  | constructed (object : α) (head : Nat)
deriving DecidableEq, Repr

/-- Where a `pop` stands. -/
inductive Popping (α : Type) where
  | idle
  /-- `m_tail` has been loaded. -/
  | loaded (tail : Nat)
  /-- `m_head` has been loaded, and there is something. -/
  | checked (tail : Nat)
  /-- The object has been moved out of its cell. -/
  | moved (tail : Nat) (object : Option α)
  /-- What was left in the cell has been destroyed. -/
  | destroyed (tail : Nat) (object : Option α)
deriving DecidableEq, Repr

/-- `tf::ringbuffer<T, SIZE>` with its producer and its consumer. -/
structure Spsc (α : Type) (size : Nat) where
  ring : RingBuffer α size
  producer : Pushing α
  consumer : Popping α
  /-- The objects whose `push` returned `true`. -/
  accepted : List α
  /-- What each `pop` that returned `true` has moved out. -/
  popped : List (Option α)
  /-- For each `push` that returned `false`: the elements held when it read `m_tail`. -/
  refused : List Nat
  /-- For each `pop` that returned `false`: the elements held when it read `m_head`. -/
  missed : List Nat

namespace Spsc

variable {α : Type} {size : Nat}

def new : Spsc α size := ⟨.new, .idle, .idle, [], [], [], []⟩

/-- The elements that were accepted and have not been popped. -/
def held (s : Spsc α size) : Nat := s.accepted.length - s.popped.length

/-- The first access of `push(object)`. -/
def startPush (object : α) (s : Spsc α size) : Spsc α size :=
  match s.producer with
  | .idle => { s with producer := .loaded object s.ring.head }
  | _ => s

/-- The next access of a `push`, and what it returns if that is its last. -/
def continuePush (s : Spsc α size) : Option Bool × Spsc α size :=
  match s.producer with
  | .idle => (none, s)
  | .loaded object head =>
      if RingBuffer.next size head = s.ring.tail then
        (some false, { s with producer := .idle, refused := s.refused ++ [s.held] })
      else (none, { s with producer := .checked object head })
  | .checked object head =>
      (none, { s with
        ring := { s.ring with cells := Function.update s.ring.cells head (some object) }
        producer := .constructed object head })
  | .constructed object head =>
      (some true, { s with
        ring := { s.ring with head := RingBuffer.next size head }
        producer := .idle
        accepted := s.accepted ++ [object] })

/-- The first access of `pop(object)`. -/
def startPop (s : Spsc α size) : Spsc α size :=
  match s.consumer with
  | .idle => { s with consumer := .loaded s.ring.tail }
  | _ => s

/-- The next access of a `pop`, and what it returns if that is its last. -/
def continuePop (s : Spsc α size) : Option Bool × Spsc α size :=
  match s.consumer with
  | .idle => (none, s)
  | .loaded tail =>
      if tail = s.ring.head then
        (some false, { s with consumer := .idle, missed := s.missed ++ [s.held] })
      else (none, { s with consumer := .checked tail })
  | .checked tail => (none, { s with consumer := .moved tail (s.ring.cells tail) })
  | .moved tail object =>
      (none, { s with
        ring := { s.ring with cells := Function.update s.ring.cells tail none }
        consumer := .destroyed tail object })
  | .destroyed tail object =>
      (some true, { s with
        ring := { s.ring with tail := RingBuffer.next size tail }
        consumer := .idle
        popped := s.popped ++ [object] })

inductive Step (α : Type) where
  | startPush (object : α)
  | continuePush
  | startPop
  | continuePop

def step (s : Spsc α size) : Step α → Spsc α size
  | .startPush object => s.startPush object
  | .continuePush => s.continuePush.2
  | .startPop => s.startPop
  | .continuePop => s.continuePop.2

/-- The cell that a `push` has found free and not yet given away. -/
def writing (s : Spsc α size) : Option Nat :=
  match s.producer with
  | .checked _ head | .constructed _ head => some head
  | _ => none

/-- The cell that a `pop` has found taken and not yet given back. -/
def reading (s : Spsc α size) : Option Nat :=
  match s.consumer with
  | .checked tail | .moved tail _ | .destroyed tail _ => some tail
  | _ => none

end Spsc

/-- What the consumer of a blocking ring is doing. -/
inductive Consuming where
  | idle
  /-- In a `pop`. -/
  | popping
  /-- In the `pop` of a `pop_wait`, or about to call it again. -/
  | retrying
  /-- In the `m_semaphore.wait()` of a `pop_wait`. -/
  | waiting
deriving DecidableEq, Repr

/-- `tf::blocking_ringbuffer<T, SIZE>` with its producer and its consumer. -/
structure BlockingSpsc (α : Type) (size : Nat) where
  base : Spsc α size
  /-- `m_semaphore`, a counting semaphore. -/
  semaphore : Nat
  /-- A `push` has come back from the ring and not signalled yet. -/
  signalling : Bool
  consuming : Consuming

namespace BlockingSpsc

variable {α : Type} {size : Nat}

def new : BlockingSpsc α size := ⟨.new, 0, false, .idle⟩

inductive Step (α : Type) where
  /-- `push(object)`, up to its first access to the ring. -/
  | push (object : α)
  /-- The next access of a `push`. -/
  | continuePush
  /-- `m_semaphore.signal()`, the end of a `push`. -/
  | signal
  /-- `pop(object)` is called. -/
  | pop
  /-- `pop_wait(object)` is called. -/
  | popWait
  /-- The next access of a `pop`, which inside a `pop_wait` starts again by itself. -/
  | continuePop
  /-- `m_semaphore.wait()` comes back. -/
  | wait

def step (s : BlockingSpsc α size) : Step α → BlockingSpsc α size
  | .push object => if s.signalling then s else { s with base := s.base.startPush object }
  | .continuePush =>
      match s.base.continuePush with
      | (some _, base) => { s with base := base, signalling := true }
      | (none, base) => { s with base := base }
  | .signal =>
      if s.signalling then { s with semaphore := s.semaphore + 1, signalling := false } else s
  | .pop =>
      match s.consuming with
      | .idle => { s with base := s.base.startPop, consuming := .popping }
      | _ => s
  | .popWait =>
      match s.consuming with
      | .idle => { s with base := s.base.startPop, consuming := .retrying }
      | _ => s
  | .continuePop =>
      match s.consuming, s.base.consumer with
      | .retrying, .idle => { s with base := s.base.startPop }
      | .idle, _ | .waiting, _ => s
      | _, _ =>
          match s.base.continuePop with
          | (none, base) => { s with base := base }
          | (some true, base) => { s with base := base, consuming := .idle }
          | (some false, base) =>
              { s with
                base := base
                consuming := if s.consuming = .retrying then .waiting else .idle }
  | .wait =>
      if s.consuming = .waiting ∧ 0 < s.semaphore then
        { s with semaphore := s.semaphore - 1, consuming := .retrying }
      else s

/-- The consumer is in `m_semaphore.wait()`, and there is nothing to wake it. -/
def Blocked (s : BlockingSpsc α size) : Prop := s.consuming = .waiting ∧ s.semaphore = 0

/-- A `push` has been called and has not returned. -/
def InPush (s : BlockingSpsc α size) : Prop := s.base.producer ≠ .idle ∨ s.signalling = true

end BlockingSpsc

end Fastpath
