import Mathlib.Data.List.Count
import Fastpath.Lib.Steps
import Fastpath.Model.Dispatch
import Fastpath.Proofs.Ring

/-!
# What an event's counter counts

An event counts the elements that are on their way to its callback: pushed on the
ring or about to be, and not yet run. As one list these are the element a
`__notify` is pushing, behind the ring, behind the element a dispatch has popped;
pushing and popping only move an element along it.

The one thing that takes an element out of the list without uncounting it is a
push the full ring refuses. The event then counts something that will never be
run, and a data event that does is passed over ever after.
-/

namespace Fastpath.SharedQueue

open Fastpath.Lib

section Step

variable {s : SharedQueue}

@[simp] theorem events_setEvent_self (s : SharedQueue) (i : Nat) (e : Option QueueEvent) :
    (s.setEvent i e).events i = e := Function.update_self ..

@[simp] theorem events_setEvent_of_ne (s : SharedQueue) {i j : Nat} (hne : j ≠ i)
    (e : Option QueueEvent) : (s.setEvent i e).events j = s.events j :=
  Function.update_of_ne hne ..

theorem step_service {i : Nat} {e : QueueEvent} (hidle : s.notifying = none)
    (he : s.events i = some e) (hskipped : e.skipped = false) (filter : EventType) :
    s.step (.service i filter) =
      { s.setEvent i (some e.pushDispatch) with
        notifying := some ⟨i, e.notifiedType filter⟩ } := by
  rw [step, hidle, he]
  dsimp only
  rw [hskipped, if_neg Bool.false_ne_true]

theorem step_enqueue {element : QueueElement} (h : s.notifying = some element) :
    s.step .enqueue = { s with queue := (s.queue.push element).2, notifying := none } := by
  rw [step, h]

/-- Everything a step can do. -/
inductive Effect (s : SharedQueue) : Step → SharedQueue → Prop where
  | nothing {i : Step} (hi : i = .enqueue ∨ i = .pop ∨ i = .run ∨ i = .finish) : Effect s i s
  | busy {event : Nat} {filter : EventType} (h : s.notifying ≠ none) :
      Effect s (.service event filter) s
  | unknown {event : Nat} {filter : EventType} (he : s.events event = none) :
      Effect s (.service event filter) s
  /-- The event manager finds a deleted event. -/
  | servicedDeleted {event : Nat} {filter : EventType} (hlt : event < s.nextEvent)
      (he : s.events event = none) : Effect s (.service event filter) { s with misused := true }
  | unregisteredUnknown {event : Nat} (he : s.events event = none) : Effect s (.unregister event) s
  | unregisteredDeleted {event : Nat} (hlt : event < s.nextEvent) (he : s.events event = none) :
      Effect s (.unregister event) { s with misused := true }
  | registered (kind : EventKind) (types : EventType) :
      Effect s (.register kind types)
        { s.setEvent s.nextEvent (some ⟨kind, types, 0, false⟩) with nextEvent := s.nextEvent + 1 }
  | skipped {i : Nat} {e : QueueEvent} (filter : EventType) (hidle : s.notifying = none)
      (he : s.events i = some e) (hskipped : e.skipped = true) : Effect s (.service i filter) s
  | serviced {i : Nat} {e : QueueEvent} (filter : EventType) (hidle : s.notifying = none)
      (he : s.events i = some e) (hskipped : e.skipped = false) :
      Effect s (.service i filter)
        { s.setEvent i (some e.pushDispatch) with notifying := some ⟨i, e.notifiedType filter⟩ }
  | enqueued {element : QueueElement} (h : s.notifying = some element) :
      Effect s .enqueue { s with queue := (s.queue.push element).2, notifying := none }
  | popped {element : QueueElement} (hidle : s.dispatching = none)
      (hpop : s.queue.pop.1 = some element) :
      Effect s .pop { s with queue := s.queue.pop.2, dispatching := some (element, false) }
  | ran {element : QueueElement} {e : QueueEvent} (h : s.dispatching = some (element, false))
      (he : s.events element.event = some e) :
      Effect s .run
        { s.setEvent element.event (some e.popDispatch) with
          dispatching := some (element, true)
          called := if e.pendingRemoval then s.called else s.called ++ [element] }
  | ranDeleted {element : QueueElement} (h : s.dispatching = some (element, false))
      (he : s.events element.event = none) :
      Effect s .run { s with dispatching := some (element, true), misused := true }
  | finished {element : QueueElement} {e : QueueEvent} (h : s.dispatching = some (element, true))
      (he : s.events element.event = some e)
      (hkept : (e.pendingRemoval && !e.isAwaitingDispatch) = false) :
      Effect s .finish { s with dispatching := none }
  | finishedDeleting {element : QueueElement} {e : QueueEvent}
      (h : s.dispatching = some (element, true)) (he : s.events element.event = some e)
      (hdeleted : (e.pendingRemoval && !e.isAwaitingDispatch) = true) :
      Effect s .finish
        { s.setEvent element.event none with dispatching := none, misused := true }
  | finishedDeleted {element : QueueElement} (h : s.dispatching = some (element, true))
      (he : s.events element.event = none) :
      Effect s .finish { s with dispatching := none, misused := true }
  | marked {i : Nat} {e : QueueEvent} (he : s.events i = some e)
      (hawaiting : e.isAwaitingDispatch = true) :
      Effect s (.unregister i) (s.setEvent i (some { e with pendingRemoval := true }))
  | deleted {i : Nat} {e : QueueEvent} (he : s.events i = some e)
      (hidle : e.isAwaitingDispatch = false) : Effect s (.unregister i) (s.setEvent i none)

theorem effect (s : SharedQueue) (i : Step) : Effect s i (s.step i) := by
  cases i with
  | register kind types => exact .registered kind types
  | service event filter =>
      rw [step]
      split
      · next hbusy => exact .busy (by rw [hbusy]; simp)
      · next hnone =>
          rw [useDeleted]
          split
          · next hlt => exact .servicedDeleted hlt hnone
          · exact .unknown hnone
      · next e hidle he =>
          split
          · next hskipped => exact .skipped filter hidle he hskipped
          · next hskipped => exact .serviced filter hidle he (Bool.eq_false_iff.mpr hskipped)
  | enqueue =>
      rw [step]
      split
      · next element h => exact .enqueued h
      · exact .nothing (by simp)
  | pop =>
      rw [step]
      split
      · next element queue hidle hpop =>
          have hpopped := Effect.popped hidle (congrArg Prod.fst hpop)
          rw [hpop] at hpopped
          exact hpopped
      · exact .nothing (by simp)
  | run =>
      rw [step]
      split
      · next element h =>
          split
          · next e he => exact .ran h he
          · next he => exact .ranDeleted h he
      · exact .nothing (by simp)
  | finish =>
      rw [step]
      split
      · next element h =>
          split
          · next e he =>
              split
              · next hdeleted => exact .finishedDeleting h he hdeleted
              · next hkept => exact .finished h he (Bool.eq_false_iff.mpr hkept)
          · next he => exact .finishedDeleted h he
      · exact .nothing (by simp)
  | unregister event =>
      rw [step]
      split
      · next e he =>
          split
          · next hawaiting => exact .marked he hawaiting
          · next hidle => exact .deleted he (Bool.eq_false_iff.mpr hidle)
      · next hnone =>
          rw [useDeleted]
          split
          · next hlt => exact .unregisteredDeleted hlt hnone
          · exact .unregisteredUnknown hnone

end Step

/-- The element that has been popped and not run. -/
def popped (s : SharedQueue) : List QueueElement :=
  match s.dispatching with
  | some (element, false) => [element]
  | _ => []

/-- The elements on their way. Between a `__notify` or a dispatch and the next one it is the
ring that holds them all. -/
def outstanding (s : SharedQueue) : List QueueElement :=
  s.popped ++ s.queue.items ++ s.notifying.toList

def outstandingOf (s : SharedQueue) (event : Nat) : Nat :=
  s.outstanding.countP (·.event = event)

theorem outstanding_serviced {s : SharedQueue} (hidle : s.notifying = none) (i : Nat)
    (e : QueueEvent) (filter : EventType) :
    ({ s.setEvent i (some e.pushDispatch) with
        notifying := some ⟨i, e.notifiedType filter⟩ } : SharedQueue).outstanding =
      s.outstanding ++ [⟨i, e.notifiedType filter⟩] := by
  rw [outstanding, outstanding, hidle]
  show _ ++ [_] = (_ ++ []) ++ [_]
  rw [List.append_nil]
  rfl

theorem outstanding_of_popped {s : SharedQueue} {element : QueueElement}
    (h : s.dispatching = some (element, false)) :
    s.outstanding = element :: (s.queue.items ++ s.notifying.toList) := by
  rw [outstanding, popped, h]
  rfl

theorem outstanding_of_ran {s : SharedQueue} {element : QueueElement}
    (h : s.dispatching = some (element, true)) :
    s.outstanding = s.queue.items ++ s.notifying.toList := by
  rw [outstanding, popped, h]
  rfl

theorem outstanding_of_finished {s s' : SharedQueue} {element : QueueElement}
    (hran : s.dispatching = some (element, true)) (hdispatching : s'.dispatching = none)
    (hqueue : s'.queue = s.queue) (hnotifying : s'.notifying = s.notifying) :
    s'.outstanding = s.outstanding := by
  rw [outstanding_of_ran hran, outstanding, popped, hdispatching, hqueue, hnotifying]
  rfl

/-- Every live event counts its elements, which between a call and the next are those in the
ring; so a data event that has none is not passed over, and the next notification of
an event can be counted. -/
structure Counted (s : SharedQueue) : Prop where
  counts : ∀ i e, s.events i = some e → e.awaitingDispatch.toNat = s.outstandingOf i
  waiting : s.notifying = none → s.popped = [] → ∀ i e, s.events i = some e →
    e.awaitingDispatch.toNat = s.queue.items.countP (·.event = i)
  unskipped : ∀ i e, s.events i = some e → s.outstandingOf i = 0 → e.skipped = false
  unwrapped : ∀ i e, s.events i = some e → e.awaitingDispatch.toNat + 1 < UInt16.size

/-- No push finds the ring full. -/
def Room (s : SharedQueue) : Step → Prop
  | .enqueue => s.notifying ≠ none → RingBuffer.next 4096 s.queue.head ≠ s.queue.tail
  | _ => True

/-- What carries the count: the ring is a list, an event on its way is there, and events
are numbered in order. -/
structure Sound (s : SharedQueue) : Prop where
  ring : ∃ l, s.queue.Represents l
  counts : ∀ i e, s.events i = some e → e.awaitingDispatch.toNat = s.outstandingOf i
  live : ∀ element ∈ s.outstanding, s.events element.event ≠ none
  known : ∀ i, s.events i ≠ none → i < s.nextEvent

theorem sound_new : new.Sound := by
  refine ⟨⟨[], RingBuffer.represents_new (by decide)⟩, fun _ _ h => (by cases h), ?_, ?_⟩
  · intro element h
    cases h
  · intro i h
    exact absurd rfl h

namespace Sound

variable {s : SharedQueue}

theorem length_outstanding (h : s.Sound) : s.outstanding.length ≤ 4097 := by
  obtain ⟨l, hring⟩ := h.ring
  have hroom := hring.room
  have hpopped : s.popped.length ≤ 1 := by
    rw [popped]
    split
    · exact Nat.le_refl _
    · exact Nat.zero_le _
  have hnotifying : s.notifying.toList.length ≤ 1 := by
    cases s.notifying with
    | none => exact Nat.zero_le _
    | some element => exact Nat.le_refl _
  rw [outstanding, List.length_append, List.length_append, hring.items_eq]
  omega

theorem counted (h : s.Sound) : s.Counted := by
  refine ⟨h.counts, fun hidle hpopped i e he => ?_, fun i e he hnone => ?_, fun i e he => ?_⟩
  · rw [h.counts i e he, outstandingOf, outstanding, hidle, hpopped, List.nil_append]
    show (s.queue.items ++ []).countP _ = _
    rw [List.append_nil]
  · have hzero := h.counts i e he
    rw [hnone] at hzero
    have hcounter : e.awaitingDispatch = 0 := UInt16.toNat_inj.mp hzero
    rw [QueueEvent.skipped]
    split
    · rw [QueueEvent.isAwaitingDispatch, hcounter]
      rfl
    · rfl
    · rfl
  · have hle : s.outstandingOf i ≤ s.outstanding.length := List.countP_le_length
    have hlength := h.length_outstanding
    rw [h.counts i e he, UInt16.size]
    omega

/-- Nothing but the place of an element has changed. -/
theorem of_outstanding {s' : SharedQueue} (h : s.Sound) (hring : ∃ l, s'.queue.Represents l)
    (hevents : s'.events = s.events) (hnext : s'.nextEvent = s.nextEvent)
    (hsame : s'.outstanding = s.outstanding) : s'.Sound := by
  refine ⟨hring, ?_, ?_, ?_⟩
  · rw [hevents]
    intro i e he
    rw [outstandingOf, hsame]
    exact h.counts i e he
  · rw [hevents, hsame]
    exact h.live
  · rw [hevents, hnext]
    exact h.known

/-- One place of the table of events has changed: what is there now counts what is then on
its way, and there is something if anything is. -/
theorem changed {s' : SharedQueue} (h : s.Sound) {i : Nat} {found : Option QueueEvent}
    (hring : ∃ l, s'.queue.Represents l) (hevents : s'.events = Function.update s.events i found)
    (hnext : s.nextEvent ≤ s'.nextEvent) (hi : i < s'.nextEvent)
    (hlive : ∀ element ∈ s'.outstanding,
      element.event = i ∧ found ≠ none ∨ element.event ≠ i ∧ element ∈ s.outstanding)
    (hcounts : ∀ e, found = some e → e.awaitingDispatch.toNat = s'.outstandingOf i)
    (hothers : ∀ j, j ≠ i → s'.outstandingOf j = s.outstandingOf j) : s'.Sound := by
  refine ⟨hring, ?_, ?_, ?_⟩
  · rw [hevents]
    intro j f hf
    by_cases hj : j = i
    · rw [hj, Function.update_self] at hf
      rw [hj]
      exact hcounts f hf
    · rw [Function.update_of_ne hj] at hf
      rw [hothers j hj]
      exact h.counts j f hf
  · rw [hevents]
    intro element hmem
    rcases hlive element hmem with ⟨heq, hfound⟩ | ⟨hne, hold⟩
    · rw [heq, Function.update_self]
      exact hfound
    · rw [Function.update_of_ne hne]
      exact h.live element hold
  · rw [hevents]
    intro j hj
    by_cases hji : j = i
    · rw [hji]
      exact hi
    · rw [Function.update_of_ne hji] at hj
      exact Nat.lt_of_lt_of_le (h.known j hj) hnext

theorem lt_nextEvent (h : s.Sound) {i : Nat} {e : QueueEvent} (he : s.events i = some e) :
    i < s.nextEvent :=
  h.known i (by rw [he]; exact Option.some_ne_none _)

/-- An event that counts nothing has no element on its way. -/
theorem not_outstanding (h : s.Sound) {i : Nat} {e : QueueEvent} (he : s.events i = some e)
    (hzero : e.awaitingDispatch = 0) : ∀ element ∈ s.outstanding, element.event ≠ i := by
  have hcount := h.counts i e he
  rw [hzero] at hcount
  intro element hmem heq
  have hnone := List.countP_eq_zero.mp hcount.symm element hmem
  exact hnone (decide_eq_true heq)

theorem delete {s' : SharedQueue} (h : s.Sound) {i : Nat} {e : QueueEvent}
    (he : s.events i = some e) (hzero : e.awaitingDispatch = 0)
    (hqueue : s'.queue = s.queue) (hevents : s'.events = Function.update s.events i none)
    (hnext : s'.nextEvent = s.nextEvent) (hsame : s'.outstanding = s.outstanding) :
    s'.Sound := by
  refine h.changed (by rw [hqueue]; exact h.ring) hevents (Nat.le_of_eq hnext.symm)
    (by rw [hnext]; exact h.lt_nextEvent he) ?_ (fun _ hfound => by cases hfound) fun j _ => ?_
  · rw [hsame]
    intro element hmem
    exact .inr ⟨h.not_outstanding he hzero element hmem, hmem⟩
  · rw [outstandingOf, hsame]
    rfl

/-- An event is replaced by one that counts what is then on its way. -/
theorem replace {s' : SharedQueue} (h : s.Sound) {i : Nat} {e e' : QueueEvent}
    (he : s.events i = some e) (hring : ∃ l, s'.queue.Represents l)
    (hevents : s'.events = Function.update s.events i (some e'))
    (hnext : s'.nextEvent = s.nextEvent)
    (hlive : ∀ element ∈ s'.outstanding, element.event = i ∨ element ∈ s.outstanding)
    (hcounts : e'.awaitingDispatch.toNat = s'.outstandingOf i)
    (hothers : ∀ j, j ≠ i → s'.outstandingOf j = s.outstandingOf j) : s'.Sound := by
  refine h.changed hring hevents (Nat.le_of_eq hnext.symm)
    (by rw [hnext]; exact h.lt_nextEvent he) (fun element hmem => ?_) ?_ hothers
  · by_cases hi : element.event = i
    · exact .inl ⟨hi, Option.some_ne_none _⟩
    · exact .inr ⟨hi, (hlive element hmem).resolve_left hi⟩
  · intro f hf
    cases hf
    exact hcounts

theorem useDeleted (h : s.Sound) (i : Nat) : (s.useDeleted i).Sound := by
  rw [SharedQueue.useDeleted]
  split
  · exact h.of_outstanding h.ring rfl rfl rfl
  · exact h

theorem register (h : s.Sound) (kind : EventKind) (types : EventType) :
    (s.step (.register kind types)).Sound := by
  have hnew : s.events s.nextEvent = none := by
    by_contra hold
    exact Nat.lt_irrefl _ (h.known _ hold)
  have hother : ∀ element ∈ s.outstanding, element.event ≠ s.nextEvent := by
    intro element hmem heq
    rw [← heq] at hnew
    exact h.live element hmem hnew
  refine h.changed h.ring rfl (Nat.le_succ _) (Nat.lt_succ_self _)
    (fun element hmem => .inr ⟨hother element hmem, hmem⟩) ?_ fun _ _ => rfl
  intro e he
  cases he
  exact (List.countP_eq_zero.mpr fun element hmem heq =>
    hother element hmem (of_decide_eq_true heq)).symm

theorem service (h : s.Sound) (i : Nat) (filter : EventType) :
    (s.step (.service i filter)).Sound := by
  rw [SharedQueue.step]
  split
  · exact h
  · exact h.useDeleted i
  · next e hidle he =>
      split
      · exact h
      · have hout := outstanding_serviced hidle i e filter
        have hcounts := h.counts i e he
        have hroom := h.counted.unwrapped i e he
        refine h.replace he h.ring rfl rfl ?_ ?_ ?_
        · rw [hout]
          intro element hmem
          obtain hmem | hmem := List.mem_append.mp hmem
          · exact .inr hmem
          · rw [List.mem_singleton.mp hmem]
            exact .inl rfl
        · rw [outstandingOf, hout, List.countP_append, ← outstandingOf, ← hcounts]
          show (e.awaitingDispatch + 1).toNat = _
          rw [UInt16.toNat_add, List.countP_singleton]
          simp only [decide_true, if_true]
          exact Nat.mod_eq_of_lt hroom
        · intro j hj
          rw [outstandingOf, hout, List.countP_append, List.countP_singleton, if_neg]
          · rfl
          · simpa using hj.symm

/-- A push moves its element from one end of the list to the other part of it. -/
theorem enqueued (h : s.Sound) (hroom : s.Room .enqueue) {element : QueueElement}
    (hnotifying : s.notifying = some element) :
    (∃ l, (s.queue.push element).2.Represents l) ∧
      ({ s with queue := (s.queue.push element).2, notifying := none } : SharedQueue).outstanding =
        s.outstanding := by
  obtain ⟨l, hring⟩ := h.ring
  have hfree : l.length + 1 ≠ 4096 := fun hfull =>
    hroom (by rw [hnotifying]; exact Option.some_ne_none _) (hring.full_iff.mpr hfull)
  have hpushed := (hring.push_room hfree element).2
  refine ⟨⟨_, hpushed⟩, ?_⟩
  rw [outstanding, outstanding, hnotifying, hpushed.items_eq, hring.items_eq]
  show (s.popped ++ (l ++ [element])) ++ [] = s.popped ++ l ++ [element]
  rw [List.append_nil, List.append_assoc]

theorem enqueue (h : s.Sound) (hroom : s.Room .enqueue) : (s.step .enqueue).Sound := by
  rw [SharedQueue.step]
  split
  · next element hnotifying =>
      obtain ⟨hring, hsame⟩ := h.enqueued hroom hnotifying
      exact h.of_outstanding hring rfl rfl hsame
  · exact h

theorem popped (h : s.Sound) {element : QueueElement} (hidle : s.dispatching = none)
    (hpop : s.queue.pop.1 = some element) :
    (∃ l, s.queue.pop.2.Represents l) ∧
      ({ s with queue := s.queue.pop.2, dispatching := some (element, false) } :
        SharedQueue).outstanding = s.outstanding := by
  obtain ⟨l, hring⟩ := h.ring
  cases l with
  | nil =>
      rw [hring.pop_nil] at hpop
      cases hpop
  | cons first l =>
      obtain ⟨hfirst, hrest⟩ := hring.pop_cons
      rw [hfirst, Option.some_inj] at hpop
      refine ⟨⟨l, hrest⟩, ?_⟩
      rw [outstanding, outstanding, SharedQueue.popped, SharedQueue.popped, hidle, hrest.items_eq,
        hring.items_eq, ← hpop]
      rfl

theorem pop (h : s.Sound) : (s.step .pop).Sound := by
  rw [SharedQueue.step]
  split
  · next element queue hidle hpop =>
      obtain ⟨hring, hsame⟩ := h.popped hidle (congrArg Prod.fst hpop)
      rw [hpop] at hring hsame
      exact h.of_outstanding hring rfl rfl hsame
  · exact h

theorem run (h : s.Sound) : (s.step .run).Sound := by
  rw [SharedQueue.step]
  split
  · next element hpopped =>
      have hout := outstanding_of_popped hpopped
      split
      · next e he =>
          have hcounts := h.counts element.event e he
          rw [outstandingOf, hout, List.countP_cons_of_pos (by simp)] at hcounts
          refine h.replace he h.ring rfl rfl ?_ ?_ ?_
          · intro other hmem
            rw [hout]
            exact .inr (List.mem_cons_of_mem _ hmem)
          · show (e.awaitingDispatch - 1).toNat = _
            have hpos : (1 : UInt16) ≤ e.awaitingDispatch := by
              rw [UInt16.le_iff_toNat_le, hcounts]
              exact Nat.le_add_left _ _
            rw [UInt16.toNat_sub_of_le _ _ hpos, hcounts]
            rfl
          · intro j hj
            rw [outstandingOf, outstandingOf, hout, List.countP_cons_of_neg]
            · rfl
            · simpa using hj.symm
      · next hnone =>
          refine absurd hnone (h.live element ?_)
          rw [hout]
          exact List.mem_cons_self
  · exact h

theorem finish (h : s.Sound) : (s.step .finish).Sound := by
  rw [SharedQueue.step]
  split
  · next element hran =>
      have hsame : ∀ {s' : SharedQueue}, s'.dispatching = none → s'.queue = s.queue →
          s'.notifying = s.notifying → s'.outstanding = s.outstanding :=
        outstanding_of_finished hran
      split
      · next e he =>
          split
          · next hremove =>
              refine h.delete he ?_ rfl rfl rfl (hsame rfl rfl rfl)
              simpa [QueueEvent.isAwaitingDispatch] using (Bool.and_eq_true_iff.mp hremove).2
          · exact h.of_outstanding h.ring rfl rfl (hsame rfl rfl rfl)
      · exact h.of_outstanding h.ring rfl rfl (hsame rfl rfl rfl)
  · exact h

theorem unregister (h : s.Sound) (i : Nat) : (s.step (.unregister i)).Sound := by
  rw [SharedQueue.step]
  split
  · next e he =>
      split
      · exact h.replace he h.ring rfl rfl (fun _ hmem => .inr hmem) (h.counts i e he)
          fun _ _ => rfl
      · next hnot =>
          refine h.delete he ?_ rfl rfl rfl rfl
          simpa [QueueEvent.isAwaitingDispatch] using hnot
  · exact h.useDeleted i

protected theorem step (h : s.Sound) {i : Step} (hroom : s.Room i) : (s.step i).Sound := by
  cases i with
  | register kind types => exact h.register kind types
  | service event filter => exact h.service event filter
  | enqueue => exact h.enqueue hroom
  | pop => exact h.pop
  | run => exact h.run
  | finish => exact h.finish
  | unregister event => exact h.unregister event

/-- A refused push is counted and never on its way. -/
theorem not_counted (h : s.Sound) {i : Step} (hroom : ¬ s.Room i) : ¬ (s.step i).Counted := by
  cases i with
  | enqueue =>
      simp only [Room, Classical.not_imp, not_not] at hroom
      obtain ⟨hsome, hfull⟩ := hroom
      obtain ⟨element, hnotifying⟩ := Option.ne_none_iff_exists'.mp hsome
      have hstep : s.step .enqueue = { s with notifying := none } := by
        rw [SharedQueue.step, hnotifying]
        dsimp only
        rw [RingBuffer.push, if_pos hfull]
      have hout : s.outstanding = (s.step .enqueue).outstanding ++ [element] := by
        rw [hstep, outstanding, outstanding, hnotifying]
        show _ = (_ ++ []) ++ [element]
        rw [List.append_nil]
        rfl
      have hmem : element ∈ s.outstanding := by
        rw [hout]
        exact List.mem_append_right _ (List.mem_singleton.mpr rfl)
      obtain ⟨e, he⟩ := Option.ne_none_iff_exists'.mp (h.live element hmem)
      intro hcounted
      have hbefore := h.counts element.event e he
      have hafter := hcounted.counts element.event e (by rw [hstep]; exact he)
      rw [outstandingOf, hout, List.countP_append, ← outstandingOf, ← hafter,
        List.countP_singleton, if_pos (by simp)] at hbefore
      omega
  | register _ _ | service _ _ | pop | run | finish | unregister _ => exact absurd trivial hroom

end Sound

/-- In every state of every interleaving, every live event counts its elements, if and only
if no push finds the ring full. -/
theorem counted_iff (steps : List Step) :
    Always step Counted new steps ↔ Along step Room new steps :=
  always_iff_along (fun _ h => Sound.counted h) (fun _ _ h hroom => h.step hroom)
    (fun _ _ h hroom => h.not_counted hroom) sound_new

/-! ## A ring that fills up -/

/-- A data event without an element, and a timer that has filled the ring with `n` of its
own. -/
structure Filled (s : SharedQueue) (n : Nat) : Prop where
  sound : s.Sound
  idle : s.notifying = none ∧ s.dispatching = none
  timer : ∃ e, s.events 0 = some e ∧ e.kind = .timer
  data : s.events 1 = some ⟨.data, ⟨true, false⟩, 0, false⟩
  length : s.queue.items.length = n

def ticks (n : Nat) : List Step :=
  (List.replicate n [.service 0 .none, .enqueue]).flatten

theorem Filled.tick {s : SharedQueue} {n : Nat} (h : Filled s n) (hn : n < 4095) :
    Filled ((s.step (.service 0 .none)).step .enqueue) (n + 1) := by
  obtain ⟨e, he, hkind⟩ := h.timer
  have hservice := step_service h.idle.1 he (by rw [QueueEvent.skipped, hkind]) .none
  have henqueue := step_enqueue (s := s.step (.service 0 .none)) (by rw [hservice])
  obtain ⟨l, hring⟩ := h.sound.ring
  have hlength : l.length = n := by
    rw [← hring.items_eq]
    exact h.length
  have hpushed := (hring.push_room (by omega) ⟨0, e.notifiedType .none⟩).2
  have hroom : (s.step (.service 0 .none)).Room .enqueue := by
    intro _
    rw [hservice]
    exact fun hfull => absurd (hring.full_iff.mp hfull) (by omega)
  refine ⟨(h.sound.service 0 .none).enqueue hroom, ?_, ?_, ?_, ?_⟩
  · rw [henqueue, hservice]
    exact ⟨rfl, h.idle.2⟩
  · rw [henqueue, hservice]
    exact ⟨e.pushDispatch, events_setEvent_self s 0 _, hkind⟩
  · rw [henqueue, hservice]
    exact (events_setEvent_of_ne s Nat.one_ne_zero (some e.pushDispatch)).trans h.data
  · rw [henqueue, hservice]
    show (s.queue.push _).2.items.length = n + 1
    rw [hpushed.items_eq, List.length_append, hlength]
    rfl

theorem Filled.ticks {s : SharedQueue} {k : Nat} (h : Filled s k) (n : Nat) (hn : k + n ≤ 4095) :
    Filled (after step s (ticks n)) (k + n) := by
  induction n generalizing s k with
  | zero => exact h
  | succ n ih =>
      have hrest := ih (h.tick (by omega)) (by omega)
      rw [Nat.add_assoc, Nat.add_comm 1 n] at hrest
      exact hrest

/-- The data event's turn comes when the ring is full: it counts an element that is not
there, and the event manager passes it over. -/
theorem Filled.lost {s : SharedQueue} (h : Filled s 4095) :
    ∃ e, ((s.step (.service 1 ⟨true, false⟩)).step .enqueue).events 1 = some e ∧
      e.awaitingDispatch = 1 ∧ e.skipped = true ∧
      ((s.step (.service 1 ⟨true, false⟩)).step .enqueue).outstandingOf 1 = 0 := by
  have hservice := step_service h.idle.1 h.data rfl ⟨true, false⟩
  have henqueue := step_enqueue (s := s.step (.service 1 ⟨true, false⟩)) (by rw [hservice])
  obtain ⟨l, hring⟩ := h.sound.ring
  have hlength : l.length + 1 = 4096 := by
    rw [← hring.items_eq, h.length]
  have hnone := h.sound.counts 1 _ h.data
  rw [henqueue, hservice]
  refine ⟨_, events_setEvent_self s 1 _, rfl, rfl, ?_⟩
  -- the push leaves the ring as it was, and the event had nothing on its way
  rw [outstandingOf, outstanding] at hnone ⊢
  rw [h.idle.1] at hnone
  show (s.popped ++ (s.queue.push _).2.items ++ []).countP _ = 0
  rw [hring.push_full hlength]
  exact hnone.symm

/-- A timer is due `n` times before anything is dispatched, and then a descriptor is
ready. -/
def crowded (n : Nat) : List Step :=
  [.register .timer .none, .register .data ⟨true, false⟩] ++ ticks n ++
    [.service 1 ⟨true, false⟩, .enqueue]

theorem crowded_lost {n : Nat} (hn : n = 4095) :
    (∃ e, (after step new (crowded n)).events 1 = some e ∧ e.awaitingDispatch = 1 ∧
        e.skipped = true ∧ (after step new (crowded n)).outstandingOf 1 = 0) ∧
      ¬ Always step Counted new (crowded n) := by
  have hstart : Filled (after step new [.register .timer .none, .register .data ⟨true, false⟩]) 0 :=
    ⟨(sound_new.register _ _).register _ _, ⟨rfl, rfl⟩, ⟨_, rfl, rfl⟩, rfl, rfl⟩
  have hfull := hstart.ticks n (by omega)
  rw [Nat.zero_add, hn] at hfull
  have hsplit : after step new (crowded n) =
      ((after step (after step new [.register .timer .none, .register .data ⟨true, false⟩])
        (ticks n)).step (.service 1 ⟨true, false⟩)).step .enqueue := by
    simp only [crowded, after, List.foldl_append, List.foldl_cons, List.foldl_nil]
  have hlost : ∃ e, (after step new (crowded n)).events 1 = some e ∧ e.awaitingDispatch = 1 ∧
      e.skipped = true ∧ (after step new (crowded n)).outstandingOf 1 = 0 := by
    rw [hsplit, hn]
    exact hfull.lost
  refine ⟨hlost, fun halways => ?_⟩
  obtain ⟨e, he, hcounter, -, hnone⟩ := hlost
  have hcounts := halways.last.counts 1 e he
  rw [hnone, hcounter] at hcounts
  cases hcounts

theorem full_ring_loses :
    (∃ e, (after step new (crowded 4095)).events 1 = some e ∧ e.awaitingDispatch = 1 ∧
        e.skipped = true ∧ (after step new (crowded 4095)).outstandingOf 1 = 0) ∧
      ¬ Always step Counted new (crowded 4095) :=
  crowded_lost rfl

end Fastpath.SharedQueue
