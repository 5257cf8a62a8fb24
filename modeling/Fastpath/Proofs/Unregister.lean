import Mathlib.Data.List.Nodup
import Fastpath.Proofs.Dispatch

/-!
# Unregistering an event

`unregisterEvent` deletes an event that counts nothing, and marks one that does.
A marked event is not called back any more, and neither is a deleted one. That
nothing looks for a deleted one either is up to the tables of the event manager,
which are in `Proofs.EventManager`.

When and how an event is deleted is another matter. Its own callback may
unregister it, and then `dispatch_event` looks at it afterwards; and a marked
event is deleted through an iterator that has just been erased. So an event's
life ends well only if it is unregistered while nothing of it is on its way and
it is not being dispatched.
-/

namespace Fastpath.SharedQueue

open Fastpath.Lib

variable {s : SharedQueue} {i : Nat}

/-! ## Callbacks -/

/-- The event has been unregistered: it is gone, or marked. -/
def Silenced (i : Nat) (s : SharedQueue) : Prop :=
  i < s.nextEvent ∧ ∀ e, s.events i = some e → e.pendingRemoval = true

/-- How many times the event has been called back. -/
def calls (s : SharedQueue) (i : Nat) : Nat := s.called.countP (·.event = i)

namespace Silenced

/-- One place of the table has changed, and not so that the event would be called back. -/
theorem setEvent (h : Silenced i s) {j : Nat} {found : Option QueueEvent}
    (hfound : j = i → ∀ e, found = some e → e.pendingRemoval = true) :
    Silenced i (s.setEvent j found) := by
  refine ⟨h.1, fun e he => ?_⟩
  by_cases hj : j = i
  · rw [hj, events_setEvent_self] at he
    exact hfound hj e he
  · rw [events_setEvent_of_ne s (Ne.symm hj)] at he
    exact h.2 e he

theorem effect (h : Silenced i s) {step : Step} {s' : SharedQueue} (heffect : Effect s step s') :
    Silenced i s' ∧ s'.calls i = s.calls i := by
  cases heffect with
  | nothing | busy | unknown | servicedDeleted | unregisteredUnknown | unregisteredDeleted | skipped
  | enqueued | popped | ranDeleted | finished | finishedDeleted => exact ⟨h, rfl⟩
  | registered kind types =>
      have hne : i ≠ s.nextEvent := Nat.ne_of_lt h.1
      have hset : Silenced i (s.setEvent s.nextEvent (some ⟨kind, types, 0, false⟩)) :=
        h.setEvent fun heq => absurd heq.symm hne
      exact ⟨⟨Nat.lt_succ_of_lt h.1, hset.2⟩, rfl⟩
  | @serviced j e filter hidle he hskipped =>
      refine ⟨h.setEvent fun heq f hf => ?_, rfl⟩
      cases hf
      exact h.2 e (heq ▸ he)
  | @ran element e hpopped he =>
      refine ⟨h.setEvent fun heq f hf => ?_, ?_⟩
      · cases hf
        exact h.2 e (heq ▸ he)
      · show (if e.pendingRemoval then s.called else s.called ++ [element]).countP _ = _
        split
        · rfl
        · next hmarked =>
            -- an element that calls back is of another event
            have hother : element.event ≠ i := fun heq => hmarked (h.2 e (heq ▸ he))
            rw [List.countP_append, List.countP_singleton, if_neg (by simpa using hother)]
            rfl
  | finishedDeleting => exact ⟨h.setEvent fun _ _ hf => (by cases hf), rfl⟩
  | @marked j e he hawaiting =>
      refine ⟨h.setEvent fun _ f hf => ?_, rfl⟩
      cases hf
      rfl
  | deleted => exact ⟨h.setEvent fun _ _ hf => (by cases hf), rfl⟩

end Silenced

theorem Sound.silenced (h : s.Sound) {e : QueueEvent} (he : s.events i = some e) :
    Silenced i (s.step (.unregister i)) := by
  have hlt := h.lt_nextEvent he
  rw [step, he]
  dsimp only
  split
  · refine ⟨hlt, fun f hf => ?_⟩
    rw [events_setEvent_self] at hf
    cases hf
    rfl
  · refine ⟨hlt, fun f hf => ?_⟩
    rw [events_setEvent_self] at hf
    cases hf

/-! ## Deletion -/

/-- A queue, and a ledger of its events: which have been unregistered, and which deleted, each
as often as it was. -/
structure Ledger where
  queue : SharedQueue
  unregistered : List Nat
  deleted : List Nat

namespace Ledger

def new : Ledger := ⟨.new, [], []⟩

/-- The events that were there before and are not any more. -/
def deletions (s s' : SharedQueue) : List Nat :=
  (List.range s.nextEvent).filter fun i => (s.events i).isSome && (s'.events i).isNone

def noted (s : SharedQueue) : Step → List Nat
  | .unregister i => if (s.events i).isSome then [i] else []
  | _ => []

def step (l : Ledger) (i : Step) : Ledger where
  queue := l.queue.step i
  unregistered := l.unregistered ++ noted l.queue i
  deleted := l.deleted ++ deletions l.queue (l.queue.step i)

/-- An event is deleted once at most, and not used after that. It is there as long as an
element of it is on its way, and if it has been unregistered only so long, or until the
dispatch of the last one ends. -/
structure Orderly (l : Ledger) : Prop where
  once : ∀ i, l.deleted.count i =
    if i < l.queue.nextEvent ∧ l.queue.events i = none then 1 else 0
  unused : l.queue.misused = false
  waits : ∀ element ∈ l.queue.outstanding, l.queue.events element.event ≠ none
  goes : ∀ i ∈ l.unregistered, l.queue.events i = none ∨ l.queue.outstandingOf i ≠ 0 ∨
    ∃ element ran, l.queue.dispatching = some (element, ran) ∧ element.event = i

/-- An event is unregistered while it is there, nothing of it is on its way and it is not being
dispatched; the event manager finds no deleted event; and no push finds the ring full. -/
def Quiet (l : Ledger) : Step → Prop
  | .unregister i => i < l.queue.nextEvent →
      (∃ e, l.queue.events i = some e ∧ e.isAwaitingDispatch = false) ∧
        ∀ element ran, l.queue.dispatching = some (element, ran) → element.event ≠ i
  | .service i _ => i < l.queue.nextEvent → l.queue.events i ≠ none
  | i => l.queue.Room i

/-- No event is ever marked, so none is deleted late. -/
structure Settled (l : Ledger) : Prop where
  sound : l.queue.Sound
  once : ∀ i, l.deleted.count i =
    if i < l.queue.nextEvent ∧ l.queue.events i = none then 1 else 0
  unused : l.queue.misused = false
  unmarked : ∀ i e, l.queue.events i = some e → e.pendingRemoval = false
  dispatched : ∀ element ran, l.queue.dispatching = some (element, ran) →
    l.queue.events element.event ≠ none
  gone : ∀ i ∈ l.unregistered, i < l.queue.nextEvent ∧ l.queue.events i = none

theorem settled_new : new.Settled :=
  ⟨sound_new, fun _ => rfl, rfl, fun _ _ h => (by cases h), fun _ _ h => (by cases h),
    fun _ h => (by cases h)⟩

variable {l : Ledger}

theorem count_deletions (s s' : SharedQueue) (i : Nat) :
    (deletions s s').count i =
      if i < s.nextEvent ∧ s.events i ≠ none ∧ s'.events i = none then 1 else 0 := by
  rw [deletions]
  split
  · next h =>
      refine List.count_eq_one_of_mem (List.nodup_range.filter _) (List.mem_filter.mpr ⟨?_, ?_⟩)
      · exact List.mem_range.mpr h.1
      · rw [Bool.and_eq_true, Option.isSome_iff_ne_none, Option.isNone_iff_eq_none]
        exact h.2
  · next h =>
      refine List.count_eq_zero_of_not_mem fun hmem => h ?_
      obtain ⟨hrange, hgone⟩ := List.mem_filter.mp hmem
      rw [Bool.and_eq_true, Option.isSome_iff_ne_none, Option.isNone_iff_eq_none] at hgone
      exact ⟨List.mem_range.mp hrange, hgone⟩

namespace Settled

theorem orderly (h : l.Settled) : l.Orderly :=
  ⟨h.once, h.unused, h.sound.live, fun i hi => .inl (h.gone i hi).2⟩

/-- The ledger stays right as long as no event comes back. -/
theorem count_deleted (h : l.Settled) {s' : SharedQueue} (hnext : l.queue.nextEvent ≤ s'.nextEvent)
    (hnew : ∀ j, l.queue.nextEvent ≤ j → j < s'.nextEvent → s'.events j ≠ none)
    (hstays : ∀ j, j < l.queue.nextEvent → l.queue.events j = none → s'.events j = none) (j : Nat) :
    (l.deleted ++ deletions l.queue s').count j =
      if j < s'.nextEvent ∧ s'.events j = none then 1 else 0 := by
  rw [List.count_append, h.once, count_deletions]
  by_cases hlt : j < l.queue.nextEvent
  · have hlt' := Nat.lt_of_lt_of_le hlt hnext
    by_cases hnone : l.queue.events j = none
    · rw [if_pos ⟨hlt, hnone⟩, if_neg (fun hd => hd.2.1 hnone), if_pos ⟨hlt', hstays j hlt hnone⟩]
    · rw [if_neg (fun hd => hnone hd.2)]
      by_cases hgone : s'.events j = none
      · rw [if_pos ⟨hlt, hnone, hgone⟩, if_pos ⟨hlt', hgone⟩]
      · rw [if_neg (fun hd => hgone hd.2.2), if_neg (fun hd => hgone hd.2)]
  · rw [if_neg (fun hd => hlt hd.1), if_neg (fun hd => hlt hd.1), if_neg]
    intro h
    obtain ⟨hlt', hgone⟩ := h
    exact hnew j (Nat.le_of_not_lt hlt) hlt' hgone

/-- No event has come or gone. -/
theorem kept (h : l.Settled) {s' : SharedQueue} (hsound : s'.Sound)
    (hnext : s'.nextEvent = l.queue.nextEvent) (hmisused : s'.misused = l.queue.misused)
    (hevents : ∀ j, s'.events j = none ↔ l.queue.events j = none)
    (hunmarked : ∀ j e, s'.events j = some e → e.pendingRemoval = false)
    (hdispatched : ∀ element ran, s'.dispatching = some (element, ran) →
      l.queue.events element.event ≠ none) :
    Settled ⟨s', l.unregistered ++ [], l.deleted ++ deletions l.queue s'⟩ := by
  refine ⟨hsound, ?_, hmisused.trans h.unused, hunmarked, fun element ran hd => ?_, fun j hj => ?_⟩
  · exact h.count_deleted (Nat.le_of_eq hnext.symm)
      (fun j hge hlt => absurd (hnext ▸ hlt) (Nat.not_lt.mpr hge))
      fun j _ hnone => (hevents j).mpr hnone
  · exact mt (hevents _).mp (hdispatched element ran hd)
  · rw [List.append_nil] at hj
    obtain ⟨hlt, hnone⟩ := h.gone j hj
    refine ⟨?_, (hevents j).mpr hnone⟩
    show j < s'.nextEvent
    omega

/-- An event has been replaced by one that is not marked either. -/
theorem replaced (h : l.Settled) {s' : SharedQueue} {i : Nat} {e e' : QueueEvent}
    (hsound : s'.Sound) (he : l.queue.events i = some e)
    (hevents : s'.events = Function.update l.queue.events i (some e'))
    (hnext : s'.nextEvent = l.queue.nextEvent) (hmisused : s'.misused = l.queue.misused)
    (hunmarked : e'.pendingRemoval = false)
    (hdispatched : ∀ element ran, s'.dispatching = some (element, ran) →
      l.queue.events element.event ≠ none) :
    Settled ⟨s', l.unregistered ++ [], l.deleted ++ deletions l.queue s'⟩ := by
  refine h.kept hsound hnext hmisused (fun j => ?_) (fun j f hf => ?_) hdispatched
  · rw [hevents]
    by_cases hj : j = i
    · rw [hj, Function.update_self, he]
      simp
    · rw [Function.update_of_ne hj]
  · rw [hevents] at hf
    by_cases hj : j = i
    · rw [hj, Function.update_self] at hf
      cases hf
      exact hunmarked
    · rw [Function.update_of_ne hj] at hf
      exact h.unmarked j f hf

theorem registered (h : l.Settled) {s' : SharedQueue} {e : QueueEvent} (hsound : s'.Sound)
    (hevents : s'.events = Function.update l.queue.events l.queue.nextEvent (some e))
    (hnext : s'.nextEvent = l.queue.nextEvent + 1) (hmisused : s'.misused = l.queue.misused)
    (hunmarked : e.pendingRemoval = false) (hdispatching : s'.dispatching = l.queue.dispatching) :
    Settled ⟨s', l.unregistered ++ [], l.deleted ++ deletions l.queue s'⟩ := by
  have hold : ∀ j, j ≠ l.queue.nextEvent → s'.events j = l.queue.events j := by
    intro j hj
    rw [hevents, Function.update_of_ne hj]
  have hself : s'.events l.queue.nextEvent = some e := by
    rw [hevents, Function.update_self]
  refine ⟨hsound, ?_, hmisused.trans h.unused, fun j f hf => ?_, fun element ran hd => ?_,
    fun j hj => ?_⟩
  · refine h.count_deleted (by rw [hnext]; exact Nat.le_succ _) (fun j hge hlt => ?_)
      fun j hlt hnone => (hold j (Nat.ne_of_lt hlt)).trans hnone
    rw [show j = l.queue.nextEvent by rw [hnext] at hlt; omega, hself]
    exact Option.some_ne_none e
  · by_cases hj : j = l.queue.nextEvent
    · rw [hj, hself] at hf
      cases hf
      exact hunmarked
    · rw [hold j hj] at hf
      exact h.unmarked j f hf
  · have hlive := h.dispatched element ran (hdispatching ▸ hd)
    have hlt := h.sound.known element.event hlive
    show s'.events element.event ≠ none
    rw [hold _ (Nat.ne_of_lt hlt)]
    exact hlive
  · rw [List.append_nil] at hj
    obtain ⟨hlt, hnone⟩ := h.gone j hj
    refine ⟨?_, (hold j (Nat.ne_of_lt hlt)).trans hnone⟩
    show j < s'.nextEvent
    omega

theorem deleted (h : l.Settled) {i : Nat} {e : QueueEvent} (he : l.queue.events i = some e)
    (hsound : (l.queue.setEvent i none).Sound)
    (hother : ∀ element ran, l.queue.dispatching = some (element, ran) → element.event ≠ i) :
    Settled ⟨l.queue.setEvent i none, l.unregistered ++ [i],
      l.deleted ++ deletions l.queue (l.queue.setEvent i none)⟩ := by
  have hstays : ∀ j, l.queue.events j = none → (l.queue.setEvent i none).events j = none := by
    intro j hnone
    by_cases hj : j = i
    · rw [hj, events_setEvent_self]
    · rw [events_setEvent_of_ne _ hj, hnone]
  refine ⟨hsound, ?_, h.unused, fun j f hf => ?_, fun element ran hd => ?_, fun j hj => ?_⟩
  · exact h.count_deleted (Nat.le_refl _) (fun j hge hlt => absurd hlt (Nat.not_lt.mpr hge))
      fun j _ => hstays j
  · by_cases hj : j = i
    · rw [hj, events_setEvent_self] at hf
      cases hf
    · rw [events_setEvent_of_ne _ hj] at hf
      exact h.unmarked j f hf
  · rw [events_setEvent_of_ne _ (hother element ran hd)]
    exact h.dispatched element ran hd
  · rcases List.mem_append.mp hj with hj | hj
    · exact ⟨(h.gone j hj).1, hstays j (h.gone j hj).2⟩
    · rw [List.mem_singleton.mp hj]
      exact ⟨h.sound.lt_nextEvent he, events_setEvent_self _ _ _⟩

theorem effect (h : l.Settled) {i : Step} {s' : SharedQueue} (hquiet : l.Quiet i)
    (hsound : s'.Sound) (heffect : Effect l.queue i s') :
    Settled ⟨s', l.unregistered ++ noted l.queue i, l.deleted ++ deletions l.queue s'⟩ := by
  cases heffect with
  | nothing hi =>
      rcases hi with rfl | rfl | rfl | rfl <;>
        exact h.kept hsound rfl rfl (fun _ => Iff.rfl) h.unmarked h.dispatched
  | busy | unknown | skipped =>
      exact h.kept hsound rfl rfl (fun _ => Iff.rfl) h.unmarked h.dispatched
  | servicedDeleted hlt he => exact absurd he (hquiet hlt)
  | unregisteredUnknown he =>
      rw [noted, he]
      exact h.kept hsound rfl rfl (fun _ => Iff.rfl) h.unmarked h.dispatched
  | unregisteredDeleted hlt he =>
      obtain ⟨⟨e, hlive, -⟩, -⟩ := hquiet hlt
      rw [he] at hlive
      cases hlive
  | registered kind types => exact h.registered hsound rfl rfl rfl rfl rfl
  | @serviced event e filter hidle he hskipped =>
      exact h.replaced hsound he rfl rfl rfl (h.unmarked event e he) h.dispatched
  | enqueued hnotifying => exact h.kept hsound rfl rfl (fun _ => Iff.rfl) h.unmarked h.dispatched
  | @popped element hidle hpop =>
      refine h.kept hsound rfl rfl (fun _ => Iff.rfl) h.unmarked fun other ran hd => ?_
      cases hd
      -- what has been popped was on its way
      refine h.sound.live element ?_
      rw [← (h.sound.popped hidle hpop).2, outstanding_of_popped rfl]
      exact List.mem_cons_self
  | @ran element e hpopped he =>
      refine h.replaced hsound he rfl rfl rfl (h.unmarked element.event e he) fun other ran hd => ?_
      cases hd
      rw [he]
      exact Option.some_ne_none e
  | ranDeleted hpopped he => exact absurd he (h.dispatched _ _ hpopped)
  | finished hran he hkept =>
      exact h.kept hsound rfl rfl (fun _ => Iff.rfl) h.unmarked fun _ _ hd => by cases hd
  | finishedDeleting hran he hdeleted =>
      rw [h.unmarked _ _ he] at hdeleted
      cases hdeleted
  | finishedDeleted hran he => exact absurd he (h.dispatched _ _ hran)
  | marked he hawaiting =>
      obtain ⟨⟨e, hlive, hidle⟩, -⟩ := hquiet (h.sound.lt_nextEvent he)
      rw [he, Option.some_inj] at hlive
      rw [hlive, hidle] at hawaiting
      cases hawaiting
  | deleted he hidle =>
      obtain ⟨-, hother⟩ := hquiet (h.sound.lt_nextEvent he)
      rw [noted, he]
      exact h.deleted he hsound hother

protected theorem step (h : l.Settled) {i : Step} (hquiet : l.Quiet i) : (l.step i).Settled := by
  have hroom : l.queue.Room i := by
    cases i with
    | enqueue => exact hquiet
    | register | service | pop | run | finish | unregister => trivial
  exact h.effect hquiet (h.sound.step hroom) (SharedQueue.effect l.queue i)

end Settled

/-- The lives of all events of a run end well if every event is unregistered while nothing of it
is on its way and it is not being dispatched, the event manager finds no deleted event
and no push finds the ring full. -/
theorem orderly_of_quiet (steps : List Step) (h : Along step Quiet new steps) :
    Always step Orderly new steps := by
  have hsettled : Always step Settled new steps :=
    h.always (fun _ _ h hquiet => h.step hquiet) settled_new
  exact hsettled.mono fun _ h => h.orderly

/-- A descriptor is ready, and the callback unregisters its own event. -/
def ownCallback : List Step :=
  [.register .data ⟨true, false⟩, .service 0 ⟨true, false⟩, .enqueue, .pop, .run, .unregister 0,
    .finish]

theorem ownCallback_not_orderly :
    (after step new ownCallback).deleted = [0] ∧
      (after step new ownCallback).queue.misused = true ∧
      ¬ Always step Orderly new ownCallback := by
  have hmisused : (after step new ownCallback).queue.misused = true := by
    decide +kernel
  refine ⟨by decide +kernel, hmisused, fun h => ?_⟩
  rw [h.last.unused] at hmisused
  cases hmisused

/-- A timer is called back, and unregistered after its dispatch. -/
def betweenDispatches : List Step :=
  [.register .timer .none, .service 0 .none, .enqueue, .pop, .run, .finish, .unregister 0]

theorem orderly_betweenDispatches :
    Along step Quiet new betweenDispatches ∧
      (after step new betweenDispatches).deleted = [0] ∧
      Always step Orderly new betweenDispatches := by
  have hquiet : Along step Quiet new betweenDispatches := by
    refine ⟨trivial, fun _ => ?_, fun _ => ?_, trivial, trivial, trivial,
      fun _ => ⟨⟨⟨.timer, .none, 0, false⟩, ?_, rfl⟩, fun _ _ hd => ?_⟩, trivial⟩
    · decide +kernel
    · decide +kernel
    · decide +kernel
    · cases hd
  exact ⟨hquiet, by decide +kernel, orderly_of_quiet betweenDispatches hquiet⟩

end Ledger

end Fastpath.SharedQueue
