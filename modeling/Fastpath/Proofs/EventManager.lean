import Fastpath.Model.EventManager
import Fastpath.Proofs.Unregister

/-!
# What the event manager finds

A table of timers or of signals names events that are there and are not marked:
an event is put in when it is made, and taken out before anything is done to it.
So no deleted event of these kinds is notified, and since an element on its way
has its event, none is run. What is left to an unregistered timer are its
elements in the ring, and they do not call it back.

For descriptors the tables do not keep that promise, but what they name are
handlers of descriptors, and no timers.
-/

namespace Fastpath

open Fastpath.Lib

/-- What is left in a table once the place `k` is cleared. -/
theorem of_update_none {α : Type} {table : Int → Option α} {k i : Int} {a : α}
    (h : Function.update table k none i = some a) : i ≠ k ∧ table i = some a := by
  by_cases heq : i = k
  · rw [heq, Function.update_self] at h
    cases h
  · rw [Function.update_of_ne heq] at h
    exact ⟨heq, h⟩

/-- An event that is not marked stays there unmarked, unless it is unregistered. -/
theorem SharedQueue.Sound.unmarked {s : SharedQueue} (h : s.Sound) {i : Nat} {e : QueueEvent}
    (he : s.events i = some e) (hunmarked : e.pendingRemoval = false) {j : SharedQueue.Step}
    (hj : j ≠ .unregister i) :
    ∃ e', (s.step j).events i = some e' ∧ e'.pendingRemoval = false := by
  have hother : ∀ {k : Nat} {found : Option QueueEvent}, i ≠ k →
      ∃ e', (s.setEvent k found).events i = some e' ∧ e'.pendingRemoval = false :=
    fun hne => ⟨e, (events_setEvent_of_ne s hne _).trans he, hunmarked⟩
  have hupdated : ∀ {k : Nat} {f e' : QueueEvent}, s.events k = some f →
      e'.pendingRemoval = f.pendingRemoval →
      ∃ e'', (s.setEvent k (some e')).events i = some e'' ∧ e''.pendingRemoval = false := by
    intro k f e' hf hsame
    by_cases hik : i = k
    · rw [← hik, he] at hf
      cases hf
      exact ⟨e', by rw [hik, events_setEvent_self], hsame.trans hunmarked⟩
    · exact hother hik
  have heffect := effect s j
  generalize s.step j = s' at heffect ⊢
  cases heffect with
  | nothing | busy | unknown | servicedDeleted | unregisteredUnknown | unregisteredDeleted | skipped
  | enqueued | popped | ranDeleted | finished | finishedDeleted => exact ⟨e, he, hunmarked⟩
  | registered => exact hother (Nat.ne_of_lt (h.lt_nextEvent he))
  | serviced filter hidle hf hskipped => exact hupdated hf rfl
  | ran hpopped hf => exact hupdated hf rfl
  | finishedDeleting hpopped hf hdeleted =>
      refine hother fun heq => ?_
      rw [← heq, he] at hf
      cases hf
      rw [hunmarked, Bool.false_and] at hdeleted
      cases hdeleted
  | marked => exact hother fun heq => hj (by rw [heq])
  | deleted => exact hother fun heq => hj (by rw [heq])

namespace GlobalEventManager

/-- The event is there, and it has not been unregistered. -/
def Registered (s : GlobalEventManager) (i : Nat) : Prop :=
  ∃ e, s.queue.events i = some e ∧ e.pendingRemoval = false

/-- What a table of timers or signals names is registered, and known by the place it is at. -/
def Lists (s : GlobalEventManager) (table : Int → Option Nat) (key : Int → EventKey) : Prop :=
  ∀ identifier i, table identifier = some i → s.key i = some (key identifier) ∧ s.Registered i

/-- A push that is about to be made finds room. -/
def Room (s : GlobalEventManager) : Step → Prop
  | .enqueue => s.queue.Room .enqueue
  | _ => True

structure Sound (s : GlobalEventManager) : Prop where
  queue : s.queue.Sound
  known : ∀ i key, s.key i = some key → i < s.queue.nextEvent
  timers : s.Lists s.timerHandlerLookup .timer
  signals : s.Lists s.signalHandlerLookup .signal
  handlers : ∀ fd events, s.io.handlers fd = some events → ∀ h ∈ events,
    s.key h.address = some (.data h.fileDescriptor)

theorem sound_new : new.Sound where
  queue := SharedQueue.sound_new
  known i key h := by cases h
  timers identifier i h := by cases h
  signals identifier i h := by cases h
  handlers fd events h := by cases h

variable {s : GlobalEventManager}

/-! ## The queue's own steps -/

theorem Lists.queueStep {table : Int → Option Nat} {key : Int → EventKey} (h : s.Lists table key)
    (hqueue : s.queue.Sound) {j : SharedQueue.Step}
    (hj : ∀ identifier i, table identifier = some i → j ≠ .unregister i) :
    Lists { s with queue := s.queue.step j } table key := by
  intro identifier i hi
  obtain ⟨hkey, e, he, hunmarked⟩ := h identifier i hi
  exact ⟨hkey, hqueue.unmarked he hunmarked (hj identifier i hi)⟩

theorem le_nextEvent_step (q : SharedQueue) (j : SharedQueue.Step) :
    q.nextEvent ≤ (q.step j).nextEvent := by
  have heffect := q.effect j
  generalize q.step j = q' at heffect ⊢
  cases heffect with
  | registered => exact Nat.le_succ _
  | nothing | busy | unknown | servicedDeleted | unregisteredUnknown | unregisteredDeleted | skipped
  | enqueued | popped | ranDeleted | finished | finishedDeleted | serviced | ran | finishedDeleting
  | marked | deleted => exact Nat.le_refl _

/-- A step of the queue that unregisters nothing the tables name. -/
theorem Sound.queueStep (h : s.Sound) {j : SharedQueue.Step} (hroom : s.queue.Room j)
    (htimers : ∀ identifier i, s.timerHandlerLookup identifier = some i → j ≠ .unregister i)
    (hsignals : ∀ identifier i, s.signalHandlerLookup identifier = some i → j ≠ .unregister i) :
    Sound { s with queue := s.queue.step j } where
  queue := h.queue.step hroom
  known i key hkey := Nat.lt_of_lt_of_le (h.known i key hkey) (le_nextEvent_step s.queue j)
  timers := h.timers.queueStep h.queue htimers
  signals := h.signals.queueStep h.queue hsignals
  handlers := h.handlers

theorem Sound.service (h : s.Sound) (found : Option Nat) (filter : EventType) :
    (s.service found filter).Sound := by
  cases found with
  | none => exact h
  | some event => exact h.queueStep trivial (fun _ _ _ => by simp) (fun _ _ _ => by simp)

/-! ## Registration -/

theorem Sound.create (h : s.Sound) (kind : EventKind) (types : EventType) (key : EventKey) :
    (s.create kind types key).Sound ∧
      (s.create kind types key).key s.queue.nextEvent = some key ∧
      (s.create kind types key).Registered s.queue.nextEvent := by
  have hkept : ∀ i k, s.key i = some k → (s.create kind types key).key i = some k :=
    fun i k hk => (Function.update_of_ne (Nat.ne_of_lt (h.known i k hk)) ..).trans hk
  have hlists : ∀ {table : Int → Option Nat} {k : Int → EventKey}, s.Lists table k →
      (s.create kind types key).Lists table k := by
    intro table k hlists identifier i hi
    obtain ⟨hkey, hregistered⟩ := hlists.queueStep h.queue
      (j := .register kind types) (fun _ _ _ => by simp) identifier i hi
    exact ⟨hkept i _ hkey, hregistered⟩
  refine ⟨⟨h.queue.register kind types, fun i k hk => ?_, hlists h.timers, hlists h.signals,
    fun fd events hevents e he => hkept _ _ (h.handlers fd events hevents e he)⟩,
    Function.update_self .., ⟨kind, types, 0, false⟩, Function.update_self .., rfl⟩
  by_cases hi : i = s.queue.nextEvent
  · rw [hi]
    exact Nat.lt_succ_self _
  · have hold : s.key i = some k := (Function.update_of_ne hi ..).symm.trans hk
    exact Nat.lt_succ_of_lt (h.known i k hold)

theorem Lists.emplace {table : Int → Option Nat} {key : Int → EventKey} (h : s.Lists table key)
    {identifier : Int} {i : Nat} (hkey : s.key i = some (key identifier)) (hi : s.Registered i) :
    s.Lists (emplace table identifier i) key := by
  intro other j hj
  by_cases heq : other = identifier
  · rw [heq, GlobalEventManager.emplace, Function.update_self] at hj
    rw [heq]
    cases hfound : table identifier with
    | none =>
        rw [hfound] at hj
        cases hj
        exact ⟨hkey, hi⟩
    | some found =>
        rw [hfound] at hj
        cases hj
        exact h identifier found hfound
  · rw [GlobalEventManager.emplace, Function.update_of_ne heq] at hj
    exact h other j hj

theorem Sound.registerHandler (h : s.Sound) {i : Nat} {key : EventKey} (hkey : s.key i = some key)
    (hi : s.Registered i) (types : EventType) : (s.registerHandler i types key).Sound := by
  cases key with
  | timer identifier =>
      exact ⟨h.queue, h.known, h.timers.emplace hkey hi, h.signals, h.handlers⟩
  | signal signal => exact ⟨h.queue, h.known, h.timers, h.signals.emplace hkey hi, h.handlers⟩
  | data fd =>
      refine ⟨h.queue, h.known, h.timers, h.signals, fun other events hevents e he => ?_⟩
      rw [GlobalEventManager.registerHandler, Registry.registerHandler] at hevents
      split at hevents
      · exact h.handlers other events hevents e he
      · by_cases heq : other = fd
        · dsimp only at hevents
          rw [heq, Function.update_self] at hevents
          cases hevents
          cases hfound : s.io.handlers fd with
          | none =>
              rw [hfound, List.mem_singleton] at he
              rw [he]
              exact hkey
          | some found =>
              rw [hfound, List.mem_append, List.mem_singleton] at he
              rcases he with he | he
              · exact h.handlers fd found hfound e he
              · rw [he]
                exact hkey
        · dsimp only at hevents
          rw [Function.update_of_ne heq] at hevents
          exact h.handlers other events hevents e he

theorem Sound.registerEvent (h : s.Sound) (kind : EventKind) (types : EventType) (key : EventKey) :
    (s.registerEvent kind types key).Sound := by
  obtain ⟨hsound, hkey, hregistered⟩ := h.create kind types key
  exact hsound.registerHandler hkey hregistered types

/-! ## Unregistering -/

theorem Lists.erase {table : Int → Option Nat} {key : Int → EventKey} (h : s.Lists table key)
    (identifier : Int) : s.Lists (Function.update table identifier none) key :=
  fun other i hi => h other i (of_update_none hi).2

/-- Once an event's handler is unregistered, neither table names the event. -/
theorem Sound.unregisterHandler (h : s.Sound) {i : Nat} (e : QueueEvent) :
    (s.unregisterHandler i e (s.key i)).Sound ∧
      (∀ identifier, (s.unregisterHandler i e (s.key i)).timerHandlerLookup identifier ≠ some i) ∧
      ∀ signal, (s.unregisterHandler i e (s.key i)).signalHandlerLookup signal ≠ some i := by
  have htimer : ∀ identifier, s.timerHandlerLookup identifier = some i →
      s.key i = some (.timer identifier) := fun identifier hi => (h.timers identifier i hi).1
  have hsignal : ∀ signal, s.signalHandlerLookup signal = some i →
      s.key i = some (.signal signal) := fun signal hi => (h.signals signal i hi).1
  cases hkey : s.key i with
  | none =>
      exact ⟨h, fun identifier hi => (by cases hkey.symm.trans (htimer identifier hi)),
        fun signal hi => (by cases hkey.symm.trans (hsignal signal hi))⟩
  | some key =>
      cases key with
      | timer identifier =>
          refine ⟨⟨h.queue, h.known, h.timers.erase identifier, h.signals, h.handlers⟩,
            fun other hi => ?_, fun signal hi => (by cases hkey.symm.trans (hsignal signal hi))⟩
          obtain ⟨hne, hold⟩ := of_update_none hi
          cases hkey.symm.trans (htimer other hold)
          exact hne rfl
      | signal signal =>
          refine ⟨⟨h.queue, h.known, h.timers, h.signals.erase signal, h.handlers⟩,
            fun identifier hi => (by cases hkey.symm.trans (htimer identifier hi)),
            fun other hi => ?_⟩
          obtain ⟨hne, hold⟩ := of_update_none hi
          cases hkey.symm.trans (hsignal other hold)
          exact hne rfl
      | data fd =>
          refine ⟨⟨h.queue, h.known, h.timers, h.signals, fun other events hevents f hf => ?_⟩,
            fun identifier hi => (by cases hkey.symm.trans (htimer identifier hi)),
            fun signal hi => (by cases hkey.symm.trans (hsignal signal hi))⟩
          refine h.handlers other events ?_ f hf
          rw [GlobalEventManager.unregisterHandler, Registry.unregisterHandler] at hevents
          split at hevents
          · exact hevents
          · split at hevents
            · split at hevents
              · exact (of_update_none hevents).2
              · exact hevents
            · exact hevents

theorem Sound.unregisterEvent (h : s.Sound) (i : Nat) : (s.unregisterEvent i).Sound := by
  rw [GlobalEventManager.unregisterEvent]
  cases he : s.queue.events i with
  | none => exact h
  | some e =>
      obtain ⟨hsound, htimers, hsignals⟩ := h.unregisterHandler (i := i) e
      exact hsound.queueStep (j := .unregister i) trivial
        (fun identifier j hj heq => by cases heq; exact htimers identifier hj)
        (fun signal j hj heq => by cases heq; exact hsignals signal hj)

protected theorem Sound.step (h : s.Sound) {i : Step} (hroom : s.Room i) : (s.step i).Sound := by
  rw [step.eq_def]
  split
  · exact h
  · cases i with
    | registerTimer | registerSignal | registerData => exact h.registerEvent ..
    | serviceTimerEvent | serviceSignalEvent => exact h.service ..
    | serviceIOEvent =>
        dsimp only
        split
        · exact h.service ..
        · exact h
    | enqueue => exact h.queueStep hroom (fun _ _ _ => by simp) (fun _ _ _ => by simp)
    | pop | run => exact h.queueStep trivial (fun _ _ _ => by simp) (fun _ _ _ => by simp)
    | finish survives =>
        dsimp only
        split
        · exact ⟨h.queue, h.known, h.timers, h.signals, h.handlers⟩
        · exact h.queueStep trivial (fun _ _ _ => by simp) (fun _ _ _ => by simp)
    | unregister event => exact h.unregisterEvent event

/-! ## Runs -/

/-- The queue has taken at most a step, and no event's key has changed. -/
structure Moved (s s' : GlobalEventManager) : Prop where
  queue : s'.queue = s.queue ∨ ∃ j, s'.queue = s.queue.step j
  key : ∀ i key, s.key i = some key → s'.key i = some key

theorem Moved.refl (s : GlobalEventManager) : Moved s s := ⟨.inl rfl, fun _ _ h => h⟩

theorem Moved.ofQueue (s : GlobalEventManager) (j : SharedQueue.Step) :
    Moved s { s with queue := s.queue.step j } := ⟨.inr ⟨j, rfl⟩, fun _ _ h => h⟩

theorem Moved.service (s : GlobalEventManager) (found : Option Nat) (filter : EventType) :
    Moved s (s.service found filter) := by
  cases found with
  | none => exact .refl s
  | some event => exact .ofQueue s _

theorem Sound.moved_registerEvent (h : s.Sound) (kind : EventKind) (types : EventType)
    (key : EventKey) : Moved s (s.registerEvent kind types key) := by
  have hkept : ∀ i k, s.key i = some k → (s.create kind types key).key i = some k :=
    fun i k hk => (Function.update_of_ne (Nat.ne_of_lt (h.known i k hk)) ..).trans hk
  cases key with
  | timer | signal | data => exact ⟨.inr ⟨.register kind types, rfl⟩, hkept⟩

theorem moved_unregisterEvent (s : GlobalEventManager) (i : Nat) :
    Moved s (s.unregisterEvent i) := by
  rw [GlobalEventManager.unregisterEvent]
  cases s.queue.events i with
  | none => exact .refl s
  | some e =>
      cases hkey : s.key i with
      | none => exact .ofQueue s _
      | some key =>
          cases key with
          | timer | signal | data => exact ⟨.inr ⟨.unregister i, rfl⟩, fun _ _ h => h⟩

theorem Sound.moved (h : s.Sound) (i : Step) : Moved s (s.step i) := by
  rw [step.eq_def]
  split
  · exact .refl s
  · cases i with
    | registerTimer | registerSignal | registerData => exact h.moved_registerEvent ..
    | serviceTimerEvent | serviceSignalEvent => exact .service ..
    | serviceIOEvent =>
        dsimp only
        split
        · exact .service ..
        · exact .refl s
    | enqueue | pop | run => exact .ofQueue s _
    | finish survives =>
        dsimp only
        split
        · exact ⟨.inl rfl, fun _ _ h => h⟩
        · exact .ofQueue s _
    | unregister event => exact s.moved_unregisterEvent event

/-- An event that has been unregistered, after `calls` calls: it is called back no more; what is
due, raised or ready is looked up to other events, which for timers and signals are registered;
and what is about to be run has its event. -/
structure Spares (i calls : Nat) (s : GlobalEventManager) : Prop where
  calls : s.queue.calls i = calls
  timers : ∀ identifier j, s.timerHandlerLookup identifier = some j → j ≠ i ∧ s.Registered j
  signals : ∀ signal j, s.signalHandlerLookup signal = some j → j ≠ i ∧ s.Registered j
  handlers : ∀ identifier filter, ∀ h ∈ s.io.foreachEventMatching identifier filter, h.address ≠ i
  popped : ∀ element, s.queue.dispatching = some (element, false) →
    s.queue.events element.event ≠ none

/-- What carries it. -/
structure Dropped (i calls : Nat) (s : GlobalEventManager) : Prop where
  sound : s.Sound
  timer : ∃ identifier, s.key i = some (.timer identifier)
  silenced : SharedQueue.Silenced i s.queue
  calls : s.queue.calls i = calls

variable {i calls : Nat}

theorem Dropped.spares (h : Dropped i calls s) : Spares i calls s where
  calls := h.calls
  timers identifier j hj := by
    obtain ⟨-, e, he, hunmarked⟩ := h.sound.timers identifier j hj
    refine ⟨fun heq => ?_, e, he, hunmarked⟩
    rw [h.silenced.2 e (heq ▸ he)] at hunmarked
    cases hunmarked
  signals signal j hj := by
    obtain ⟨-, e, he, hunmarked⟩ := h.sound.signals signal j hj
    refine ⟨fun heq => ?_, e, he, hunmarked⟩
    rw [h.silenced.2 e (heq ▸ he)] at hunmarked
    cases hunmarked
  handlers identifier filter f hf heq := by
    rw [Registry.foreachEventMatching] at hf
    cases hfound : s.io.handlers identifier with
    | none =>
        rw [hfound] at hf
        cases hf
    | some events =>
        rw [hfound] at hf
        have hkey := h.sound.handlers identifier events hfound f (List.mem_of_mem_filter hf)
        obtain ⟨known, htimer⟩ := h.timer
        rw [heq, htimer] at hkey
        cases hkey
  popped element hpopped := by
    refine h.sound.queue.live element ?_
    rw [SharedQueue.outstanding_of_popped hpopped]
    exact List.mem_cons_self

theorem Dropped.step (h : Dropped i calls s) {j : Step} (hroom : s.Room j) :
    Dropped i calls (s.step j) := by
  have hmoved := h.sound.moved j
  obtain ⟨identifier, htimer⟩ := h.timer
  have hkey := hmoved.key i _ htimer
  rcases hmoved.queue with hsame | ⟨k, hstep⟩
  · exact ⟨h.sound.step hroom, ⟨identifier, hkey⟩, hsame ▸ h.silenced, hsame ▸ h.calls⟩
  · obtain ⟨hsilenced, hcalls⟩ := h.silenced.effect (s.queue.effect k)
    exact ⟨h.sound.step hroom, ⟨identifier, hkey⟩, hstep ▸ hsilenced,
      hstep ▸ hcalls.trans h.calls⟩

theorem Sound.dropped (h : s.Sound) (hrunning : s.ended = false) {e : QueueEvent}
    (he : s.queue.events i = some e)
    {identifier : Int} (htimer : s.key i = some (.timer identifier)) :
    Dropped i (s.queue.calls i) (s.step (.unregister i)) := by
  have hqueue : (s.step (.unregister i)).queue = s.queue.step (.unregister i) := by
    rw [step.eq_def, hrunning, if_neg Bool.false_ne_true]
    dsimp only
    rw [GlobalEventManager.unregisterEvent, he, htimer]
    rfl
  have hcalls : (s.queue.step (.unregister i)).calls i = s.queue.calls i := by
    rw [SharedQueue.step, he]
    dsimp only
    split <;> rfl
  refine ⟨h.step trivial, ⟨identifier, (h.moved _).key i _ htimer⟩, ?_, ?_⟩
  · rw [hqueue]
    exact h.queue.silenced he
  · rw [hqueue]
    exact hcalls

/-- However a run without a refused push goes on once a timer has been unregistered, the timer is
not called back again, nor found, and no other timer or signal is found that has been deleted. -/
theorem not_called_after_unregister {before afterwards : List Step} {e : QueueEvent}
    {identifier : Int} (hroom : Along step Room new (before ++ .unregister i :: afterwards))
    (hrunning : (after step new before).ended = false)
    (he : (after step new before).queue.events i = some e)
    (htimer : (after step new before).key i = some (.timer identifier)) :
    Always step (Spares i ((after step new before).queue.calls i))
      ((after step new before).step (.unregister i)) afterwards := by
  obtain ⟨hbefore, -, hafter⟩ := along_append.mp hroom
  have hsound : (after step new before).Sound :=
    (hbefore.always (fun _ _ h hroom => h.step hroom) sound_new).last
  have hrun := hafter.always (fun _ _ h hroom => Dropped.step h hroom)
    (hsound.dropped hrunning he htimer)
  exact hrun.mono fun _ h => h.spares

/-- Two timers, and a backlog of the first up to its first callback. -/
def backlog : List Step :=
  [.registerTimer 5, .registerTimer 6, .serviceTimerEvent 5, .enqueue, .serviceTimerEvent 5,
    .enqueue, .pop, .run]

/-- The callback unregisters its timer, which is reported once more, and the rest of the backlog
is dispatched. -/
def unwound : List Step :=
  [.finish true, .serviceTimerEvent 5, .pop, .serviceTimerEvent 6, .enqueue, .run, .finish true,
    .pop, .run]

/-- The first timer has been called once before, and is not called again. -/
theorem backlog_not_called :
    (after step new backlog).queue.calls 0 = 1 ∧
      Always step (Spares 0 ((after step new backlog).queue.calls 0))
        ((after step new backlog).step (.unregister 0)) unwound := by
  have hroom : Along step Room new (backlog ++ .unregister 0 :: unwound) := by
    refine ⟨trivial, trivial, trivial, fun _ => ?_, trivial, fun _ => ?_, trivial, trivial, trivial,
      trivial, trivial, trivial, trivial, fun _ => ?_, trivial, trivial, trivial, trivial, trivial⟩
    · decide +kernel
    · decide +kernel
    · decide +kernel
  exact ⟨by decide +kernel, not_called_after_unregister hroom (by decide +kernel)
    (e := ⟨.timer, .none, 1, false⟩) (by decide +kernel)
    (show (after step new backlog).key 0 = some (.timer 5) by decide +kernel)⟩

end GlobalEventManager

end Fastpath
