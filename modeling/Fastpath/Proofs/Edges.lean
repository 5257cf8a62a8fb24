import Fastpath.Proofs.Dispatch

/-!
# Edges of readiness

The poll reports a readiness once, when it comes. `serviceIOEvent` passes over an
event that still has an element on its way, so a readiness reported then is
answered by the callback of that element or not at all: it is answered if the
element carries its type, and lost if a descriptor that is waited for in both
ways becomes writable while a reading is on its way.
-/

namespace Fastpath

/-- `EventType::READ` and `EventType::WRITE`. -/
inductive Edge where
  | read | write
deriving DecidableEq, Repr

def EventType.has (type : EventType) : Edge → Bool
  | .read => type.read
  | .write => type.write

namespace SharedQueue

open Fastpath.Lib

inductive Entry where
  /-- The poll has reported these types, of those the event waits for. -/
  | reported (event : Nat) (type : EventType)
  | callback (event : Nat) (type : EventType)
deriving DecidableEq, Repr

/-- A queue, and a log of what has been reported for its data events and of its callbacks. -/
structure Logged where
  queue : SharedQueue
  log : List Entry

namespace Logged

def new : Logged := ⟨.new, []⟩

/-- What a step reports. While the event manager is in a `__notify` it reports nothing else. -/
def reports (s : SharedQueue) : Step → List Entry
  | .service i filter =>
      match s.notifying, s.events i with
      | none, some e => if e.kind = .data then [.reported i (e.notifiedType filter)] else []
      | _, _ => []
  | _ => []

def step (l : Logged) (i : Step) : Logged where
  queue := l.queue.step i
  log := l.log ++ reports l.queue i ++
    ((l.queue.step i).called.drop l.queue.called.length).map fun element =>
      .callback element.event element.type

/-- Every edge reported for an event is followed by a callback with its type. -/
def Answered (log : List Entry) (i : Nat) : Prop :=
  ∀ earlier later type edge, log = earlier ++ .reported i type :: later → type.has edge = true →
    ∃ answer, .callback i answer ∈ later ∧ answer.has edge = true

/-- A data event that is registered and has no element on its way owes no edge. -/
def NoneLost (l : Logged) : Prop :=
  ∀ i e, l.queue.events i = some e → e.kind = .data → e.pendingRemoval = false →
    l.queue.outstandingOf i = 0 → Answered l.log i

/-- What is reported of an event that awaits dispatch is of types that an element on its way
carries; and no push finds the ring full. -/
def Carried (l : Logged) : Step → Prop
  | .service i filter => l.queue.notifying = none → ∀ e, l.queue.events i = some e →
      e.skipped = true → ∃ element ∈ l.queue.outstanding, element.event = i ∧
        ∀ edge, (e.notifiedType filter).has edge = true → element.type.has edge = true
  | i => l.queue.Room i

/-! Whether an edge is owed, along the log. -/

def owedAfter (i : Nat) (edge : Edge) (owed : Bool) : Entry → Bool
  | .reported j type => owed || (j = i && type.has edge)
  | .callback j type => owed && !(j = i && type.has edge)

def owed (log : List Entry) (i : Nat) (edge : Edge) : Bool :=
  log.foldl (owedAfter i edge) false

theorem owed_append (log more : List Entry) (i : Nat) (edge : Edge) :
    owed (log ++ more) i edge = more.foldl (owedAfter i edge) (owed log i edge) :=
  List.foldl_append

theorem answered_of_not_owed {log : List Entry} {i : Nat}
    (h : ∀ edge, owed log i edge = false) : Answered log i := by
  intro earlier later type edge hlog htype
  have howed := h edge
  rw [hlog, owed_append, List.foldl_cons, owedAfter, htype] at howed
  simp only [decide_true, Bool.and_self, Bool.or_true] at howed
  -- an edge that is owed at first and not in the end has been answered in between
  clear hlog
  induction later with
  | nil => cases howed
  | cons entry later ih =>
      rw [List.foldl_cons] at howed
      cases hentry : owedAfter i edge true entry with
      | true =>
          rw [hentry] at howed
          obtain ⟨answer, hmem, hanswer⟩ := ih howed
          exact ⟨answer, List.mem_cons_of_mem _ hmem, hanswer⟩
      | false =>
          cases entry with
          | reported j type => cases hentry
          | callback j answer =>
              simp only [owedAfter, Bool.true_and, Bool.not_eq_false', Bool.and_eq_true,
                decide_eq_true_eq] at hentry
              obtain ⟨rfl, hanswer⟩ := hentry
              exact ⟨answer, List.mem_cons_self, hanswer⟩

/-- Every edge that is owed is carried by an element on its way. -/
structure Covered (l : Logged) : Prop where
  sound : l.queue.Sound
  known : ∀ i type, .reported i type ∈ l.log → i < l.queue.nextEvent
  carried : ∀ i e, l.queue.events i = some e → e.kind = .data → e.pendingRemoval = false →
    ∀ edge, owed l.log i edge = true →
      ∃ element ∈ l.queue.outstanding, element.event = i ∧ element.type.has edge = true

theorem covered_new : new.Covered :=
  ⟨sound_new, fun _ _ h => (by cases h), fun _ _ h => (by cases h)⟩

variable {l : Logged}

theorem Covered.noneLost (h : l.Covered) : l.NoneLost := by
  intro i e he hdata hmarked hnone
  refine answered_of_not_owed fun edge => ?_
  by_contra howed
  obtain ⟨element, hmem, hi, -⟩ := h.carried i e he hdata hmarked edge (by simpa using howed)
  exact List.countP_eq_zero.mp hnone element hmem (decide_eq_true hi)

theorem owed_of_unknown {log : List Entry} {i : Nat} (h : ∀ type, .reported i type ∉ log)
    (edge : Edge) : owed log i edge = false := by
  rw [owed]
  induction log with
  | nil => rfl
  | cons entry log ih =>
      rw [List.foldl_cons]
      have hentry : owedAfter i edge false entry = false := by
        cases entry with
        | reported j type =>
            have hne : j ≠ i := by
              rintro rfl
              exact h type List.mem_cons_self
            rw [owedAfter, decide_eq_false hne]
            rfl
        | callback j type => rfl
      rw [hentry]
      exact ih fun type hmem => h type (List.mem_cons_of_mem _ hmem)

theorem reports_busy {s : SharedQueue} (h : s.notifying ≠ none) (i : Nat) (filter : EventType) :
    reports s (.service i filter) = [] := by
  obtain ⟨element, helement⟩ := Option.ne_none_iff_exists'.mp h
  rw [reports, helement]

theorem reports_unknown {s : SharedQueue} {i : Nat} (h : s.events i = none) (filter : EventType) :
    reports s (.service i filter) = [] := by
  rw [reports, h]
  cases s.notifying with
  | none => rfl
  | some element => rfl

theorem reports_service {s : SharedQueue} {i : Nat} {e : QueueEvent} (hidle : s.notifying = none)
    (he : s.events i = some e) (filter : EventType) :
    reports s (.service i filter) =
      if e.kind = .data then [.reported i (e.notifiedType filter)] else [] := by
  rw [reports, hidle, he]

namespace Covered

/-- Nothing has been logged, nothing that was on its way is gone, and an event that can owe
something is an old one or has just been registered. -/
theorem kept (h : l.Covered) {s' : SharedQueue} {log : List Entry} (hsound : s'.Sound)
    (hlog : log = l.log) (hnext : l.queue.nextEvent ≤ s'.nextEvent)
    (hevents : ∀ j e, j < l.queue.nextEvent → s'.events j = some e → e.kind = .data →
      e.pendingRemoval = false →
        ∃ e', l.queue.events j = some e' ∧ e'.kind = .data ∧ e'.pendingRemoval = false)
    (hout : ∀ element ∈ l.queue.outstanding, element ∈ s'.outstanding) : Covered ⟨s', log⟩ := by
  rw [hlog]
  refine ⟨hsound, fun i type hmem => Nat.lt_of_lt_of_le (h.known i type hmem) hnext, ?_⟩
  intro i e he hdata hmarked edge howed
  by_cases hlt : i < l.queue.nextEvent
  · obtain ⟨e', he', hdata', hmarked'⟩ := hevents i e hlt he hdata hmarked
    obtain ⟨element, hmem, hcarries⟩ := h.carried i e' he' hdata' hmarked' edge howed
    exact ⟨element, hout element hmem, hcarries⟩
  · have hnone := owed_of_unknown (fun type hmem => hlt (h.known i type hmem)) edge
    rw [hnone] at howed
    cases howed

/-- One place of the table has changed, and what is there now owes nothing more than before. -/
theorem changed (h : l.Covered) {s' : SharedQueue} {log : List Entry} {i : Nat}
    {found : Option QueueEvent} (hsound : s'.Sound) (hlog : log = l.log)
    (hevents : s'.events = Function.update l.queue.events i found)
    (hfound : i < l.queue.nextEvent → ∀ e, found = some e → e.pendingRemoval = true)
    (hnext : l.queue.nextEvent ≤ s'.nextEvent)
    (hout : s'.outstanding = l.queue.outstanding) : Covered ⟨s', log⟩ := by
  refine h.kept hsound hlog hnext (fun j e hlt he hdata hmarked => ?_)
    fun element hmem => by rw [hout]; exact hmem
  rw [hevents] at he
  by_cases hj : j = i
  · rw [hj, Function.update_self] at he
    rw [hfound (hj ▸ hlt) e he] at hmarked
    cases hmarked
  · rw [Function.update_of_ne hj] at he
    exact ⟨e, he, hdata, hmarked⟩

theorem unchanged (h : l.Covered) {s' : SharedQueue} {log : List Entry} (hsound : s'.Sound)
    (hlog : log = l.log) (hevents : s'.events = l.queue.events)
    (hnext : s'.nextEvent = l.queue.nextEvent) (hout : s'.outstanding = l.queue.outstanding) :
    Covered ⟨s', log⟩ := by
  refine h.kept hsound hlog (Nat.le_of_eq hnext.symm) (fun j e _ he hdata hmarked => ?_)
    fun element hmem => by rw [hout]; exact hmem
  rw [hevents] at he
  exact ⟨e, he, hdata, hmarked⟩

/-- A report that an element on its way answers for. -/
theorem reported (h : l.Covered) {s' : SharedQueue} {log : List Entry} {i : Nat} {type : EventType}
    {e : QueueEvent} (hsound : s'.Sound) (hlog : log = l.log ++ [.reported i type])
    (he : l.queue.events i = some e)
    (hevents : ∀ j f, s'.events j = some f → ∃ f', l.queue.events j = some f' ∧
      f'.kind = f.kind ∧ f'.pendingRemoval = f.pendingRemoval)
    (hnext : s'.nextEvent = l.queue.nextEvent)
    (hout : ∀ element ∈ l.queue.outstanding, element ∈ s'.outstanding)
    (hcarries : ∃ element ∈ s'.outstanding, element.event = i ∧
      ∀ edge, type.has edge = true → element.type.has edge = true) : Covered ⟨s', log⟩ := by
  rw [hlog]
  refine ⟨hsound, fun j type' hmem => ?_, fun j f hf hdata hmarked edge howed => ?_⟩
  · show j < s'.nextEvent
    rw [hnext]
    rcases List.mem_append.mp hmem with hmem | hmem
    · exact h.known j type' hmem
    · cases List.mem_singleton.mp hmem
      exact h.sound.lt_nextEvent he
  · change owed (l.log ++ [.reported i type]) j edge = true at howed
    rw [owed_append, List.foldl_cons, List.foldl_nil, owedAfter, Bool.or_eq_true] at howed
    rcases howed with howed | hnew
    · obtain ⟨f', hf', hkind, hflag⟩ := hevents j f hf
      obtain ⟨element, hmem, hcovers⟩ :=
        h.carried j f' hf' (hkind.trans hdata) (hflag.trans hmarked) edge howed
      exact ⟨element, hout element hmem, hcovers⟩
    · rw [Bool.and_eq_true, decide_eq_true_iff] at hnew
      obtain ⟨element, hmem, hi, hcovers⟩ := hcarries
      exact ⟨element, hmem, hi.trans hnew.1, hcovers edge hnew.2⟩

/-- An element has been run: what it carried has been answered, and what it did not carry is
carried by another one. -/
theorem ran (h : l.Covered) {s' : SharedQueue} {element : QueueElement} {e : QueueEvent}
    {log : List Entry} (hsound : s'.Sound) (hpopped : l.queue.dispatching = some (element, false))
    (he : l.queue.events element.event = some e)
    (hevents : s'.events = Function.update l.queue.events element.event (some e.popDispatch))
    (hnext : s'.nextEvent = l.queue.nextEvent)
    (hout : l.queue.outstanding = element :: s'.outstanding)
    (hlog : log = if e.pendingRemoval then l.log
      else l.log ++ [.callback element.event element.type]) : Covered ⟨s', log⟩ := by
  have hrest : ∀ other ∈ l.queue.outstanding, other ≠ element → other ∈ s'.outstanding := by
    intro other hmem hne
    rw [hout] at hmem
    exact (List.mem_cons.mp hmem).resolve_left hne
  refine ⟨hsound, fun j type hmem => ?_, fun j f hf hdata hmarked edge howed => ?_⟩
  · show j < s'.nextEvent
    rw [hnext]
    refine h.known j type ?_
    change _ ∈ log at hmem
    rw [hlog] at hmem
    split at hmem
    · exact hmem
    · rcases List.mem_append.mp hmem with hmem | hmem
      · exact hmem
      · cases List.mem_singleton.mp hmem
  · change owed log j edge = true at howed
    change s'.events j = some f at hf
    rw [hevents] at hf
    by_cases hj : j = element.event
    · rw [hj, Function.update_self, Option.some_inj] at hf
      rw [← hf] at hdata hmarked
      have hunmarked : e.pendingRemoval = false := hmarked
      rw [hlog, hunmarked, if_neg Bool.false_ne_true, owed_append, List.foldl_cons, List.foldl_nil,
        owedAfter, Bool.and_eq_true, hj, decide_eq_true rfl, Bool.true_and] at howed
      obtain ⟨other, hmem, hi, hcovers⟩ :=
        h.carried element.event e he hdata hunmarked edge howed.1
      refine ⟨other, hrest other hmem ?_, hi.trans hj.symm, hcovers⟩
      rintro rfl
      rw [hcovers] at howed
      cases howed.2
    · rw [Function.update_of_ne hj] at hf
      have hold : owed l.log j edge = true := by
        rw [hlog] at howed
        split at howed
        · exact howed
        · rw [owed_append, List.foldl_cons, List.foldl_nil, owedAfter, Bool.and_eq_true] at howed
          exact howed.1
      obtain ⟨other, hmem, hi, hcovers⟩ := h.carried j f hf hdata hmarked edge hold
      refine ⟨other, hrest other hmem ?_, hi, hcovers⟩
      rintro rfl
      exact hj hi.symm

/-- An element for the event waits behind the others, and a data event reports what it carries. -/
theorem serviced (h : l.Covered) {event : Nat} {e : QueueEvent} {filter : EventType}
    {log : List Entry} (hidle : l.queue.notifying = none) (he : l.queue.events event = some e)
    (hsound : ({ l.queue.setEvent event (some e.pushDispatch) with
      notifying := some ⟨event, e.notifiedType filter⟩ } : SharedQueue).Sound)
    (hlog : log = l.log ++ reports l.queue (.service event filter)) :
    Covered ⟨{ l.queue.setEvent event (some e.pushDispatch) with
      notifying := some ⟨event, e.notifiedType filter⟩ }, log⟩ := by
  have hout := outstanding_serviced hidle event e filter
  have hevents : ∀ j f, (l.queue.setEvent event (some e.pushDispatch)).events j = some f →
      ∃ f', l.queue.events j = some f' ∧ f'.kind = f.kind ∧
        f'.pendingRemoval = f.pendingRemoval := by
    intro j f hf
    by_cases hj : j = event
    · rw [hj, events_setEvent_self, Option.some_inj] at hf
      rw [← hf, hj]
      exact ⟨e, he, rfl, rfl⟩
    · rw [events_setEvent_of_ne _ hj] at hf
      exact ⟨f, hf, rfl, rfl⟩
  have hmore : ∀ element ∈ l.queue.outstanding, element ∈
      ({ l.queue.setEvent event (some e.pushDispatch) with
        notifying := some ⟨event, e.notifiedType filter⟩ } : SharedQueue).outstanding := by
    intro element hmem
    rw [hout]
    exact List.mem_append_left _ hmem
  rw [reports_service hidle he filter] at hlog
  by_cases hdata : e.kind = .data
  · rw [if_pos hdata] at hlog
    refine h.reported hsound hlog he hevents rfl hmore
      ⟨⟨event, e.notifiedType filter⟩, ?_, rfl, fun _ hhas => hhas⟩
    rw [hout]
    exact List.mem_append_right _ (List.mem_singleton.mpr rfl)
  · rw [if_neg hdata, List.append_nil] at hlog
    refine h.kept hsound hlog (Nat.le_refl _) (fun j f _ hf hkind hflag => ?_) hmore
    obtain ⟨f', hf', hkind', hflag'⟩ := hevents j f hf
    exact ⟨f', hf', hkind'.trans hkind, hflag'.trans hflag⟩

theorem effect (h : l.Covered) {i : Step} {s' : SharedQueue} (hroom : l.queue.Room i)
    (hcarried : l.Carried i) (hsound : s'.Sound) (heffect : Effect l.queue i s') :
    Covered ⟨s', l.log ++ reports l.queue i ++
      (s'.called.drop l.queue.called.length).map fun element =>
        .callback element.event element.type⟩ := by
  -- what the log gains when nobody is called back
  have hgains : ∀ {more : List Entry}, reports l.queue i = more →
      l.log ++ reports l.queue i ++ (l.queue.called.drop l.queue.called.length).map (fun element =>
        Entry.callback element.event element.type) = l.log ++ more := by
    rintro more rfl
    rw [List.drop_length, List.map_nil, List.append_nil]
  have hquiet : reports l.queue i = [] →
      l.log ++ reports l.queue i ++ (l.queue.called.drop l.queue.called.length).map (fun element =>
        Entry.callback element.event element.type) = l.log :=
    fun hnone => (hgains hnone).trans (List.append_nil _)
  cases heffect with
  | nothing hi =>
      rcases hi with rfl | rfl | rfl | rfl <;>
        exact h.unchanged hsound (hquiet rfl) rfl rfl rfl
  | busy hbusy => exact h.unchanged hsound (hquiet (reports_busy hbusy _ _)) rfl rfl rfl
  | unknown he => exact h.unchanged hsound (hquiet (reports_unknown he _)) rfl rfl rfl
  | servicedDeleted hlt he =>
      exact h.unchanged hsound (hquiet (reports_unknown he _)) rfl rfl rfl
  | unregisteredUnknown he | unregisteredDeleted hlt he =>
      exact h.unchanged hsound (hquiet rfl) rfl rfl rfl
  | registered kind types =>
      exact h.changed hsound (hquiet rfl) rfl (fun hlt => absurd hlt (Nat.lt_irrefl _))
        (Nat.le_succ _) rfl
  | @skipped event e filter hidle he hskipped =>
      have hdata : e.kind = .data := by
        cases hkind : e.kind with
        | data => rfl
        | timer | signal =>
            rw [QueueEvent.skipped, hkind] at hskipped
            cases hskipped
      have hlog := reports_service hidle he filter
      rw [if_pos hdata] at hlog
      exact h.reported hsound (hgains hlog) he (fun j f hf => ⟨f, hf, rfl, rfl⟩) rfl
        (fun _ hmem => hmem) (hcarried hidle e he hskipped)
  | @serviced event e filter hidle he hskipped =>
      exact h.serviced hidle he hsound (hgains rfl)
  | enqueued hnotifying =>
      exact h.unchanged hsound (hquiet rfl) rfl rfl (h.sound.enqueued hroom hnotifying).2
  | popped hidle hpop =>
      exact h.unchanged hsound (hquiet rfl) rfl rfl (h.sound.popped hidle hpop).2
  | @ran element e hpopped he =>
      have hout := outstanding_of_popped hpopped
      refine h.ran hsound hpopped he rfl rfl ?_ ?_
      · rw [hout, outstanding_of_ran rfl]
        rfl
      · show l.log ++ [] ++ ((if e.pendingRemoval then l.queue.called
          else l.queue.called ++ [element]).drop l.queue.called.length).map _ = _
        split
        · exact hquiet rfl
        · rw [List.drop_left, List.append_nil]
          rfl
  | ranDeleted hpopped he =>
      refine absurd he (h.sound.live _ ?_)
      rw [outstanding_of_popped hpopped]
      exact List.mem_cons_self
  | finished hran he hkept =>
      exact h.unchanged hsound (hquiet rfl) rfl rfl (outstanding_of_finished hran rfl rfl rfl)
  | finishedDeleting hran he hdeleted =>
      exact h.changed hsound (hquiet rfl) rfl (fun _ _ hf => by cases hf) (Nat.le_refl _)
        (outstanding_of_finished hran rfl rfl rfl)
  | finishedDeleted hran he =>
      exact h.unchanged hsound (hquiet rfl) rfl rfl (outstanding_of_finished hran rfl rfl rfl)
  | marked he hawaiting =>
      refine h.changed hsound (hquiet rfl) rfl (fun _ f hf => ?_) (Nat.le_refl _) rfl
      cases hf
      rfl
  | deleted he hidle =>
      exact h.changed hsound (hquiet rfl) rfl (fun _ _ hf => by cases hf) (Nat.le_refl _) rfl

protected theorem step (h : l.Covered) {i : Step} (hcarried : l.Carried i) :
    (l.step i).Covered := by
  have hroom : l.queue.Room i := by
    cases i with
    | enqueue => exact hcarried
    | register | service | pop | run | finish | unregister => trivial
  exact h.effect hroom hcarried (h.sound.step hroom) (SharedQueue.effect l.queue i)

end Covered

/-- No edge is lost in a run in which everything reported of an event that awaits dispatch is
of types that an element on its way carries, and no push finds the ring full. -/
theorem noneLost_of_carried (steps : List Step) (h : Along step Carried new steps) :
    Always step NoneLost new steps := by
  have hcovered : Always step Covered new steps :=
    h.always (fun _ _ h hcarried => h.step hcarried) covered_new
  exact hcovered.mono fun _ h => h.noneLost

/-- A descriptor becomes writable while its reading is on its way. -/
def overtaken : List Step :=
  [.register .data ⟨true, true⟩, .service 0 ⟨true, false⟩, .enqueue, .service 0 ⟨false, true⟩,
    .pop, .run, .finish]

theorem overtaken_lost :
    (after step new overtaken).log =
        [.reported 0 ⟨true, false⟩, .reported 0 ⟨false, true⟩, .callback 0 ⟨true, false⟩] ∧
      (after step new overtaken).queue.outstandingOf 0 = 0 ∧
      ¬ Always step NoneLost new overtaken := by
  have hlog : (after step new overtaken).log =
      [.reported 0 ⟨true, false⟩, .reported 0 ⟨false, true⟩, .callback 0 ⟨true, false⟩] := by
    decide +kernel
  have hnone : (after step new overtaken).queue.outstandingOf 0 = 0 := by
    decide +kernel
  have hevent : (after step new overtaken).queue.events 0 =
      some ⟨.data, ⟨true, true⟩, 0, false⟩ := by
    decide +kernel
  refine ⟨hlog, hnone, fun h => ?_⟩
  obtain ⟨answer, hmem, hhas⟩ :=
    h.last 0 _ hevent rfl rfl hnone [.reported 0 ⟨true, false⟩] [.callback 0 ⟨true, false⟩]
      ⟨false, true⟩ .write hlog rfl
  cases List.mem_singleton.mp hmem
  cases hhas

/-- It becomes readable again while its reading is on its way. -/
def readAgain : List Step :=
  [.register .data ⟨true, true⟩, .service 0 ⟨true, false⟩, .enqueue, .service 0 ⟨true, false⟩,
    .pop, .run, .finish]

theorem noneLost_readAgain :
    Along step Carried new readAgain ∧ Always step NoneLost new readAgain := by
  have hcarried : Along step Carried new readAgain := by
    refine ⟨trivial, fun _ e he hskipped => ?_, fun _ => ?_, fun _ e he _ => ?_, trivial, trivial,
      trivial, trivial⟩
    · cases he
      cases hskipped
    · decide +kernel
    · refine ⟨⟨0, ⟨true, false⟩⟩, by decide +kernel, rfl, fun edge hedge => ?_⟩
      cases he
      exact hedge
  exact ⟨hcarried, noneLost_of_carried readAgain hcarried⟩

end Logged

end SharedQueue

end Fastpath
