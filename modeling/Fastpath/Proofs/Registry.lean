import Mathlib.Data.List.Basic
import Fastpath.Lib.Steps
import Fastpath.Model.Registry

/-!
# Who is registered

Beside the tables runs the list of the handlers that have been registered and not
unregistered since, in the order of their registration. The tables follow it as
long as a handler is registered once at a time and is alone on its descriptor
when it leaves: taking one of several off a descriptor is done to a copy of the
vector, so it stays.

The poll follows it only while no descriptor is shared. The second handler of a
descriptor is put into the table, is refused by `epoll_ctl`, and its readiness is
not polled for.
-/

namespace Fastpath.Registry

open Fastpath.Lib

/-- An event manager, and the handlers registered with it by now. -/
structure Watched where
  registry : Registry
  registered : List Handler

namespace Watched

def new : Watched := ⟨.new, []⟩

/-- What a call means. A descriptor that cannot be one is not registered on. -/
def note (registered : List Handler) : Call → List Handler
  | .registerHandler event =>
      if event.fileDescriptor ≤ 0 ∨ event ∈ registered then registered else registered ++ [event]
  | .unregisterHandler event _ => registered.filter (· ≠ event)

def step (manager : ManagerKind) (s : Watched) (c : Call) : Watched :=
  ⟨(s.registry.call manager c).2, note s.registered c⟩

/-- The handlers registered on a descriptor. -/
def on (s : Watched) (identifier : Int) : List Handler :=
  s.registered.filter (·.fileDescriptor = identifier)

/-- `foreach_event_matching` calls back the handlers registered on the descriptor whose types
match, each once and in their order, and no other handler is in a table. -/
structure Followed (s : Watched) : Prop where
  matching : ∀ identifier filter, s.registry.foreachEventMatching identifier filter =
    (s.on identifier).filter fun e => e.eventTypes.and filter ≠ .none
  once : ∀ identifier filter, (s.registry.foreachEventMatching identifier filter).Nodup
  tables : ∀ identifier events, s.registry.handlers identifier = some events →
    events = s.on identifier

/-- A handler is registered that is not, or one is unregistered that is alone on its
descriptor. -/
def Alone (s : Watched) : Call → Prop
  | .registerHandler event => event ∉ s.registered
  | .unregisterHandler event _ => event ∈ s.registered → s.on event.fileDescriptor = [event]

/-- The table of a descriptor is the list of its handlers, and there is none without. -/
structure Tracked (s : Watched) : Prop where
  handlers : ∀ identifier, s.registry.handlers identifier =
    if s.on identifier = [] then none else some (s.on identifier)
  nodup : s.registered.Nodup
  positive : ∀ event ∈ s.registered, 0 < event.fileDescriptor

variable {manager : ManagerKind} {s : Watched} {event : Handler}

theorem tracked_new : new.Tracked := ⟨fun _ => rfl, List.nodup_nil, fun _ h => (by cases h)⟩

theorem mem_on {identifier : Int} :
    event ∈ s.on identifier ↔ event ∈ s.registered ∧ event.fileDescriptor = identifier := by
  rw [on, List.mem_filter, decide_eq_true_iff]

/-- A handler that is not on a descriptor leaves the others of it as they are. -/
theorem filter_on {identifier : Int}
    (h : ¬ (event ∈ s.registered ∧ event.fileDescriptor = identifier)) :
    (s.on identifier).filter (· ≠ event) = s.on identifier := by
  rw [List.filter_eq_self]
  intro e he
  rw [decide_eq_true_iff]
  rintro rfl
  exact h (mem_on.mp he)

/-! The calls, one at a time. -/

theorem step_invalid (hfd : event.fileDescriptor ≤ 0) :
    s.step manager (.registerHandler event) = s := by
  rw [step, call, registerHandler.eq_def, if_pos hfd, note, if_pos (.inl hfd)]
  cases manager with
  | inline => rfl
  | global => rfl

theorem on_register (hfd : 0 < event.fileDescriptor) (hnew : event ∉ s.registered)
    (identifier : Int) : (s.step manager (.registerHandler event)).on identifier =
      if identifier = event.fileDescriptor then s.on identifier ++ [event]
      else s.on identifier := by
  have hnote : note s.registered (.registerHandler event) = s.registered ++ [event] := by
    rw [note, if_neg]
    rintro (hle | hmem)
    · omega
    · exact hnew hmem
  rw [on, step, hnote, List.filter_append, List.filter_singleton]
  split
  · next heq => rw [heq, decide_eq_true rfl, cond_true, on]
  · next hne => rw [decide_eq_false (Ne.symm hne), cond_false, List.append_nil, on]

theorem on_unregister (awaitingDispatch : Bool) (identifier : Int) :
    (s.step manager (.unregisterHandler event awaitingDispatch)).on identifier =
      (s.on identifier).filter (· ≠ event) := by
  rw [on, step, note, on, List.filter_filter, List.filter_filter]
  congr 1
  funext e
  exact Bool.and_comm _ _

namespace Tracked

theorem followed (h : s.Tracked) : s.Followed := by
  have hmatching : ∀ identifier filter, s.registry.foreachEventMatching identifier filter =
      (s.on identifier).filter fun e => e.eventTypes.and filter ≠ .none := by
    intro identifier filter
    rw [foreachEventMatching, h.handlers]
    split
    · next hsome =>
        split at hsome
        · cases hsome
        · cases hsome
          rfl
    · next hnone =>
        split at hnone
        · next hnil =>
            rw [hnil]
            rfl
        · cases hnone
  refine ⟨hmatching, fun identifier filter => ?_, fun identifier events hevents => ?_⟩
  · rw [hmatching]
    exact (h.nodup.filter _).filter _
  · rw [h.handlers] at hevents
    split at hevents
    · cases hevents
    · exact (Option.some_inj.mp hevents).symm

theorem register_handlers (h : s.Tracked) (hfd : 0 < event.fileDescriptor) :
    (s.step manager (.registerHandler event)).registry.handlers =
      Function.update s.registry.handlers event.fileDescriptor
        (some (s.on event.fileDescriptor ++ [event])) := by
  rw [step, call, registerHandler.eq_def, if_neg (by omega)]
  dsimp only
  rw [h.handlers]
  split
  · next hsome =>
      split at hsome
      · cases hsome
      · cases hsome
        rfl
  · next hnone =>
      split at hnone
      · next hnil =>
          rw [hnil]
          rfl
      · cases hnone

theorem register (h : s.Tracked) (hnew : event ∉ s.registered) :
    (s.step manager (.registerHandler event)).Tracked := by
  by_cases hfd : 0 < event.fileDescriptor
  · have hregistered : (s.step manager (.registerHandler event)).registered =
        s.registered ++ [event] := by
      rw [step, note, if_neg]
      rintro (hle | hmem)
      · omega
      · exact hnew hmem
    refine ⟨fun identifier => ?_, ?_, ?_⟩
    · rw [h.register_handlers hfd, on_register hfd hnew]
      split
      · next heq =>
          rw [heq, Function.update_self, if_neg (by simp)]
      · next hne =>
          rw [Function.update_of_ne hne]
          exact h.handlers identifier
    · rw [hregistered, List.nodup_append]
      refine ⟨h.nodup, by simp, fun a ha b hb heq => ?_⟩
      rw [heq, List.mem_singleton.mp hb] at ha
      exact hnew ha
    · rw [hregistered]
      intro e hmem
      rcases List.mem_append.mp hmem with hmem | hmem
      · exact h.positive e hmem
      · rw [List.mem_singleton.mp hmem]
        exact hfd
  · rw [step_invalid (by omega)]
    exact h

theorem of_unregister (h : s.Tracked) {awaitingDispatch : Bool}
    (hhandlers : ∀ identifier,
      (s.step manager (.unregisterHandler event awaitingDispatch)).registry.handlers identifier =
        if (s.on identifier).filter (· ≠ event) = [] then none
        else some ((s.on identifier).filter (· ≠ event))) :
    (s.step manager (.unregisterHandler event awaitingDispatch)).Tracked := by
  refine ⟨fun identifier => ?_, h.nodup.filter _, fun e hmem => ?_⟩
  · rw [on_unregister]
    exact hhandlers identifier
  · exact h.positive e (List.mem_filter.mp hmem).1

/-- A handler that is not registered is not found. -/
theorem unregister_absent (h : s.Tracked) (habsent : event ∉ s.registered)
    (awaitingDispatch : Bool) :
    (s.registry.unregisterHandler manager event awaitingDispatch) = (some false, s.registry) := by
  rw [unregisterHandler]
  split
  · rfl
  · next registered hsome =>
      rw [if_neg]
      rw [h.followed.tables _ _ hsome, mem_on]
      exact fun hmem => habsent hmem.1

/-- A handler that is alone on its descriptor is taken out with the descriptor. -/
theorem unregister_alone (h : s.Tracked) (halone : s.on event.fileDescriptor = [event])
    (awaitingDispatch : Bool) :
    s.registry.unregisterHandler manager event awaitingDispatch =
      (checkAwaiting manager awaitingDispatch (s.registry.eventLoop.remove event.fileDescriptor).1,
        ⟨Function.update s.registry.handlers event.fileDescriptor none,
          (s.registry.eventLoop.remove event.fileDescriptor).2⟩) := by
  rw [unregisterHandler, h.handlers, halone, if_neg (List.cons_ne_nil _ _)]
  dsimp only
  rw [if_pos (List.mem_singleton.mpr rfl), List.length_singleton, if_pos rfl]

theorem unregister (h : s.Tracked) {awaitingDispatch : Bool}
    (halone : s.Alone (.unregisterHandler event awaitingDispatch)) :
    (s.step manager (.unregisterHandler event awaitingDispatch)).Tracked := by
  refine h.of_unregister fun identifier => ?_
  rw [step, call]
  by_cases hmem : event ∈ s.registered
  · have hon := halone hmem
    rw [h.unregister_alone hon]
    show Function.update s.registry.handlers event.fileDescriptor none identifier = _
    by_cases heq : identifier = event.fileDescriptor
    · rw [heq, Function.update_self, hon, if_pos (by simp)]
    · rw [Function.update_of_ne heq, h.handlers, filter_on fun hon => heq hon.2.symm]
  · rw [h.unregister_absent hmem, h.handlers, filter_on fun hon => hmem hon.1]

protected theorem step (h : s.Tracked) {c : Call} (halone : s.Alone c) :
    (s.step manager c).Tracked := by
  cases c with
  | registerHandler event => exact h.register halone
  | unregisterHandler event awaitingDispatch => exact h.unregister halone

/-- A handler registered again is in the table twice, and one of several stays in it. -/
theorem not_followed (h : s.Tracked) {c : Call} (hnot : ¬ s.Alone c) :
    ¬ (s.step manager c).Followed := by
  intro hfollowed
  cases c with
  | registerHandler event =>
      have hmem : event ∈ s.registered := by
        simpa only [Alone, not_not] using hnot
      have hfd := h.positive event hmem
      have htable := hfollowed.tables event.fileDescriptor
        (s.on event.fileDescriptor ++ [event])
        (by rw [h.register_handlers hfd, Function.update_self])
      have hsame : (s.step manager (.registerHandler event)).on event.fileDescriptor =
          s.on event.fileDescriptor := by
        rw [on, step, note, if_pos (.inr hmem), on]
      rw [hsame] at htable
      simp at htable
  | unregisterHandler event awaitingDispatch =>
      simp only [Alone, Classical.not_imp] at hnot
      obtain ⟨hmem, hseveral⟩ := hnot
      have hon : event ∈ s.on event.fileDescriptor := mem_on.mpr ⟨hmem, rfl⟩
      have htable : s.registry.handlers event.fileDescriptor =
          some (s.on event.fileDescriptor) := by
        rw [h.handlers, if_neg (List.ne_nil_of_mem hon)]
      have hlength : (s.on event.fileDescriptor).length ≠ 1 := by
        intro hone
        obtain ⟨only, honly⟩ := List.length_eq_one_iff.mp hone
        rw [honly, List.mem_singleton] at hon
        rw [honly, hon] at hseveral
        exact hseveral rfl
      have hstays : (s.step manager (.unregisterHandler event awaitingDispatch)).registry =
          s.registry := by
        rw [step, call, unregisterHandler, htable]
        dsimp only
        rw [if_pos hon, if_neg hlength]
      have hgone := hfollowed.tables _ _ (by rw [hstays]; exact htable)
      rw [on_unregister] at hgone
      rw [hgone] at hon
      simpa using (List.mem_filter.mp hon).2

end Tracked

/-- After every call of a sequence the tables are those of the handlers registered and not
unregistered since, if and only if every handler is registered only while it is not, and
unregistered only while it is alone on its descriptor. -/
theorem followed_iff_alone (manager : ManagerKind) (calls : List Call) :
    Always (step manager) Followed new calls ↔ Along (step manager) Alone new calls :=
  always_iff_along (fun _ h => Tracked.followed h) (fun _ _ h halone => h.step halone)
    (fun _ _ h hnot => h.not_followed hnot) tracked_new

def reader (address : Nat) : Handler := ⟨address, 3, ⟨true, false⟩⟩

def writer (address : Nat) : Handler := ⟨address, 3, ⟨false, true⟩⟩

/-- Two handlers of one descriptor, of which the first leaves. -/
def leaving : List Call :=
  [.registerHandler (reader 0), .registerHandler (reader 1), .unregisterHandler (reader 0) false]

theorem leaving_not_followed :
    (after (step .global) new leaving).registry.foreachEventMatching 3 ⟨true, false⟩ =
        [reader 0, reader 1] ∧
      (after (step .global) new leaving).registered = [reader 1] ∧
      ¬ Always (step .global) Followed new leaving := by
  have hmatching : (after (step .global) new leaving).registry.foreachEventMatching 3
      ⟨true, false⟩ = [reader 0, reader 1] := by
    decide +kernel
  have hregistered : (after (step .global) new leaving).registered = [reader 1] := by
    decide +kernel
  refine ⟨hmatching, hregistered, fun h => ?_⟩
  have hfollowed := h.last.matching 3 ⟨true, false⟩
  rw [hmatching, on, hregistered] at hfollowed
  exact absurd hfollowed (by decide)

/-! ## What is polled for -/

/-- What all of them together wait for. -/
def union : List Handler → Option EventType
  | [] => none
  | event :: events =>
      some (events.foldl (fun types e => types.or e.eventTypes) event.eventTypes)

/-- Every descriptor is polled for what its handlers wait for. -/
def Interested (s : Watched) : Prop :=
  ∀ identifier, s.registry.eventLoop.interest identifier = union (s.on identifier)

/-- A `registerHandler` that returns `false` leaves the tables as they were. -/
def Unharmed (manager : ManagerKind) (s : Watched) : Call → Prop
  | .registerHandler event =>
      (s.registry.registerHandler manager event).1 = some false →
        (s.registry.registerHandler manager event).2.handlers = s.registry.handlers
  | .unregisterHandler _ _ => True

/-- No handler is registered on a descriptor that has one. -/
def Free (s : Watched) : Call → Prop
  | .registerHandler event => 0 < event.fileDescriptor → s.on event.fileDescriptor = []
  | .unregisterHandler _ _ => True

structure Sparse (s : Watched) : Prop extends s.Tracked where
  interested : s.Interested
  atMostOne : ∀ identifier, (s.on identifier).length ≤ 1

theorem sparse_new : new.Sparse := ⟨tracked_new, fun _ => rfl, fun _ => Nat.zero_le _⟩

namespace Sparse

theorem alone (h : s.Sparse) {c : Call} (hfree : s.Free c) : s.Alone c := by
  cases c with
  | registerHandler event =>
      intro hmem
      have hnil := hfree (h.positive event hmem)
      have hon : event ∈ s.on event.fileDescriptor := mem_on.mpr ⟨hmem, rfl⟩
      rw [hnil] at hon
      cases hon
  | unregisterHandler event awaitingDispatch =>
      intro hmem
      have hon : event ∈ s.on event.fileDescriptor := mem_on.mpr ⟨hmem, rfl⟩
      have hle := h.atMostOne event.fileDescriptor
      match hlist : s.on event.fileDescriptor with
      | [] =>
          rw [hlist] at hon
          cases hon
      | [only] =>
          rw [hlist] at hon
          rw [List.mem_singleton.mp hon]
      | _ :: _ :: _ =>
          rw [hlist, List.length_cons, List.length_cons] at hle
          omega

/-- On a free descriptor `epoll_ctl` has nothing yet. -/
theorem interest_free (h : s.Sparse) (hnil : s.on event.fileDescriptor = []) :
    s.registry.eventLoop.add event.fileDescriptor event.eventTypes =
      (true, ⟨Function.update s.registry.eventLoop.interest event.fileDescriptor
        (some event.eventTypes)⟩) := by
  rw [EventPoll.add, h.interested, hnil]
  rfl

theorem register (h : s.Sparse) (hfree : s.Free (.registerHandler event)) :
    (s.step manager (.registerHandler event)).Sparse := by
  by_cases hfd : 0 < event.fileDescriptor
  · have hnil := hfree hfd
    have hnew := h.alone hfree
    have hadd := h.interest_free hnil
    refine ⟨h.toTracked.register hnew, fun identifier => ?_, fun identifier => ?_⟩
    · rw [on_register hfd hnew, step, call, registerHandler.eq_def, if_neg (by omega)]
      dsimp only
      rw [hadd]
      dsimp only
      split
      · next heq =>
          rw [heq, Function.update_self, hnil]
          rfl
      · next hne =>
          rw [Function.update_of_ne hne]
          exact h.interested identifier
    · rw [on_register hfd hnew]
      split
      · next heq =>
          rw [heq, hnil]
          exact Nat.le_refl 1
      · exact h.atMostOne identifier
  · rw [step_invalid (by omega)]
    exact h

theorem unregister (h : s.Sparse) (awaitingDispatch : Bool) :
    (s.step manager (.unregisterHandler event awaitingDispatch)).Sparse := by
  have halone := h.alone (c := .unregisterHandler event awaitingDispatch) trivial
  refine ⟨h.toTracked.unregister halone, fun identifier => ?_, fun identifier => ?_⟩
  · rw [on_unregister, step, call]
    by_cases hmem : event ∈ s.registered
    · have hon := halone hmem
      have hremove : s.registry.eventLoop.remove event.fileDescriptor =
          (true, ⟨Function.update s.registry.eventLoop.interest event.fileDescriptor none⟩) := by
        rw [EventPoll.remove, h.interested, hon]
        rfl
      rw [h.toTracked.unregister_alone hon, hremove]
      dsimp only
      by_cases heq : identifier = event.fileDescriptor
      · rw [heq, Function.update_self, hon, List.filter_cons_of_neg (by simp)]
        rfl
      · rw [Function.update_of_ne heq, h.interested, filter_on fun hon => heq hon.2.symm]
    · rw [h.toTracked.unregister_absent hmem, h.interested, filter_on fun hon => hmem hon.1]
  · rw [on_unregister]
    exact Nat.le_trans (List.length_filter_le _ _) (h.atMostOne identifier)

protected theorem step (h : s.Sparse) {c : Call} (hfree : s.Free c) :
    (s.step manager c).Sparse := by
  cases c with
  | registerHandler event => exact h.register hfree
  | unregisterHandler event awaitingDispatch => exact h.unregister awaitingDispatch

/-- The second handler of a descriptor is refused by the poll when it is in the table. -/
theorem unharmed_iff (h : s.Sparse) (c : Call) : s.Unharmed manager c ↔ s.Free c := by
  cases c with
  | unregisterHandler event awaitingDispatch => exact Iff.rfl
  | registerHandler event =>
      by_cases hfd : 0 < event.fileDescriptor
      · have hhandlers : (s.step manager (.registerHandler event)).registry.handlers = _ :=
          h.register_handlers hfd
        rw [step, call] at hhandlers
        have hanswer : (s.registry.registerHandler manager event).1 =
            some (s.registry.eventLoop.add event.fileDescriptor event.eventTypes).1 := by
          rw [registerHandler.eq_def, if_neg (by omega)]
        refine ⟨fun hunharmed _ => ?_, fun hfree hfalse => ?_⟩
        · by_contra hsome
          have hrefused : (s.registry.registerHandler manager event).1 = some false := by
            rw [hanswer, EventPoll.add, h.interested]
            match hlist : s.on event.fileDescriptor with
            | [] => exact absurd hlist hsome
            | _ :: _ => rfl
          have hsame := congrFun (hunharmed hrefused) event.fileDescriptor
          rw [hhandlers, Function.update_self, h.handlers, if_neg hsome, Option.some_inj] at hsame
          simp at hsame
        · rw [hanswer, h.interest_free (hfree hfd)] at hfalse
          cases hfalse
      · refine ⟨fun _ hpos => absurd hpos hfd, fun _ _ => ?_⟩
        have hstep : s.step manager (.registerHandler event) = s := step_invalid (by omega)
        exact congrArg (fun s => s.registry.handlers) hstep

end Sparse

/-- After every call of a sequence each descriptor is polled for what its handlers wait for,
and no refused call has changed the tables, if and only if no handler is ever registered
on a descriptor that has one. -/
theorem interested_iff_free (manager : ManagerKind) (calls : List Call) :
    Always (step manager) Interested new calls ∧ Along (step manager) (Unharmed manager) new calls ↔
      Along (step manager) Free new calls := by
  have hiff : Along (step manager) (Unharmed manager) new calls ↔
      Along (step manager) Free new calls :=
    along_iff_along (fun _ c h => Sparse.unharmed_iff h c) (fun _ _ h hfree => h.step hfree)
      sparse_new
  refine ⟨fun h => hiff.mp h.2, fun h => ⟨?_, hiff.mpr h⟩⟩
  have hsparse : Always (step manager) Sparse new calls :=
    h.always (fun _ _ h hfree => h.step hfree) sparse_new
  exact hsparse.mono fun _ h => h.interested

/-- A reader and a writer of one descriptor, which is polled for reading only; the call that
returned `false` has put the writer into the table. -/
def sharing : List Call := [.registerHandler (reader 0), .registerHandler (writer 1)]

theorem sharing_not_interested :
    (after (step .global) new sharing).registry.eventLoop.interest 3 = some ⟨true, false⟩ ∧
      (after (step .global) new sharing).on 3 = [reader 0, writer 1] ∧
      ¬ (Always (step .global) Interested new sharing ∧
        Along (step .global) (Unharmed .global) new sharing) := by
  have hinterest : (after (step .global) new sharing).registry.eventLoop.interest 3 =
      some ⟨true, false⟩ := by
    decide +kernel
  have hon : (after (step .global) new sharing).on 3 = [reader 0, writer 1] := by
    decide +kernel
  refine ⟨hinterest, hon, fun h => ?_⟩
  have hinterested := h.1.last 3
  rw [hinterest, hon] at hinterested
  exact absurd hinterested (by decide)

end Watched

end Fastpath.Registry
