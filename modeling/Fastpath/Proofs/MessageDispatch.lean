import Fastpath.Lib.Steps
import Fastpath.Lib.Tally
import Fastpath.Model.MessageDispatch
import Fastpath.Proofs.Pool
import Fastpath.Proofs.Ring

/-!
# What a subscriber is called with

Messages are passed around by reference, and their memory is used again. Still
every callback sees the message as it was decoded: an object is out of the pool
exactly while a shared pointer to it is left, in the hands of the event manager's
thread, on a ring or with the thread that has popped it, so it is not decoded
into under anybody.

Seen like this a queue is a list of observers and messages, and what has been
called is what went in first. Which messages go in depends on one thing only:
whether there is room on the ring when the observer's turn comes.
-/

namespace Fastpath

open Fastpath.Lib

variable {n : Nat}

namespace MessageElement

def object? : MessageElement n → Option Nat
  | .message _ i => some i
  | .other => none

/-- The callback that is to come of it, when the pool's objects are these. -/
def bound (object : Nat → Message) : MessageElement n → Option (MessageEvent n × Message)
  | .message e i => some (e, object i)
  | .other => none

theorem bound_congr {object object' : Nat → Message} {l : List (MessageElement n)}
    (h : ∀ i ∈ l.filterMap object?, object' i = object i) :
    l.filterMap (bound object') = l.filterMap (bound object) := by
  refine List.filterMap_congr fun element hmem => ?_
  cases element with
  | message e i =>
      have hi : i ∈ l.filterMap object? := List.mem_filterMap.mpr ⟨_, hmem, rfl⟩
      rw [bound, bound, h i hi]
  | other => rfl

end MessageElement

open MessageElement

namespace DispatchQueue

/-- What has been pushed and not been finished. -/
def waiting (d : DispatchQueue n) : List (MessageElement n) :=
  (d.dispatcher.map Prod.fst).toList ++ d.ring.items

/-- What has been pushed and not been run. -/
def due (d : DispatchQueue n) : List (MessageElement n) :=
  (match d.dispatcher with
    | some (element, false) => [element]
    | _ => []) ++ d.ring.items

/-- The objects that the queue has shared pointers to. -/
def held (d : DispatchQueue n) : List Nat := d.waiting.filterMap object?

def Ring (d : DispatchQueue n) : Prop := ∃ l, d.ring.Represents l

theorem due_sublist (d : DispatchQueue n) : List.Sublist d.due d.waiting := by
  rw [due, waiting]
  refine List.Sublist.append ?_ (List.Sublist.refl _)
  cases d.dispatcher with
  | none => exact List.Sublist.refl _
  | some dispatcher =>
      obtain ⟨element, run⟩ := dispatcher
      cases run with
      | true => exact List.nil_sublist _
      | false => exact List.Sublist.refl _

theorem Ring.new : (⟨.new, none⟩ : DispatchQueue n).Ring :=
  ⟨[], RingBuffer.represents_new (by decide)⟩

/-- Either there is room behind what is on the ring, or nothing happens. -/
theorem Ring.push {d : DispatchQueue n} (h : d.Ring) (element : MessageElement n) :
    (d.ring.items.length < 4095 ∧ (d.ring.push element).1 = true ∧
      (d.ring.push element).2.items = d.ring.items ++ [element] ∧
      ∃ l, (d.ring.push element).2.Represents l) ∨
    (d.ring.items.length = 4095 ∧ d.ring.push element = (false, d.ring)) := by
  obtain ⟨l, hl⟩ := h
  have hroom := hl.room
  rw [hl.items_eq]
  by_cases hfull : l.length + 1 = 4096
  · exact .inr ⟨by omega, hl.push_full hfull element⟩
  · obtain ⟨hpushed, hnext⟩ := hl.push_room hfull element
    exact .inl ⟨by omega, hpushed, hnext.items_eq, _, hnext⟩

theorem Ring.pop {d : DispatchQueue n} (h : d.Ring) {element : MessageElement n}
    {ring : RingBuffer (MessageElement n) 4096} (hpop : d.ring.pop = (some element, ring)) :
    d.ring.items = element :: ring.items ∧ ∃ l, ring.Represents l := by
  obtain ⟨l, hl⟩ := h
  cases l with
  | nil =>
      rw [hl.pop_nil] at hpop
      cases hpop
  | cons first l =>
      obtain ⟨hfirst, hrest⟩ := hl.pop_cons
      rw [hpop] at hfirst hrest
      obtain rfl := Option.some.inj hfirst
      rw [hl.items_eq, hrest.items_eq]
      exact ⟨rfl, l, hrest⟩

end DispatchQueue

namespace MessageDispatch

variable {s : MessageDispatch n} {subject : Nat → CString}

/-! ## Shared pointers -/

/-- The shared pointers to an object. -/
def references (s : MessageDispatch n) (i : Nat) : Nat :=
  (s.handling.map Handling.message).toList.count i + tally (fun d => d.held.count i) s.queues

/-- The objects that are out are those with a pointer to them, and the pointers are counted, with
those in `loose` that nobody has any more. -/
structure Accounts (s : MessageDispatch n) (loose : List Nat) : Prop where
  count : ∀ i, s.useCount i = s.references i + loose.count i
  whole : ∃ out, Leases.Whole ⟨s.pool, out⟩ ∧ ∀ i, i ∈ out ↔ s.useCount i ≠ 0

theorem references_setQueue (s : MessageDispatch n) (q : Fin n) (d : DispatchQueue n) (i : Nat) :
    (s.setQueue q d).references i + (s.queues q).held.count i =
      s.references i + d.held.count i := by
  have hmoved := tally_update (fun d : DispatchQueue n => d.held.count i) s.queues q d
  simp only [references, setQueue]
  omega

theorem held_le_references (s : MessageDispatch n) (q : Fin n) (i : Nat) :
    (s.queues q).held.count i ≤ s.references i :=
  (weight_le_tally (fun d : DispatchQueue n => d.held.count i) s.queues q).trans
    (Nat.le_add_left _ _)

/-- What a queue has a pointer to is out. -/
theorem Accounts.useCount_pos {loose : List Nat} (h : s.Accounts loose) {q : Fin n} {i : Nat}
    (hi : i ∈ (s.queues q).held) : s.useCount i ≠ 0 := by
  have hpos := List.count_pos_iff.mpr hi
  have hle := s.held_le_references q i
  rw [h.count i]
  omega

/-- A queue lays down pointers, or takes up loose ones. -/
theorem Accounts.setQueue {loose loose' : List Nat} (h : s.Accounts loose) {q : Fin n}
    {d : DispatchQueue n}
    (hheld : ∀ i, d.held.count i + loose'.count i = (s.queues q).held.count i + loose.count i) :
    (s.setQueue q d).Accounts loose' where
  count i := by
    have hmoved := s.references_setQueue q d i
    have hcount := h.count i
    have hi := hheld i
    show s.useCount i = _
    omega
  whole := h.whole

theorem Accounts.dropReference {i : Nat} {loose : List Nat} (h : s.Accounts (i :: loose)) :
    (s.dropReference i).Accounts loose := by
  obtain ⟨out, hwhole, hout⟩ := h.whole
  have hpos : 0 < s.useCount i := by
    rw [h.count i, List.count_cons_self]
    omega
  have hcount : ∀ j, Function.update s.useCount i (s.useCount i - 1) j =
      s.references j + loose.count j := by
    intro j
    have hj := h.count j
    rw [Function.update_apply]
    split
    · next heq =>
        rw [heq, List.count_cons_self] at hj
        rw [heq]
        omega
    · next hne =>
        rw [List.count_cons_of_ne (Ne.symm hne)] at hj
        exact hj
  refine ⟨hcount, ?_⟩
  show ∃ out, Leases.Whole
    ⟨if s.useCount i - 1 = 0 then s.pool.release i else s.pool, out⟩ ∧
      ∀ j, j ∈ out ↔ Function.update s.useCount i (s.useCount i - 1) j ≠ 0
  split
  · next hzero =>
      refine ⟨out.erase i, hwhole.step (u := .release i) ((hout i).mpr (by omega)), fun j => ?_⟩
      have hnodup := (List.nodup_append.mp hwhole.nodup).2.1
      rw [hnodup.mem_erase_iff, hout j, Function.update_apply]
      split
      · next heq => exact iff_of_false (fun hj => hj.1 heq) (fun hj => hj hzero)
      · next hne => exact and_iff_right hne
  · next hmore =>
      refine ⟨out, hwhole, fun j => ?_⟩
      rw [hout j, Function.update_apply]
      split
      · next heq => exact iff_of_true (heq ▸ by omega) hmore
      · exact Iff.rfl

theorem object_dropReference (i : Nat) : (s.dropReference i).pool.object = s.pool.object := by
  rw [MessageDispatch.dropReference]
  dsimp only
  split <;> rfl

/-- A shared pointer is copied, and nobody has the copy. -/
theorem Accounts.share {loose : List Nat} (h : s.Accounts loose) {i : Nat}
    (hi : s.useCount i ≠ 0) :
    Accounts { s with useCount := Function.update s.useCount i (s.useCount i + 1) }
      (i :: loose) where
  count j := by
    have hj := h.count j
    show Function.update s.useCount i (s.useCount i + 1) j = s.references j + _
    rw [Function.update_apply]
    split
    · next heq =>
        rw [heq] at hj ⊢
        rw [List.count_cons_self]
        omega
    · next hne =>
        rw [List.count_cons_of_ne (Ne.symm hne)]
        exact hj
  whole := by
    obtain ⟨out, hwhole, hout⟩ := h.whole
    refine ⟨out, hwhole, fun j => ?_⟩
    rw [hout j]
    show _ ↔ Function.update s.useCount i (s.useCount i + 1) j ≠ 0
    rw [Function.update_apply]
    split
    · next heq => exact iff_of_true (heq ▸ hi) (by omega)
    · exact Iff.rfl

/-- The event manager's thread takes an object that nobody has a pointer to, and decodes into
it. -/
theorem Accounts.allocate (h : s.Accounts []) (hidle : s.handling = none) (m : Message) :
    ∃ i pool, Pool.allocate.run s.pool = (.ok i, pool) ∧ (pool.store i m).object i = m ∧
      (∀ j, s.useCount j ≠ 0 → (pool.store i m).object j = s.pool.object j) ∧
      ∀ rest, Accounts { s with
        pool := pool.store i m
        useCount := Function.update s.useCount i 1
        handling := some ⟨i, rest⟩ } [] := by
  obtain ⟨out, hwhole, hout⟩ := h.whole
  obtain ⟨i, pool, old, hrun, hfree, -, hnext⟩ := hwhole.allocate
  have hzero : s.useCount i = 0 := by
    by_contra hne
    exact hfree ((hout i).mpr hne)
  refine ⟨i, pool, hrun, Function.update_self _ _ _, fun j hj => ?_, fun rest => ⟨fun j => ?_, ?_⟩⟩
  · have hne : j ≠ i := fun heq => hj (heq ▸ hzero)
    exact (Function.update_of_ne hne _ _).trans
      (hwhole.allocate_keeps hrun ((hout j).mpr hj) hne)
  · have hj := h.count j
    rw [references, hidle] at hj
    show Function.update s.useCount i 1 j =
      [i].count j + tally (fun d => d.held.count j) s.queues + ([] : List Nat).count j
    simp only [Option.map_none, Option.toList_none, List.count_nil] at hj ⊢
    rw [Function.update_apply]
    split
    · next heq =>
        rw [heq] at hj ⊢
        rw [List.count_singleton_self]
        omega
    · next hne =>
        rw [List.count_cons_of_ne (Ne.symm hne), List.count_nil]
        exact hj
  · refine ⟨i :: out, hnext.step (u := .store i m) trivial, fun j => ?_⟩
    rw [List.mem_cons, hout j]
    show _ ↔ Function.update s.useCount i 1 j ≠ 0
    rw [Function.update_apply]
    split
    · next heq => exact iff_of_true (.inl heq) Nat.one_ne_zero
    · next hne => exact or_iff_right hne

/-! ## Queues -/

def onQueue (q : Fin n) (calls : List (MessageEvent n × Message)) :
    List (MessageEvent n × Message) :=
  calls.filter fun c => c.1.queue = q

/-- The callbacks that are to come of what is on a queue. -/
def dueOn (s : MessageDispatch n) (q : Fin n) : List (MessageEvent n × Message) :=
  (s.queues q).due.filterMap (bound s.pool.object)

/-- What there was room for. -/
def accepted (s : MessageDispatch n) : List (MessageEvent n × Message) :=
  (s.notified.filter fun c => c.2.2).map fun c => (c.1, c.2.1)

theorem accepted_of_notified {s' : MessageDispatch n} {e : MessageEvent n} {m : Message}
    {pushed : Bool} (h : s'.notified = s.notified ++ [(e, m, pushed)]) :
    s'.accepted = s.accepted ++ if pushed then [(e, m)] else [] := by
  rw [accepted, accepted, h, List.filter_append, List.map_append]
  cases pushed <;> rfl

structure Sound (s : MessageDispatch n) : Prop where
  accounts : s.Accounts []
  rings : ∀ q, (s.queues q).Ring
  placed : ∀ q e i, .message e i ∈ (s.queues q).waiting → e.queue = q
  calls : ∀ q, onQueue q s.called ++ s.dueOn q = onQueue q s.accepted

theorem sound_new : (new : MessageDispatch n).Sound where
  accounts :=
    { count := fun i => by
        have hnone : tally (fun d : DispatchQueue n => d.held.count i)
            (new : MessageDispatch n).queues = 0 := tally_eq_zero.mpr fun _ => rfl
        rw [references, hnone]
        rfl
      whole := ⟨[], Leases.whole_new 10000 (by decide), fun i => by simp [new]⟩ }
  rings _ := .new
  placed q e i h := absurd h List.not_mem_nil
  calls _ := rfl

namespace Sound

/-- One queue changes, and what is recorded of it. -/
theorem moved (h : s.Sound) {s' : MessageDispatch n} {q : Fin n} {d : DispatchQueue n}
    (haccounts : s'.Accounts []) (hqueues : s'.queues = Function.update s.queues q d)
    (hobject : s'.pool.object = s.pool.object) (hring : d.Ring)
    (hplaced : ∀ e i, .message e i ∈ d.waiting → e.queue = q)
    (hself : onQueue q s'.called ++ d.due.filterMap (bound s.pool.object) = onQueue q s'.accepted)
    (hcalled : ∀ q', q' ≠ q → onQueue q' s'.called = onQueue q' s.called)
    (haccepted : ∀ q', q' ≠ q → onQueue q' s'.accepted = onQueue q' s.accepted) : s'.Sound where
  accounts := haccounts
  rings q' := by
    rw [hqueues, Function.update_apply]
    split
    · exact hring
    · exact h.rings q'
  placed q' e i hmem := by
    rw [hqueues, Function.update_apply] at hmem
    split at hmem
    · next heq => exact heq ▸ hplaced e i hmem
    · exact h.placed q' e i hmem
  calls q' := by
    rw [dueOn, hqueues, hobject, Function.update_apply]
    split
    · next heq => exact heq ▸ hself
    · next hne =>
        rw [hcalled q' hne, haccepted q' hne]
        exact h.calls q'

/-- On one queue something happens that is nothing to the messages. -/
theorem setQueue (h : s.Sound) {q : Fin n} {d : DispatchQueue n} (hring : d.Ring)
    (hheld : d.held = (s.queues q).held)
    (hdue : d.due.filterMap (bound s.pool.object) = s.dueOn q)
    (hplaced : ∀ e i, .message e i ∈ d.waiting → .message e i ∈ (s.queues q).waiting) :
    (s.setQueue q d).Sound := by
  refine h.moved (h.accounts.setQueue fun i => by rw [hheld]) rfl rfl hring
    (fun e i hmem => h.placed q e i (hplaced e i hmem)) ?_ (fun _ _ => rfl) fun _ _ => rfl
  rw [hdue]
  exact h.calls q

theorem enqueue (h : s.Sound) (q : Fin n) : (step subject s (.enqueue q)).Sound := by
  obtain ⟨-, -, hitems, hring⟩ | ⟨-, hfull⟩ := (h.rings q).push .other
  · refine h.setQueue hring ?_ ?_ fun e i hmem => ?_
    · rw [DispatchQueue.held, DispatchQueue.held, DispatchQueue.waiting, DispatchQueue.waiting,
        hitems]
      simp [object?]
    · rw [dueOn, DispatchQueue.due, DispatchQueue.due, hitems]
      simp [bound]
    · rw [DispatchQueue.waiting, hitems] at hmem
      rw [DispatchQueue.waiting]
      simpa using hmem
  · rw [step, hfull]
    exact h.setQueue (h.rings q) rfl rfl fun e i hmem => hmem

theorem pop (h : s.Sound) (q : Fin n) : (step subject s (.pop q)).Sound := by
  simp only [step]
  split
  · next element ring hidle hpop =>
      obtain ⟨hitems, hring⟩ := (h.rings q).pop hpop
      have hwaiting : (⟨ring, some (element, false)⟩ : DispatchQueue n).waiting =
          (s.queues q).waiting := by
        rw [DispatchQueue.waiting, DispatchQueue.waiting, hidle, hitems]
        rfl
      have hdue : (⟨ring, some (element, false)⟩ : DispatchQueue n).due = (s.queues q).due := by
        rw [DispatchQueue.due, DispatchQueue.due, hidle, hitems]
        rfl
      refine h.setQueue hring ?_ ?_ fun e i hmem => hwaiting ▸ hmem
      · rw [DispatchQueue.held, DispatchQueue.held, hwaiting]
      · rw [hdue, dueOn]
  · exact h

theorem onQueue_append (q : Fin n) (l l' : List (MessageEvent n × Message)) :
    onQueue q (l ++ l') = onQueue q l ++ onQueue q l' := List.filter_append ..

theorem onQueue_single {q : Fin n} {e : MessageEvent n} (he : e.queue = q) (m : Message) :
    onQueue q [(e, m)] = [(e, m)] := by simp [onQueue, he]

theorem onQueue_single_of_ne {q : Fin n} {e : MessageEvent n} (he : e.queue ≠ q) (m : Message) :
    onQueue q [(e, m)] = [] := by simp [onQueue, he]

theorem run (h : s.Sound) (q : Fin n) : (step subject s (.run q)).Sound := by
  simp only [step]
  split
  · next e i hdispatcher =>
      have hwaiting : (⟨(s.queues q).ring, some (.message e i, true)⟩ : DispatchQueue n).waiting =
          (s.queues q).waiting := by
        rw [DispatchQueue.waiting, DispatchQueue.waiting, hdispatcher]
        rfl
      have hplace : e.queue = q := h.placed q e i (by
        rw [DispatchQueue.waiting, hdispatcher]
        exact List.mem_cons_self)
      have hcalls := h.calls q
      rw [dueOn, DispatchQueue.due, hdispatcher] at hcalls
      have haccounts : (s.setQueue q ⟨(s.queues q).ring, some (.message e i, true)⟩).Accounts [] :=
        h.accounts.setQueue fun j => by rw [DispatchQueue.held, DispatchQueue.held, hwaiting]
      refine h.moved ⟨haccounts.count, haccounts.whole⟩ rfl rfl (h.rings q)
        (fun e i hmem => h.placed q e i (hwaiting ▸ hmem)) ?_ (fun q' hne => ?_) fun _ _ => rfl
      · show onQueue q (s.called ++ [(e, s.pool.object i)]) ++ _ = _
        rw [onQueue_append, onQueue_single hplace, List.append_assoc]
        exact hcalls
      · show onQueue q' (s.called ++ [(e, s.pool.object i)]) = _
        rw [onQueue_append, onQueue_single_of_ne (hplace ▸ Ne.symm hne), List.append_nil]
  · next hdispatcher =>
      refine h.setQueue (h.rings q) ?_ ?_ fun e i hmem => ?_
      · rw [DispatchQueue.held, DispatchQueue.held, DispatchQueue.waiting, DispatchQueue.waiting,
          hdispatcher]
        rfl
      · rw [dueOn, DispatchQueue.due, DispatchQueue.due, hdispatcher]
        rfl
      · rw [DispatchQueue.waiting, hdispatcher]
        exact hmem
  · exact h

/-- The pointer that is given up goes once the queue has let go of it. -/
theorem finish (h : s.Sound) (q : Fin n) : (step subject s (.finish q)).Sound := by
  simp only [step]
  split
  · next e i hdispatcher =>
      have hwaiting : (s.queues q).waiting = .message e i :: (s.queues q).ring.items := by
        rw [DispatchQueue.waiting, hdispatcher]
        rfl
      have hloose : (s.setQueue q ⟨(s.queues q).ring, none⟩).Accounts [i] :=
        h.accounts.setQueue fun j => by
          rw [DispatchQueue.held, DispatchQueue.held, hwaiting, List.filterMap_cons]
          simp only [object?, List.count_cons, List.count_nil]
          rw [Nat.zero_add, Nat.add_zero]
          rfl
      have hcalls := h.calls q
      rw [dueOn, DispatchQueue.due, hdispatcher] at hcalls
      exact h.moved (d := ⟨(s.queues q).ring, none⟩)
        (Accounts.dropReference ⟨hloose.count, hloose.whole⟩) rfl (object_dropReference i)
        (h.rings q)
        (fun e' j hmem => h.placed q e' j (hwaiting ▸ List.mem_cons_of_mem _ hmem)) hcalls
        (fun _ _ => rfl) fun _ _ => rfl
  · next hdispatcher =>
      refine h.setQueue (h.rings q) ?_ ?_ fun e i hmem => ?_
      · rw [DispatchQueue.held, DispatchQueue.held, DispatchQueue.waiting, DispatchQueue.waiting,
          hdispatcher]
        rfl
      · rw [dueOn, DispatchQueue.due, DispatchQueue.due, hdispatcher]
      · rw [DispatchQueue.waiting, hdispatcher]
        exact List.mem_cons_of_mem _ hmem
  · exact h

/-- What nobody looks at here has changed. -/
theorem congr (h : s.Sound) {s' : MessageDispatch n} (hpool : s'.pool = s.pool)
    (hcount : s'.useCount = s.useCount) (hqueues : s'.queues = s.queues)
    (hhandling : s'.handling.map Handling.message = s.handling.map Handling.message)
    (hnotified : s'.notified = s.notified) (hcalled : s'.called = s.called) : s'.Sound where
  accounts :=
    { count := fun i => by
        rw [hcount, references, hhandling, hqueues]
        exact h.accounts.count i
      whole := by
        rw [hpool, hcount]
        exact h.accounts.whole }
  rings q := hqueues ▸ h.rings q
  placed q := hqueues ▸ h.placed q
  calls q := by
    rw [dueOn, accepted, hqueues, hpool, hnotified, hcalled]
    exact h.calls q

theorem addObserver (h : s.Sound) (q : Fin n) (subscriber : Nat) :
    (step subject s (.addObserver q subscriber)).Sound :=
  h.congr rfl rfl rfl rfl rfl rfl

theorem removeObserver (h : s.Sound) (subscriber : Nat) :
    (step subject s (.removeObserver subscriber)).Sound := by
  rw [step, MessageDispatch.removeObserver]
  split
  · exact h.congr rfl rfl rfl rfl rfl rfl
  · exact h

theorem notify (h : s.Sound) (e : MessageEvent n) {i : Nat} (hi : s.useCount i ≠ 0) :
    (s.notify e i).Sound := by
  have hcalls := h.calls e.queue
  have hring := (h.rings e.queue).push (.message e i)
  cases hpush : (s.queues e.queue).ring.push (.message e i) with
  | mk pushed ring =>
      have haccepted : (s.notify e i).accepted =
          s.accepted ++ if pushed then [(e, s.pool.object i)] else [] := by
        simp only [MessageDispatch.notify, hpush]
        exact accepted_of_notified rfl
      rw [hpush] at hring
      obtain ⟨-, rfl, hitems, hring⟩ | ⟨-, hfull⟩ := hring
      · have hwaiting : ({ s.queues e.queue with ring := ring } : DispatchQueue n).waiting =
            (s.queues e.queue).waiting ++ [.message e i] := by
          rw [DispatchQueue.waiting, DispatchQueue.waiting, hitems, List.append_assoc]
        have hdue : ({ s.queues e.queue with ring := ring } : DispatchQueue n).due =
            (s.queues e.queue).due ++ [.message e i] := by
          rw [DispatchQueue.due, DispatchQueue.due, hitems, List.append_assoc]
        have haccounts : Accounts _ [] := (h.accounts.share hi).setQueue (q := e.queue)
          (d := { s.queues e.queue with ring := ring }) fun j => by
            rw [DispatchQueue.held, DispatchQueue.held, hwaiting, List.filterMap_append,
              List.count_append]
            rfl
        rw [if_pos rfl] at haccepted
        refine h.moved (q := e.queue) (d := { s.queues e.queue with ring := ring }) ?_ ?_ ?_ hring
          (fun e' j hmem => ?_) ?_ (fun q' hne => ?_) fun q' hne => ?_
        · simp only [MessageDispatch.notify, hpush, if_true]
          exact ⟨haccounts.count, haccounts.whole⟩
        · simp only [MessageDispatch.notify, hpush]
          rfl
        · simp only [MessageDispatch.notify, hpush]
          rfl
        · rw [hwaiting] at hmem
          rcases List.mem_append.mp hmem with hmem | hmem
          · exact h.placed _ e' j hmem
          · cases List.mem_singleton.mp hmem
            rfl
        · rw [haccepted, onQueue_append, onQueue_single rfl, hdue, List.filterMap_append,
            ← List.append_assoc]
          refine congrArg (· ++ [(e, s.pool.object i)]) (Eq.trans ?_ hcalls)
          simp only [MessageDispatch.notify, hpush]
          rfl
        · simp only [MessageDispatch.notify, hpush]
          rfl
        · rw [haccepted, onQueue_append, onQueue_single_of_ne (Ne.symm hne), List.append_nil]
      · cases hfull
        rw [if_neg Bool.false_ne_true, List.append_nil] at haccepted
        have hsame : s.notify e i =
            { s.setQueue e.queue (s.queues e.queue) with
              notified := s.notified ++ [(e, s.pool.object i, false)] } := by
          simp only [MessageDispatch.notify, hpush]
          rfl
        have haccounts : Accounts _ [] := h.accounts.setQueue (q := e.queue)
          (d := s.queues e.queue) fun j => rfl
        rw [hsame] at haccepted ⊢
        refine h.moved ⟨haccounts.count, haccounts.whole⟩ rfl rfl (h.rings e.queue)
          (h.placed e.queue) ?_ (fun _ _ => rfl) fun q' hne => ?_
        · rw [haccepted]
          exact hcalls
        · rw [haccepted]

/-- What is being handled is out. -/
theorem useCount_handling (h : s.Sound) {i : Nat} {rest : List (MessageEvent n)}
    (hhandling : s.handling = some ⟨i, rest⟩) : s.useCount i ≠ 0 := by
  rw [h.accounts.count i, references, hhandling]
  simp

theorem observing (h : s.Sound) {i : Nat} {l : List (MessageEvent n)}
    (rest : List (MessageEvent n)) (hhandling : s.handling = some ⟨i, l⟩) (misused : Bool) :
    Sound { s with handling := some ⟨i, rest⟩, misused := misused } := by
  refine h.congr rfl rfl rfl ?_ rfl rfl
  rw [hhandling]
  rfl

theorem observe (h : s.Sound) : (step subject s .observe).Sound := by
  simp only [step]
  split
  · next i e rest hhandling =>
      have hnext := h.observing rest hhandling (s.misused || decide (e ∉ s.observers))
      split
      · exact hnext.notify e (h.useCount_handling hhandling)
      · exact hnext
  · exact h

theorem handled (h : s.Sound) : (step subject s .handled).Sound := by
  simp only [step]
  split
  · next i hhandling =>
      have hloose : Accounts { s with handling := none } [i] :=
        { count := fun j => by
            have hj := h.accounts.count j
            rw [references, hhandling] at hj
            rw [references]
            simp only [Option.map_some, Option.map_none, Option.toList_some, Option.toList_none,
              List.count_nil, Nat.zero_add, Nat.add_zero] at hj ⊢
            omega
          whole := h.accounts.whole }
      refine ⟨hloose.dropReference, h.rings, h.placed, fun q => ?_⟩
      rw [dueOn, object_dropReference]
      exact h.calls q
  · exact h

theorem take (h : s.Sound) (m : Message) : (step subject s (.take m)).Sound := by
  simp only [step]
  split
  · next hidle =>
      obtain ⟨i, pool, hrun, -, hkeeps, haccounts⟩ := h.accounts.allocate hidle m
      simp only [MessageDispatch.take, hrun]
      refine ⟨haccounts s.observers, h.rings, h.placed, fun q => ?_⟩
      refine Eq.trans (congrArg (onQueue q s.called ++ ·) ?_) (h.calls q)
      refine bound_congr fun j hj => hkeeps j (h.accounts.useCount_pos (q := q) ?_)
      exact ((s.queues q).due_sublist.filterMap _).subset hj
  · exact h

end Sound

theorem Sound.step (h : s.Sound) (i : Step n) : (s.step subject i).Sound := by
  cases i with
  | addObserver q subscriber => exact h.addObserver q subscriber
  | removeObserver subscriber => exact h.removeObserver subscriber
  | take m => exact h.take m
  | observe => exact h.observe
  | handled => exact h.handled
  | enqueue q => exact h.enqueue q
  | pop q => exact h.pop q
  | run q => exact h.run q
  | finish q => exact h.finish q

theorem sound_after (subject : Nat → CString) (steps : List (Step n)) :
    (after (step subject) new steps).Sound :=
  (always_of_step (I := Sound) (fun _ i h => h.step i) sound_new).last

/-! ## One observer -/

/-- What an observer's part in a list of calls is. -/
def callsTo (e : MessageEvent n) (calls : List (MessageEvent n × Message)) : List Message :=
  (calls.filter fun c => c.1 = e).map Prod.snd

/-- The calls of `__notify` that are still to come for the message in hand. -/
def unnotified (subject : Nat → CString) (s : MessageDispatch n) :
    List (MessageEvent n × Message) :=
  match s.handling with
  | some ⟨i, rest⟩ =>
      (rest.filter fun e => interested subject e (s.pool.object i)).map (·, s.pool.object i)
  | none => []

def heard (subject : Nat → CString) (s : MessageDispatch n) : List (MessageEvent n × Message) :=
  s.notified.map (fun c => (c.1, c.2.1)) ++ s.unnotified subject

/-- A step brings the observer a message when it decodes one that its subscription matches,
if it is an observer by then. -/
def meantBy (subject : Nat → CString) (e : MessageEvent n) (s : MessageDispatch n) :
    Step n → List Message
  | .take m =>
      if s.handling.isNone ∧ e ∈ s.observers ∧ interested subject e m then [m] else []
  | _ => []

/-- What a run brings the observer. -/
def meant (subject : Nat → CString) (e : MessageEvent n) :
    MessageDispatch n → List (Step n) → List Message
  | _, [] => []
  | s, i :: steps => s.meantBy subject e i ++ meant subject e (s.step subject i) steps

theorem callsTo_append (e : MessageEvent n) (l l' : List (MessageEvent n × Message)) :
    callsTo e (l ++ l') = callsTo e l ++ callsTo e l' := by
  rw [callsTo, callsTo, callsTo, List.filter_append, List.map_append]

theorem callsTo_onQueue (e : MessageEvent n) (l : List (MessageEvent n × Message)) :
    callsTo e (onQueue e.queue l) = callsTo e l := by
  rw [callsTo, callsTo, onQueue, List.filter_filter]
  refine congrArg _ (List.filter_congr fun c _ => ?_)
  by_cases hc : c.1 = e <;> simp [hc]

/-- Events are known apart, also from those that will be. -/
structure Addressed (s : MessageDispatch n) : Prop where
  nodup : s.observers.Nodup
  lt : ∀ e ∈ s.observers, e.address < s.nextAddress

/-- The other steps leave the observers alone. -/
theorem observers_step (s : MessageDispatch n) (i : Step n) :
    (∃ q subscriber, i = .addObserver q subscriber) ∨
    (∃ subscriber, i = .removeObserver subscriber) ∨
      (s.step subject i).observers = s.observers ∧
        (s.step subject i).nextAddress = s.nextAddress := by
  cases i with
  | addObserver q subscriber => exact .inl ⟨q, subscriber, rfl⟩
  | removeObserver subscriber => exact .inr (.inl ⟨subscriber, rfl⟩)
  | take m =>
      refine .inr (.inr ?_)
      simp only [step, take]
      split
      · split <;> exact ⟨rfl, rfl⟩
      · exact ⟨rfl, rfl⟩
  | observe =>
      refine .inr (.inr ?_)
      simp only [step]
      split
      · split <;> exact ⟨rfl, rfl⟩
      · exact ⟨rfl, rfl⟩
  | handled =>
      refine .inr (.inr ?_)
      simp only [step]
      split <;> exact ⟨rfl, rfl⟩
  | enqueue q => exact .inr (.inr ⟨rfl, rfl⟩)
  | pop q =>
      refine .inr (.inr ?_)
      simp only [step]
      split <;> exact ⟨rfl, rfl⟩
  | run q =>
      refine .inr (.inr ?_)
      simp only [step]
      split <;> exact ⟨rfl, rfl⟩
  | finish q =>
      refine .inr (.inr ?_)
      simp only [step]
      split <;> exact ⟨rfl, rfl⟩

theorem addressed_new : (new : MessageDispatch n).Addressed :=
  ⟨List.nodup_nil, fun _ h => absurd h List.not_mem_nil⟩

theorem Addressed.step (h : s.Addressed) (i : Step n) : (s.step subject i).Addressed := by
  obtain ⟨q, subscriber, rfl⟩ | ⟨subscriber, rfl⟩ | ⟨hobservers, hnext⟩ := s.observers_step i
  · refine ⟨List.nodup_append.mpr ⟨h.nodup, List.nodup_singleton _, ?_⟩, ?_⟩
    · intro e he e' he' heq
      have hlt := h.lt e he
      rw [heq, List.mem_singleton.mp he'] at hlt
      exact Nat.lt_irrefl _ hlt
    · intro e he
      show e.address < s.nextAddress + 1
      rcases List.mem_append.mp he with he | he
      · exact Nat.lt_succ_of_lt (h.lt e he)
      · rw [List.mem_singleton.mp he]
        exact Nat.lt_succ_self _
  · rw [MessageDispatch.step, removeObserver]
    split
    · next e _ => exact ⟨h.nodup.erase e, fun e' he' => h.lt e' (List.mem_of_mem_erase he')⟩
    · exact h
  · exact ⟨hobservers ▸ h.nodup, hobservers ▸ hnext ▸ h.lt⟩

/-- `for_each` comes to every observer of a list once. -/
theorem callsTo_matching {observers : List (MessageEvent n)} (hnodup : observers.Nodup)
    (e : MessageEvent n) (m : Message) :
    callsTo e ((observers.filter fun e => interested subject e m).map (·, m)) =
      if e ∈ observers ∧ interested subject e m then [m] else [] := by
  have hself : ((observers.filter fun e => interested subject e m).map (·, m)).filter
      (fun c => c.1 = e) =
      ((observers.filter fun e => interested subject e m).filter (· = e)).map (·, m) :=
    List.filter_map
  rw [callsTo, hself, List.filter_eq, (hnodup.filter _).count]
  simp only [List.mem_filter]
  split <;> rfl

theorem heard_congr {s' : MessageDispatch n} (hnotified : s'.notified = s.notified)
    (hhandling : s'.handling = s.handling) (hobject : s'.pool.object = s.pool.object) :
    s'.heard subject = s.heard subject := by
  rw [heard, heard, unnotified, unnotified, hnotified, hhandling, hobject]

theorem unnotified_eq {i : Nat} {rest : List (MessageEvent n)} (h : s.handling = some ⟨i, rest⟩) :
    s.unnotified subject =
      (rest.filter fun e => interested subject e (s.pool.object i)).map (·, s.pool.object i) := by
  rw [unnotified, h]

theorem heard_observe : (s.step subject .observe).heard subject = s.heard subject := by
  simp only [step]
  split
  · next i e rest hhandling =>
      rw [heard, heard, unnotified_eq hhandling]
      split
      · next hinterested =>
          have hnext : unnotified subject _ = _ := unnotified_eq (s := notify e i { s with
            handling := some ⟨i, rest⟩
            misused := s.misused || decide (e ∉ s.observers) }) rfl
          rw [hnext, List.filter_cons_of_pos
            (p := fun e => interested subject e (s.pool.object i)) hinterested, List.map_cons,
            List.append_cons]
          exact congrArg (· ++ _) List.map_append
      · next hnot =>
          rw [List.filter_cons_of_neg
            (p := fun e => interested subject e (s.pool.object i)) hnot]
          rfl
  · rfl

/-- What an observer has been, and is about to be, notified of grows by what a step brings
it. -/
theorem heard_step (h : s.Sound) (haddressed : s.Addressed) (e : MessageEvent n) (i : Step n) :
    callsTo e ((s.step subject i).heard subject) =
      callsTo e (s.heard subject) ++ s.meantBy subject e i := by
  have hsame : ∀ {s' : MessageDispatch n}, s'.heard subject = s.heard subject →
      callsTo e (s'.heard subject) = callsTo e (s.heard subject) ++ [] := by
    intro s' heq
    rw [heq, List.append_nil]
  cases i with
  | take m =>
      simp only [step, meantBy]
      split
      · next hidle =>
          obtain ⟨i, pool, hrun, hobject, -, -⟩ := h.accounts.allocate hidle m
          simp only [MessageDispatch.take, hrun]
          rw [heard, heard, unnotified, unnotified, hidle, List.append_nil, callsTo_append]
          refine congrArg (_ ++ ·) ?_
          dsimp only
          rw [hobject, callsTo_matching haddressed.nodup]
          simp
      · next hbusy =>
          rw [hbusy]
          simp
  | observe => exact hsame heard_observe
  | handled =>
      refine hsame ?_
      simp only [step]
      split
      · next i hhandling =>
          rw [heard, heard, unnotified, unnotified, hhandling]
          rfl
      · rfl
  | addObserver q subscriber => exact hsame (heard_congr rfl rfl rfl)
  | removeObserver subscriber =>
      refine hsame ?_
      rw [step, removeObserver]
      split <;> exact heard_congr rfl rfl rfl
  | enqueue q => exact hsame (heard_congr rfl rfl rfl)
  | pop q =>
      refine hsame ?_
      simp only [step]
      split <;> exact heard_congr rfl rfl rfl
  | run q =>
      refine hsame ?_
      simp only [step]
      split <;> exact heard_congr rfl rfl rfl
  | finish q =>
      refine hsame ?_
      simp only [step]
      split
      · exact heard_congr rfl rfl (object_dropReference _)
      · exact heard_congr rfl rfl rfl
      · exact heard_congr rfl rfl rfl

theorem heard_after (h : s.Sound) (haddressed : s.Addressed) (e : MessageEvent n)
    (steps : List (Step n)) :
    callsTo e ((after (step subject) s steps).heard subject) =
      callsTo e (s.heard subject) ++ meant subject e s steps := by
  induction steps generalizing s with
  | nil => exact (List.append_nil _).symm
  | cons i steps ih =>
      rw [meant, ← List.append_assoc, ← heard_step h haddressed]
      exact ih (h.step i) (haddressed.step i)

/-! ## The list that is run through -/

/-- What has been misused stays so. -/
theorem misused_step (s : MessageDispatch n) (i : Step n) (h : s.misused = true) :
    (s.step subject i).misused = true := by
  cases i with
  | addObserver q subscriber =>
      show (s.misused || s.handling.isSome) = true
      rw [h, Bool.true_or]
  | removeObserver subscriber =>
      rw [step, removeObserver]
      split
      · show (s.misused || s.handling.isSome) = true
        rw [h, Bool.true_or]
      · exact h
  | take m =>
      simp only [step, take]
      split
      · split <;> exact h
      · exact h
  | observe =>
      simp only [step]
      split
      · split
        all_goals
          show (s.misused || _) = true
          rw [h, Bool.true_or]
      · exact h
  | handled =>
      simp only [step]
      split <;> exact h
  | enqueue q => exact h
  | pop q =>
      simp only [step]
      split <;> exact h
  | run q =>
      simp only [step]
      split <;> exact h
  | finish q =>
      simp only [step]
      split
      · show (s.misused || _) = true
        rw [h, Bool.true_or]
      · exact h
      · exact h

/-- What `for_each` has not come to is the end of the list as it stands. -/
def Live (s : MessageDispatch n) : Prop :=
  ∀ i rest, s.handling = some ⟨i, rest⟩ → rest <:+ s.observers

theorem live_new : (new : MessageDispatch n).Live := fun _ _ h => by cases h

/-- Nobody is running through the list that is changed. -/
theorem live_changeObservers {s' : MessageDispatch n} (hhandling : s'.handling = s.handling)
    (hsafe : (s.misused || s.handling.isSome) = false) : s'.Live := by
  intro i rest h
  rw [hhandling] at h
  rw [h, Option.isSome_some, Bool.or_true] at hsafe
  cases hsafe

theorem Live.step (h : s.Live) {i : Step n} (hsafe : (s.step subject i).misused = false) :
    (s.step subject i).Live := by
  cases i with
  | addObserver q subscriber => exact live_changeObservers (s := s) rfl hsafe
  | removeObserver subscriber =>
      rw [MessageDispatch.step, removeObserver] at hsafe ⊢
      split at hsafe
      · exact live_changeObservers (s := s) rfl hsafe
      · exact h
  | take m =>
      simp only [MessageDispatch.step, MessageDispatch.take]
      split
      · split
        · intro i rest heq
          cases heq
          exact List.suffix_rfl
        · exact h
      · exact h
  | observe =>
      simp only [MessageDispatch.step]
      split
      · next j e rest hhandling =>
          have hrest : rest <:+ s.observers := (List.suffix_cons e rest).trans (h j _ hhandling)
          split
          all_goals
            intro i rest' heq
            cases heq
            exact hrest
      · exact h
  | handled =>
      simp only [MessageDispatch.step]
      split
      · intro i rest heq
        cases heq
      · exact h
  | enqueue q => exact h
  | pop q =>
      simp only [MessageDispatch.step]
      split <;> exact h
  | run q =>
      simp only [MessageDispatch.step]
      split <;> exact h
  | finish q =>
      simp only [MessageDispatch.step]
      split <;> exact h

theorem Live.after (h : s.Live) {steps : List (Step n)}
    (hsafe : (after (MessageDispatch.step subject) s steps).misused = false) :
    (after (MessageDispatch.step subject) s steps).Live := by
  have hback : ∀ (s : MessageDispatch n) (i : Step n),
      (s.step subject i).misused = false → s.misused = false := by
    intro s i hnext
    by_contra hmisused
    rw [misused_step s i (Bool.not_eq_false _ ▸ hmisused)] at hnext
    cases hnext
  induction steps generalizing s with
  | nil => exact h
  | cons i steps ih =>
      have hfirst : (s.step subject i).misused = false :=
        (always_of_after (P := fun s : MessageDispatch n => s.misused = false) hback
          (show (after (MessageDispatch.step subject) (s.step subject i) steps).misused = false
            from hsafe)).first
      exact ih (h.step hfirst) hsafe

/-! ## What is lost -/

/-- There is room on the ring when the observer's turn comes. -/
def Room (subject : Nat → CString) (e : MessageEvent n) (s : MessageDispatch n) : Step n → Prop
  | .observe => ∀ i rest, s.handling = some ⟨i, e :: rest⟩ →
      interested subject e (s.pool.object i) = true → (s.queues e.queue).ring.items.length < 4095
  | _ => True

/-- Some call of `__notify` for the observer has returned `false`. -/
def Refused (e : MessageEvent n) (s : MessageDispatch n) : Prop := ∃ m, (e, m, false) ∈ s.notified

theorem refused_notify (h : s.Sound) (e e' : MessageEvent n) (i : Nat) :
    Refused e (s.notify e' i) ↔
      Refused e s ∨ e' = e ∧ ¬ (s.queues e.queue).ring.items.length < 4095 := by
  have hring := (h.rings e'.queue).push (.message e' i)
  cases hpush : (s.queues e'.queue).ring.push (.message e' i) with
  | mk pushed ring =>
      rw [hpush] at hring
      have hlast : (s.notify e' i).notified = s.notified ++ [(e', s.pool.object i, pushed)] := by
        simp only [notify, hpush]
      have hanswer : pushed = false ↔ ¬ (s.queues e'.queue).ring.items.length < 4095 := by
        obtain ⟨hroom, rfl, -, -⟩ | ⟨hfull, hnone⟩ := hring
        · exact iff_of_false (fun hf => by cases hf) fun hf => hf hroom
        · cases hnone
          exact iff_of_true rfl (by omega)
      rw [Refused, Refused, hlast]
      simp only [List.mem_append, List.mem_singleton, Prod.mk.injEq, exists_or]
      refine or_congr_right ⟨fun hm => ?_, fun hm => ?_⟩
      · obtain ⟨m, rfl, -, hf⟩ := hm
        exact ⟨rfl, hanswer.mp hf.symm⟩
      · obtain ⟨rfl, hf⟩ := hm
        exact ⟨_, rfl, rfl, (hanswer.mpr hf).symm⟩

theorem refused_congr {s' : MessageDispatch n} {e : MessageEvent n}
    (h : s'.notified = s.notified) : Refused e s' ↔ Refused e s := by
  rw [Refused, Refused, h]

theorem refused_observe (h : s.Sound) (e : MessageEvent n) :
    Refused e (s.step subject .observe) ↔ Refused e s ∨ ¬ Room subject e s .observe := by
  simp only [step]
  split
  · next i e' rest hhandling =>
      have hroom : Room subject e s .observe ↔ (e' = e →
          interested subject e (s.pool.object i) = true →
            (s.queues e.queue).ring.items.length < 4095) := by
        rw [Room, hhandling]
        refine ⟨fun hroom heq => hroom i rest (heq ▸ rfl), fun hroom j rest' heq => ?_⟩
        cases heq
        exact hroom rfl
      rw [hroom]
      split
      · next hinterested =>
          rw [refused_notify (h.observing _ hhandling _)]
          refine or_congr_right ⟨fun hf hroom => ?_, fun hf => ?_⟩
          · obtain ⟨rfl, hf⟩ := hf
            exact hf (hroom rfl hinterested)
          · obtain ⟨rfl, hf⟩ := Classical.not_imp.mp hf
            exact ⟨rfl, (Classical.not_imp.mp hf).2⟩
      · next hnot =>
          refine (refused_congr rfl).trans (or_iff_left fun hf => hf fun heq hinterested => ?_).symm
          exact absurd (heq ▸ hinterested) hnot
  · next hother =>
      refine (or_iff_left fun hf => hf fun i rest hhandling => ?_).symm
      exact absurd hhandling (hother i e rest)

theorem refused_step (h : s.Sound) (e : MessageEvent n) (i : Step n) :
    Refused e (s.step subject i) ↔ Refused e s ∨ ¬ Room subject e s i := by
  have hsame : ∀ {s' : MessageDispatch n}, s'.notified = s.notified →
      (Refused e s' ↔ Refused e s ∨ ¬ True) :=
    fun hnotified => (refused_congr hnotified).trans (or_iff_left fun hf => hf trivial).symm
  cases i with
  | observe => exact refused_observe h e
  | addObserver q subscriber => exact hsame rfl
  | removeObserver subscriber =>
      refine hsame ?_
      rw [step, removeObserver]
      split <;> rfl
  | take m =>
      refine hsame ?_
      simp only [step, take]
      split
      · split <;> rfl
      · rfl
  | handled =>
      refine hsame ?_
      simp only [step]
      split <;> rfl
  | enqueue q => exact hsame rfl
  | pop q =>
      refine hsame ?_
      simp only [step]
      split <;> rfl
  | run q =>
      refine hsame ?_
      simp only [step]
      split <;> rfl
  | finish q =>
      refine hsame ?_
      simp only [step]
      split <;> rfl

theorem refused_after (h : s.Sound) (e : MessageEvent n) (steps : List (Step n)) :
    ¬ Refused e (after (step subject) s steps) ↔
      ¬ Refused e s ∧ Along (step subject) (Room subject e) s steps := by
  induction steps generalizing s with
  | nil => exact (and_iff_left trivial).symm
  | cons i steps ih =>
      have hnext := ih (s := s.step subject i) (h.step i)
      rw [refused_step h, not_or, not_not, and_assoc] at hnext
      exact hnext

/-- What has been accepted for an observer is what it was notified of, unless a call was
refused. -/
theorem callsTo_accepted (s : MessageDispatch n) (e : MessageEvent n) :
    List.Sublist (callsTo e s.accepted) (callsTo e (s.notified.map fun c => (c.1, c.2.1))) ∧
      (callsTo e s.accepted = callsTo e (s.notified.map fun c => (c.1, c.2.1)) ↔
        ¬ Refused e s) := by
  have hnotified : callsTo e (s.notified.map fun c => (c.1, c.2.1)) =
      (s.notified.filter fun c => c.1 = e).map fun c => c.2.1 := by
    rw [callsTo, List.filter_map, List.map_map]
    rfl
  have haccepted : callsTo e s.accepted =
      ((s.notified.filter fun c => c.1 = e).filter fun c => c.2.2).map fun c => c.2.1 := by
    rw [callsTo, accepted, List.filter_map, List.map_map, List.filter_filter, List.filter_filter]
    refine congrArg (List.map _) (List.filter_congr fun c _ => Bool.and_comm _ _)
  have hsublist := (List.filter_sublist (p := fun c : MessageEvent n × Message × Bool => c.2.2)
    (l := s.notified.filter fun c => c.1 = e)).map fun c => c.2.1
  rw [hnotified, haccepted]
  refine ⟨hsublist, fun heq hrefused => ?_, fun hnone => ?_⟩
  · obtain ⟨m, hm⟩ := hrefused
    have hlength := congrArg List.length heq
    rw [List.length_map, List.length_map, List.length_filter_eq_length_iff] at hlength
    have hanswer := hlength (e, m, false) (List.mem_filter.mpr ⟨hm, decide_eq_true rfl⟩)
    cases hanswer
  · refine congrArg _ (List.filter_eq_self.mpr fun c hc => ?_)
    obtain ⟨hmem, hself⟩ := List.mem_filter.mp hc
    obtain ⟨e', m, pushed⟩ := c
    obtain rfl := of_decide_eq_true hself
    cases pushed with
    | true => rfl
    | false => exact absurd ⟨m, hmem⟩ hnone

/-- What an observer has been called with and what is due for it is what was accepted. -/
theorem Sound.callsTo_called (h : s.Sound) (e : MessageEvent n) :
    callsTo e s.called ++ callsTo e (s.dueOn e.queue) = callsTo e s.accepted := by
  have hcalls := congrArg (callsTo e) (h.calls e.queue)
  rwa [callsTo_append, callsTo_onQueue, callsTo_onQueue] at hcalls

/-- For any observer, queues and interleaving: what the observer has been called with, and then
what is due for it, is what its transport received for it while it was an observer, in that
order. What is missing is missing because the ring was full, or still to be notified. As long as
nothing is misused `for_each` runs through the list of observers as it is. -/
theorem called_in_order {subject : Nat → CString} {steps : List (Step n)}
    (hsafe : (after (step subject) new steps).misused = false) (e : MessageEvent n) :
    let s := after (step subject) new steps
    s.Live ∧
      List.Sublist (callsTo e s.called ++ callsTo e (s.dueOn e.queue))
        (meant subject e new steps) ∧
      (callsTo e s.called ++ callsTo e (s.dueOn e.queue) ++ callsTo e (s.unnotified subject) =
          meant subject e new steps ↔ Along (step subject) (Room subject e) new steps) := by
  intro s
  have hlive : s.Live := live_new.after hsafe
  have hsound : s.Sound := sound_after subject steps
  have hheard : callsTo e (s.heard subject) = meant subject e new steps :=
    heard_after sound_new addressed_new e steps
  obtain ⟨hsublist, hiff⟩ := s.callsTo_accepted e
  have hrefused : ¬ Refused e s ↔ ¬ Refused e new ∧
      Along (step subject) (Room subject e) new steps := refused_after sound_new e steps
  rw [heard, callsTo_append] at hheard
  rw [hsound.callsTo_called e, ← hheard]
  refine ⟨hlive, hsublist.trans (List.sublist_append_left _ _), ?_⟩
  rw [List.append_cancel_right_eq, hiff, hrefused]
  exact and_iff_right fun h => by
    obtain ⟨m, hm⟩ := h
    exact absurd hm List.not_mem_nil

/-- A message comes, and its observer is called. -/
def calledOnce : List (Step 1) :=
  [.addObserver 0 0, .take (MutableMessage.setSubject (.ofString "A") .new).1, .observe, .handled,
    .pop 0, .run 0, .finish 0]

theorem called_in_order_once :
    let subject := fun _ => CString.ofString "A"
    let e : MessageEvent 1 := ⟨0, 0, 0⟩
    let s := after (step subject) new calledOnce
    s.misused = false ∧ (callsTo e s.called).length = 1 ∧ s.Live ∧
      List.Sublist (callsTo e s.called ++ callsTo e (s.dueOn 0)) (meant subject e new calledOnce) ∧
      (callsTo e s.called ++ callsTo e (s.dueOn 0) ++ callsTo e (s.unnotified subject) =
          meant subject e new calledOnce ↔
        Along (step subject) (Room subject e) new calledOnce) := by
  intro subject e s
  have hsafe : s.misused = false := by decide +kernel
  exact ⟨hsafe, by decide +kernel, called_in_order hsafe e⟩

/-- An object is out as long as there is a pointer to it, and no longer. -/
theorem objects_accounted (subject : Nat → CString) (steps : List (Step n)) :
    let s := after (step subject) new steps
    (∀ i, s.useCount i = s.references i) ∧
      ∃ out, (s.pool.freeAllocations ++ out).Perm (List.range s.pool.poolSize) ∧
        (∀ i, i ∈ out ↔ s.references i ≠ 0) ∧
        (s.handling = none → (∀ q, (s.queues q).waiting = []) → out = []) := by
  intro s
  have hsound : s.Sound := sound_after subject steps
  have hcount : ∀ i, s.useCount i = s.references i := fun i => hsound.accounts.count i
  obtain ⟨out, hwhole, hout⟩ := hsound.accounts.whole
  refine ⟨hcount, out, hwhole.split, fun i => hcount i ▸ hout i, fun hidle hempty => ?_⟩
  refine List.eq_nil_iff_forall_not_mem.mpr fun i hi => (hout i).mp hi ?_
  have hnone : tally (fun d : DispatchQueue n => d.held.count i) s.queues = 0 :=
    tally_eq_zero.mpr fun q => by rw [DispatchQueue.held, hempty q]; rfl
  rw [hcount, references, hidle, hnone]
  rfl

end MessageDispatch

end Fastpath
