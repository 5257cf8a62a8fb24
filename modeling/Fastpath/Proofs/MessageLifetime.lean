import Fastpath.Proofs.MessageDispatch

/-!
# Observers that are removed

`removeObserver` deletes the `MessageEvent`, whatever is on the queue for it, and
`dispatch_event` looks at the event of every element it has run. So what is on
the queue when an observer goes decides about the thread that dispatches it. If
there is nothing, nothing will come; if there is something, dispatching the queue
to its end is enough to look at a deleted event.
-/

namespace Fastpath

open Fastpath.Lib

variable {n : Nat}

namespace MessageDispatch

variable {s : MessageDispatch n} {subject : Nat → CString}

/-- A step that a thread of the application takes to dispatch a queue. -/
def Step.Dispatches : Step n → Prop
  | .pop _ | .run _ | .finish _ => True
  | _ => False

/-- Observers come and go while no message is being handled, and an observer goes when nothing is
on its queue for it. -/
def Quiet (s : MessageDispatch n) : Step n → Prop
  | .addObserver .. => s.handling = none
  | .removeObserver subscriber => ∀ e, s.observerOf subscriber = some e →
      s.handling = none ∧ ∀ i, .message e i ∉ (s.queues e.queue).waiting
  | _ => True

/-! ## What a step does to a queue -/

theorem waiting_setQueue (q q' : Fin n) (d : DispatchQueue n)
    (h : d.waiting = (s.queues q).waiting) :
    ((s.setQueue q d).queues q').waiting = (s.queues q').waiting := by
  show (Function.update s.queues q d q').waiting = _
  rw [Function.update_apply]
  split
  · next heq => rw [heq, h]
  · rfl

/-- Either a queue keeps what waits on it, or something goes behind it, or what has been run
goes. -/
inductive Waits (s : MessageDispatch n) (i : Step n) (q : Fin n)
    (waiting : List (MessageElement n)) : Prop where
  | same (h : waiting = (s.queues q).waiting)
  | other (h : waiting = (s.queues q).waiting ++ [.other])
  | notified (e : MessageEvent n) (object : Nat) (rest : List (MessageEvent n))
      (handling : s.handling = some ⟨object, e :: rest⟩)
      (h : waiting = (s.queues q).waiting ++ [.message e object])
  | finished (element : MessageElement n) (finish : i = .finish q)
      (dispatcher : (s.queues q).dispatcher = some (element, true))
      (h : (s.queues q).waiting = element :: waiting)

theorem Sound.waits_enqueue (h : s.Sound) (q q' : Fin n) :
    Waits s (.enqueue q) q' ((s.step subject (.enqueue q)).queues q').waiting := by
  by_cases hq : q' = q
  · subst hq
    have hself : (s.step subject (.enqueue q')).queues q' =
        { s.queues q' with ring := ((s.queues q').ring.push .other).2 } :=
      Function.update_self _ _ _
    rw [hself]
    obtain ⟨-, -, hitems, -⟩ | ⟨-, hfull⟩ := (h.rings q').push .other
    · refine .other ?_
      rw [DispatchQueue.waiting, DispatchQueue.waiting, hitems, List.append_assoc]
    · rw [hfull]
      exact .same rfl
  · exact .same (congrArg _ (Function.update_of_ne hq _ _))

theorem Sound.waiting_notify (h : s.Sound) (e : MessageEvent n) (i : Nat) (q : Fin n) :
    ((s.notify e i).queues q).waiting = (s.queues q).waiting ∨
      ((s.notify e i).queues q).waiting = (s.queues q).waiting ++ [.message e i] := by
  by_cases hq : q = e.queue
  · subst hq
    have hself : (s.notify e i).queues e.queue =
        { s.queues e.queue with ring := ((s.queues e.queue).ring.push (.message e i)).2 } :=
      Function.update_self _ _ _
    rw [hself]
    obtain ⟨-, -, hitems, -⟩ | ⟨-, hfull⟩ := (h.rings e.queue).push (.message e i)
    · refine .inr ?_
      rw [DispatchQueue.waiting, DispatchQueue.waiting, hitems, List.append_assoc]
    · rw [hfull]
      exact .inl rfl
  · exact .inl (congrArg _ (Function.update_of_ne hq _ _))

theorem Sound.waits_observe (h : s.Sound) (q : Fin n) :
    Waits s .observe q ((s.step subject .observe).queues q).waiting := by
  simp only [MessageDispatch.step]
  split
  · next i e rest hhandling =>
      split
      · have hnext := h.observing rest hhandling (s.misused || decide (e ∉ s.observers))
        rcases hnext.waiting_notify e i q with hsame | hmore
        · exact .same hsame
        · exact .notified e i rest hhandling hmore
      · exact .same rfl
  · exact .same rfl

theorem Sound.waiting_pop (h : s.Sound) (q q' : Fin n) :
    ((s.step subject (.pop q)).queues q').waiting = (s.queues q').waiting := by
  simp only [MessageDispatch.step]
  split
  · next element ring hidle hpop =>
      obtain ⟨hitems, -⟩ := (h.rings q).pop hpop
      refine waiting_setQueue q q' _ ?_
      rw [DispatchQueue.waiting, DispatchQueue.waiting, hidle, hitems]
      rfl
  · rfl

theorem waiting_run (q q' : Fin n) :
    ((s.step subject (.run q)).queues q').waiting = (s.queues q').waiting := by
  simp only [step]
  split
  · next e i hdispatcher =>
      refine waiting_setQueue q q' _ ?_
      rw [DispatchQueue.waiting, DispatchQueue.waiting, hdispatcher]
      rfl
  · next hdispatcher =>
      refine waiting_setQueue q q' _ ?_
      rw [DispatchQueue.waiting, DispatchQueue.waiting, hdispatcher]
      rfl
  · rfl

theorem waits_cleared {i : Step n} {q : Fin n} (q' : Fin n) {element : MessageElement n}
    (hi : i = .finish q) (hdispatcher : (s.queues q).dispatcher = some (element, true)) :
    Waits s i q' ((s.setQueue q ⟨(s.queues q).ring, none⟩).queues q').waiting := by
  by_cases hq : q' = q
  · subst hq
    refine .finished element hi hdispatcher ?_
    rw [show (s.setQueue q' ⟨(s.queues q').ring, none⟩).queues q' = ⟨(s.queues q').ring, none⟩ from
      Function.update_self _ _ _, DispatchQueue.waiting, hdispatcher]
    rfl
  · exact .same (congrArg _ (Function.update_of_ne hq _ _))

theorem waits_finish (q q' : Fin n) :
    Waits s (.finish q) q' ((s.step subject (.finish q)).queues q').waiting := by
  simp only [step]
  split
  · next hdispatcher => exact waits_cleared q' rfl hdispatcher
  · next hdispatcher => exact waits_cleared q' rfl hdispatcher
  · exact .same rfl

theorem Sound.waits (h : s.Sound) (i : Step n) (q : Fin n) :
    Waits s i q ((s.step subject i).queues q).waiting := by
  cases i with
  | addObserver q' subscriber => exact .same rfl
  | removeObserver subscriber =>
      rw [MessageDispatch.step, MessageDispatch.removeObserver]
      split <;> exact .same rfl
  | take m =>
      simp only [MessageDispatch.step, MessageDispatch.take]
      split
      · split <;> exact .same rfl
      · exact .same rfl
  | observe => exact h.waits_observe q
  | handled =>
      simp only [MessageDispatch.step]
      split <;> exact .same rfl
  | enqueue q' => exact h.waits_enqueue q' q
  | pop q' => exact .same (h.waiting_pop q' q)
  | run q' => exact .same (waiting_run q' q)
  | finish q' => exact waits_finish q' q

/-! ## Safe runs -/

/-- Every event that something is to be done with is there. -/
structure Attached (s : MessageDispatch n) : Prop where
  misused : s.misused = false
  waiting : ∀ q e i, .message e i ∈ (s.queues q).waiting → e ∈ s.observers
  rest : ∀ i rest, s.handling = some ⟨i, rest⟩ → ∀ e ∈ rest, e ∈ s.observers

theorem attached_new : (new : MessageDispatch n).Attached where
  misused := rfl
  waiting _ _ _ h := absurd h List.not_mem_nil
  rest _ _ h := by cases h

namespace Attached

theorem of_waits (h : s.Attached) {i : Step n} {q : Fin n} {waiting : List (MessageElement n)}
    (hwaits : Waits s i q waiting) {e : MessageEvent n} {object : Nat}
    (hmem : .message e object ∈ waiting) : e ∈ s.observers := by
  cases hwaits with
  | same heq => exact h.waiting q e object (heq ▸ hmem)
  | other heq =>
      rw [heq] at hmem
      exact h.waiting q e object (by simpa using hmem)
  | notified e' object' rest hhandling heq =>
      rw [heq] at hmem
      rcases List.mem_append.mp hmem with hmem | hmem
      · exact h.waiting q e object hmem
      · cases List.mem_singleton.mp hmem
        exact h.rest _ _ hhandling e List.mem_cons_self
  | finished element hi hdispatcher heq =>
      exact h.waiting q e object (heq ▸ List.mem_cons_of_mem _ hmem)

theorem addObserver (h : s.Attached) (q : Fin n) (subscriber : Nat) (hidle : s.handling = none) :
    (s.addObserver q subscriber).Attached where
  misused := by
    show (s.misused || s.handling.isSome) = false
    rw [h.misused, hidle]
    rfl
  waiting q' e i hmem := List.mem_append_left _ (h.waiting q' e i hmem)
  rest i rest hhandling := by
    have hnone : s.handling = some ⟨i, rest⟩ := hhandling
    rw [hidle] at hnone
    cases hnone

theorem removeObserver (h : s.Attached) (hsound : s.Sound) (subscriber : Nat)
    (hquiet : s.Quiet (.removeObserver subscriber)) : (s.removeObserver subscriber).Attached := by
  rw [MessageDispatch.removeObserver]
  split
  · next e he =>
      obtain ⟨hidle, hnone⟩ := hquiet e he
      refine ⟨?_, fun q e' i hmem => ?_, fun i rest hhandling => ?_⟩
      · show (s.misused || s.handling.isSome) = false
        rw [h.misused, hidle]
        rfl
      · have hmem : .message e' i ∈ (s.queues q).waiting := hmem
        refine (List.mem_erase_of_ne fun heq => ?_).mpr (h.waiting q e' i hmem)
        rw [heq] at hmem
        exact hnone i (hsound.placed q e i hmem ▸ hmem)
      · have hbusy : s.handling = some ⟨i, rest⟩ := hhandling
        rw [hidle] at hbusy
        cases hbusy
  · exact h

/-- The observers stay, and the message in hand is passed on or put down. -/
theorem of_kept (h : s.Attached) (hsound : s.Sound) (i : Step n)
    (hobservers : (s.step subject i).observers = s.observers)
    (hmisused : (s.step subject i).misused = false)
    (hrest : ∀ j rest, (s.step subject i).handling = some ⟨j, rest⟩ →
      ∀ e ∈ rest, e ∈ s.observers) : (s.step subject i).Attached where
  misused := hmisused
  waiting q _ _ hmem := hobservers ▸ h.of_waits (hsound.waits i q) hmem
  rest j rest hhandling e he := hobservers ▸ hrest j rest hhandling e he

theorem observe (h : s.Attached) (hsound : s.Sound) : (s.step subject .observe).Attached := by
  refine h.of_kept hsound .observe ?_ ?_ ?_
  · simp only [MessageDispatch.step]
    split
    · split <;> rfl
    · rfl
  · simp only [MessageDispatch.step]
    split
    · next i e rest hhandling =>
        have he : decide (e ∉ s.observers) = false :=
          decide_eq_false (not_not_intro (h.rest _ _ hhandling e List.mem_cons_self))
        split
        all_goals
          show (s.misused || decide (e ∉ s.observers)) = false
          rw [h.misused, he]
          rfl
    · exact h.misused
  · simp only [MessageDispatch.step]
    split
    · next i e rest hhandling =>
        have hrest : ∀ e' ∈ rest, e' ∈ s.observers := fun e' he' =>
          h.rest _ _ hhandling e' (List.mem_cons_of_mem _ he')
        split
        all_goals
          intro j rest' hnext
          cases hnext
          exact hrest
    · exact h.rest

theorem take (h : s.Attached) (hsound : s.Sound) (m : Message) :
    (s.step subject (.take m)).Attached := by
  refine h.of_kept hsound (.take m) ?_ ?_ ?_
  · simp only [MessageDispatch.step, MessageDispatch.take]
    split
    · split <;> rfl
    · rfl
  · simp only [MessageDispatch.step, MessageDispatch.take]
    split
    · split <;> exact h.misused
    · exact h.misused
  · simp only [MessageDispatch.step, MessageDispatch.take]
    split
    · split
      · intro j rest hnext
        cases hnext
        exact fun e he => he
      · exact h.rest
    · exact h.rest

theorem finish (h : s.Attached) (hsound : s.Sound) (q : Fin n) :
    (s.step subject (.finish q)).Attached := by
  refine h.of_kept hsound (.finish q) ?_ ?_ ?_
  · simp only [MessageDispatch.step]
    split <;> rfl
  · simp only [MessageDispatch.step]
    split
    · next e i hdispatcher =>
        have hmem : .message e i ∈ (s.queues q).waiting := by
          rw [DispatchQueue.waiting, hdispatcher]
          exact List.mem_cons_self
        show (s.misused || decide (e ∉ s.observers)) = false
        rw [h.misused, decide_eq_false (not_not_intro (h.waiting q e i hmem))]
        rfl
    · exact h.misused
    · exact h.misused
  · simp only [MessageDispatch.step]
    split <;> exact h.rest

end Attached

theorem Attached.step (h : s.Attached) (hsound : s.Sound) {i : Step n} (hquiet : s.Quiet i) :
    (s.step subject i).Attached := by
  cases i with
  | addObserver q subscriber => exact h.addObserver q subscriber hquiet
  | removeObserver subscriber => exact h.removeObserver hsound subscriber hquiet
  | take m => exact h.take hsound m
  | observe => exact h.observe hsound
  | handled =>
      refine h.of_kept hsound .handled ?_ ?_ ?_
      all_goals simp only [MessageDispatch.step]
      · split <;> rfl
      · split <;> exact h.misused
      · split
        · intro j rest hnext
          cases hnext
        · exact h.rest
  | enqueue q => exact h.of_kept hsound (.enqueue q) rfl h.misused h.rest
  | pop q =>
      refine h.of_kept hsound (.pop q) ?_ ?_ ?_
      all_goals simp only [MessageDispatch.step]
      · split <;> rfl
      · split <;> exact h.misused
      · split <;> exact h.rest
  | run q =>
      refine h.of_kept hsound (.run q) ?_ ?_ ?_
      all_goals simp only [MessageDispatch.step]
      · split <;> rfl
      · split <;> exact h.misused
      · split <;> exact h.rest
  | finish q => exact h.finish hsound q

/-! ## Lost runs -/

/-- An element for a deleted event waits, or has been dispatched. -/
def Doomed (s : MessageDispatch n) : Prop :=
  s.misused = true ∨
    ∃ q e i, .message e i ∈ (s.queues q).waiting ∧ e ∉ s.observers ∧ e.address < s.nextAddress

theorem misused_finish {q : Fin n} {e : MessageEvent n} {i : Nat}
    (hdispatcher : (s.queues q).dispatcher = some (.message e i, true)) (he : e ∉ s.observers) :
    (s.step subject (.finish q)).misused = true := by
  simp only [step, hdispatcher]
  show (s.misused || decide (e ∉ s.observers)) = true
  rw [decide_eq_true he, Bool.or_true]

/-- A deleted event stays deleted, since its address is not used again. -/
theorem deleted_step {e : MessageEvent n} (he : e ∉ s.observers) (hlt : e.address < s.nextAddress)
    (i : Step n) : e ∉ (s.step subject i).observers ∧
      e.address < (s.step subject i).nextAddress := by
  obtain ⟨q, subscriber, rfl⟩ | ⟨subscriber, rfl⟩ | ⟨hobservers, hnext⟩ := s.observers_step i
  · refine ⟨fun hmem => ?_, Nat.lt_succ_of_lt hlt⟩
    rcases List.mem_append.mp hmem with hmem | hmem
    · exact he hmem
    · rw [List.mem_singleton.mp hmem] at hlt
      exact Nat.lt_irrefl _ hlt
  · rw [step, removeObserver]
    split
    · exact ⟨fun hmem => he (List.mem_of_mem_erase hmem), hlt⟩
    · exact ⟨he, hlt⟩
  · rw [hobservers, hnext]
    exact ⟨he, hlt⟩

theorem Doomed.step (h : s.Doomed) (hsound : s.Sound) (i : Step n) :
    (s.step subject i).Doomed := by
  rcases h with hmisused | ⟨q, e, j, hmem, he, hlt⟩
  · exact .inl (misused_step s i hmisused)
  · have hwaits : Waits s i q ((s.step subject i).queues q).waiting := hsound.waits i q
    have hdeleted : e ∉ (s.step subject i).observers ∧ e.address < (s.step subject i).nextAddress :=
      deleted_step he hlt i
    obtain ⟨he', hlt'⟩ := hdeleted
    cases hwaits with
    | same heq => exact .inr ⟨q, e, j, heq ▸ hmem, he', hlt'⟩
    | other heq => exact .inr ⟨q, e, j, heq ▸ List.mem_append_left _ hmem, he', hlt'⟩
    | notified _ _ _ _ heq =>
        exact .inr ⟨q, e, j, heq ▸ List.mem_append_left _ hmem, he', hlt'⟩
    | finished element hi hdispatcher heq =>
        rw [heq] at hmem
        rcases List.mem_cons.mp hmem with hfirst | hmem
        · subst hi
          exact .inl (misused_finish (hfirst ▸ hdispatcher) he)
        · exact .inr ⟨q, e, j, hmem, he', hlt'⟩

/-- The step that is not quiet. -/
theorem Attached.doomed (h : s.Attached) (haddressed : s.Addressed)
    {i : Step n} (hquiet : ¬ s.Quiet i) : (s.step subject i).Doomed := by
  have hbusy : ∀ observers : List (MessageEvent n), s.handling ≠ none →
      (s.changeObservers observers).misused = true := by
    intro observers hne
    show (s.misused || s.handling.isSome) = true
    rw [Option.isSome_iff_ne_none.mpr hne, Bool.or_true]
  cases i with
  | addObserver q subscriber =>
      exact .inl (hbusy (s.observers ++ [⟨s.nextAddress, q, subscriber⟩]) hquiet)
  | removeObserver subscriber =>
      obtain ⟨e, hall⟩ := Classical.not_forall.mp hquiet
      obtain ⟨he, hnot⟩ := Classical.not_imp.mp hall
      rw [MessageDispatch.step, MessageDispatch.removeObserver, he]
      by_cases hidle : s.handling = none
      · have hsome : ∃ i, .message e i ∈ (s.queues e.queue).waiting := by
          by_contra hnone
          exact hnot ⟨hidle, fun i hi => hnone ⟨i, hi⟩⟩
        obtain ⟨i, hi⟩ := hsome
        exact .inr ⟨e.queue, e, i, hi, haddressed.nodup.not_mem_erase,
          haddressed.lt e (h.waiting _ e i hi)⟩
      · exact .inl (hbusy (s.observers.erase e) hidle)
  | take m => exact absurd trivial hquiet
  | observe => exact absurd trivial hquiet
  | handled => exact absurd trivial hquiet
  | enqueue q => exact absurd trivial hquiet
  | pop q => exact absurd trivial hquiet
  | run q => exact absurd trivial hquiet
  | finish q => exact absurd trivial hquiet

/-! ## Dispatching to the end -/

/-- What a thread does to the first element of its queue. -/
def dispatch (q : Fin n) : List (Step n) := [.pop q, .run q, .finish q]

theorem queues_setQueue_self (q : Fin n) (d : DispatchQueue n) : (s.setQueue q d).queues q = d :=
  Function.update_self _ _ _

/-- The first element is with the thread, if it was not before. -/
theorem Sound.dispatcher_pop (h : s.Sound) {q : Fin n} {element : MessageElement n}
    {rest : List (MessageElement n)} (hwaiting : (s.queues q).waiting = element :: rest) :
    ∃ run, ((s.step subject (.pop q)).queues q).dispatcher = some (element, run) := by
  cases hdispatcher : (s.queues q).dispatcher with
  | none =>
      rw [DispatchQueue.waiting, hdispatcher] at hwaiting
      obtain ⟨l, hl⟩ := h.rings q
      have hitems : l = element :: rest := hl.items_eq.symm.trans hwaiting
      rw [hitems] at hl
      obtain ⟨hfirst, -⟩ := hl.pop_cons
      cases hpop : (s.queues q).ring.pop with
      | mk first ring =>
          rw [hpop] at hfirst
          cases hfirst
          simp only [MessageDispatch.step, hdispatcher, hpop, queues_setQueue_self]
          exact ⟨false, rfl⟩
  | some dispatcher =>
      obtain ⟨first, run⟩ := dispatcher
      rw [DispatchQueue.waiting, hdispatcher] at hwaiting
      obtain ⟨rfl, -⟩ := List.cons.inj hwaiting
      simp only [MessageDispatch.step, hdispatcher]
      exact ⟨run, rfl⟩

theorem dispatcher_run {q : Fin n} {element : MessageElement n} {run : Bool}
    (h : (s.queues q).dispatcher = some (element, run)) :
    ((s.step subject (.run q)).queues q).dispatcher = some (element, true) := by
  cases run with
  | true =>
      simp only [step, h]
  | false =>
      cases element with
      | message e i =>
          simp only [step, h]
          exact congrArg _ (queues_setQueue_self q _)
      | other =>
          simp only [step, h, queues_setQueue_self]

theorem queue_finish {q : Fin n} {element : MessageElement n}
    (h : (s.queues q).dispatcher = some (element, true)) :
    (s.step subject (.finish q)).queues q = ⟨(s.queues q).ring, none⟩ := by
  cases element with
  | message e i =>
      simp only [step, h]
      exact queues_setQueue_self q _
  | other => simp only [step, h, queues_setQueue_self]

theorem observers_dispatches (s : MessageDispatch n) {i : Step n} (h : i.Dispatches) :
    (s.step subject i).observers = s.observers := by
  obtain ⟨q, subscriber, rfl⟩ | ⟨subscriber, rfl⟩ | ⟨hobservers, -⟩ := s.observers_step i
  · exact absurd h id
  · exact absurd h id
  · exact hobservers

/-- The first element is dispatched, and the rest is left. -/
theorem Sound.dispatch_first (h : s.Sound) {q : Fin n} {element : MessageElement n}
    {rest : List (MessageElement n)} (hwaiting : (s.queues q).waiting = element :: rest) :
    let s' := after (MessageDispatch.step subject) s (dispatch q)
    (s'.queues q).waiting = rest ∧ s'.observers = s.observers ∧
      ∀ e i, element = .message e i → e ∉ s.observers → s'.misused = true := by
  intro s'
  let popped := s.step subject (.pop q)
  let ran := popped.step subject (.run q)
  have hs' : s' = ran.step subject (.finish q) := rfl
  have hpopped : ∃ run, (popped.queues q).dispatcher = some (element, run) :=
    h.dispatcher_pop hwaiting
  obtain ⟨run, hpopped⟩ := hpopped
  have hran : (ran.queues q).dispatcher = some (element, true) := dispatcher_run hpopped
  have hobservers : ran.observers = s.observers :=
    (observers_dispatches popped (i := .run q) trivial).trans
      (observers_dispatches s (i := .pop q) trivial)
  have hkept : (ran.queues q).waiting = element :: rest :=
    (waiting_run q q).trans ((h.waiting_pop q q).trans hwaiting)
  refine ⟨?_, ?_, fun e i heq he => ?_⟩
  · rw [hs', queue_finish hran]
    rw [DispatchQueue.waiting, hran] at hkept
    exact (List.cons.inj hkept).2
  · rw [hs', observers_dispatches ran (i := .finish q) trivial]
    exact hobservers
  · rw [hs']
    exact misused_finish (heq ▸ hran) (hobservers ▸ he)

theorem sound_steps (h : s.Sound) (steps : List (Step n)) :
    (after (step subject) s steps).Sound :=
  (always_of_step (I := Sound) (fun _ i hs => hs.step i) h).last

/-- A thread that dispatches its queue long enough looks at every event that it has an element
for. -/
theorem Sound.dispatched (h : s.Sound) {q : Fin n} {e : MessageEvent n} {i : Nat}
    (he : e ∉ s.observers) {waiting : List (MessageElement n)}
    (hwaiting : (s.queues q).waiting = waiting) (hmem : .message e i ∈ waiting) :
    ∃ k, (after (MessageDispatch.step subject) s
      (List.replicate k (dispatch q)).flatten).misused = true := by
  induction waiting generalizing s with
  | nil => exact absurd hmem List.not_mem_nil
  | cons element rest ih =>
      have hfirst : let s' := after (MessageDispatch.step subject) s (dispatch q)
          (s'.queues q).waiting = rest ∧ s'.observers = s.observers ∧
            ∀ e i, element = .message e i → e ∉ s.observers → s'.misused = true :=
        h.dispatch_first hwaiting
      obtain ⟨hrest, hobservers, hlooked⟩ := hfirst
      rcases List.mem_cons.mp hmem with heq | hmem
      · refine ⟨1, ?_⟩
        rw [List.replicate_one, List.flatten_singleton]
        exact hlooked e i heq.symm he
      · obtain ⟨k, hk⟩ := ih (sound_steps h (dispatch q)) (hobservers ▸ he) hrest hmem
        refine ⟨k + 1, ?_⟩
        rw [List.replicate_succ, List.flatten_cons, after_append]
        exact hk

theorem quiet_dispatches {i : Step n} (h : i.Dispatches) : s.Quiet i := by
  cases i with
  | pop q => trivial
  | run q => trivial
  | finish q => trivial
  | addObserver q subscriber => exact absurd h id
  | removeObserver subscriber => exact absurd h id
  | take m => exact absurd h id
  | observe => exact absurd h id
  | handled => exact absurd h id
  | enqueue q => exact absurd h id

theorem dispatches_dispatch (q : Fin n) (k : Nat) :
    ∀ i ∈ (List.replicate k (dispatch q)).flatten, i.Dispatches := by
  intro i hi
  obtain ⟨l, hl, hmem⟩ := List.mem_flatten.mp hi
  rw [(List.mem_replicate.mp hl).2, dispatch] at hmem
  simp only [List.mem_cons, List.not_mem_nil, or_false] at hmem
  obtain rfl | rfl | rfl := hmem <;> trivial

theorem Attached.along (h : s.Attached) (hsound : s.Sound) {steps : List (Step n)}
    (hquiet : Along (MessageDispatch.step subject) Quiet s steps) :
    (after (MessageDispatch.step subject) s steps).Attached :=
  (hquiet.always (I := fun s : MessageDispatch n => s.Attached ∧ s.Sound)
    (fun _ i hs hi => ⟨hs.1.step hs.2 hi, hs.2.step i⟩) ⟨h, hsound⟩).last.1

theorem along_dispatches {steps : List (Step n)} (h : ∀ i ∈ steps, i.Dispatches) :
    Along (step subject) Quiet s steps := by
  induction steps generalizing s with
  | nil => trivial
  | cons i steps ih =>
      exact ⟨quiet_dispatches (h i List.mem_cons_self),
        ih fun j hj => h j (List.mem_cons_of_mem _ hj)⟩

theorem Doomed.after (h : s.Doomed) (hsound : s.Sound) (steps : List (Step n)) :
    (after (MessageDispatch.step subject) s steps).Doomed :=
  (always_of_step (I := fun s : MessageDispatch n => s.Doomed ∧ s.Sound)
    (fun _ i hs => ⟨hs.1.step hs.2 i, hs.2.step i⟩) ⟨h, hsound⟩).last.1

theorem Attached.doomed_after (h : s.Attached) (hsound : s.Sound) (haddressed : s.Addressed)
    {steps : List (Step n)} (hquiet : ¬ Along (MessageDispatch.step subject) Quiet s steps) :
    (after (MessageDispatch.step subject) s steps).Doomed := by
  induction steps generalizing s with
  | nil => exact absurd trivial hquiet
  | cons i steps ih =>
      by_cases hi : s.Quiet i
      · exact ih (h.step hsound hi) (hsound.step i) (haddressed.step i)
          fun hrest => hquiet ⟨hi, hrest⟩
      · exact (h.doomed haddressed hi).after (hsound.step i) steps

/-- In every interleaving: however the queues are dispatched from here, no deleted event is looked
at and no observer is changed under the other thread, if and only if every change of the
observers was quiet. -/
theorem never_misused_iff (subject : Nat → CString) (steps : List (Step n)) :
    (∀ dispatching : List (Step n), (∀ i ∈ dispatching, i.Dispatches) →
        (after (step subject) new (steps ++ dispatching)).misused = false) ↔
      Along (step subject) Quiet new steps := by
  constructor
  · intro hsafe
    by_contra hquiet
    obtain hmisused | ⟨q, e, i, hmem, he, -⟩ :=
      attached_new.doomed_after sound_new addressed_new hquiet
    · have hnow := hsafe [] fun i hi => absurd hi List.not_mem_nil
      rw [List.append_nil, hmisused] at hnow
      cases hnow
    · have hlost : ∃ k, (after (step subject) (after (step subject) new steps)
          (List.replicate k (dispatch q)).flatten).misused = true :=
        (sound_after subject steps).dispatched he rfl hmem
      obtain ⟨k, hk⟩ := hlost
      have hlater := hsafe _ (dispatches_dispatch q k)
      rw [after_append, hk] at hlater
      cases hlater
  · intro hquiet dispatching hdispatches
    have hboth : Along (step subject) Quiet new (steps ++ dispatching) :=
      along_append.mpr ⟨hquiet, along_dispatches hdispatches⟩
    exact (attached_new.along sound_new hboth).misused

end MessageDispatch

end Fastpath
