import Fastpath.Proofs.EndToEnd
import Fastpath.Proofs.MessageDispatch

/-!
# From a publication to a callback

The last leg. What a transport has decoded is dispatched to the observers of its
transport, each on the queue it was added with. An observer whose subject the
client has registered with the router is called with every message that was
published from then on and that its subscription matches, if its queue keeps up.

The router and the observer apply the same matching to the same subject, one
before the message is sent and the other when it has arrived. That the observer
has asked for nothing twice is not required: the router passes a message on once,
however many of the client's subscriptions match it.
-/

namespace Fastpath

open Fastpath.Lib

namespace MessageDispatch

variable {n : Nat} {s : MessageDispatch n} {subject : Nat → CString}

/-- The messages that a run has decoded. -/
def taken (subject : Nat → CString) : MessageDispatch n → List (Step n) → List Message
  | _, [] => []
  | s, .take m :: steps =>
      (if s.handling.isNone then [m] else []) ++ taken subject (s.step subject (.take m)) steps
  | s, i :: steps => taken subject (s.step subject i) steps

/-- An observer stays until it is removed itself. -/
theorem mem_observers_step {e : MessageEvent n} (he : e ∈ s.observers) {i : Step n}
    (hi : i ≠ .removeObserver e.subscriber) : e ∈ (s.step subject i).observers := by
  obtain ⟨q, subscriber, rfl⟩ | ⟨subscriber, rfl⟩ | ⟨hobservers, -⟩ := s.observers_step i
  · exact List.mem_append_left _ he
  · rw [step, removeObserver]
    split
    · next e' hfound =>
        have hsubscriber : e'.subscriber = subscriber := by
          have h := List.find?_some hfound
          exact beq_iff_eq.mp h
        exact (List.mem_erase_of_ne fun heq => hi (by rw [heq, hsubscriber])).mpr he
    · exact he
  · exact hobservers ▸ he

theorem meant_step {e : MessageEvent n} (i : Step n) (steps : List (Step n)) :
    meant subject e s (i :: steps) =
      s.meantBy subject e i ++ meant subject e (s.step subject i) steps := rfl

/-- While it stays, an observer is brought what is decoded and matches. -/
theorem meant_eq {e : MessageEvent n} {steps : List (Step n)} (he : e ∈ s.observers)
    (hstays : .removeObserver e.subscriber ∉ steps) :
    meant subject e s steps = (taken subject s steps).filter (interested subject e) := by
  induction steps generalizing s with
  | nil => rfl
  | cons i steps ih =>
      rw [List.mem_cons, not_or] at hstays
      obtain ⟨hi, hsteps⟩ := hstays
      have hnext := ih (s := s.step subject i) (mem_observers_step he (Ne.symm hi)) hsteps
      cases i with
      | take m =>
          rw [meant_step, taken, hnext, List.filter_append, meantBy]
          refine congrArg (· ++ _) ?_
          by_cases hidle : s.handling.isNone = true
          · rw [if_pos hidle]
            by_cases hm : interested subject e m = true
            · rw [if_pos ⟨hidle, he, hm⟩, List.filter_cons_of_pos hm]
              rfl
            · rw [if_neg fun h => hm h.2.2, List.filter_cons_of_neg hm]
              rfl
          · rw [if_neg hidle, if_neg fun h => hidle h.1]
            rfl
      | addObserver q subscriber => exact hnext
      | removeObserver subscriber => exact hnext
      | observe => exact hnext
      | handled => exact hnext
      | enqueue q => exact hnext
      | pop q => exact hnext
      | run q => exact hnext
      | finish q => exact hnext

theorem meant_append (e : MessageEvent n) (steps more : List (Step n)) :
    meant subject e s (steps ++ more) =
      meant subject e s steps ++ meant subject e (after (step subject) s steps) more := by
  induction steps generalizing s with
  | nil => rfl
  | cons i steps ih =>
      rw [List.cons_append, meant_step, meant_step, ih, List.append_assoc]
      rfl

theorem meant_sublist (e : MessageEvent n) (steps : List (Step n)) :
    List.Sublist (meant subject e s steps) (taken subject s steps) := by
  induction steps generalizing s with
  | nil => exact List.Sublist.refl _
  | cons i steps ih =>
      cases i with
      | take m =>
          rw [meant_step, taken, meantBy]
          refine List.Sublist.append ?_ ih
          split
          · next h => rw [if_pos h.1]
          · exact List.nil_sublist _
      | addObserver q subscriber => exact ih
      | removeObserver subscriber => exact ih
      | observe => exact ih
      | handled => exact ih
      | enqueue q => exact ih
      | pop q => exact ih
      | run q => exact ih
      | finish q => exact ih

/-- The observer is there before the first message is decoded and stays, nothing is misused,
there is room on the ring when its turn comes, and in the end everything has been dispatched;
`delivered` is what was decoded. -/
structure Hears (subject : Nat → CString) (e : MessageEvent n) (delivered : List Message)
    (joining session : List (Step n)) : Prop where
  before : taken subject new joining = []
  joined : e ∈ (after (step subject) new joining).observers
  stays : .removeObserver e.subscriber ∉ session
  during : taken subject (after (step subject) new joining) session = delivered
  safe : (after (step subject) new (joining ++ session)).misused = false
  room : Along (step subject) (Room subject e) new (joining ++ session)
  idle : (after (step subject) new (joining ++ session)).handling = none
  dispatched : (after (step subject) new (joining ++ session)).dueOn e.queue = []

/-- Such an observer is called with everything that matches its subscription. -/
theorem Hears.called {e : MessageEvent n} {delivered : List Message}
    {joining session : List (Step n)} (h : Hears subject e delivered joining session) :
    callsTo e (after (step subject) new (joining ++ session)).called =
      delivered.filter (interested subject e) := by
  have hsound := sound_after subject (joining ++ session)
  have hcalls := hsound.callsTo_called e
  have hheard : callsTo e ((after (step subject) new (joining ++ session)).heard subject) =
      meant subject e new (joining ++ session) := heard_after sound_new addressed_new e _
  have hrefused : ¬ Refused e (after (step subject) new (joining ++ session)) := by
    refine (refused_after sound_new e _).mpr ⟨fun hnew => ?_, h.room⟩
    obtain ⟨m, hm⟩ := hnew
    exact absurd hm List.not_mem_nil
  have hnone : meant subject e new joining = [] :=
    List.sublist_nil.mp (h.before ▸ meant_sublist e joining)
  rw [h.dispatched, ((callsTo_accepted _ e).2).mpr hrefused] at hcalls
  rw [heard, unnotified, h.idle, List.append_nil] at hheard
  rw [show callsTo e [] = [] from rfl, List.append_nil] at hcalls
  rw [hcalls, hheard, meant_append, hnone, List.nil_append, meant_eq h.joined h.stays, h.during]

end MessageDispatch

/-- A subscriber's subscription covers what the router's covers, and what arrives is matched
as what was sent. -/
theorem filter_agree {n : Nat} {subject : Nat → CString} {e : MessageEvent n}
    {sent delivered : List Message} (h : List.Forall₂ Message.Agree sent delivered) :
    List.Forall₂ Message.Agree (sent.filter (covers (subject e.subscriber)))
      (delivered.filter (MessageDispatch.interested subject e)) := by
  refine List.rel_filter (fun m out hm => ?_) h
  show covers (subject e.subscriber) m = true ↔
    Subscriber.isInterested (subject e.subscriber) (.new stringHash out.subjectString) = true
  rw [hm.subject]
  exact Iff.rfl

/-- Every message that the router completes after a client's registration of a subject, and that
the subject matches, ends in a call of an observer of the client for that subject: once, in
the order in which the router completed them, and as its sender built it. What the observer
was called with before that are messages published earlier. -/
theorem published_called (heap heap' : Nat → Nat → UInt8) (keeps : Nat → Bool)
    (earlier : List Traffic.Event) {session : List Traffic.Event} {j : Nat}
    {memory : Nat → Nat → UInt8} {stream : List Sending}
    (h : Along Traffic.step Traffic.Linked .new (earlier ++ .accepted j memory stream :: session))
    (hopen : ∀ reads, .readable j reads true ∉ session) :
    ∃ r since,
      (Bootstrap.run ((earlier ++ .accepted j memory stream :: session).map
        Traffic.Event.seen)).run (.new heap) = (.ok (), r) ∧
      (after Traffic.step .new (earlier ++ .accepted j memory stream :: session)).history =
        (after Traffic.step .new earlier).history ++ .join j :: since ∧
      ∀ reading : List TCPTransport.Event,
        (∀ data ∈ TCPTransport.reads reading, data.length ≤ 1500) →
        (TCPTransport.reads reading).flatten = (r.peer j).sent →
        ∃ t, (TCPTransport.run keeps reading).run (.new heap') = (.ok (), t) ∧
          ∀ {n : Nat} (subject : Nat → CString) (e : MessageEvent n)
            (joining dispatching : List (MessageDispatch.Step n)),
            MessageDispatch.Hears subject e t.delivered joining dispatching →
            ∀ before later, since = before ++ .subscribe j (subject e.subscriber) :: later →
              ∃ old, List.Sublist old (Broker.published before) ∧
                List.Forall₂ Message.Agree
                  (old ++ (Broker.published later).filter (covers (subject e.subscriber)))
                  (MessageDispatch.callsTo e (after (MessageDispatch.step subject) .new
                    (joining ++ dispatching)).called) := by
  obtain ⟨hproper, hcarries⟩ := Traffic.carries_new.along h
  obtain ⟨r, since, hrun, hsince⟩ := Traffic.run_since heap earlier hproper hopen
  refine ⟨r, since, hrun, hsince.history_eq, fun reading hreads hall => ?_⟩
  obtain ⟨t, hread, -, -, hagree⟩ := hsince.delivers heap' keeps hcarries.published hreads
    ((List.append_nil _).trans hall)
  refine ⟨t, hread, fun subject e joining dispatching hhears before later hsplit => ?_⟩
  have hfiltered : List.Forall₂ Message.Agree
      ((Broker.owed covers j [] since).filter (covers (subject e.subscriber)))
      (t.delivered.filter (MessageDispatch.interested subject e)) := filter_agree (hagree rfl)
  rw [hhears.called]
  refine ⟨(Broker.owed covers j [] before).filter (covers (subject e.subscriber)),
    List.filter_sublist.trans (Broker.owed_sublist _ _), ?_⟩
  have hmem : subject e.subscriber ∈
      Broker.subscribed j [] before ++ [subject e.subscriber] :=
    List.mem_append_right _ (List.mem_singleton_self _)
  have howed : (Broker.owed covers j [] since).filter (covers (subject e.subscriber)) =
      (Broker.owed covers j [] before).filter (covers (subject e.subscriber)) ++
        (Broker.published later).filter (covers (subject e.subscriber)) := by
    rw [hsplit, Broker.owed_append, List.filter_append, Broker.owed, if_pos rfl,
      Broker.filter_owed hmem]
  exact howed ▸ hfiltered

/-- The subscriber of the meeting, with any observers. -/
theorem published_called_meeting :
    ∃ r since,
      (Bootstrap.run (meeting.map Traffic.Event.seen)).run (.new fun _ _ => 0) = (.ok (), r) ∧
      (after Traffic.step .new meeting).history = .join 2 :: since ∧
      ∀ reading : List TCPTransport.Event,
        (∀ data ∈ TCPTransport.reads reading, data.length ≤ 1500) →
        (TCPTransport.reads reading).flatten = (r.peer 2).sent →
        ∃ t, (TCPTransport.run (fun _ => true) reading).run (.new fun _ _ => 5) = (.ok (), t) ∧
          ∀ {n : Nat} (subject : Nat → CString) (e : MessageEvent n)
            (joining dispatching : List (MessageDispatch.Step n)),
            MessageDispatch.Hears subject e t.delivered joining dispatching →
            ∀ before later, since = before ++ .subscribe 2 (subject e.subscriber) :: later →
              ∃ old, List.Sublist old (Broker.published before) ∧
                List.Forall₂ Message.Agree
                  (old ++ (Broker.published later).filter (covers (subject e.subscriber)))
                  (MessageDispatch.callsTo e (after (MessageDispatch.step subject) .new
                    (joining ++ dispatching)).called) := by
  refine published_called _ _ _ [] meeting_linked fun reads hmem => ?_
  simp at hmem

end Fastpath
